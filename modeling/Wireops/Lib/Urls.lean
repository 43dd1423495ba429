import Mathlib.Data.List.Infix
import Mathlib.Data.List.TakeWhile
import Wireops.Lib.Octets

/-!
# Hosts of URLs

What the host of a URL is, or that the text is none, as Go's `net/url` has it: the
scheme, the authority with its user information, the escapes of the host, an IPv6
literal in brackets, the port.
-/

namespace Wireops.Lib.Urls

open List Lib.Octets

def isAlpha (b : UInt8) : Bool := (65 ≤ b && b ≤ 90) || (97 ≤ b && b ≤ 122)

def isDigit (b : UInt8) : Bool := 48 ≤ b && b ≤ 57

def isHex (b : UInt8) : Bool := isDigit b || (65 ≤ b && b ≤ 70) || (97 ≤ b && b ≤ 102)

def unhex (b : UInt8) : UInt8 :=
  if isDigit b then b - 48 else if 97 ≤ b then b - 97 + 10 else b - 65 + 10

def lowerByte (b : UInt8) : UInt8 := if 65 ≤ b ∧ b ≤ 90 then b + 32 else b

def cutLast (c : UInt8) (s : Bytes) : Option (Bytes × Bytes) :=
  if c ∈ s then
    some ((s.reverse.dropWhile (· ≠ c)).tail.reverse, (s.reverse.takeWhile (· ≠ c)).reverse)
  else none

def splitAtWord (w : Bytes) : Bytes → Bytes × Bytes
  | [] => ([], [])
  | b :: s =>
    if w.isPrefixOf (b :: s) then ([], b :: s)
    else (b :: (splitAtWord w s).1, (splitAtWord w s).2)

/-- What is escaped: a host, the zone of a literal, or another part, of which only the
form of the escapes is checked. -/
inductive Mode where
  | host
  | zone
  | other
  deriving DecidableEq

def shouldEscape (b : UInt8) : Bool :=
  !(isAlpha b || isDigit b || (text "!$&'()*+,;=:[]<>\"-_.~").contains b)

def Mode.takes (mode : Mode) (h l : UInt8) : Bool :=
  match mode with
  | .host => 8 ≤ unhex h || (h = byte '2' && l = byte '5')
  | .zone =>
    let v := unhex h * 16 + unhex l
    (h = byte '2' && l = byte '5') || v = byte ' ' || !shouldEscape v
  | .other => true

def Mode.bare (mode : Mode) (b : UInt8) : Bool := mode = .other || 128 ≤ b || !shouldEscape b

def unescape (mode : Mode) : Bytes → Option Bytes
  | [] => some []
  | b :: s =>
    if b = byte '%' then
      match s with
      | h :: l :: s =>
        if isHex h && isHex l && mode.takes h l then
          (unescape mode s).map (fun t => (unhex h * 16 + unhex l) :: t)
        else none
      | _ => none
    else if mode.bare b then (unescape mode s).map (fun t => b :: t)
    else none

def octet (s : Bytes) : Bool :=
  s ≠ [] && s.all isDigit && (s.length = 1 || s.head? ≠ some (byte '0')) &&
    s.foldl (fun n b => n * 10 + (b.toNat - 48)) 0 ≤ 255

def isIPv4 (s : Bytes) : Bool :=
  (s.splitOn (byte '.')).length = 4 && (s.splitOn (byte '.')).all octet

/-- The address can end here: groups are missing exactly if an ellipsis stands for
them. -/
def ends (left : Nat) (ellipsis : Bool) : Bool := (left ≠ 0) = ellipsis

def groups : Nat → Bool → Bytes → Bool
  | 0, _, _ => false
  | left + 1, ellipsis, s =>
    if (s.takeWhile isHex).length = 0 ∨ 4 < (s.takeWhile isHex).length then false
    else
      match s.dropWhile isHex with
      | [] => ends left ellipsis
      | c :: rest =>
        if c = byte '.' then
          (ellipsis || left = 1) && left ≠ 0 && isIPv4 s && ends (left - 1) ellipsis
        else if c ≠ byte ':' then false
        else
          match rest with
          | [] => false
          | d :: rest =>
            if d = byte ':' then
              !ellipsis && (if rest = [] then ends left true else groups left true rest)
            else groups left ellipsis (d :: rest)

def parseIPv6 (s : Bytes) : Bool :=
  if s.dropWhile (· ≠ byte '%') = [byte '%'] then false
  else
    let address := s.takeWhile (· ≠ byte '%')
    if (text "::").isPrefixOf address then address.drop 2 = [] || groups 8 true (address.drop 2)
    else groups 8 false address

/-- `netip.ParseAddr` takes the text for an IPv6 address. -/
def isIPv6 (s : Bytes) : Bool :=
  match s.find? (fun b => b = byte '.' || b = byte ':' || b = byte '%') with
  | some b => b = byte ':' && parseIPv6 s
  | none => false

def validOptionalPort : Bytes → Bool
  | [] => true
  | c :: digits => c = byte ':' && digits.all isDigit

def parseLiteral (s : Bytes) : Option Bytes := do
  let parts := splitAtWord (text "%25") s
  let host ← unescape .host parts.1
  let zone ← unescape .zone parts.2
  if isIPv6 (host ++ zone) then some (host ++ zone) else none

def colonPort (scheme host : Bytes) : Bytes :=
  if scheme = text "postgres" ∨ scheme = text "postgresql" then
    match cutLast (byte ':') host with
    | some (_, port) => byte ':' :: port
    | none => []
  else host.dropWhile (· ≠ byte ':')

def parseHost (scheme host : Bytes) : Option Bytes :=
  if byte '[' ∈ host then
    if host.head? = some (byte '[') ∧ byte '[' ∉ host.tail then
      match cutLast (byte ']') host.tail with
      | none => none
      | some (literal, port) =>
        if validOptionalPort port then do
          let port ← unescape .host port
          let literal ← parseLiteral literal
          some (byte '[' :: literal ++ byte ']' :: port)
        else none
    else none
  else if validOptionalPort (colonPort scheme host) then unescape .host host
  else none

def validUserinfo (s : Bytes) : Bool :=
  s.all (fun b => isAlpha b || isDigit b || (text "-._:~!$&'()*+,;=%@").contains b)

def parseAuthority (scheme authority : Bytes) : Option Bytes :=
  match cutLast (byte '@') authority with
  | none => parseHost scheme authority
  | some (userinfo, host) => do
    let host ← parseHost scheme host
    if validUserinfo userinfo then do
      let _ ← unescape .other (userinfo.takeWhile (· ≠ byte ':'))
      let _ ← unescape .other (userinfo.dropWhile (· ≠ byte ':')).tail
      some host
    else none

def isSchemeByte (b : UInt8) : Bool :=
  isAlpha b || isDigit b || b = byte '+' || b = byte '-' || b = byte '.'

def getScheme (raw : Bytes) : Option (Bytes × Bytes) :=
  match raw.dropWhile isSchemeByte with
  | [] => some ([], raw)
  | c :: rest =>
    if c = byte ':' then
      match raw.takeWhile isSchemeByte with
      | [] => none
      | b :: name => some (if isAlpha b then (b :: name, rest) else ([], raw))
    else some ([], raw)

def isControl (b : UInt8) : Bool := b < 0x20 || b = 0x7f

def parseHere (raw : Bytes) : Option Bytes :=
  if raw.any isControl then none
  else if raw = [byte '*'] then some []
  else
    match getScheme raw with
    | none => none
    | some (scheme, rest) =>
      let scheme := scheme.map lowerByte
      let rest := rest.takeWhile (· ≠ byte '?')
      if rest.head? ≠ some (byte '/') then
        if scheme ≠ [] then some []
        else if byte ':' ∈ rest.takeWhile (· ≠ byte '/') then none
        else (unescape .other rest).map (fun _ => [])
      else if (scheme ≠ [] ∨ ¬ (text "///").isPrefixOf rest) ∧ (text "//").isPrefixOf rest then do
        let host ← parseAuthority scheme ((rest.drop 2).takeWhile (· ≠ byte '/'))
        let _ ← unescape .other ((rest.drop 2).dropWhile (· ≠ byte '/'))
        some host
      else (unescape .other rest).map (fun _ => [])

def parse (raw : Bytes) : Option Bytes := do
  let host ← parseHere (raw.takeWhile (· ≠ byte '#'))
  let _ ← unescape .other (raw.dropWhile (· ≠ byte '#')).tail
  some host

def splitPort (hostPort : Bytes) : Bytes × Bytes :=
  match cutLast (byte ':') hostPort with
  | some (host, port) => if port.all isDigit then (host, port) else (hostPort, [])
  | none => (hostPort, [])

def unbracket (host : Bytes) : Bytes :=
  if host.head? = some (byte '[') ∧ host.getLast? = some (byte ']') then host.tail.dropLast else host

def splitHostPort (hostPort : Bytes) : Bytes × Bytes :=
  (unbracket (splitPort hostPort).1, (splitPort hostPort).2)

def joinHostPort (host port : Bytes) : Bytes :=
  if byte ':' ∈ host then byte '[' :: host ++ byte ']' :: byte ':' :: port
  else host ++ byte ':' :: port

/-! ## Hosts without escapes

A name or a literal, with or without a port, is read as it is written. -/

section Bytes

variable {b c : UInt8} {s : Bytes}

theorem forall_byte (p : UInt8 → Bool)
    (h : (List.range 256).all (fun n => p (UInt8.ofNat n)) = true) (b : UInt8) : p b = true := by
  have hb := all_eq_true.mp h b.toNat (mem_range.mpr b.toNat_lt)
  rwa [UInt8.ofNat_toNat] at hb

theorem takeWhile_ne (h : c ∉ s) : s.takeWhile (· ≠ c) = s := by
  apply takeWhile_eq_self_iff.mpr
  intro b hb
  exact decide_eq_true (fun hbc => h (hbc ▸ hb))

theorem dropWhile_ne (h : c ∉ s) : s.dropWhile (· ≠ c) = [] := by
  apply dropWhile_eq_nil_iff.mpr
  intro b hb
  exact decide_eq_true (fun hbc => h (hbc ▸ hb))

theorem cutLast_of_notMem (h : c ∉ s) : cutLast c s = none := if_neg h

theorem cutLast_append (a : Bytes) (h : c ∉ s) : cutLast c (a ++ c :: s) = some (a, s) := by
  have hs : ∀ b ∈ s.reverse, decide (b ≠ c) = true := by
    intro b hb
    exact decide_eq_true (fun hbc => h (hbc ▸ mem_reverse.mp hb))
  have hrev : (a ++ c :: s).reverse = s.reverse ++ c :: a.reverse := by simp
  rw [cutLast, if_pos (by simp), hrev, dropWhile_append_of_pos hs,
    takeWhile_append_of_pos hs]
  simp

theorem splitAtWord_of_notMem {w : Bytes} (h : c ∉ s) : splitAtWord (c :: w) s = (s, []) := by
  induction s with
  | nil => rfl
  | cons b s ih =>
    have hbc : ¬ (c :: w).isPrefixOf (b :: s) = true := by
      intro hpre
      rw [ isPrefixOf_iff_prefix, cons_prefix_cons] at hpre
      exact h (hpre.1 ▸ mem_cons_self)
    rw [splitAtWord, if_neg hbc, ih (fun hc => h (mem_cons_of_mem b hc))]

theorem unescape_bare {mode : Mode} (h : ∀ b ∈ s, b ≠ byte '%' ∧ mode.bare b = true) : unescape mode s = some s := by
  induction s with
  | nil => rfl
  | cons b s ih =>
    obtain ⟨hb, hs⟩ := forall_mem_cons.mp h
    rw [unescape.eq_def]
    dsimp only
    rw [if_neg hb.1, if_pos hb.2, ih hs]
    rfl

end Bytes

def isHostByte (b : UInt8) : Bool :=
  isAlpha b || isDigit b || [byte '-', byte '.', byte ':', byte '[', byte ']'].contains b

def isNameByte (b : UInt8) : Bool := isAlpha b || isDigit b || [byte '-', byte '.'].contains b

def isLiteralByte (b : UInt8) : Bool := isHex b || b = byte ':'

def IsPort (port : Bytes) : Prop :=
  port = [] ∨ ∃ digits, digits ≠ [] ∧ digits.all isDigit = true ∧ port = byte ':' :: digits

section Hosts

variable {name x port d : Bytes} {c : UInt8}

def classesHold (b : UInt8) : Bool :=
  (!(isNameByte b || isLiteralByte b || isDigit b) || isHostByte b) &&
    (!isHostByte b || (b < 128 && b != byte '%' && Mode.host.bare b && !isControl b))

theorem classes_hold : ∀ b, classesHold b = true := forall_byte classesHold (by decide +kernel)

theorem isHostByte_of_class (b : UInt8)
    (h : (isNameByte b || isLiteralByte b || isDigit b) = true) : isHostByte b = true := by
  have hb := (Bool.and_eq_true_iff.mp (classes_hold b)).1
  rwa [h] at hb

theorem isHostByte_of_name (b : UInt8) (h : isNameByte b = true) : isHostByte b = true :=
  isHostByte_of_class b (by simp [h])

theorem isHostByte_of_literal (b : UInt8) (h : isLiteralByte b = true) : isHostByte b = true :=
  isHostByte_of_class b (by simp [h])

theorem isHostByte_of_digit (b : UInt8) (h : isDigit b = true) : isHostByte b = true :=
  isHostByte_of_class b (by simp [h])

section

variable (b : UInt8) (h : isHostByte b = true)

include b h

theorem isHostByte_plain : ((b < 128 ∧ b ≠ byte '%') ∧ Mode.host.bare b = true) ∧ isControl b = false := by
  have hb := (Bool.and_eq_true_iff.mp (classes_hold b)).2
  simpa [h] using hb

theorem ascii_of_host : b < 128 :=
  (isHostByte_plain b h).1.1.1

theorem bare_of_host : b ≠ byte '%' ∧ Mode.host.bare b = true :=
  ⟨(isHostByte_plain b h).1.1.2, (isHostByte_plain b h).1.2⟩

theorem control_of_host : isControl b = false :=
  (isHostByte_plain b h).2

end

theorem notMem_of_all {p : UInt8 → Bool} (h : ∀ b ∈ d, p b = true) (hc : p c = false) : c ∉ d := by
  intro hmem
  rw [h c hmem] at hc
  cases hc

theorem IsPort.host (h : IsPort port) : ∀ b ∈ port, isHostByte b = true := by
  rcases h with rfl | ⟨digits, -, hdigits, rfl⟩
  · simp
  · intro b hb
    rcases mem_cons.mp hb with rfl | hb
    · rfl
    · exact isHostByte_of_digit b (all_eq_true.mp hdigits b hb)

theorem IsPort.valid (h : IsPort port) : validOptionalPort port = true := by
  rcases h with rfl | ⟨digits, -, hdigits, rfl⟩
  · rfl
  · rw [validOptionalPort, hdigits]
    rfl

theorem IsPort.notMem (h : IsPort port) (hdigit : isDigit c = false) (hcolon : c ≠ byte ':') : c ∉ port := by
  rcases h with rfl | ⟨digits, -, hdigits, rfl⟩
  · simp
  · rw [mem_cons, not_or]
    exact ⟨hcolon, notMem_of_all (all_eq_true.mp hdigits) hdigit⟩

theorem parseAuthority_of_notMem {scheme : Bytes} (h : byte '@' ∉ d) :
    parseAuthority scheme d = parseHost scheme d := by
  rw [parseAuthority, cutLast_of_notMem h]

theorem parse_slashes (hd : ∀ b ∈ d, isHostByte b = true) : parse (byte '/' :: byte '/' :: d) = parseHost [] d := by
  have hslash : byte '/' ∉ d := notMem_of_all hd rfl
  have hnot : ∀ c, isHostByte c = false → c ≠ byte '/' → c ∉ byte '/' :: byte '/' :: d := by
    intro c hc hne
    rw [mem_cons, mem_cons, not_or, not_or]
    exact ⟨hne, hne, notMem_of_all hd hc⟩
  have hfragment : byte '#' ∉ byte '/' :: byte '/' :: d := hnot _ rfl (by decide)
  have hquery : byte '?' ∉ byte '/' :: byte '/' :: d := hnot _ rfl (by decide)
  have hcontrol : (byte '/' :: byte '/' :: d).any isControl = false := by
    apply any_eq_false.mpr
    intro b hb
    rw [mem_cons, mem_cons] at hb
    rcases hb with rfl | rfl | hb
    · decide
    · decide
    · simp [control_of_host b (hd b hb)]
  have hthree : (text "///").isPrefixOf (byte '/' :: byte '/' :: d) = false := by
    cases d with
    | nil => rfl
    | cons b d =>
      have hb : byte '/' ≠ b := fun h => hslash (h ▸ mem_cons_self)
      simpa [text, List.isPrefixOf] using hb
  have htwo : (text "//").isPrefixOf (byte '/' :: byte '/' :: d) = true := rfl
  have hscheme : getScheme (byte '/' :: byte '/' :: d) = some ([], byte '/' :: byte '/' :: d) := rfl
  have hhost : ∀ m : Option Bytes,
      (do let host ← m; let _ ← unescape .other []; some host) = m := by
    intro m
    cases m with
    | none => rfl
    | some host => rfl
  have hhere : parseHere (byte '/' :: byte '/' :: d) = parseHost [] d := by
    rw [parseHere, hcontrol, if_neg Bool.false_ne_true, if_neg (by simp), hscheme]
    dsimp only
    rw [takeWhile_ne hquery, if_neg (by simp), hthree, htwo, if_pos (by simp)]
    have hdrop : (byte '/' :: byte '/' :: d).drop 2 = d := rfl
    rw [hdrop, takeWhile_ne hslash, dropWhile_ne hslash, parseAuthority_of_notMem (notMem_of_all hd rfl)]
    exact hhost _
  rw [parse, takeWhile_ne hfragment, dropWhile_ne hfragment, hhere]
  exact hhost _

theorem parseHost_name (hname : ∀ b ∈ name, isNameByte b = true) (hport : IsPort port) :
    parseHost [] (name ++ port) = some (name ++ port) := by
  have hhost : ∀ b ∈ name ++ port, b ≠ byte '%' ∧ Mode.host.bare b = true := by
    intro b hb
    apply bare_of_host
    rcases mem_append.mp hb with hb | hb
    · exact isHostByte_of_name b (hname b hb)
    · exact hport.host b hb
  have hopen : byte '[' ∉ name ++ port := by
    rw [mem_append, not_or]
    exact ⟨notMem_of_all hname rfl, hport.notMem rfl (by decide)⟩
  have hcolon : byte ':' ∉ name := notMem_of_all hname rfl
  have hcolonPort : colonPort [] (name ++ port) = port := by
    rw [colonPort, if_neg (by decide), dropWhile_append_of_pos]
    · rcases hport with rfl | ⟨digits, -, -, rfl⟩
      · rfl
      · simp
    · intro b hb
      exact decide_eq_true (fun h => hcolon (h ▸ hb))
  rw [parseHost, if_neg hopen, hcolonPort, hport.valid, if_pos rfl, unescape_bare hhost]

theorem parseHost_literal (hx : ∀ b ∈ x, isLiteralByte b = true) (hport : IsPort port) :
    parseHost [] (byte '[' :: x ++ byte ']' :: port) =
      if isIPv6 x then some (byte '[' :: x ++ byte ']' :: port) else none := by
  have hopen : byte '[' ∉ x ++ byte ']' :: port := by
    rw [mem_append, mem_cons, not_or, not_or]
    exact ⟨notMem_of_all hx rfl, by decide, hport.notMem rfl (by decide)⟩
  have hliteral : parseLiteral x = if isIPv6 x then some x else none := by
    have hbare : unescape .host x = some x :=
      unescape_bare (fun b hb => bare_of_host b (isHostByte_of_literal b (hx b hb)))
    have hsplit : splitAtWord (text "%25") x = (x, []) :=
      splitAtWord_of_notMem (notMem_of_all hx rfl)
    simp only [parseLiteral, hsplit, hbare, unescape, Option.bind_eq_bind, Option.bind_some, append_nil]
  have hport' : unescape .host port = some port :=
    unescape_bare (fun b hb => bare_of_host b (hport.host b hb))
  rw [cons_append, parseHost, if_pos mem_cons_self, tail_cons,
    if_pos ⟨rfl, hopen⟩, cutLast_append x (hport.notMem rfl (by decide))]
  dsimp only
  rw [hport.valid, if_pos rfl, hport', hliteral]
  by_cases hv : isIPv6 x = true
  · rw [if_pos hv, if_pos hv]
    rfl
  · rw [if_neg hv, if_neg hv]
    rfl

theorem unbracket_literal : unbracket (byte '[' :: x ++ [byte ']']) = x := by
  rw [unbracket, if_pos ⟨rfl, List.getLast?_concat⟩]
  simp

theorem splitPort_colon (host : Bytes) {digits : Bytes} (h : digits.all isDigit = true) :
    splitPort (host ++ byte ':' :: digits) = (host, digits) := by
  rw [splitPort, cutLast_append host (notMem_of_all (all_eq_true.mp h) rfl)]
  exact if_pos h

theorem splitPort_concat (host : Bytes) (hdigit : isDigit c = false) (hcolon : c ≠ byte ':') :
    splitPort (host ++ [c]) = (host ++ [c], []) := by
  have hrev : (host ++ [c]).reverse = c :: host.reverse := by simp
  have hnot : ((host ++ [c]).reverse.takeWhile (· ≠ byte ':')).reverse.all isDigit = false := by
    rw [hrev, takeWhile_cons_of_pos (by simpa using hcolon)]
    simp [hdigit]
  rw [splitPort, cutLast]
  by_cases h : byte ':' ∈ host ++ [c]
  · rw [if_pos h]
    dsimp only
    rw [hnot, if_neg Bool.false_ne_true]
  · rw [if_neg h]

theorem splitHostPort_name (hname : ∀ b ∈ name, isNameByte b = true) (hport : IsPort port) :
    splitHostPort (name ++ port) = (name, port.tail) := by
  have hopen : ¬ (name.head? = some (byte '[') ∧ name.getLast? = some (byte ']')) := by
    rintro ⟨h, -⟩
    exact notMem_of_all hname rfl (mem_of_head? h)
  have hsplit : splitPort (name ++ port) = (name, port.tail) := by
    rcases hport with rfl | ⟨digits, -, hdigits, rfl⟩
    · rw [append_nil, splitPort, cutLast_of_notMem (notMem_of_all hname rfl)]
      rfl
    · exact splitPort_colon name hdigits
  rw [splitHostPort, hsplit, unbracket, if_neg hopen]

theorem splitHostPort_literal (hport : IsPort port) :
    splitHostPort (byte '[' :: x ++ byte ']' :: port) = (x, port.tail) := by
  have hsplit : splitPort (byte '[' :: x ++ byte ']' :: port) = (byte '[' :: x ++ [byte ']'], port.tail) := by
    rcases hport with rfl | ⟨digits, -, hdigits, rfl⟩
    · exact splitPort_concat _ rfl (by decide)
    · rw [append_cons]
      exact splitPort_colon _ hdigits
  rw [splitHostPort, hsplit, unbracket_literal]

variable (b : UInt8)

def lowerHolds : Bool :=
  isHex (lowerByte b) == isHex b && lowerByte (lowerByte b) == lowerByte b &&
    isNameByte (lowerByte b) == isNameByte b && (lowerByte b == byte ':') == (b == byte ':')

theorem lowerByte_class : ((isHex (lowerByte b) = isHex b ∧ lowerByte (lowerByte b) = lowerByte b) ∧
      isNameByte (lowerByte b) = isNameByte b) ∧ (lowerByte b == byte ':') = (b == byte ':') := by
  have hb : lowerHolds b = true := forall_byte lowerHolds (by decide +kernel) b
  simpa only [lowerHolds, Bool.and_eq_true, beq_iff_eq] using hb

theorem isHex_lowerByte : isHex (lowerByte b) = isHex b := (lowerByte_class b).1.1.1

theorem lowerByte_lowerByte : lowerByte (lowerByte b) = lowerByte b :=
  (lowerByte_class b).1.1.2

theorem isNameByte_lowerByte : isNameByte (lowerByte b) = isNameByte b :=
  (lowerByte_class b).1.2

theorem lowerByte_beq_colon : (lowerByte b == byte ':') = (b == byte ':') :=
  (lowerByte_class b).2

theorem lowerByte_eq_colon_iff : lowerByte b = byte ':' ↔ b = byte ':' := by
  rw [← beq_iff_eq, lowerByte_beq_colon, beq_iff_eq]

theorem isLiteralByte_lowerByte : isLiteralByte (lowerByte b) = isLiteralByte b := by
  simp only [isLiteralByte, isHex_lowerByte, lowerByte_eq_colon_iff]

theorem takeWhile_isHex_lower (s : Bytes) :
    (s.map lowerByte).takeWhile isHex = (s.takeWhile isHex).map lowerByte := by
  rw [takeWhile_map]
  congr 2
  funext b
  exact isHex_lowerByte b

theorem dropWhile_isHex_lower (s : Bytes) :
    (s.map lowerByte).dropWhile isHex = (s.dropWhile isHex).map lowerByte := by
  rw [dropWhile_map]
  congr 2
  funext b
  exact isHex_lowerByte b

variable {s : Bytes}

theorem groups_lower {left : Nat} {ellipsis : Bool} (hs : ∀ b ∈ s, isLiteralByte b = true) :
    groups left ellipsis (s.map lowerByte) = groups left ellipsis s := by
  induction left generalizing ellipsis s with
  | zero => rfl
  | succ left ih =>
    rw [groups.eq_def, groups.eq_def (left + 1)]
    dsimp only
    rw [takeWhile_isHex_lower, dropWhile_isHex_lower, length_map]
    by_cases hlength : (s.takeWhile isHex).length = 0 ∨ 4 < (s.takeWhile isHex).length
    · rw [if_pos hlength, if_pos hlength]
    rw [if_neg hlength, if_neg hlength]
    have htail : ∀ b ∈ s.dropWhile isHex, isLiteralByte b = true :=
      fun b hb => hs b ((dropWhile_suffix isHex).subset hb)
    generalize s.dropWhile isHex = tail at htail ⊢
    cases tail with
    | nil => rfl
    | cons c rest =>
      obtain ⟨hc, hrest⟩ := forall_mem_cons.mp htail
      have hdot : ∀ b, isLiteralByte b = true → b ≠ byte '.' := by
        rintro b hb rfl
        cases hb
      rw [map_cons]
      dsimp only
      rw [if_neg (hdot c hc), if_neg (hdot _ ((isLiteralByte_lowerByte c).trans hc))]
      by_cases hcolon : c = byte ':'
      · subst hcolon
        rw [if_neg (by decide), if_neg (by decide)]
        cases rest with
        | nil => rfl
        | cons d rest =>
          rw [map_cons]
          dsimp only
          by_cases hd : d = byte ':'
          · rw [if_pos hd, if_pos ((lowerByte_eq_colon_iff d).mpr hd)]
            cases rest with
            | nil => rfl
            | cons e rest =>
              rw [if_neg (cons_ne_nil e rest), if_neg (by simp),
                ih (forall_mem_cons.mp hrest).2]
          · rw [if_neg hd, if_neg (fun h => hd ((lowerByte_eq_colon_iff d).mp h)), ← map_cons, ih hrest]
      · rw [if_pos hcolon, if_pos (fun h => hcolon ((lowerByte_eq_colon_iff c).mp h))]

theorem isIPv6_eq (hs : ∀ b ∈ s, isLiteralByte b = true) : isIPv6 s = (decide (byte ':' ∈ s) && parseIPv6 s) := by
  rw [isIPv6]
  cases hfind : s.find? (fun b => b = byte '.' || b = byte ':' || b = byte '%') with
  | none =>
    have hcolon : byte ':' ∉ s := by
      intro h
      have hnone := List.find?_eq_none.mp hfind _ h
      simp at hnone
    rw [decide_eq_false hcolon, Bool.false_and]
  | some b =>
    have hb : b = byte ':' := by
      have hliteral := hs b (mem_of_find?_eq_some hfind)
      have hmark := List.find?_some hfind
      simp only [Bool.or_eq_true, decide_eq_true_eq] at hmark
      rcases hmark with (rfl | hcolon) | rfl
      · cases hliteral
      · exact hcolon
      · cases hliteral
    have hcolon : byte ':' ∈ s := hb ▸ mem_of_find?_eq_some hfind
    dsimp only
    rw [decide_eq_true hb, decide_eq_true hcolon]

theorem all_lower {p : UInt8 → Bool} (hp : ∀ b, p (lowerByte b) = p b)
    (hs : ∀ b ∈ s, p b = true) : ∀ b ∈ s.map lowerByte, p b = true := by
  intro b hb
  obtain ⟨a, ha, rfl⟩ := mem_map.mp hb
  exact (hp a).trans (hs a ha)

theorem parseIPv6_lower (hs : ∀ b ∈ s, isLiteralByte b = true) : parseIPv6 (s.map lowerByte) = parseIPv6 s := by
  have hlower := all_lower isLiteralByte_lowerByte hs
  have hpre : (text "::").isPrefixOf (s.map lowerByte) = (text "::").isPrefixOf s := by
    have hcolon : ∀ b, (byte ':' == lowerByte b) = (byte ':' == b) := by
      intro b
      rw [BEq.comm, lowerByte_beq_colon, BEq.comm]
    cases s with
    | nil => rfl
    | cons a s =>
      cases s with
      | nil => simp [text, List.isPrefixOf]
      | cons b s => simp [text, List.isPrefixOf, hcolon]
  have hpercent : byte '%' ∉ s := notMem_of_all hs rfl
  have hpercent' : byte '%' ∉ s.map lowerByte := notMem_of_all hlower rfl
  have hdrop : ∀ b ∈ s.drop 2, isLiteralByte b = true := fun b hb => hs b (mem_of_mem_drop hb)
  simp only [parseIPv6, takeWhile_ne hpercent, dropWhile_ne hpercent, takeWhile_ne hpercent',
    dropWhile_ne hpercent', hpre, ← map_drop, map_eq_nil_iff, groups_lower hs,
    groups_lower hdrop]

theorem isIPv6_lower (hs : ∀ b ∈ s, isLiteralByte b = true) : isIPv6 (s.map lowerByte) = isIPv6 s := by
  have hcolon : byte ':' ∈ s.map lowerByte ↔ byte ':' ∈ s := by
    simp [mem_map, lowerByte_eq_colon_iff]
  rw [isIPv6_eq (all_lower isLiteralByte_lowerByte hs), isIPv6_eq hs, parseIPv6_lower hs]
  simp only [hcolon]

end Hosts

end Wireops.Lib.Urls
