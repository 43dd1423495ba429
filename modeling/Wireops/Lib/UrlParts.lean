import Wireops.Lib.Urls

/-!
# URLs with all their parts

A URL as Go's `net/url` keeps it, how it is read and how it is written. A URL that was
read with a host, written and read again has the scheme, the user, the host and the path
that it had.
-/

namespace Wireops.Lib.UrlParts

open Option List Lib.Octets Lib.Urls

structure Userinfo where
  username : Bytes
  password : Option Bytes

structure Url where
  scheme : Bytes := []
  opaqueData : Bytes := []
  user : Option Userinfo := none
  host : Bytes := []
  path : Bytes := []
  rawPath : Bytes := []
  omitHost : Bool := false
  forceQuery : Bool := false
  rawQuery : Bytes := []
  fragment : Bytes := []
  rawFragment : Bytes := []

inductive Part where
  | path
  | userPassword
  | host
  | fragment

def Part.shouldEscape (part : Part) (b : UInt8) : Bool :=
  match part with
  | .host => Urls.shouldEscape b
  | .path => !(isAlpha b || isDigit b || (text "-_.~$&+,/:;=@").contains b)
  | .userPassword => !(isAlpha b || isDigit b || (text "-_.~$&+,;=").contains b)
  | .fragment => !(isAlpha b || isDigit b || (text "-_.~$&+,/:;=?@!()*").contains b)

def hexDigit (n : UInt8) : UInt8 := if n < 10 then 48 + n else 55 + n

def escapeByte (part : Part) (b : UInt8) : Bytes :=
  if part.shouldEscape b then [byte '%', hexDigit (b / 16), hexDigit (b % 16)] else [b]

def escape (part : Part) (s : Bytes) : Bytes := s.flatMap (escapeByte part)

def validEncoded (part : Part) (s : Bytes) : Bool :=
  s.all (fun b => (text "!$&'()*+,;=:@[]%").contains b || !part.shouldEscape b)

def parseUserinfo (userinfo : Bytes) : Option Userinfo :=
  if !validUserinfo userinfo then none
  else if byte ':' ∈ userinfo then do
    let username ← unescape .other (userinfo.takeWhile (· ≠ byte ':'))
    let password ← unescape .other (userinfo.dropWhile (· ≠ byte ':')).tail
    some ⟨username, some password⟩
  else do
    let username ← unescape .other userinfo
    some ⟨username, none⟩

def parseAuthority (scheme authority : Bytes) : Option (Option Userinfo × Bytes) :=
  match cutLast (byte '@') authority with
  | none => (parseHost scheme authority).map (fun host => (none, host))
  | some (userinfo, host) => do
    let host ← parseHost scheme host
    let user ← parseUserinfo userinfo
    some (some user, host)

variable (u : Url)

def setPath (p : Bytes) : Option Url := do
  let path ← unescape .other p
  some { u with path, rawPath := if escape .path path = p then [] else p }

def setFragment (f : Bytes) : Option Url := do
  let fragment ← unescape .other f
  some { u with fragment, rawFragment := if escape .fragment fragment = f then [] else f }

def parseHere (raw : Bytes) : Option Url :=
  if raw.any isControl then none
  else if raw = [byte '*'] then some { path := [byte '*'] }
  else
    match getScheme raw with
    | none => none
    | some (scheme, rest) =>
      let scheme := scheme.map lowerByte
      let query := rest.dropWhile (· ≠ byte '?')
      let rest := rest.takeWhile (· ≠ byte '?')
      let u : Url := { scheme, forceQuery := query = [byte '?'], rawQuery := query.tail }
      if rest.head? ≠ some (byte '/') then
        if scheme ≠ [] then some { u with opaqueData := rest }
        else if byte ':' ∈ rest.takeWhile (· ≠ byte '/') then none
        else setPath u rest
      else if (scheme ≠ [] ∨ ¬ (text "///").isPrefixOf rest) ∧ (text "//").isPrefixOf rest then do
        let (user, host) ← parseAuthority scheme ((rest.drop 2).takeWhile (· ≠ byte '/'))
        setPath { u with user, host } ((rest.drop 2).dropWhile (· ≠ byte '/'))
      else setPath { u with omitHost := scheme ≠ [] } rest

def parse (raw : Bytes) : Option Url := do
  let u ← parseHere (raw.takeWhile (· ≠ byte '#'))
  let frag := (raw.dropWhile (· ≠ byte '#')).tail
  if frag = [] then some u else setFragment u frag

def Userinfo.toText (u : Userinfo) : Bytes :=
  match u.password with
  | none => escape .userPassword u.username
  | some password => escape .userPassword u.username ++ byte ':' :: escape .userPassword password

def Url.escapedPath : Bytes :=
  if u.rawPath ≠ [] ∧ validEncoded .path u.rawPath = true ∧ unescape .other u.rawPath = some u.path then
    u.rawPath
  else if u.path = [byte '*'] then [byte '*']
  else escape .path u.path

def Url.escapedFragment : Bytes :=
  if u.rawFragment ≠ [] ∧ validEncoded .fragment u.rawFragment = true ∧
      unescape .other u.rawFragment = some u.fragment then
    u.rawFragment
  else escape .fragment u.fragment

def Url.authority : Bytes :=
  if u.scheme = [] ∧ u.host = [] ∧ u.user = none then []
  else if u.omitHost = true ∧ u.host = [] ∧ u.user = none then []
  else
    (if u.host ≠ [] ∨ u.path ≠ [] ∨ u.user ≠ none then text "//" else []) ++
    (match u.user with
      | none => []
      | some user => user.toText ++ [byte '@']) ++
    escape .host u.host

def Url.front : Bytes :=
  let start := if u.scheme = [] then [] else u.scheme ++ [byte ':']
  if u.opaqueData ≠ [] then start ++ u.opaqueData
  else
    let start := start ++ u.authority
    let path := u.escapedPath
    let start := if path ≠ [] ∧ path.head? ≠ some (byte '/') ∧ u.host ≠ [] then start ++ [byte '/'] else start
    let start :=
      if start = [] ∧ byte ':' ∈ path.takeWhile (· ≠ byte '/') then text "./" else start
    start ++ path

def Url.toText : Bytes :=
  u.front ++ (if u.forceQuery ∨ u.rawQuery ≠ [] then byte '?' :: u.rawQuery else []) ++
  (if u.fragment ≠ [] then byte '#' :: u.escapedFragment else [])

section Escape

variable {part : Part} {b c : UInt8} {s x y : Bytes}

def digitsHold (b : UInt8) : Bool :=
  isHex (hexDigit (b / 16)) && isHex (hexDigit (b % 16)) &&
    unhex (hexDigit (b / 16)) * 16 + unhex (hexDigit (b % 16)) = b

theorem digits_hold (b : UInt8) : (isHex (hexDigit (b / 16)) = true ∧ isHex (hexDigit (b % 16)) = true) ∧
    unhex (hexDigit (b / 16)) * 16 + unhex (hexDigit (b % 16)) = b := by
  have h := forall_byte digitsHold (by decide +kernel) b
  simpa [digitsHold] using h

theorem shouldEscape_percent : part.shouldEscape (byte '%') = true := by
  cases part <;> decide

theorem escapeByte_cases (part : Part) (b : UInt8) :
    (part.shouldEscape b = true ∧ escapeByte part b = [byte '%', hexDigit (b / 16), hexDigit (b % 16)]) ∨
      (part.shouldEscape b = false ∧ escapeByte part b = [b]) := by
  unfold escapeByte
  cases part.shouldEscape b
  · exact .inr ⟨rfl, rfl⟩
  · exact .inl ⟨rfl, rfl⟩

theorem escape_cons : escape part (b :: s) = escapeByte part b ++ escape part s := flatMap_cons

theorem escape_eq_nil (h : escape part s = []) : s = [] := by
  cases s with
  | nil => rfl
  | cons b s =>
    rw [escape_cons] at h
    obtain ⟨-, hb⟩ | ⟨-, hb⟩ := escapeByte_cases part b
    · rw [hb] at h
      cases h
    · rw [hb] at h
      cases h

theorem ne_of_escaped (hhex : isHex c = false) (hc : c ≠ byte '%') (b : UInt8) :
    c ∉ [byte '%', hexDigit (b / 16), hexDigit (b % 16)] := by
  obtain ⟨⟨hhi, hlo⟩, -⟩ := digits_hold b
  simp only [mem_cons, not_mem_nil, or_false, not_or]
  refine ⟨hc, ?_, ?_⟩
  · rintro rfl
    rw [hhi] at hhex
    cases hhex
  · rintro rfl
    rw [hlo] at hhex
    cases hhex

theorem notMem_escape (hhex : isHex c = false) (hc : c ≠ byte '%') (hescape : part.shouldEscape c = true) :
    c ∉ escape part s := by
  intro hmem
  obtain ⟨b, -, hb⟩ := mem_flatMap.mp hmem
  obtain ⟨-, heq⟩ | ⟨hnot, heq⟩ := escapeByte_cases part b
  · rw [heq] at hb
    exact ne_of_escaped hhex hc b hb
  · rw [heq, mem_singleton] at hb
    rw [← hb, hescape] at hnot
    cases hnot

theorem isHex_of_mem_tail (h : c ∈ (escapeByte part b).tail) : isHex c = true := by
  obtain ⟨⟨hhi, hlo⟩, -⟩ := digits_hold b
  obtain ⟨-, heq⟩ | ⟨-, heq⟩ := escapeByte_cases part b
  · rw [heq, tail_cons, mem_cons, mem_singleton] at h
    rcases h with rfl | rfl
    · exact hhi
    · exact hlo
  · rw [heq] at h
    cases h

theorem escape_append_cases (h : escape part s = x ++ y) :
    (∃ a b, s = a ++ b ∧ x = escape part a ∧ y = escape part b) ∨ ∃ d z, y = d :: z ∧ isHex d = true := by
  induction s generalizing x with
  | nil =>
    obtain ⟨rfl, rfl⟩ := append_eq_nil_iff.mp h.symm
    exact .inl ⟨[], [], rfl, rfl, rfl⟩
  | cons b s ih =>
    rcases append_eq_append_iff.mp h with ⟨x', rfl, hs⟩ | ⟨y', hb, rfl⟩
    · obtain ⟨a, a', rfl, rfl, rfl⟩ | hdigit := ih hs
      · exact .inl ⟨b :: a, a', rfl, escape_cons.symm, rfl⟩
      · exact .inr hdigit
    -- The cut is in front of what stands for `b`, behind it, or within.
    · cases x with
      | nil => exact .inl ⟨[], b :: s, rfl, rfl, by rw [escape_cons, hb]; rfl⟩
      | cons p x =>
        cases y' with
        | nil =>
          refine .inl ⟨[b], s, rfl, ?_, rfl⟩
          rw [escape_cons, hb, append_nil]
          exact (append_nil _).symm
        | cons d z =>
          refine .inr ⟨d, z ++ escape part s, rfl, ?_⟩
          apply @isHex_of_mem_tail part b
          rw [hb]
          exact mem_append_right _ mem_cons_self

theorem escape_split (hhex : isHex c = false) (hc : c ≠ byte '%') (h : escape part s = x ++ c :: y) :
    ∃ a b, s = a ++ c :: b ∧ x = escape part a ∧ y = escape part b := by
  obtain ⟨a, b, rfl, rfl, hb⟩ | ⟨d, z, hd, hdigit⟩ := escape_append_cases h
  · cases b with
    | nil => cases hb
    | cons d b =>
      rw [escape_cons] at hb
      obtain ⟨-, heq⟩ | ⟨-, heq⟩ := escapeByte_cases part d
      · rw [heq] at hb
        exact absurd (List.cons.inj hb).1 hc
      · rw [heq] at hb
        obtain ⟨rfl, rfl⟩ := List.cons.inj hb
        exact ⟨a, b, rfl, rfl, rfl⟩
  · rw [← (List.cons.inj hd).1, hhex] at hdigit
    cases hdigit

theorem escape_split_percent (h : escape part s = x ++ byte '%' :: y) :
    ∃ a b, s = a ++ b ∧ x = escape part a ∧ byte '%' :: y = escape part b := by
  refine (escape_append_cases h).resolve_right ?_
  rintro ⟨d, z, hd, hdigit⟩
  rw [← (List.cons.inj hd).1] at hdigit
  exact absurd hdigit (by decide)

variable {mode : Mode} {t : Bytes}

theorem unescape_digits {hi lo : UInt8} (h : unescape mode (byte '%' :: hi :: lo :: s) = some t) :
    ∃ t', unescape mode s = some t' ∧ (unhex hi * 16 + unhex lo) :: t' = t := by
  rw [unescape.eq_def] at h
  dsimp only at h
  exact map_eq_some_iff.mp (ite_none_right_eq_some.mp h).2

theorem unescape_bare (hb : b ≠ byte '%') (h : unescape mode (b :: s) = some t) :
    ∃ t', unescape mode s = some t' ∧ b :: t' = t := by
  rw [unescape.eq_def] at h
  dsimp only at h
  rw [if_neg hb] at h
  exact map_eq_some_iff.mp (ite_none_right_eq_some.mp h).2

theorem unescape_escape (h : unescape mode (escape part s) = some t) : t = s := by
  induction s generalizing t with
  | nil =>
    cases h
    rfl
  | cons b s ih =>
    rw [escape_cons] at h
    obtain ⟨-, heq⟩ | ⟨hnot, heq⟩ := escapeByte_cases part b
    · rw [heq] at h
      obtain ⟨t', ht', rfl⟩ := unescape_digits h
      rw [ih ht', (digits_hold b).2]
    · have hb : b ≠ byte '%' := by
        rintro rfl
        rw [shouldEscape_percent] at hnot
        cases hnot
      rw [heq] at h
      obtain ⟨t', ht', rfl⟩ := unescape_bare hb h
      rw [ih ht']

end Escape

section Authority

variable {scheme h host' : Bytes}

variable {c : UInt8}

theorem cutLast_spec {s a b : Bytes} (h : cutLast c s = some (a, b)) : s = a ++ c :: b := by
  have hc : c ∈ s := (ite_none_right_eq_some.mp h).1
  obtain ⟨front, back, hsplit, hfront⟩ := eq_append_cons_of_mem (mem_reverse.mpr hc)
  have hs : s = back.reverse ++ c :: front.reverse := by
    rw [← reverse_reverse s, hsplit]
    simp
  rw [hs, cutLast_append _ (fun hmem => hfront (mem_reverse.mp hmem))] at h
  cases h
  exact hs

theorem splitAtWord_spec (w s : Bytes) : s = (splitAtWord w s).1 ++ (splitAtWord w s).2 ∧
    ((splitAtWord w s).2 = [] ∨ w <+: (splitAtWord w s).2) := by
  induction s with
  | nil => exact ⟨rfl, .inl rfl⟩
  | cons b s ih =>
    unfold splitAtWord
    split
    · rename_i hpre
      exact ⟨rfl, .inr ( isPrefixOf_iff_prefix.mp hpre)⟩
    · exact ⟨congrArg (b :: ·) ih.1, ih.2⟩

theorem parseLiteral_escape {l : Bytes} (hl : parseLiteral (escape .host h) = some l) : l = h := by
  obtain ⟨hsplit, hword⟩ := splitAtWord_spec (text "%25") (escape .host h)
  obtain ⟨host, hhost, hl⟩ := bind_eq_some_iff.mp hl
  obtain ⟨zone, hzone, hl⟩ := bind_eq_some_iff.mp hl
  obtain ⟨-, hl⟩ := ite_none_right_eq_some.mp hl
  cases hl
  rcases hword with hnil | ⟨rest, hrest⟩
  · rw [hnil] at hsplit hzone
    rw [append_nil] at hsplit
    rw [← hsplit] at hhost
    cases hzone
    rw [unescape_escape hhost, append_nil]
  · rw [← hrest] at hsplit
    obtain ⟨a, b, hab, ha, hb⟩ := escape_split_percent hsplit
    rw [ha] at hhost
    have hzone' : (splitAtWord (text "%25") (escape .host h)).2 = escape .host b := hrest.symm.trans hb
    rw [hzone'] at hzone
    rw [unescape_escape hhost, unescape_escape hzone, hab]

theorem parseHost_escape (hp : parseHost scheme (escape .host h) = some host') : host' = h := by
  unfold parseHost at hp
  split at hp
  · split at hp
    · rename_i hhead
      split at hp
      · cases hp
      rename_i literal port hcut
      obtain ⟨-, hp⟩ := ite_none_right_eq_some.mp hp
      obtain ⟨port', hport, hp⟩ := bind_eq_some_iff.mp hp
      obtain ⟨literal', hliteral, hp⟩ := bind_eq_some_iff.mp hp
      cases hp
      obtain ⟨e, he⟩ := List.head?_eq_some_iff.mp hhead.1
      rw [he, tail_cons] at hcut
      rw [cutLast_spec hcut] at he
      obtain ⟨a, b, rfl, ha, hb⟩ := escape_split (by decide) (by decide) (he.trans (nil_append _).symm)
      obtain rfl := escape_eq_nil ha.symm
      obtain ⟨b₁, b₂, rfl, rfl, rfl⟩ := escape_split (by decide) (by decide) hb.symm
      rw [unescape_escape hport, parseLiteral_escape hliteral]
      rfl
    · cases hp
  · obtain ⟨-, hp⟩ := ite_none_right_eq_some.mp hp
    exact unescape_escape hp

theorem takeWhile_append_ne {a : Bytes} (ha : c ∉ a) (b : Bytes) :
    (a ++ b).takeWhile (· ≠ c) = a ++ b.takeWhile (· ≠ c) := by
  apply takeWhile_append_of_pos
  intro d hd
  exact decide_eq_true (fun hdc => ha (hdc ▸ hd))

theorem dropWhile_append_ne {a : Bytes} (ha : c ∉ a) (b : Bytes) :
    (a ++ b).dropWhile (· ≠ c) = b.dropWhile (· ≠ c) := by
  apply dropWhile_append_of_pos
  intro d hd
  exact decide_eq_true (fun hdc => ha (hdc ▸ hd))

theorem parseUserinfo_toText {u u' : Userinfo} (h : parseUserinfo u.toText = some u') : u' = u := by
  obtain ⟨username, password⟩ := u
  have hcolon : byte ':' ∉ escape .userPassword username :=
    notMem_escape (by decide) (by decide) (by decide)
  obtain ⟨-, h⟩ := ite_none_left_eq_some.mp h
  cases password with
  | none =>
    have htext : Userinfo.toText ⟨username, none⟩ = escape .userPassword username := rfl
    rw [htext, if_neg hcolon] at h
    obtain ⟨name, hname, h⟩ := bind_eq_some_iff.mp h
    cases h
    rw [unescape_escape hname]
  | some password =>
    have htext : Userinfo.toText ⟨username, some password⟩ =
        escape .userPassword username ++ byte ':' :: escape .userPassword password := rfl
    rw [htext, if_pos (by simp), takeWhile_append_ne hcolon, dropWhile_append_ne hcolon] at h
    simp only [ne_eq, not_true_eq_false, decide_false, Bool.false_eq_true, not_false_eq_true,
      takeWhile_cons_of_neg, dropWhile_cons_of_neg, append_nil, tail_cons] at h
    obtain ⟨name, hname, h⟩ := bind_eq_some_iff.mp h
    obtain ⟨word, hword, h⟩ := bind_eq_some_iff.mp h
    cases h
    rw [unescape_escape hname, unescape_escape hword]

def authorityText (user : Option Userinfo) (host : Bytes) : Bytes :=
  (match user with
    | none => []
    | some user => user.toText ++ [byte '@']) ++ escape .host host

theorem parseAuthority_text {user user' : Option Userinfo}
    (hp : parseAuthority scheme (authorityText user h) = some (user', host')) : user' = user ∧ host' = h := by
  have hat : byte '@' ∉ escape .host h := notMem_escape (by decide) (by decide) (by decide)
  unfold parseAuthority at hp
  cases user with
  | none =>
    have htext : authorityText none h = escape .host h := rfl
    rw [htext, cutLast_of_notMem hat] at hp
    obtain ⟨host'', hhost, hp⟩ := map_eq_some_iff.mp hp
    cases hp
    exact ⟨rfl, parseHost_escape hhost⟩
  | some u =>
    have htext : authorityText (some u) h = u.toText ++ byte '@' :: escape .host h := by
      simp [authorityText]
    rw [htext, cutLast_append _ hat] at hp
    obtain ⟨host'', hhost, hp⟩ := bind_eq_some_iff.mp hp
    obtain ⟨u', hu, hp⟩ := bind_eq_some_iff.mp hp
    cases hp
    rw [parseUserinfo_toText hu]
    exact ⟨rfl, parseHost_escape hhost⟩

def isCut (c : UInt8) : Bool := c = byte '/' || c = byte '?' || c = byte '#'

theorem cut_cases (hc : isCut c = true) : (isHex c = false ∧ c ≠ byte '%') ∧
    (c ≠ byte ':' ∧ c ≠ byte '@') ∧ Part.host.shouldEscape c = true ∧ Part.userPassword.shouldEscape c = true := by
  simp only [isCut, Bool.or_eq_true, decide_eq_true_eq] at hc
  rcases hc with (rfl | rfl) | rfl <;> decide

theorem notMem_toText (hc : isCut c = true) (u : Userinfo) : c ∉ u.toText := by
  obtain ⟨⟨hhex, hpercent⟩, ⟨hcolon, -⟩, -, hescape⟩ := cut_cases hc
  have hpart : ∀ s, c ∉ escape .userPassword s := fun s => notMem_escape hhex hpercent hescape
  obtain ⟨username, password⟩ := u
  cases password with
  | none => exact hpart username
  | some password => simp [Userinfo.toText, hpart, hcolon]

theorem notMem_authorityText (hc : isCut c = true) (user : Option Userinfo) : c ∉ authorityText user h := by
  obtain ⟨⟨hhex, hpercent⟩, ⟨-, hat⟩, hescape, -⟩ := cut_cases hc
  have hhost : c ∉ escape .host h := notMem_escape hhex hpercent hescape
  cases user with
  | none => exact hhost
  | some u => simp [authorityText, notMem_toText hc, hat, hhost]

end Authority

section Text

variable {u v : Url}

/-- A URL of the web that was read from a text with an authority. -/
structure Sound (u : Url) : Prop where
  scheme : u.scheme = text "http" ∨ u.scheme = text "https"
  opaqueData : u.opaqueData = []
  host : u.host ≠ []
  path : u.path = [] ∨ u.path.head? = some (byte '/')
  rawPath : u.rawPath = [] ∨ u.rawPath.head? = some (byte '/')

theorem escapedPath_head (hu : Sound u) : u.escapedPath = [] ∨ u.escapedPath.head? = some (byte '/') := by
  unfold Url.escapedPath
  split
  · exact hu.rawPath
  split
  · rename_i hstar
    rcases hu.path with hnil | hhead
    · rw [hnil] at hstar
      cases hstar
    · rw [hstar] at hhead
      exact absurd hhead (by decide)
  · rcases hu.path with hnil | hhead
    · rw [hnil]
      exact .inl rfl
    · obtain ⟨rest, hrest⟩ := List.head?_eq_some_iff.mp hhead
      have hslash : escapeByte .path (byte '/') = [byte '/'] := by decide
      rw [hrest, escape_cons, hslash]
      exact .inr rfl

variable {c : UInt8} {scheme q raw : Bytes}

theorem notMem_escapedPath (hc : c = byte '?' ∨ c = byte '#') : c ∉ u.escapedPath := by
  have hfacts : (isHex c = false ∧ c ≠ byte '%') ∧ Part.path.shouldEscape c = true ∧
      (text "!$&'()*+,;=:@[]%").contains c = false ∧ c ≠ byte '*' := by
    rcases hc with rfl | rfl <;> decide
  obtain ⟨⟨hhex, hpercent⟩, hescape, hother, hstar⟩ := hfacts
  unfold Url.escapedPath
  split
  · rename_i hraw
    intro hmem
    have hvalid := all_eq_true.mp hraw.2.1 c hmem
    rw [hother, hescape] at hvalid
    cases hvalid
  split
  · simpa using hstar
  · exact notMem_escape hhex hpercent hescape

theorem unescape_escapedPath {p : Bytes} (h : unescape .other u.escapedPath = some p) : p = u.path := by
  unfold Url.escapedPath at h
  split at h
  · rename_i hraw
    exact Option.some.inj (h.symm.trans hraw.2.2)
  split at h
  · rename_i hstar
    rw [hstar]
    exact (Option.some.inj h).symm
  · exact unescape_escape h

theorem scheme_ne_nil (hu : Sound u) : u.scheme ≠ [] := by
  rcases hu.scheme with h | h <;> rw [h] <;> decide

theorem front_eq (hu : Sound u) : u.front =
    u.scheme ++ byte ':' :: byte '/' :: byte '/' :: (authorityText u.user u.host ++ u.escapedPath) := by
  have hscheme := scheme_ne_nil hu
  have hauthority : u.authority = byte '/' :: byte '/' :: authorityText u.user u.host := by
    unfold Url.authority
    rw [if_neg (fun h => hscheme h.1), if_neg (fun h => hu.host h.2.1), if_pos (.inl hu.host), append_assoc]
    rfl
  have hhead : ¬ (u.escapedPath ≠ [] ∧ u.escapedPath.head? ≠ some (byte '/') ∧ u.host ≠ []) := by
    rintro ⟨hne, hslash, -⟩
    rcases escapedPath_head hu with h | h
    · exact hne h
    · exact hslash h
  unfold Url.front
  dsimp only
  rw [if_neg hscheme, if_neg (not_not.mpr hu.opaqueData), if_neg hhead, if_neg (by simp), hauthority]
  simp

theorem getScheme_web (h : scheme = text "http" ∨ scheme = text "https") (rest : Bytes) :
    getScheme (scheme ++ byte ':' :: rest) = some (scheme, rest) := by
  rcases h with rfl | rfl <;> rfl

theorem lowerByte_web (h : scheme = text "http" ∨ scheme = text "https") : scheme.map lowerByte = scheme := by
  rcases h with rfl | rfl <;> decide

theorem takeWhile_head (hq : q = [] ∨ q.head? = some c) : q.takeWhile (· ≠ c) = [] := by
  rcases hq with rfl | hq
  · rfl
  · obtain ⟨rest, rfl⟩ := List.head?_eq_some_iff.mp hq
    simp

theorem dropWhile_head (hq : q = [] ∨ q.head? = some c) : q.dropWhile (· ≠ c) = q := by
  rcases hq with rfl | hq
  · rfl
  · obtain ⟨rest, rfl⟩ := List.head?_eq_some_iff.mp hq
    simp

theorem parseHere_authority {auth path : Bytes} (hscheme : scheme = text "http" ∨ scheme = text "https")
    (hslash : byte '/' ∉ auth) (hquestion : byte '?' ∉ auth) (hpath : byte '?' ∉ path)
    (hhead : path = [] ∨ path.head? = some (byte '/')) (hq : q = [] ∨ q.head? = some (byte '?'))
    (h : parseHere (scheme ++ byte ':' :: byte '/' :: byte '/' :: (auth ++ path ++ q)) = some v) :
    ∃ user host, parseAuthority scheme auth = some (user, host) ∧
      setPath { scheme, forceQuery := q = [byte '?'], rawQuery := q.tail, user, host } path = some v := by
  have hmem : byte '?' ∉ byte '/' :: byte '/' :: (auth ++ path) := by
    simp [hquestion, hpath]
    decide
  have hrest : byte '/' :: byte '/' :: (auth ++ path ++ q) = (byte '/' :: byte '/' :: (auth ++ path)) ++ q := rfl
  have htake : (byte '/' :: byte '/' :: (auth ++ path ++ q)).takeWhile (· ≠ byte '?') =
      byte '/' :: byte '/' :: (auth ++ path) := by
    rw [hrest, takeWhile_append_ne hmem, takeWhile_head hq, append_nil]
  have hdrop : (byte '/' :: byte '/' :: (auth ++ path ++ q)).dropWhile (· ≠ byte '?') = q := by
    rw [hrest, dropWhile_append_ne hmem, dropWhile_head hq]
  have hne : scheme ≠ [] := by
    rcases hscheme with rfl | rfl <;> decide
  obtain ⟨-, h⟩ := ite_none_left_eq_some.mp h
  rw [if_neg, getScheme_web hscheme] at h
  · dsimp only at h
    rw [lowerByte_web hscheme, htake, hdrop, if_neg (by simp), if_pos ⟨.inl hne, by simp [text]⟩] at h
    obtain ⟨⟨user, host⟩, hauth, h⟩ := bind_eq_some_iff.mp h
    have hdrop2 : (byte '/' :: byte '/' :: (auth ++ path)).drop 2 = auth ++ path := rfl
    rw [hdrop2, takeWhile_append_ne hslash, takeWhile_head hhead, append_nil] at hauth
    rw [hdrop2, dropWhile_append_ne hslash, dropWhile_head hhead] at h
    exact ⟨user, host, hauth, h⟩
  · rcases hscheme with rfl | rfl
    · intro heq
      cases heq
    · intro heq
      cases heq

theorem parseHere_front (hu : Sound u) (hq : q = [] ∨ q.head? = some (byte '?'))
    (h : parseHere (u.front ++ q) = some v) :
    (v.scheme = u.scheme ∧ v.user = u.user ∧ v.host = u.host ∧ v.path = u.path) ∧ v.rawQuery = q.tail := by
  have htext : u.front ++ q = u.scheme ++ byte ':' :: byte '/' :: byte '/' ::
      (authorityText u.user u.host ++ u.escapedPath ++ q) := by
    rw [front_eq hu]
    simp
  rw [htext] at h
  obtain ⟨user, host, hauth, hset⟩ := parseHere_authority hu.scheme
    (notMem_authorityText (by decide) u.user) (notMem_authorityText (by decide) u.user)
    (notMem_escapedPath (.inl rfl)) (escapedPath_head hu) hq h
  obtain ⟨rfl, rfl⟩ := parseAuthority_text hauth
  obtain ⟨path, hpath, hset⟩ := bind_eq_some_iff.mp hset
  cases hset
  exact ⟨⟨rfl, rfl, rfl, unescape_escapedPath hpath⟩, rfl⟩

theorem parse_cases (h : parse raw = some v) :
    ∃ w fragment rawFragment, parseHere (raw.takeWhile (· ≠ byte '#')) = some w ∧
      v = { w with fragment, rawFragment } := by
  obtain ⟨w, hw, h⟩ := bind_eq_some_iff.mp h
  dsimp only at h
  split at h
  · cases h
    exact ⟨v, v.fragment, v.rawFragment, hw, rfl⟩
  · obtain ⟨fragment, -, h⟩ := bind_eq_some_iff.mp h
    cases h
    exact ⟨w, _, _, hw, rfl⟩

theorem notMem_front (hu : Sound u) : byte '#' ∉ u.front := by
  have hscheme : byte '#' ∉ u.scheme := by
    rcases hu.scheme with h | h <;> rw [h] <;> decide
  have hauth := @notMem_authorityText u.host (byte '#') (by decide) u.user
  have hpath := @notMem_escapedPath u (byte '#') (.inr rfl)
  rw [front_eq hu]
  simp only [mem_append, mem_cons, hscheme, hauth, hpath, or_false, false_or]
  decide

/-- A URL that is written and read again has the same parts. -/
theorem parse_toText (hu : Sound u) (h : parse u.toText = some v) :
    (v.scheme = u.scheme ∧ v.user = u.user ∧ v.host = u.host ∧ v.path = u.path) ∧
      (byte '#' ∉ u.rawQuery → v.rawQuery = u.rawQuery) := by
  obtain ⟨w, fragment, rawFragment, hw, rfl⟩ := parse_cases h
  have hfrag : ∀ f : Bytes, (if u.fragment ≠ [] then byte '#' :: f else []).takeWhile (· ≠ byte '#') = [] := by
    intro f
    apply takeWhile_head
    split
    · exact .inr rfl
    · exact .inl rfl
  rw [Url.toText, append_assoc, takeWhile_append_ne (notMem_front hu)] at hw
  by_cases hquery : u.forceQuery = true ∨ u.rawQuery ≠ []
  · have hmark : ∀ t : Bytes, (byte '?' :: t).takeWhile (· ≠ byte '#') =
        byte '?' :: t.takeWhile (· ≠ byte '#') := fun _ => rfl
    rw [if_pos hquery, cons_append, hmark] at hw
    obtain ⟨hparts, htail⟩ := parseHere_front hu (.inr rfl) hw
    refine ⟨hparts, fun hhash => ?_⟩
    rw [tail_cons, takeWhile_append_ne hhash, hfrag, append_nil] at htail
    exact htail
  · rw [if_neg hquery, nil_append, hfrag] at hw
    obtain ⟨hparts, htail⟩ := parseHere_front hu (.inl rfl) hw
    refine ⟨hparts, fun _ => ?_⟩
    rw [not_or, not_not] at hquery
    exact htail.trans hquery.2.symm

theorem infix_tail_dropWhile (p : UInt8 → Bool) (s : Bytes) : (s.dropWhile p).tail <:+: s :=
  ((tail_suffix _).trans (dropWhile_suffix p)).isInfix

theorem getScheme_rest {rest : Bytes} (h : getScheme raw = some (scheme, rest)) : rest <:+: raw := by
  unfold getScheme at h
  split at h
  · cases h
    exact infix_refl _
  · rename_i c tail hdrop
    have htail : tail <:+: raw := by
      have hinfix := infix_tail_dropWhile isSchemeByte raw
      rwa [hdrop] at hinfix
    split at h
    · split at h
      · cases h
      · injection h with h
        split at h
        · cases h
          exact htail
        · cases h
          exact infix_refl _
    · cases h
      exact infix_refl _

theorem dropWhile_cases (c : UInt8) (s : Bytes) :
    s.dropWhile (· ≠ c) = [] ∨ (s.dropWhile (· ≠ c)).head? = some c := by
  induction s with
  | nil => exact .inl rfl
  | cons b s ih =>
    by_cases hb : b = c
    · right
      simp [hb]
    · rw [dropWhile_cons_of_pos (by simpa using hb)]
      exact ih

theorem setPath_cases {w : Url} {p : Bytes} (h : setPath w p = some u) :
    (u.scheme = w.scheme ∧ u.host = w.host ∧ u.opaqueData = w.opaqueData ∧ u.rawQuery = w.rawQuery) ∧
      unescape .other p = some u.path ∧ (u.rawPath = [] ∨ u.rawPath = p) := by
  obtain ⟨path, hpath, h⟩ := bind_eq_some_iff.mp h
  cases h
  refine ⟨⟨rfl, rfl, rfl, rfl⟩, hpath, ?_⟩
  split
  · exact .inl rfl
  · exact .inr rfl

theorem parseHost_of_parseAuthority {authority host : Bytes} {user : Option Userinfo}
    (h : parseAuthority scheme authority = some (user, host)) : ∃ e, parseHost scheme e = some host := by
  unfold parseAuthority at h
  split at h
  · obtain ⟨host', hhost, heq⟩ := map_eq_some_iff.mp h
    cases heq
    exact ⟨_, hhost⟩
  · obtain ⟨host', hhost, h⟩ := bind_eq_some_iff.mp h
    obtain ⟨user', -, heq⟩ := bind_eq_some_iff.mp h
    cases heq
    exact ⟨_, hhost⟩

theorem parseHere_host (h : parseHere raw = some u) (hhost : u.host ≠ []) :
    (∃ e, parseHost u.scheme e = some u.host) ∧ u.opaqueData = [] ∧
      (∃ p, (p = [] ∨ p.head? = some (byte '/')) ∧ unescape .other p = some u.path ∧
        (u.rawPath = [] ∨ u.rawPath = p)) ∧ u.rawQuery <:+: raw := by
  obtain ⟨-, h⟩ := ite_none_left_eq_some.mp h
  split at h
  · cases h
    exact absurd rfl hhost
  split at h
  · cases h
  rename_i scheme rest hscheme
  have hquery : (rest.dropWhile (· ≠ byte '?')).tail <:+: raw :=
    (infix_tail_dropWhile _ rest).trans (getScheme_rest hscheme)
  dsimp only at h
  split at h
  · split at h
    · cases h
      exact absurd rfl hhost
    · obtain ⟨-, h⟩ := ite_none_left_eq_some.mp h
      exact absurd (setPath_cases h).1.2.1 hhost
  split at h
  · -- Only here is there a host.
    obtain ⟨⟨user, host⟩, hauth, h⟩ := bind_eq_some_iff.mp h
    obtain ⟨⟨hs, hh, hdata, hq⟩, hpath, hraw⟩ := setPath_cases h
    rw [hs, hh, hdata, hq]
    exact ⟨parseHost_of_parseAuthority hauth, rfl, ⟨_, dropWhile_cases _ _, hpath, hraw⟩, hquery⟩
  · exact absurd (setPath_cases h).1.2.1 hhost

theorem sound_of_parse (h : parse raw = some u)
    (hscheme : u.scheme = text "http" ∨ u.scheme = text "https") (hhost : u.host ≠ []) :
    Sound u ∧ byte '#' ∉ u.rawQuery ∧ ∃ e, parseHost u.scheme e = some u.host := by
  obtain ⟨w, fragment, rawFragment, hw, rfl⟩ := parse_cases h
  obtain ⟨hparse, hdata, ⟨p, hp, hpath, hraw⟩, hquery⟩ := parseHere_host hw hhost
  refine ⟨⟨hscheme, hdata, hhost, ?_, ?_⟩, ?_, hparse⟩
  · rcases hp with rfl | hp
    · exact .inl (Option.some.inj hpath).symm
    · obtain ⟨rest, rfl⟩ := List.head?_eq_some_iff.mp hp
      obtain ⟨t, -, ht⟩ := unescape_bare (by decide) hpath
      right
      exact ht ▸ rfl
  · rcases hraw with hraw | hraw
    · exact .inl hraw
    · rw [← hraw] at hp
      exact hp
  · intro hmem
    have htake := hquery.subset hmem
    exact absurd (mem_takeWhile_imp htake) (by simp)

end Text

section Requests

variable {u v : Url} {scheme e h : Bytes}

def hasPort (host : Bytes) : Bool := (host.reverse.takeWhile (· ≠ byte ']')).contains (byte ':')

def removeEmptyPort (host : Bytes) : Bytes :=
  if hasPort host ∧ host.getLast? = some (byte ':') then host.dropLast else host

def newRequest (endpoint : Bytes) : Option Url :=
  (parse endpoint).map (fun u => { u with host := removeEmptyPort u.host })

theorem unhex_lt {b : UInt8} (hb : isHex b = true) : unhex b < 16 := by
  have hall := forall_byte (fun b => !isHex b || unhex b < 16) (by decide +kernel) b
  simpa [hb] using hall

theorem takes_host {hi lo : UInt8} (hhi : isHex hi = true) (hlo : isHex lo = true)
    (htakes : Mode.host.takes hi lo = true) : unhex hi * 16 + unhex lo ≠ byte ':' := by
  simp only [Mode.takes, Bool.or_eq_true, Bool.and_eq_true, decide_eq_true_eq] at htakes
  rcases htakes with hlarge | ⟨rfl, rfl⟩
  · have hx := UInt8.lt_iff_toNat_lt.mp (unhex_lt hhi)
    have hy := UInt8.lt_iff_toNat_lt.mp (unhex_lt hlo)
    have hz := UInt8.le_iff_toNat_le.mp hlarge
    intro heq
    have hnat := congrArg UInt8.toNat heq
    have hcolon : (byte ':').toNat = 58 := by decide
    rw [UInt8.toNat_add, UInt8.toNat_mul, hcolon] at hnat
    have h16 : (16 : UInt8).toNat = 16 := by decide
    have h8 : (8 : UInt8).toNat = 8 := by decide
    rw [h16] at hx hy hnat
    omega
  · decide

theorem count_unescape (hp : unescape .host e = some h) : h.count (byte ':') ≤ e.count (byte ':') := by
  fun_induction unescape Mode.host e generalizing h with
  | case1 =>
    cases hp
    exact Nat.le_refl _
  | case2 hi lo s hhex ih =>
    obtain ⟨t, ht, rfl⟩ := map_eq_some_iff.mp hp
    simp only [Bool.and_eq_true] at hhex
    have hne := takes_host hhex.1.1 hhex.1.2 hhex.2
    have hle := ih ht
    rw [count_cons_of_ne hne, count_cons, count_cons, count_cons]
    omega
  | case3 | case4 | case6 => cases hp
  | case5 b s hb hbare ih =>
    obtain ⟨t, ht, rfl⟩ := map_eq_some_iff.mp hp
    have hle := ih ht
    rw [count_cons, count_cons]
    omega

theorem count_validOptionalPort (hp : validOptionalPort e = true) : e.count (byte ':') ≤ 1 := by
  cases e with
  | nil => exact Nat.zero_le _
  | cons c digits =>
    simp only [validOptionalPort, Bool.and_eq_true] at hp
    have hdigits : digits.count (byte ':') = 0 := by
      apply count_eq_zero_of_not_mem
      intro hmem
      exact absurd (all_eq_true.mp hp.2 _ hmem) (by decide)
    rw [count_cons, hdigits]
    split <;> omega

theorem two_le_count (hp : [byte ':', byte ':'] <:+ h) : 2 ≤ h.count (byte ':') := by
  have hle := hp.sublist.count_le (byte ':')
  simpa using hle

theorem count_dropWhile_colon (e : Bytes) : (e.dropWhile (· ≠ byte ':')).count (byte ':') = e.count (byte ':') := by
  have htake : (e.takeWhile (· ≠ byte ':')).count (byte ':') = 0 := by
    apply count_eq_zero_of_not_mem
    intro hmem
    exact absurd (mem_takeWhile_imp hmem) (by simp)
  have hsplit : (e.takeWhile (· ≠ byte ':') ++ e.dropWhile (· ≠ byte ':')).count (byte ':') =
      (e.takeWhile (· ≠ byte ':')).count (byte ':') + (e.dropWhile (· ≠ byte ':')).count (byte ':') :=
    count_append ..
  rw [takeWhile_append_dropWhile, htake] at hsplit
  omega

theorem parseHost_colons (hweb : scheme = text "http" ∨ scheme = text "https")
    (hp : parseHost scheme e = some h) : ¬ [byte ':', byte ':'] <:+ h := by
  intro hsuffix
  unfold parseHost at hp
  split at hp
  · -- Behind the bracket there is no more than a port.
    obtain ⟨-, hp⟩ := ite_none_right_eq_some.mp hp
    split at hp
    · cases hp
    rename_i literal port hcut
    obtain ⟨hvalid, hp⟩ := ite_none_right_eq_some.mp hp
    obtain ⟨port', hport, hp⟩ := bind_eq_some_iff.mp hp
    obtain ⟨literal', -, hp⟩ := bind_eq_some_iff.mp hp
    cases hp
    have hcount := Nat.le_trans (count_unescape hport) (count_validOptionalPort hvalid)
    have hbracket : byte ']' :: port' <:+ byte '[' :: literal' ++ byte ']' :: port' := suffix_append ..
    rcases suffix_or_suffix_of_suffix hsuffix hbracket with hshort | hlong
    · rcases suffix_cons_iff.mp hshort with heq | hshort
      · exact absurd (List.cons.inj heq).1 (by decide)
      · have htwo := two_le_count hshort
        omega
    · exact absurd (hlong.subset mem_cons_self) (by decide)
  · obtain ⟨hvalid, hp⟩ := ite_none_right_eq_some.mp hp
    have hport : colonPort scheme e = e.dropWhile (· ≠ byte ':') := by
      refine if_neg ?_
      rcases hweb with rfl | rfl <;> decide
    rw [hport] at hvalid
    have hcount := count_unescape hp
    have hdrop := count_validOptionalPort hvalid
    rw [count_dropWhile_colon] at hdrop
    have htwo := two_le_count hsuffix
    omega

theorem removeEmptyPort_idem (hp : ¬ [byte ':', byte ':'] <:+ h) :
    removeEmptyPort (removeEmptyPort h) = removeEmptyPort h := by
  by_cases hcond : hasPort h = true ∧ h.getLast? = some (byte ':')
  · have hlast : h.dropLast.getLast? ≠ some (byte ':') := by
      intro hlast
      obtain ⟨init, hinit⟩ := List.getLast?_eq_some_iff.mp hcond.2
      rw [hinit, dropLast_concat] at hlast
      obtain ⟨init', rfl⟩ := List.getLast?_eq_some_iff.mp hlast
      apply hp
      rw [hinit, append_assoc]
      exact suffix_append ..
    have hdrop : removeEmptyPort h = h.dropLast := if_pos hcond
    rw [hdrop]
    exact if_neg (fun h => hlast h.2)
  · have hself : removeEmptyPort h = h := if_neg hcond
    rw [hself, hself]

theorem removeEmptyPort_nil : removeEmptyPort [] = [] := rfl

theorem newRequest_sound {endpoint : Bytes} (hu : newRequest endpoint = some u)
    (hscheme : u.scheme = text "http" ∨ u.scheme = text "https") (hhost : u.host ≠ []) :
    Sound u ∧ byte '#' ∉ u.rawQuery ∧ removeEmptyPort u.host = u.host := by
  obtain ⟨w, hw, rfl⟩ := map_eq_some_iff.mp hu
  have hne : w.host ≠ [] := by
    intro hnil
    apply hhost
    rw [hnil, removeEmptyPort_nil]
  obtain ⟨hsound, hquery, e, he⟩ := sound_of_parse hw hscheme hne
  exact ⟨⟨hsound.scheme, hsound.opaqueData, hhost, hsound.path, hsound.rawPath⟩, hquery,
    removeEmptyPort_idem (parseHost_colons hscheme he)⟩

theorem newRequest_toText (hu : Sound u) (hv : newRequest u.toText = some v) :
    (v.scheme = u.scheme ∧ v.user = u.user ∧ v.host = removeEmptyPort u.host ∧ v.path = u.path) ∧
      (byte '#' ∉ u.rawQuery → v.rawQuery = u.rawQuery) := by
  obtain ⟨w, hw, rfl⟩ := map_eq_some_iff.mp hv
  obtain ⟨⟨hscheme, huser, hhost, hpath⟩, hquery⟩ := parse_toText hu hw
  exact ⟨⟨hscheme, huser, congrArg removeEmptyPort hhost, hpath⟩, hquery⟩

end Requests

end Wireops.Lib.UrlParts
