import Mathlib.Data.List.Basic
import Mathlib.Data.List.TakeWhile

namespace Wireops.Lib.Strings

open Option List

abbrev Text := List Char

instance : LawfulBEq Text := inferInstanceAs (LawfulBEq (List Char))

def isSpace (c : Char) : Bool :=
  let n := c.toNat
  (9 ≤ n && n ≤ 13) || n = 0x20 || n = 0x85 || n = 0xa0 || n = 0x1680 || (0x2000 ≤ n && n ≤ 0x200a) ||
    n = 0x2028 || n = 0x2029 || n = 0x202f || n = 0x205f || n = 0x3000

def trim (p : Char → Bool) (s : Text) : Text := ((s.dropWhile p).reverse.dropWhile p).reverse

def trimSpace (s : Text) : Text := trim isSpace s

def trimPrefix (pre s : Text) : Text := if pre.isPrefixOf s then s.drop pre.length else s

def before (sep : Char) (s : Text) : Text := s.takeWhile (· ≠ sep)

theorem before_eq_self {sep : Char} {s : Text} (h : sep ∉ s) : before sep s = s := by
  refine takeWhile_eq_self_iff.mpr (fun c hc => decide_eq_true ?_)
  rintro rfl
  exact h hc

theorem notMem_before (sep : Char) (s : Text) : sep ∉ before sep s := by
  intro h
  simpa using mem_takeWhile_imp h

theorem before_eq_iff {sep : Char} {s first : Text} (hs : sep ∈ s) :
    before sep s = first ↔ sep ∉ first ∧ ∃ rest, s = first ++ sep :: rest := by
  constructor
  · rintro rfl
    refine ⟨notMem_before sep s, ?_⟩
    have hsplit : before sep s ++ s.dropWhile (· ≠ sep) = s := takeWhile_append_dropWhile
    cases hd : s.dropWhile (· ≠ sep) with
    | nil =>
      rw [hd, append_nil] at hsplit
      rw [← hsplit] at hs
      exact absurd hs (notMem_before sep s)
    | cons x rest =>
      have hx := List.head?_dropWhile_not (fun c : Char => decide (c ≠ sep)) s
      rw [hd] at hx hsplit
      have hx : x = sep := by simpa using hx
      rw [hx] at hsplit
      exact ⟨rest, hsplit.symm⟩
  · rintro ⟨hsep, rest, rfl⟩
    rw [before, takeWhile_append_of_pos, takeWhile_cons_of_neg (by simp), append_nil]
    intro x hx
    refine decide_eq_true ?_
    rintro rfl
    exact hsep hx

theorem trim_spec (p : Char → Bool) (s : Text) : ∃ l r, s = l ++ trim p s ++ r ∧ ∀ c ∈ l ++ r, p c = true := by
  refine ⟨s.takeWhile p, ((s.dropWhile p).reverse.takeWhile p).reverse, ?_, fun c hc => ?_⟩
  · rw [trim, append_assoc, ← reverse_append, takeWhile_append_dropWhile, reverse_reverse, takeWhile_append_dropWhile]
  · obtain hc | hc := mem_append.mp hc
    · exact mem_takeWhile_imp hc
    · exact mem_takeWhile_imp (mem_reverse.mp hc)

theorem mem_of_mem_trim {p : Char → Bool} {s : Text} {c : Char} (h : c ∈ trim p s) : c ∈ s := by
  obtain ⟨l, r, hs, -⟩ := trim_spec p s
  rw [hs]
  exact mem_append_left _ (mem_append_right _ h)

theorem trim_trim (p : Char → Bool) (s : Text) : trim p (trim p s) = trim p s := by
  have hleft : (trim p s).dropWhile p = trim p s := by
    have hpre : trim p s <+: s.dropWhile p := by
      rw [trim, ← reverse_suffix, reverse_reverse]
      exact dropWhile_suffix p
    cases ht : trim p s with
    | nil => rfl
    | cons c t =>
      refine dropWhile_cons_of_neg ?_
      obtain ⟨rest, hrest⟩ := hpre
      have hhead := List.head?_dropWhile_not p s
      rw [← hrest, ht] at hhead
      simpa using hhead
  rw [trim, hleft]
  unfold trim
  rw [reverse_reverse, dropWhile_eq_self_iff.mpr (dropWhile_get_zero_not p _)]

def afterLast (sep : Char) (s : Text) : Text := (s.reverse.takeWhile (· ≠ sep)).reverse

/-- What stands from the last dot of the last element on. -/
protected def ext (path : Text) : Text :=
  let base := afterLast '/' path
  if base.contains '.' then '.' :: afterLast '.' base else []

/-- `unicode.ToLower`, as far as it leads to the letters a to z: the Kelvin sign and
the dotted capital I do too. -/
def toLower (c : Char) : Char :=
  if c.toNat = 0x212a then 'k' else if c.toNat = 0x130 then 'i' else c.toLower

def cutLast (sep : Char) (s : Text) : Option (Text × Text) :=
  if s.contains sep then some ((s.reverse.dropWhile (· ≠ sep)).tail.reverse, afterLast sep s) else none

def cut (sep : Text) : Text → Option (Text × Text)
  | [] => if sep = [] then some ([], []) else none
  | c :: s =>
    if sep.isPrefixOf (c :: s) then some ([], (c :: s).drop sep.length)
    else (cut sep s).map (fun r => (c :: r.1, r.2))

section Last

variable {sep : Char} {b : Text}

theorem reverse_ne (h : sep ∉ b) : ∀ c ∈ b.reverse, decide (c ≠ sep) = true := by
  intro c hc
  refine decide_eq_true ?_
  rintro rfl
  exact h (mem_reverse.mp hc)

theorem afterLast_append (a : Text) (h : sep ∉ b) : afterLast sep (a ++ sep :: b) = b := by
  have hrev : (a ++ sep :: b).reverse = b.reverse ++ sep :: a.reverse := by simp
  rw [afterLast, hrev, takeWhile_append_of_pos (reverse_ne h), takeWhile_cons_of_neg (by simp),
    append_nil, reverse_reverse]

theorem afterLast_eq_self (h : sep ∉ b) : afterLast sep b = b := by
  rw [afterLast, takeWhile_eq_self_iff.mpr (reverse_ne h), reverse_reverse]

theorem cutLast_append (a : Text) (h : sep ∉ b) : cutLast sep (a ++ sep :: b) = some (a, b) := by
  have hrev : (a ++ sep :: b).reverse = b.reverse ++ sep :: a.reverse := by simp
  have hmem : (a ++ sep :: b).contains sep = true :=
    contains_iff_mem.mpr (mem_append_right _ mem_cons_self)
  have hdrop : (b.reverse ++ sep :: a.reverse).dropWhile (· ≠ sep) = sep :: a.reverse := by
    rw [dropWhile_append_of_pos (reverse_ne h)]
    exact dropWhile_cons_of_neg (by simp)
  rw [cutLast, if_pos hmem, afterLast_append a h, hrev, hdrop, tail_cons, reverse_reverse]

end Last

theorem cut_spec {sep s a b : Text} (h : cut sep s = some (a, b)) : s = a ++ (sep ++ b) := by
  induction s generalizing a b with
  | nil =>
    obtain ⟨hsep, ⟨⟩⟩ := ite_none_right_eq_some.mp h
    rw [hsep]
    rfl
  | cons c s ih =>
    rw [cut] at h
    split at h
    · next hpre =>
      cases h
      exact (prefix_iff_eq_append.mp ( isPrefixOf_iff_prefix.mp hpre)).symm
    · obtain ⟨r, hr, heq⟩ := map_eq_some_iff.mp h
      cases heq
      rw [ih hr]
      rfl

theorem cut_least (sep x y : Text) : ∃ a b, cut sep (x ++ (sep ++ y)) = some (a, b) ∧ a.length ≤ x.length := by
  induction x with
  | nil =>
    cases hs : sep ++ y with
    | nil =>
      obtain ⟨rfl, _⟩ := append_eq_nil_iff.mp hs
      exact ⟨[], [], rfl, Nat.le_refl _⟩
    | cons c s =>
      have hpre : sep.isPrefixOf (c :: s) = true := by
        rw [ isPrefixOf_iff_prefix, ← hs]
        exact prefix_append sep y
      refine ⟨[], (c :: s).drop sep.length, ?_, Nat.le_refl _⟩
      rw [nil_append, cut, if_pos hpre]
  | cons c x ih =>
    obtain ⟨a, b, hcut, hle⟩ := ih
    rw [cons_append, cut]
    split
    · exact ⟨[], _, rfl, Nat.zero_le _⟩
    · rw [hcut]
      exact ⟨c :: a, b, rfl, Nat.succ_le_succ hle⟩

/-- One element of a path: `..` undoes the one before it, and is dropped at the
root. The last element comes first. -/
def pushElement (rooted : Bool) (stack : List Text) (w : Text) : List Text :=
  if w = [] ∨ w = ['.'] then stack
  else if w = ['.', '.'] then
    match stack with
    | [] => if rooted then [] else [w]
    | top :: rest => if top = ['.', '.'] then w :: stack else rest
  else w :: stack

def clean (path : Text) : Text :=
  let rooted : Bool := path.head? = some '/'
  let elements := ((path.splitOn '/').foldl (pushElement rooted) []).reverse
  let body := ['/'].intercalate elements
  if rooted then '/' :: body else if body = [] then ['.'] else body

/-- The path is the directory or lies below it. -/
def within (dir path : Text) : Bool := path = dir || (dir ++ ['/']).isPrefixOf path

theorem within_iff {a b : Text} : within a b = true ↔ b = a ∨ a ++ ['/'] <+: b := by
  rw [within, Bool.or_eq_true, decide_eq_true_eq, isPrefixOf_iff_prefix]

theorem within_refl (a : Text) : within a a = true := within_iff.mpr (.inl rfl)

theorem within_trans {a b c : Text} (hab : within a b = true) (hbc : within b c = true) : within a c = true := by
  rw [within_iff] at *
  obtain rfl | hab := hab
  · exact hbc
  · obtain rfl | hbc := hbc
    · exact .inr hab
    · exact .inr (hab.trans ((prefix_append b ['/']).trans hbc))

theorem length_le_of_within {a b : Text} (h : within a b = true) : a.length ≤ b.length := by
  obtain rfl | h := within_iff.mp h
  · exact Nat.le_refl _
  · have hle := h.length_le
    rw [length_append] at hle
    omega

def plain (n : Nat) : Text := List.replicate (n + 3) 'x'

theorem plain_length (n : Nat) : (plain n).length = n + 3 := length_replicate

theorem clean_plain (n : Nat) : clean (plain n) = plain n := by
  have hsplit : (plain n).splitOn '/' = [plain n] := by
    refine splitOn_eq_singleton (fun h => ?_)
    exact absurd (eq_of_mem_replicate h) (by decide)
  have hne (w : Text) (hw : w.length ≤ 2) : plain n ≠ w := by
    rintro rfl
    rw [plain_length] at hw
    omega
  have hpush : pushElement false [] (plain n) = [plain n] := by
    rw [pushElement, if_neg, if_neg (hne _ (by decide))]
    rintro (h | h)
    · exact hne [] (by decide) h
    · exact hne ['.'] (by decide) h
  have hroot : decide ((plain n).head? = some '/') = false := rfl
  simp only [clean, hroot, hsplit, foldl_cons, foldl_nil, hpush, reverse_singleton,
    intercalate_singleton, hne [] (by decide), if_false, Bool.false_eq_true]

/-- The terms of a shell pattern. -/
inductive Term where
  | star
  | one
  | range (negated : Bool) (ranges : List (Char × Char))
  | char (c : Char)

def getEsc : Text → Option (Char × Text)
  | [] | '-' :: _ | ']' :: _ | ['\\'] => none
  | '\\' :: c :: rest | c :: rest => if rest = [] then none else some (c, rest)

def getRanges : Nat → List (Char × Char) → Text → Option (List (Char × Char) × Text)
  | 0, _, _ => none
  | n + 1, acc, s =>
    match s with
    | ']' :: rest => if acc = [] then none else some (acc, rest)
    | s => do
      let (lo, rest) ← getEsc s
      match rest with
      | '-' :: rest =>
        let (hi, rest) ← getEsc rest
        getRanges n (acc ++ [(lo, hi)]) rest
      | rest => getRanges n (acc ++ [(lo, lo)]) rest

def parsePattern : Nat → Text → Option (List Term)
  | _, [] => some []
  | 0, _ => none
  | n + 1, '*' :: s => (parsePattern n s).map (.star :: ·)
  | n + 1, '?' :: s => (parsePattern n s).map (.one :: ·)
  | _ + 1, ['\\'] => none
  | n + 1, '\\' :: c :: s => (parsePattern n s).map (.char c :: ·)
  | n + 1, '[' :: '^' :: s => do
    let (ranges, rest) ← getRanges n [] s
    (parsePattern n rest).map (.range true ranges :: ·)
  | n + 1, '[' :: s => do
    let (ranges, rest) ← getRanges n [] s
    (parsePattern n rest).map (.range false ranges :: ·)
  | n + 1, c :: s => (parsePattern n s).map (.char c :: ·)

/-- Any number of characters other than the separator, then the rest. -/
def skip (rest : Text → Bool) : Text → Bool
  | [] => rest []
  | c :: s => rest (c :: s) || (c ≠ '/' && skip rest s)

def matchTerms : List Term → Text → Bool
  | [], s => s = []
  | .star :: ts, s => skip (matchTerms ts) s
  | .one :: ts, s => match s with
    | c :: s => c ≠ '/' && matchTerms ts s
    | [] => false
  | .range negated ranges :: ts, s => match s with
    | c :: s => ranges.any (fun r => r.1 ≤ c && c ≤ r.2) != negated && matchTerms ts s
    | [] => false
  | .char c :: ts, s => match s with
    | d :: s => c = d && matchTerms ts s
    | [] => false

def matchGlob (pattern s : Text) : Bool :=
  (parsePattern pattern.length pattern).any (fun ts => matchTerms ts s)

theorem matchTerms_chars (r s : Text) : matchTerms (r.map .char) s = true ↔ s = r := by
  induction r generalizing s with
  | nil => exact decide_eq_true_iff
  | cons c r ih =>
    cases s with
    | nil => exact ⟨nofun, nofun⟩
    | cons d s =>
      rw [map_cons, matchTerms, Bool.and_eq_true, decide_eq_true_eq, ih, List.cons.injEq, eq_comm]

def escape (r : Text) : Text := r.flatMap (fun c => ['\\', c])

theorem parsePattern_escape (r : Text) (n : Nat) (h : r.length ≤ n) :
    parsePattern n (escape r) = some (r.map .char) := by
  induction r generalizing n with
  | nil => cases n <;> rfl
  | cons c r ih =>
    cases n with
    | zero => cases h
    | succ n =>
      have hr := ih n (Nat.le_of_succ_le_succ h)
      change (parsePattern n (escape r)).map (.char c :: ·) = _
      rw [hr]
      rfl

theorem matchGlob_escape {r s : Text} : matchGlob (escape r) s = true ↔ s = r := by
  have hlen : r.length ≤ (escape r).length := by
    induction r with
    | nil => exact Nat.le_refl _
    | cons c r ih =>
      change r.length + 1 ≤ (escape r).length + 1 + 1
      omega
  rw [matchGlob, parsePattern_escape r _ hlen, any_some, matchTerms_chars]

def bracket (r : Text) : Text := r.flatMap (fun c => ['[', '\\', c, ']'])

theorem matchTerms_ranges (r s : Text) :
    matchTerms (r.map (fun c => .range false [(c, c)])) s = true ↔ s = r := by
  induction r generalizing s with
  | nil => exact decide_eq_true_iff
  | cons c r ih =>
    cases s with
    | nil => exact ⟨nofun, nofun⟩
    | cons d s =>
      have hrange : c ≤ d ∧ d ≤ c ↔ d = c :=
        ⟨fun h => Char.le_antisymm h.2 h.1, fun h => h ▸ ⟨Char.le_refl d, Char.le_refl d⟩⟩
      simp only [map_cons, matchTerms, any_cons, any_nil, Bool.or_false,
        Bool.bne_false, Bool.and_eq_true, decide_eq_true_eq, ih, List.cons.injEq, hrange]

theorem parsePattern_bracket (r : Text) (n : Nat) (h : 4 * r.length ≤ n) :
    parsePattern n (bracket r) = some (r.map (fun c => .range false [(c, c)])) := by
  induction r generalizing n with
  | nil => cases n <;> rfl
  | cons c r ih =>
    rw [length_cons] at h
    match n, h with
    | n + 3, h =>
      have hr := ih (n + 2) (by omega)
      change (parsePattern (n + 2) (bracket r)).map (.range false [(c, c)] :: ·) = _
      rw [hr]
      rfl

theorem matchGlob_bracket {r s : Text} : matchGlob (bracket r) s = true ↔ s = r := by
  have hlen : 4 * r.length ≤ (bracket r).length := by
    induction r with
    | nil => exact Nat.le_refl _
    | cons c r ih =>
      change 4 * (r.length + 1) ≤ (bracket r).length + 1 + 1 + 1 + 1
      omega
  rw [matchGlob, parsePattern_bracket r _ hlen, any_some, matchTerms_ranges]

end Wireops.Lib.Strings
