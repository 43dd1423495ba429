import Mathlib.Data.List.Basic

namespace Wireops.Lib.Octets

open List

abbrev Bytes := List UInt8

def byte (c : Char) : UInt8 := UInt8.ofNat c.toNat

def text (s : String) : Bytes := s.toList.map byte

def spaces : List Bytes :=
  [[0x09], [0x0a], [0x0b], [0x0c], [0x0d], [0x20], [0xc2, 0x85], [0xc2, 0xa0], [0xe1, 0x9a, 0x80],
    [0xe2, 0x80, 0x80], [0xe2, 0x80, 0x81], [0xe2, 0x80, 0x82], [0xe2, 0x80, 0x83],
    [0xe2, 0x80, 0x84], [0xe2, 0x80, 0x85], [0xe2, 0x80, 0x86], [0xe2, 0x80, 0x87],
    [0xe2, 0x80, 0x88], [0xe2, 0x80, 0x89], [0xe2, 0x80, 0x8a], [0xe2, 0x80, 0xa8],
    [0xe2, 0x80, 0xa9], [0xe2, 0x80, 0xaf], [0xe2, 0x81, 0x9f], [0xe3, 0x80, 0x80]]

/-- Cut words of the list from the front. The number counts the bytes of the
present word that are left to cut. -/
def trimStart (words : List Bytes) : Nat → Bytes → Bytes
  | _, [] => []
  | k + 1, _ :: s => trimStart words k s
  | 0, b :: s =>
    match words.find? (·.isPrefixOf (b :: s)) with
    | some w => trimStart words (w.length - 1) s
    | none => b :: s

def trimLeft (s : Bytes) : Bytes := trimStart spaces 0 s

def trimRight (s : Bytes) : Bytes := (trimStart (spaces.map List.reverse) 0 s.reverse).reverse

def trimSpace (s : Bytes) : Bytes := trimRight (trimLeft s)

variable {words : List Bytes}

theorem trimStart_suffix (k : Nat) (s : Bytes) : trimStart words k s <:+ s := by
  induction s generalizing k with
  | nil => cases k <;> exact suffix_refl _
  | cons b s ih =>
    cases k with
    | succ k => exact (ih k).trans (suffix_cons b s)
    | zero =>
      rw [trimStart]
      split
      · exact (ih _).trans (suffix_cons b s)
      · exact suffix_refl _

theorem trimLeft_suffix (s : Bytes) : trimLeft s <:+ s := trimStart_suffix 0 s

theorem trimRight_isPrefix (s : Bytes) : trimRight s <+: s := by
  have h := reverse_prefix.mpr (@trimStart_suffix (spaces.map List.reverse) 0 s.reverse)
  rwa [reverse_reverse] at h

theorem length_trimSpace_le (s : Bytes) : (trimSpace s).length ≤ s.length :=
  Nat.le_trans (trimRight_isPrefix _).length_le (trimLeft_suffix s).length_le

theorem trimStart_eq_self {s : Bytes} (h : ∀ w ∈ words, ¬ w <+: s) : trimStart words 0 s = s := by
  cases s with
  | nil => rfl
  | cons b s =>
    have hnone : words.find? (·.isPrefixOf (b :: s)) = none := by
      refine List.find?_eq_none.mpr (fun w hw hpre => ?_)
      exact h w hw ( isPrefixOf_iff_prefix.mp hpre)
    rw [trimStart, hnone]

variable {c : UInt8}

theorem prefix_append_cons {w x y : Bytes} (hc : c ∉ w) : w <+: x ++ c :: y ↔ w <+: x := by
  refine ⟨fun h => ?_, fun h => h.trans (prefix_append x _)⟩
  obtain hle | hle := Nat.le_total w.length x.length
  · exact prefix_of_prefix_length_le h (prefix_append x _) hle
  · -- the word would reach past the byte
    have hx := prefix_of_prefix_length_le (prefix_append x (c :: y)) h hle
    obtain ⟨z, rfl⟩ := hx
    cases z with
    | nil => exact ⟨[], by rw [append_nil, append_nil]⟩
    | cons d z =>
      rw [prefix_append_right_inj, cons_prefix_cons] at h
      exact absurd (mem_append_right x (h.1 ▸ mem_cons_self)) hc

theorem find?_congr_mem {p q : Bytes → Bool} (h : ∀ w ∈ words, p w = q w) : words.find? p = words.find? q := by
  induction words with
  | nil => rfl
  | cons w words ih =>
    rw [forall_mem_cons] at h
    rw [List.find?_cons, List.find?_cons, h.1, ih h.2]

theorem trimStart_append (hc : ∀ w ∈ words, c ∉ w) (hne : ∀ w ∈ words, w ≠ [])
    (x y : Bytes) (k : Nat) (hk : k ≤ x.length) :
    trimStart words k (x ++ c :: y) = trimStart words k x ++ c :: y := by
  have hsame (z : Bytes) : words.find? (·.isPrefixOf (z ++ c :: y)) = words.find? (·.isPrefixOf z) := by
    refine find?_congr_mem (fun w hw => ?_)
    rw [Bool.eq_iff_iff, isPrefixOf_iff_prefix, isPrefixOf_iff_prefix, prefix_append_cons (hc w hw)]
  induction x generalizing k with
  | nil =>
    obtain rfl : k = 0 := Nat.le_zero.mp hk
    refine trimStart_eq_self (fun w hw hpre => ?_)
    exact hne w hw (prefix_nil.mp ((prefix_append_cons (hc w hw)).mp hpre))
  | cons b x ih =>
    cases k with
    | succ k => exact ih k (Nat.le_of_succ_le_succ hk)
    | zero =>
      have hfind := hsame (b :: x)
      rw [cons_append] at hfind ⊢
      rw [trimStart, trimStart, hfind]
      cases hw : words.find? (·.isPrefixOf (b :: x)) with
      | none => rfl
      | some w =>
        have hpre : w.isPrefixOf (b :: x) = true := by simpa using List.find?_some hw
        have hlen := ( isPrefixOf_iff_prefix.mp hpre).length_le
        rw [length_cons] at hlen
        exact ih (w.length - 1) (by omega)

theorem spaces_ne_nil : ∀ w ∈ spaces, w ≠ [] := by decide

theorem reversed_ne_nil : ∀ w ∈ spaces.map List.reverse, w ≠ [] := by decide

theorem trimSpace_eq_self {s : Bytes} : trimSpace s = s ↔ trimLeft s = s ∧ trimRight s = s := by
  refine ⟨fun h => ?_, fun h => by rw [trimSpace, h.1, h.2]⟩
  have hleft : trimLeft s = s := by
    refine (trimLeft_suffix s).eq_of_length_le ?_
    have hle := (trimRight_isPrefix (trimLeft s)).length_le
    rwa [← trimSpace, h] at hle
  refine ⟨hleft, ?_⟩
  rwa [trimSpace, hleft] at h

section

variable (hc : ∀ w ∈ spaces, c ∉ w)

include hc

theorem trimLeft_append (x y : Bytes) : trimLeft (x ++ c :: y) = trimLeft x ++ c :: y :=
  trimStart_append hc spaces_ne_nil x y 0 (Nat.zero_le _)

theorem trimRight_append (x y : Bytes) :
    trimRight (x ++ c :: y) = x ++ c :: trimRight y := by
  have hrev : ∀ w ∈ spaces.map List.reverse, c ∉ w := by
    intro w hw
    obtain ⟨v, hv, rfl⟩ := mem_map.mp hw
    rw [mem_reverse]
    exact hc v hv
  have h := trimStart_append hrev reversed_ne_nil y.reverse x.reverse 0 (Nat.zero_le _)
  have hsplit : (x ++ c :: y).reverse = y.reverse ++ c :: x.reverse := by simp
  rw [trimRight, hsplit, h]
  simp [trimRight]

theorem trimSpace_between {d : UInt8} (hd : ∀ w ∈ spaces, d ∉ w)
    (s : Bytes) : trimSpace (c :: s ++ [d]) = c :: s ++ [d] := by
  have hleft := trimLeft_append hc [] (s ++ [d])
  have hright := trimRight_append hd (c :: s) []
  have hempty : trimLeft [] = [] := rfl
  have hempty' : trimRight [] = [] := rfl
  rw [trimSpace, cons_append, ← nil_append (c :: (s ++ [d])), hleft]
  exact hright

end

end Wireops.Lib.Octets
