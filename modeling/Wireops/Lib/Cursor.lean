import Mathlib.Data.List.Basic

/-!
# Sending what is new by length

One who has got `n` elements is sent what a text has beyond them. Where the texts only
grow, this adds up to the last of them. In general each place is taken by the first
text that reaches it.
-/

namespace Wireops.Lib.Cursor

open List

variable {α : Type}

def sent : Nat → List (List α) → List α
  | _, [] => []
  | n, o :: os => o.drop n ++ sent (max n o.length) os

def longest (os : List (List α)) : Nat := os.foldr (fun o n => max o.length n) 0

/-- What the first text that reaches a place has there. -/
def firstAt (os : List (List α)) (k : Nat) : Option α :=
  (os.find? (fun o => k < o.length)).bind (fun o => o[k]?)

variable {os : List (List α)} {o : List α}

theorem firstAt_cons_of_lt {k : Nat} (h : k < o.length) : firstAt (o :: os) k = o[k]? := by
  rw [firstAt, List.find?_cons_of_pos (by simpa using h), Option.bind_some]

theorem firstAt_cons_of_le {k : Nat} (h : o.length ≤ k) : firstAt (o :: os) k = firstAt os k := by
  rw [firstAt, List.find?_cons_of_neg (by simpa using h), ← firstAt]

theorem getElem?_sent (n i : Nat) (os : List (List α)) : (sent n os)[i]? = firstAt os (n + i) := by
  induction os generalizing n i with
  | nil => rfl
  | cons o os ih =>
    rw [sent]
    by_cases hi : n + i < o.length
    · rw [List.getElem?_append_left (by rw [length_drop]; omega), List.getElem?_drop,
        firstAt_cons_of_lt hi]
    · rw [List.getElem?_append_right (by rw [length_drop]; omega), ih,
        firstAt_cons_of_le (by omega), length_drop]
      congr 1
      omega

theorem length_sent (n : Nat) (os : List (List α)) : n + (sent n os).length = max n (longest os) := by
  induction os generalizing n with
  | nil => simp [sent, longest]
  | cons o os ih =>
    have hlongest : longest (o :: os) = max o.length (longest os) := rfl
    have hrest := ih (max n o.length)
    rw [sent, length_append, length_drop, hlongest]
    omega

theorem length_le_longest (h : o ∈ os) : o.length ≤ longest os := by
  induction os with
  | nil => cases h
  | cons o' os ih =>
    rcases mem_cons.mp h with rfl | h
    · exact Nat.le_max_left _ _
    · exact Nat.le_trans (ih h) (Nat.le_max_right _ _)

/-- Counted back from the place the longest of the texts ends at, the first text that
reaches a place has there what `final` has. -/
def Agrees (os : List (List α)) (final : List α) : Prop :=
  ∀ i < final.length, firstAt os (longest os - final.length + i) = final[i]?

instance [DecidableEq α] (os : List (List α)) (final : List α) : Decidable (Agrees os final) :=
  inferInstanceAs (Decidable (∀ i < final.length, _ = _))

theorem suffix_sent_iff {final : List α} (h : final ∈ os) : final <:+ sent 0 os ↔ Agrees os final := by
  have hlen : (sent 0 os).length = longest os := by
    have hlen := length_sent 0 os
    omega
  have hle := length_le_longest h
  have hplace : ∀ i, ((sent 0 os).drop (longest os - final.length))[i]? =
      firstAt os (longest os - final.length + i) := by
    intro i
    rw [List.getElem?_drop, getElem?_sent, Nat.zero_add]
  rw [suffix_iff_eq_drop, hlen]
  constructor
  · intro heq i _
    rw [← hplace, ← heq]
  · intro hagrees
    apply ext_getElem?
    intro i
    by_cases hi : i < final.length
    · rw [hplace, hagrees i hi]
    · rw [List.getElem?_eq_none (by omega), List.getElem?_eq_none]
      rw [length_drop, hlen]
      omega

end Wireops.Lib.Cursor
