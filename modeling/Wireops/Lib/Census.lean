import Mathlib.Data.List.Basic

namespace Wireops.Lib.Census

open List

variable {α : Type} {f g : α → Nat} {as : List α} {a b : α} {i : Nat}

/-- The weight of a population whose members weigh `f`. With weights of zero and
one it is how many there are of a kind. -/
def total (f : α → Nat) : List α → Nat
  | [] => 0
  | a :: as => f a + total f as

theorem total_append (f : α → Nat) (as bs : List α) : total f (as ++ bs) = total f as + total f bs := by
  induction as with
  | nil => simp [total]
  | cons a as ih =>
    simp only [cons_append, total, ih]
    omega

theorem total_set (f : α → Nat) (h : as[i]? = some a) (b : α) : total f (as.set i b) + f a = total f as + f b := by
  induction as generalizing i with
  | nil => simp at h
  | cons c as ih =>
    cases i with
    | zero =>
      cases h
      simp only [set_cons_zero, total]
      omega
    | succ i =>
      simp only [set_cons_succ, total]
      have := ih h
      omega

theorem total_mono (h : ∀ a, f a ≤ g a) (as : List α) : total f as ≤ total g as := by
  induction as with
  | nil => exact Nat.le_refl _
  | cons a as ih => exact Nat.add_le_add (h a) ih

theorem le_total (f : α → Nat) (h : as[i]? = some a) : f a ≤ total f as := by
  induction as generalizing i with
  | nil => simp at h
  | cons c as ih =>
    cases i with
    | zero =>
      cases h
      exact Nat.le_add_right _ _
    | succ i =>
      exact Nat.le_trans (ih h) (Nat.le_add_left _ _)

theorem total_eq_zero (h : ∀ a ∈ as, f a = 0) : total f as = 0 := by
  induction as with
  | nil => rfl
  | cons a as ih =>
    rw [forall_mem_cons] at h
    simp [total, h.1, ih h.2]

theorem exists_of_total_pos (h : 0 < total f as) : ∃ (i : Nat) (a : α), as[i]? = some a ∧ 0 < f a := by
  induction as with
  | nil => simp [total] at h
  | cons a as ih =>
    by_cases ha : 0 < f a
    · exact ⟨0, a, rfl, ha⟩
    · simp only [total] at h
      obtain ⟨i, b, hi, hb⟩ := ih (by omega)
      exact ⟨i + 1, b, hi, hb⟩

end Wireops.Lib.Census
