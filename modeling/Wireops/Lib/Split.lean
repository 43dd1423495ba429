import Mathlib.Data.List.Infix

namespace Wireops.Lib.Split

open List

variable {α : Type}

theorem splitOnP_first {p : α → Bool} {s r : List α} {rs : List (List α)}
    (h : s.splitOnP p = r :: rs) : r <+: s ∧ ∀ a ∈ r, p a = false := by
  induction s generalizing r rs with
  | nil =>
    cases h
    exact ⟨prefix_refl _, forall_mem_nil _⟩
  | cons a s ih =>
    rw [splitOnP_cons_eq_if_modifyHead] at h
    split at h
    · cases h
      exact ⟨ nil_prefix, forall_mem_nil _⟩
    · next ha =>
      obtain ⟨t, ts, hs⟩ := exists_cons_of_ne_nil (splitOnP_ne_nil p s)
      rw [hs, modifyHead_cons] at h
      cases h
      obtain ⟨hpre, hall⟩ := ih hs
      exact ⟨cons_prefix_cons.mpr ⟨rfl, hpre⟩, forall_mem_cons.mpr ⟨eq_false_of_ne_true ha, hall⟩⟩

theorem splitOnP_part {p : α → Bool} {s r : List α} (h : r ∈ s.splitOnP p) : r <:+: s ∧ ∀ a ∈ r, p a = false := by
  induction s generalizing r with
  | nil =>
    rw [splitOnP_nil, mem_singleton] at h
    subst h
    exact ⟨infix_refl _, forall_mem_nil _⟩
  | cons a s ih =>
    have hsplit := h
    rw [splitOnP_cons_eq_if_modifyHead] at h
    split at h
    · obtain rfl | h := mem_cons.mp h
      · exact ⟨ nil_infix, forall_mem_nil _⟩
      · obtain ⟨hin, hall⟩ := ih h
        exact ⟨hin.trans (suffix_cons a s).isInfix, hall⟩
    · next ha =>
      obtain ⟨t, ts, hs⟩ := exists_cons_of_ne_nil (splitOnP_ne_nil p s)
      have hcons : (a :: s).splitOnP p = (a :: t) :: ts := by
        rw [splitOnP_cons_eq_if_modifyHead, if_neg ha, hs, modifyHead_cons]
      rw [hcons] at hsplit
      obtain rfl | hr := mem_cons.mp hsplit
      · obtain ⟨hpre, hall⟩ := splitOnP_first hcons
        exact ⟨hpre.isInfix, hall⟩
      · obtain ⟨hin, hall⟩ := ih (hs ▸ mem_cons_of_mem t hr)
        exact ⟨hin.trans (suffix_cons a s).isInfix, hall⟩

theorem splitOn_append [BEq α] {c : α} {x last : List α} {init : List (List α)}
    (h : x.splitOn c = init ++ [last]) (y : List α) : (x ++ y).splitOn c = init ++ (last ++ y).splitOn c := by
  induction x generalizing init last with
  | nil =>
    cases init with
    | nil =>
      cases h
      rfl
    | cons _ init => cases init <;> cases h
  | cons b x ih =>
    obtain ⟨first, rest, hx⟩ := exists_cons_of_ne_nil (splitOn_ne_nil c x)
    rw [splitOn_cons_eq_if_modifyHead] at h
    rw [cons_append, splitOn_cons_eq_if_modifyHead]
    split at h
    · next hb =>
      cases init with
      | nil =>
        rw [hx] at h
        cases h
      | cons d init =>
        rw [cons_append, List.cons.injEq] at h
        obtain ⟨rfl, h⟩ := h
        rw [if_pos hb, ih h, cons_append]
    · next hb =>
      rw [if_neg hb]
      rw [hx, modifyHead_cons] at h
      cases init with
      | nil =>
        cases h
        have hx : x.splitOn c = [] ++ [first] := hx
        rw [ih hx, nil_append, nil_append, cons_append, splitOn_cons_eq_if_modifyHead, if_neg hb]
      | cons d init =>
        obtain ⟨rfl, rfl⟩ := h
        have hx : x.splitOn c = (first :: init) ++ [last] := hx
        rw [ih hx]
        rfl

theorem exists_last [BEq α] (c : α) (x : List α) : ∃ init last, x.splitOn c = init ++ [last] :=
  ⟨_, _, (dropLast_append_getLast (splitOn_ne_nil c x)).symm⟩

end Wireops.Lib.Split
