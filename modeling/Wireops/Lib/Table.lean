import Mathlib.Logic.Function.Basic

namespace Wireops.Lib.Table

open Function

variable {K V : Type} [DecidableEq K]

variable {f : K → Option V} {k i : K} {o : Option V} {w : V}

theorem update_cases (h : update f k o i = some w) : (i = k ∧ o = some w) ∨ (i ≠ k ∧ f i = some w) := by
  by_cases hi : i = k
  · subst hi
    rw [update_self] at h
    exact .inl ⟨rfl, h⟩
  · rw [update_of_ne hi] at h
    exact .inr ⟨hi, h⟩

theorem update_some_cases {v : V} (h : update f k (some v) i = some w) : (i = k ∧ w = v) ∨ (i ≠ k ∧ f i = some w) :=
  (update_cases h).imp_left (fun ⟨hi, hv⟩ => ⟨hi, (Option.some.inj hv).symm⟩)

theorem update_none_cases (h : update f k none i = some w) : i ≠ k ∧ f i = some w :=
  (update_cases h).resolve_left (fun h => by cases h.2)

theorem update_eq_none (ho : i = k → o = none) (h : f i = none) : update f k o i = none := by
  by_cases hi : i = k
  · subst hi
    exact (update_self ..).trans (ho rfl)
  · rw [update_of_ne hi, h]

theorem update_none_of_none (h : f i = none) : update f k none i = none :=
  update_eq_none (fun _ => rfl) h

theorem forall_update {P : K → V → Prop} (h : ∀ i w, f i = some w → P i w)
    (ho : ∀ v, o = some v → P k v) (i : K) (w : V) (hw : update f k o i = some w) : P i w := by
  obtain ⟨rfl, hnew⟩ | ⟨-, hold⟩ := update_cases hw
  · exact ho w hnew
  · exact h i w hold

theorem forall_update_some {P : K → V → Prop} {v : V} (h : ∀ i w, f i = some w → P i w) (hv : P k v) :
    ∀ i w, update f k (some v) i = some w → P i w :=
  forall_update h (fun _ h => Option.some.inj h ▸ hv)

theorem update_kept (hk : f k = none) (h : f i = some w) : update f k o i = some w := by
  have hne : i ≠ k := by
    rintro rfl
    cases hk.symm.trans h
  rw [update_of_ne hne, h]

section Unused

variable {g : Nat → Option V} {n k : Nat} {o : Option V} (h : ∀ i, n ≤ i → g i = none)

include h

theorem unused_fill (i : Nat) (hi : n + 1 ≤ i) : update g n o i = none := by
  rw [update_of_ne (by omega)]
  exact h i (by omega)

theorem unused_change {v : V} (hk : g k = some v) (i : Nat) (hi : n ≤ i) : update g k o i = none := by
  have hne : i ≠ k := by
    rintro rfl
    cases (h i hi).symm.trans hk
  rw [update_of_ne hne]
  exact h i hi

end Unused

theorem filter_update {p : V → Bool} {k : K} {o : Option V} (hf : (f k).filter p = none) (ho : o.filter p = none) :
    (fun i => (update f k o i).filter p) = fun i => (f i).filter p := by
  funext i
  by_cases hi : i = k
  · subst hi
    rw [update_self, hf, ho]
  · rw [update_of_ne hi]

end Wireops.Lib.Table
