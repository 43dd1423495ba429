import Mathlib.Logic.Basic

namespace Wireops.Lib.Steps

open Option

variable {σ α : Type}

/-- Take the actions one after the other, each where it is enabled. Several
parties interleave by their order. -/
def run (step : σ → α → Option σ) : σ → List α → Option σ
  | s, [] => some s
  | s, a :: as => (step s a).bind (fun t => run step t as)

/-- Every action of a run meets a condition on the state it is taken in. -/
def Meets (step : σ → α → Option σ) (G : σ → α → Prop) : σ → List α → Prop
  | _, [] => True
  | s, a :: as => G s a ∧ ((step s a).elim True (fun t => Meets step G t as))

instance (step : σ → α → Option σ) (G : σ → α → Prop) [∀ s a, Decidable (G s a)] :
    ∀ s as, Decidable (Meets step G s as)
  | _, [] => .isTrue trivial
  | s, a :: as =>
    have : Decidable ((step s a).elim True (fun t => Meets step G t as)) :=
      match step s a with
      | none => .isTrue trivial
      | some t => instDecidableMeets step G t as
    inferInstanceAs (Decidable (_ ∧ _))

variable {step : σ → α → Option σ} {G : σ → α → Prop} {Inv : σ → Prop}

theorem run_cons {s t : σ} {a : α} {as : List α} :
    run step s (a :: as) = some t ↔ ∃ u, step s a = some u ∧ run step u as = some t :=
  bind_eq_some_iff

theorem run_append (s : σ) (as bs : List α) :
    run step s (as ++ bs) = (run step s as).bind (fun t => run step t bs) := by
  induction as generalizing s with
  | nil => rfl
  | cons a as ih =>
    rw [List.cons_append, run, run, bind_assoc]
    exact congrArg _ (funext ih)

theorem meets_cons {s t : σ} {a : α} {as : List α}
    (h : Meets step G s (a :: as)) (hs : step s a = some t) : G s a ∧ Meets step G t as := by
  obtain ⟨hg, ht⟩ := h
  rw [hs] at ht
  exact ⟨hg, ht⟩

theorem meets_of_forall {as : List α} (h : ∀ a ∈ as, ∀ s, G s a) (s : σ) : Meets step G s as := by
  induction as generalizing s with
  | nil => trivial
  | cons a as ih =>
    rw [List.forall_mem_cons] at h
    refine ⟨h.1 s, ?_⟩
    cases step s a with
    | none => trivial
    | some t => exact ih h.2 t

theorem run_invariant (hstep : ∀ s a t, Inv s → G s a → step s a = some t → Inv t) {s t : σ} {as : List α}
    (hs : Inv s) (hg : Meets step G s as) (hr : run step s as = some t) : Inv t := by
  induction as generalizing s with
  | nil =>
    cases hr
    exact hs
  | cons a as ih =>
    obtain ⟨u, hu, hr⟩ := run_cons.mp hr
    obtain ⟨ha, hg⟩ := meets_cons hg hu
    exact ih (hstep s a u hs ha hu) hg hr

theorem run_invariant_of_step (hstep : ∀ s a t, Inv s → step s a = some t → Inv t) {s t : σ}
    {as : List α} (hs : Inv s) (hr : run step s as = some t) : Inv t := by
  induction as generalizing s with
  | nil =>
    cases hr
    exact hs
  | cons a as ih =>
    obtain ⟨u, hu, hr⟩ := run_cons.mp hr
    exact ih (hstep s a u hs hu) hr

theorem meets_imp {H : σ → α → Prop} (himp : ∀ s a, Inv s → G s a → H s a)
    (hkeep : ∀ s a t, Inv s → G s a → step s a = some t → Inv t) {s : σ} {as : List α}
    (hs : Inv s) (hg : Meets step G s as) : Meets step H s as := by
  induction as generalizing s with
  | nil => trivial
  | cons a as ih =>
    obtain ⟨ha, hg⟩ := hg
    refine ⟨himp s a hs ha, ?_⟩
    cases ht : step s a with
    | none => trivial
    | some t =>
      rw [ht] at hg
      exact ih (hkeep s a t hs ha ht) hg

/-- Two conditions that agree at the steps from states of an invariant that the
first keeps are met by the same runs. -/
theorem meets_congr {H : σ → α → Prop} (hiff : ∀ s a t, Inv s → step s a = some t → (G s a ↔ H s a))
    (hkeep : ∀ s a t, Inv s → G s a → step s a = some t → Inv t) {s t : σ} {as : List α}
    (hs : Inv s) (hr : run step s as = some t) : Meets step G s as ↔ Meets step H s as := by
  induction as generalizing s with
  | nil => exact Iff.rfl
  | cons a as ih =>
    obtain ⟨u, hu, hr⟩ := run_cons.mp hr
    have hcons (F : σ → α → Prop) : Meets step F s (a :: as) ↔ F s a ∧ Meets step F u as := by
      simp only [Meets, hu, elim_some]
    rw [hcons, hcons, hiff s a u hs hu]
    refine and_congr_right fun hH => ?_
    exact ih (hkeep s a u hs ((hiff s a u hs hu).mpr hH) hu) hr

theorem run_reaches {P : σ → Prop} [DecidablePred P] {s : σ} {as : List α}
    (h : (run step s as).any (fun t => decide (P t)) = true) : ∃ t ∈ run step s as, P t := by
  obtain ⟨t, ht, hP⟩ := any_eq_true .. |>.mp h
  exact ⟨t, ht, of_decide_eq_true hP⟩

end Wireops.Lib.Steps
