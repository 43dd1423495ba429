import Mathlib.Data.List.Basic

namespace Wireops.Lib.Flow

variable {σ ε : Type}

abbrev Stage (σ ε : Type) := σ → Except ε σ

theorem bind_eq_ok_iff {α β : Type} {x : Except ε α} {f : α → Except ε β} {b : β} :
    x >>= f = .ok b ↔ ∃ a, x = .ok a ∧ f a = .ok b := by
  cases x with
  | error e =>
    constructor
    · intro h
      cases h
    · rintro ⟨_, h, _⟩
      cases h
  | ok a =>
    refine ⟨fun h => ⟨a, rfl, h⟩, ?_⟩
    rintro ⟨_, ⟨rfl⟩, h⟩
    exact h

theorem guard_ok {α : Type} {c : Prop} [Decidable c] {e : ε} {x : Except ε α} {a : α}
    (h : (if c then .error e else x) = .ok a) : ¬ c ∧ x = .ok a := by
  split at h
  · cases h
  · next hc => exact ⟨hc, h⟩

def failFirst : List ε → Except ε Unit
  | [] => .ok ()
  | e :: _ => .error e

theorem failFirst_append (es fs : List ε) : failFirst (es ++ fs) = failFirst es >>= fun _ => failFirst fs := by
  cases es <;> rfl

theorem failFirst_ok_iff {es : List ε} : failFirst es = .ok () ↔ es = [] := by
  cases es <;> simp [failFirst]

theorem failFirst_error_iff {es : List ε} {e : ε} : failFirst es = .error e ↔ es.head? = some e := by
  cases es <;> simp [failFirst]

def seq (m n : Stage σ ε) : Stage σ ε := fun s => m s >>= n

def chain : List (Stage σ ε) → Stage σ ε
  | [] => .ok
  | m :: ms => seq m (chain ms)

/-- The flow goes on in `Q` or has ended in `E`. -/
def After (Q : σ → Prop) (E : ε → Prop) : Except ε σ → Prop
  | .ok t => Q t
  | .error e => E e

/-- From `P` the stage goes on in `Q` or ends in `E`. -/
def Triple (P : σ → Prop) (m : Stage σ ε) (Q : σ → Prop) (E : ε → Prop) : Prop :=
  ∀ s, P s → After Q E (m s)

variable {P Q R Q' : σ → Prop} {E : ε → Prop} {m n : Stage σ ε}

theorem After.mono {E' : ε → Prop} {x : Except ε σ} (h : After Q E x)
    (hQ : ∀ s, Q s → Q' s) (hE : ∀ e, E e → E' e) : After Q' E' x := by
  cases x with
  | ok t => exact hQ t h
  | error e => exact hE e h

theorem Triple.seq (hm : Triple P m Q E) (hn : Triple Q n R E) : Triple P (Flow.seq m n) R E := by
  intro s hs
  have h := hm s hs
  unfold Flow.seq
  cases hms : m s with
  | error e =>
    rw [hms] at h
    exact h
  | ok t =>
    rw [hms] at h
    exact hn t h

theorem Triple.conseq {P' : σ → Prop} (hm : Triple P m Q E) (hP : ∀ s, P' s → P s)
    (hQ : ∀ s, Q s → Q' s) : Triple P' m Q' E := by
  intro s hs
  exact (hm s (hP s hs)).mono hQ (fun _ h => h)

theorem Triple.and {P' : σ → Prop} (hm : Triple P m Q E) (hm' : Triple P' m Q' fun _ => True) :
    Triple (fun s => P s ∧ P' s) m (fun s => Q s ∧ Q' s) E := by
  rintro s ⟨hs, hs'⟩
  have h := hm s hs
  have h' := hm' s hs'
  generalize m s = x at h h' ⊢
  cases x with
  | ok t => exact ⟨h, h'⟩
  | error e => exact h

theorem After.seq {s : σ} (hm : After Q E (m s)) (hn : ∀ t, m s = .ok t → Q t → After R E (n t)) :
    After R E (Flow.seq m n s) := by
  unfold Flow.seq
  cases hms : m s with
  | error e =>
    rw [hms] at hm
    exact hm
  | ok t =>
    rw [hms] at hm
    exact hn t hms hm

theorem seq_assoc (m n k : Stage σ ε) : seq (seq m n) k = seq m (seq n k) := by
  funext s
  unfold seq
  cases m s <;> rfl

theorem chain_append (ms ns : List (Stage σ ε)) : chain (ms ++ ns) = seq (chain ms) (chain ns) := by
  induction ms with
  | nil => rfl
  | cons m ms ih => rw [List.cons_append, chain, chain, ih, seq_assoc]

theorem Triple.chain {ms : List (Stage σ ε)} (h : ∀ m ∈ ms, Triple P m P E) : Triple P (Flow.chain ms) P E := by
  induction ms with
  | nil => exact fun _ hs => hs
  | cons m ms ih =>
    rw [List.forall_mem_cons] at h
    exact h.1.seq (ih h.2)

end Wireops.Lib.Flow
