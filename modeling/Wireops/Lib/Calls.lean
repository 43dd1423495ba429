import Mathlib.Data.List.Basic

/-!
# Programs that call out

A program that makes calls to something outside is a state monad over the calls made so
far with their answers. Each answer may depend on everything that happened before. What
is proved of a program relates its result to the calls it adds.
-/

namespace Wireops.Lib.Calls

open List

variable {C : Type} {A : C → Type} {α β : Type}

abbrev Event (A : C → Type) := Σ c, A c

/-- The outside: what it answers to a call after what happened so far. -/
abbrev Outside (A : C → Type) := List (Event A) → (c : C) → A c

abbrev Prog (A : C → Type) (α : Type) := StateM (List (Event A)) α

def call (answer : Outside A) (c : C) : Prog A (A c) :=
  fun h => (answer h c, h ++ [⟨c, answer h c⟩])

/-- Wherever the program is started, its result and the calls it adds are
related by `Q`. -/
def Yields (m : Prog A α) (Q : α → List (Event A) → Prop) : Prop :=
  ∀ h, ∃ trace, (m h).2 = h ++ trace ∧ Q (m h).1 trace

variable {m : Prog A α} {f : α → Prog A β}
variable {Q Q' : α → List (Event A) → Prop} {R : β → List (Event A) → Prop}

theorem Yields.mono (hm : Yields m Q) (hQ : ∀ a trace, Q a trace → Q' a trace) : Yields m Q' := by
  intro h
  obtain ⟨trace, ht, hq⟩ := hm h
  exact ⟨trace, ht, hQ _ _ hq⟩

theorem Yields.bind (hm : Yields m Q)
    (hf : ∀ a trace, Q a trace → Yields (f a) (fun b rest => R b (trace ++ rest))) : Yields (m >>= f) R := by
  intro h
  obtain ⟨trace, ht, hq⟩ := hm h
  obtain ⟨rest, hr, hR⟩ := hf _ trace hq (m h).2
  refine ⟨trace ++ rest, ?_, hR⟩
  rw [← append_assoc, ← ht]
  exact hr

/-- Every call the program makes, with its answer, is in `P`, and its result is
in `Q`. -/
def Emits (P : Event A → Prop) (m : Prog A α) (Q : α → Prop) : Prop :=
  Yields m (fun a trace => (∀ e ∈ trace, P e) ∧ Q a)

variable {P : Event A → Prop} {S : α → Prop} {T : β → Prop}

theorem Emits.bind (hm : Emits P m S) (hf : ∀ a, S a → Emits P (f a) T) : Emits P (m >>= f) T := by
  refine Yields.bind hm ?_
  rintro a trace ⟨ht, ha⟩
  refine (hf a ha).mono ?_
  rintro _ rest ⟨hr, hb⟩
  exact ⟨forall_mem_append.mpr ⟨ht, hr⟩, hb⟩

theorem Yields.run (hm : Yields m Q) : Q (m []).1 (m []).2 := by
  obtain ⟨trace, ht, hq⟩ := hm []
  rw [ht]
  exact hq

end Wireops.Lib.Calls
