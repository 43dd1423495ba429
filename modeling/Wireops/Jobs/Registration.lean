import Wireops.Lib.Steps

/-!
# The cron entry of a scheduled job

A registration removes, under the lock, the entry that the table has for the
job, has the cron add a new one, and under the lock again writes that one into
the table. Calls for other jobs share the cron's counter and nothing else. -/

namespace Wireops.Jobs.Registration

open List Lib.Steps

inductive Phase where
  | find
  | remove (enabled : Bool)
  | addFunc
  | set (entryID : Nat)
  | unregister

/-- `record` is the `enabled` flag of the job, `cron` the entries that run it. -/
structure State where
  record : Option Bool := none
  entry : Option Nat := none
  cron : List Nat := []
  nextID : Nat := 1
  calls : List Phase := []

/-- In `next`, `ok` says whether the job's definition and its cron expression parse. -/
inductive Action where
  | change (enabled : Option Bool)
  | otherAddFunc
  | registerJob
  | unregisterJob
  | next (call : Nat) (ok : Bool)

def State.remove (s : State) : State :=
  match s.entry with
  | some old => { s with cron := s.cron.filter (· ≠ old), entry := none }
  | none => s

def State.addFunc (s : State) : State := { s with cron := s.nextID :: s.cron, nextID := s.nextID + 1 }

def State.put (s : State) (i : Nat) : Option Phase → State
  | some p => { s with calls := s.calls.set i p }
  | none => { s with calls := s.calls.eraseIdx i }

def State.next (s : State) (i : Nat) (ok : Bool) : Phase → State
  | .find => s.put i (s.record.map .remove)
  | .remove enabled => s.remove.put i (if enabled then some .addFunc else none)
  | .addFunc => if ok then s.addFunc.put i (some (.set s.nextID)) else s.put i none
  | .set entryID => { s with entry := some entryID }.put i none
  | .unregister => s.remove.put i none

def step (s : State) : Action → Option State
  | .change enabled => some { s with record := enabled }
  | .otherAddFunc => some { s with nextID := s.nextID + 1 }
  | .registerJob => some { s with calls := s.calls ++ [.find] }
  | .unregisterJob => some { s with calls := s.calls ++ [.unregister] }
  | .next i ok => s.calls[i]?.map (s.next i ok)

variable {s t : State} {a : Action} {i : Nat} {ok : Bool} {p : Phase} {o : Option Phase} {calls : List Phase}

/-- A call starts when the earlier ones have returned. -/
def Apart (s : State) : Action → Prop
  | .registerJob | .unregisterJob => s.calls = []
  | _ => True

/-- No registration reads that the job is enabled. -/
def Off (s : State) : Action → Prop
  | .next i _ => s.calls[i]? = some .find → s.record ≠ some true
  | _ => True

def Vacant (s : State) : Prop := s.cron = [] ∧ s.entry = none

def Fits (s : State) : List Phase → Prop
  | [.addFunc] => Vacant s
  | [.set entryID] => s.cron = [entryID]
  | [] | [_] => s.cron = s.entry.toList
  | _ => False

def Inv (s : State) : Prop := Fits s s.calls

theorem Vacant.cron_eq (h : Vacant s) : s.cron = s.entry.toList := by
  rw [h.1, h.2]
  rfl

theorem Vacant.remove (h : Vacant s) : s.remove = s := by
  rw [State.remove, h.2]

theorem remove_calls (s : State) : s.remove.calls = s.calls := by
  unfold State.remove
  split <;> rfl

theorem remove_vacant (h : s.cron = s.entry.toList) : Vacant s.remove := by
  unfold State.remove
  split
  · next old he => exact ⟨by simp [h, he], rfl⟩
  · next he => exact ⟨by simp [h, he], he⟩

theorem calls_eq (h : Fits s calls) (hp : calls[i]? = some p) : i = 0 ∧ calls = [p] := by
  match calls, i with
  | [_], 0 =>
    cases hp
    exact ⟨rfl, rfl⟩
  | q :: _ :: _, _ => cases q <;> exact h.elim

theorem put_calls (hc : s.calls = [p]) : (s.put 0 o).calls = o.toList := by
  cases o <;> simp [State.put, hc]

theorem inv_put (hc : s.calls = [p]) (h : Fits s o.toList) : Inv (s.put 0 o) := by
  rw [Inv, put_calls hc]
  cases o with
  | none => exact h
  | some q => cases q <;> exact h

theorem inv_next (hc : s.calls = [p]) (h : Fits s [p]) : Inv (s.next 0 ok p) := by
  have hremove : s.remove.calls = [p] := (remove_calls s).trans hc
  cases p with
  | find =>
    refine inv_put hc ?_
    cases s.record <;> exact h
  | remove enabled =>
    refine inv_put hremove ?_
    cases enabled with
    | true => exact remove_vacant h
    | false => exact (remove_vacant h).cron_eq
  | addFunc =>
    cases ok with
    | true => exact inv_put (s := s.addFunc) (o := some (.set s.nextID)) hc (congrArg _ h.1)
    | false => exact inv_put (o := none) hc h.cron_eq
  | set => exact inv_put hc h
  | unregister => exact inv_put hremove (remove_vacant h).cron_eq

theorem inv_step (h : Inv s) (hg : Apart s a) (hs : step s a = some t) : Inv t := by
  cases a with
  | change | otherAddFunc =>
    cases hs
    exact h
  | registerJob | unregisterJob =>
    cases hs
    rw [Inv, show s.calls = [] from hg] at h ⊢
    exact h
  | next i ok =>
    obtain ⟨p, hp, rfl⟩ := Option.map_eq_some_iff.mp hs
    obtain ⟨rfl, hc⟩ := calls_eq h hp
    exact inv_next hc (hc ▸ h)

def registers : Phase → Bool
  | .addFunc | .set _ | .remove true => true
  | _ => false

def Cleared (s : State) : Prop := Vacant s ∧ ∀ p ∈ s.calls, registers p = false

theorem Cleared.put (h : Cleared s) (ho : ∀ p, o = some p → registers p = false) : Cleared (s.put i o) := by
  refine ⟨by cases o <;> exact h.1, fun q hq => ?_⟩
  cases o with
  | none => exact h.2 q (mem_of_mem_eraseIdx hq)
  | some p =>
    obtain hq | rfl := mem_or_eq_of_mem_set hq
    · exact h.2 q hq
    · exact ho q rfl

theorem cleared_step (h : Cleared s) (hg : Off s a) (hs : step s a = some t) : Cleared t := by
  cases a with
  | change | otherAddFunc =>
    cases hs
    exact h
  | registerJob | unregisterJob =>
    cases hs
    exact ⟨h.1, forall_mem_append.mpr ⟨h.2, forall_mem_singleton.mpr rfl⟩⟩
  | next i ok =>
    obtain ⟨p, hp, rfl⟩ := Option.map_eq_some_iff.mp hs
    have hremove : Cleared s.remove := h.1.remove.symm ▸ h
    have hquiet := h.2 p (mem_of_getElem? hp)
    cases p with
    | find =>
      refine h.put (fun q hq => ?_)
      obtain ⟨enabled, he, rfl⟩ := Option.map_eq_some_iff.mp hq
      cases enabled with
      | true => exact absurd he (hg hp)
      | false => rfl
    | remove enabled =>
      cases enabled with
      | true => cases hquiet
      | false => exact hremove.put nofun
    | unregister => exact hremove.put nofun
    | addFunc | set => cases hquiet

/-- Where the calls for the job do not overlap, the cron has the entry of the table and no other
when they have returned; and once a call that does not register the job has removed the entry,
there is none for as long as no later call reads that the job is enabled. -/
theorem cron_of_apart {as : List Action} (hg : Meets step Apart {} as) (hr : run step {} as = some s) :
    (s.calls = [] → s.cron = s.entry.toList) ∧
    ∀ i ok bs t, s.calls[i]? = some .unregister ∨ s.calls[i]? = some (.remove false) →
      Meets step Off s (.next i ok :: bs) → run step s (.next i ok :: bs) = some t → t.cron = [] := by
  have hinv : Inv s := run_invariant (fun _ _ _ => inv_step) (show Inv {} from rfl) hg hr
  refine ⟨fun hc => by rwa [Inv, hc] at hinv, fun i ok bs t hi hoff ht => ?_⟩
  obtain ⟨u, hu, ht⟩ := run_cons.mp ht
  have hcleared : Cleared u := by
    obtain hi | hi := hi <;>
    · obtain ⟨rfl, hc⟩ := calls_eq hinv hi
      rw [step, hi] at hu
      cases hu
      rw [Inv, hc] at hinv
      refine ⟨remove_vacant hinv, ?_⟩
      rw [State.next, put_calls ((remove_calls s).trans hc)]
      nofun
  exact (run_invariant (fun _ _ _ => cleared_step) hcleared (meets_cons hoff hu).2 ht).1.1

theorem cron_of_apart_registered :
    let as := [.change (some true), .registerJob, .next 0 true, .next 0 true, .next 0 true, .next 0 true]
    (∃ s, Meets step Apart {} as ∧ run step {} as = some s ∧ s.entry = some 1 ∧ s.cron = s.entry.toList) ∧
      ∃ s t, Meets step Apart {} (as ++ [.change none, .unregisterJob]) ∧
        run step {} (as ++ [.change none, .unregisterJob]) = some s ∧ s.cron = [1] ∧
        run step s [.next 0 true, .registerJob, .next 0 true] = some t ∧ t.calls = [] ∧ t.cron = [] := by
  intro as
  have hg : Meets step Apart {} as := ⟨trivial, rfl, trivial, trivial, trivial, trivial, trivial⟩
  have hg' : Meets step Apart {} (as ++ [.change none, .unregisterJob]) :=
    ⟨trivial, rfl, trivial, trivial, trivial, trivial, trivial, rfl, trivial⟩
  refine ⟨⟨_, hg, rfl, rfl, (cron_of_apart hg rfl).1 rfl⟩, _, _, hg', rfl, rfl, rfl, rfl, ?_⟩
  refine (cron_of_apart hg' rfl).2 0 true [.registerJob, .next 0 true] _ (.inl rfl) ?_ rfl
  exact ⟨fun h => (nomatch h), trivial, fun _ h => (nomatch h), trivial⟩

/-- Two registrations that both removed the old entry leave two, of which the table has one;
and one that read the record of a job adds an entry after the job's deletion removed it. -/
theorem cron_orphaned :
    (∃ s, run step {} [.change (some true), .registerJob, .registerJob, .next 0 true, .next 1 true, .next 0 true,
        .next 1 true, .next 0 true, .next 1 true, .next 0 true, .next 0 true] = some s ∧
      s.calls = [] ∧ s.cron = [2, 1] ∧ s.entry = some 2) ∧
    ∃ s, run step {} [.change (some true), .registerJob, .next 0 true, .next 0 true, .change none, .unregisterJob,
        .next 1 true, .next 0 true, .next 0 true] = some s ∧
      s.calls = [] ∧ s.record = none ∧ s.cron = [1] :=
  ⟨⟨_, rfl, rfl, rfl, rfl⟩, _, rfl, rfl, rfl, rfl⟩

end Wireops.Jobs.Registration
