import Wireops.Lib.Census
import Wireops.Lib.Steps
import Wireops.Worker.Slots

namespace Wireops.Worker.Throttle

open Bool Option Lib.Steps Lib.Census Worker.Slots

/-- `InitSemaphores` panics on a capacity that is not positive. -/
structure Config extends Limits where
  heavy_pos : 0 < heavy
  light_pos : 0 < light
  interactive_pos : 0 < interactive

theorem Config.capacity_pos (cfg : Config) (c : Semaphore) : 0 < cfg.capacity c := by
  cases c with
  | heavy => exact cfg.heavy_pos
  | light => exact cfg.light_pos
  | interactive => exact cfg.interactive_pos

/-- The next operation on a shared value of a call of `TryScheduleThrottled` and
of its goroutine. From `markHeavy` and `ready` on the call has returned true, or
is about to. -/
inductive Phase where
  | attempt (p : Attempt)
  | rejected
  | markHeavy
  | waiting
  | dequeue
  | unmarkHeavy
  | ready
  | running
  | ending
  | ended
  deriving DecidableEq

structure Call where
  sem : Semaphore
  phase : Phase

/-- `started` records every call of a task's `fn`. -/
structure State extends Load where
  queuedHeavy : Int := 0
  calls : List Call := []
  started : List Nat := []

inductive Action where
  | call (sem : Semaphore)
  | advance (i : Nat)
  deriving DecidableEq, Repr

def State.goto (s : State) (i : Nat) (x : Call) (p : Phase) (l : Load) : State :=
  { s with toLoad := l, calls := s.calls.set i { x with phase := p } }

def settled : Verdict → Phase
  | .goesOn p => .attempt p
  | .accepted .waiting => .markHeavy
  | .accepted _ => .ready
  | .rejected => .rejected

/-- `TryScheduleThrottled` up to its return, then the goroutine: `RunThrottled`,
with the two counters for a queued call, `fn`, and the slot. -/
def advance (cfg : Config) (s : State) (i : Nat) (x : Call) : Option State :=
  match x.phase with
  | .attempt p =>
    let (verdict, l) := attempt cfg.toLimits x.sem s.toLoad p
    some (s.goto i x (settled verdict) l)
  | .markHeavy =>
    some { s.goto i x .waiting s.toLoad with
      queuedHeavy := if x.sem = .heavy then s.queuedHeavy + 1 else s.queuedHeavy }
  | .waiting => (runThrottled cfg.toLimits x.sem s.toLoad).map (s.goto i x .dequeue)
  | .dequeue => some (s.goto i x .unmarkHeavy (s.queue (-1)))
  | .unmarkHeavy =>
    some { s.goto i x .ready s.toLoad with
      queuedHeavy := if x.sem = .heavy then s.queuedHeavy - 1 else s.queuedHeavy }
  | .ready => some { s.goto i x .running s.toLoad with started := i :: s.started }
  | .running => some (s.goto i x .ending s.toLoad)
  | .ending => if 0 < s.slots x.sem then some (s.goto i x .ended (s.free x.sem)) else none
  | .rejected | .ended => none

def step (cfg : Config) (s : State) : Action → Option State
  | .call sem => some { s with calls := s.calls ++ [⟨sem, .attempt .trySlot⟩] }
  | .advance i => s.calls[i]?.bind (advance cfg s i)

namespace Phase

def accepted : Phase → Bool
  | .attempt _ | .rejected => false
  | _ => true

def begun : Phase → Bool
  | .running | .ending | .ended => true
  | _ => false

def finished : Phase → Bool
  | .rejected | .ended => true
  | _ => false

def waits : Phase → Bool
  | .markHeavy | .waiting => true
  | _ => false

def queued : Phase → Bool
  | .markHeavy | .waiting | .dequeue => true
  | _ => false

/-- Counted in `QueuedTasks`, as a task or by a call that may still withdraw. -/
def counted : Phase → Bool
  | .attempt .recheck | .attempt .withdraw | .markHeavy | .waiting | .dequeue => true
  | _ => false

def marked : Phase → Bool
  | .waiting | .dequeue | .unmarkHeavy => true
  | _ => false

def holding : Phase → Bool
  | .dequeue | .unmarkHeavy | .ready | .running | .ending => true
  | _ => false

/-- How many operations are left, at most. -/
def rank : Phase → Nat
  | .attempt .trySlot => 11
  | .attempt .checkQueue => 10
  | .attempt .enqueue => 9
  | .attempt .recheck => 8
  | .attempt .withdraw => 1
  | .markHeavy => 7
  | .waiting => 6
  | .dequeue => 5
  | .unmarkHeavy => 4
  | .ready => 3
  | .running => 2
  | .ending => 1
  | .rejected | .ended => 0

end Phase

namespace Call

def waits (x : Call) : Nat := x.phase.waits.toNat
def unstarted (x : Call) : Nat := (x.phase.accepted && !x.phase.begun).toNat
def queued (x : Call) : Nat := x.phase.queued.toNat
def counted (x : Call) : Nat := x.phase.counted.toNat
def marked (x : Call) : Nat := if x.sem = .heavy then x.phase.marked.toNat else 0
def holding (c : Semaphore) (x : Call) : Nat := if x.sem = c then x.phase.holding.toNat else 0
def rank (x : Call) : Nat := x.phase.rank

end Call

namespace State

def running (s : State) (c : Semaphore) : Nat := total (Call.holding c) s.calls

def waiting (s : State) : Nat := total Call.waits s.calls

def unstarted (s : State) : Nat := total Call.unstarted s.calls

def work (s : State) : Nat := total Call.rank s.calls

def Finished (s : State) : Prop := ∀ x ∈ s.calls, x.phase.finished = true

end State

/-- The guarantees of the throttle in a state. The last two fields are what
"eventually" rests on: some operation is enabled until every call is finished,
and without new calls only so many can follow. -/
structure Guarantees (cfg : Config) (s : State) : Prop where
  queue : s.waiting ≤ cfg.maxQueueDepth
  capacity : ∀ c, s.running c ≤ cfg.capacity c
  queuedTasks : 0 ≤ s.queuedTasks
  queuedHeavy : 0 ≤ s.queuedHeavy
  drained : s.Finished → s.queuedTasks = 0 ∧ s.queuedHeavy = 0
  once : ∀ i, s.started.count i ≤ 1
  ran : s.Finished → ∀ i x, s.calls[i]? = some x → x.phase.accepted = true → s.started.count i = 1
  refused : ∀ i x, s.calls[i]? = some x → x.phase = .rejected → i ∉ s.started
  progress : ¬ s.Finished → ∃ i t, step cfg s (.advance i) = some t
  bounded : ∀ (is : List Nat) (t : State), run (step cfg) s (is.map Action.advance) = some t → is.length ≤ s.work

variable {cfg : Config} {s t : State} {i : Nat} {x : Call}

/-- What one operation of a call does, by the phases before and after it: each
shared value moves with the weight of the call. -/
structure Moves (cfg : Config) (s : State) (i : Nat) (x : Call) (p : Phase) (t : State) : Prop where
  calls : t.calls = s.calls.set i ⟨x.sem, p⟩
  queuedTasks : t.queuedTasks + x.phase.counted.toNat = s.queuedTasks + p.counted.toNat
  queuedHeavy : t.queuedHeavy + x.marked = s.queuedHeavy + (Call.mk x.sem p).marked
  slots : ∀ c, t.slots c + x.holding c = s.slots c + (Call.mk x.sem p).holding c
  room : p.queued.toNat ≤ x.phase.queued.toNat ∨ x.phase.counted = true ∧ s.queuedTasks ≤ cfg.maxQueueDepth
  free : ∀ c, (Call.mk x.sem p).holding c ≤ x.holding c ∨ s.slots c < cfg.capacity c
  started : t.started = if x.phase = .ready then i :: s.started else s.started
  begun : p.begun = (x.phase.begun || x.phase == .ready)
  rank : p.rank < x.phase.rank

theorem advance_moves (h : advance cfg s i x = some t) : ∃ p, Moves cfg s i x p t := by
  obtain ⟨c, p⟩ := x
  cases p <;> simp only [advance, reduceCtorEq, ite_none_right_eq_some, Option.some.injEq,
    runThrottled, map_eq_some_iff] at h
  case' waiting => obtain ⟨_, ⟨hslots, rfl⟩, h⟩ := h
  case' ending => obtain ⟨hslots, h⟩ := h
  case' attempt p => cases p <;> simp only [attempt] at h
  case' attempt.trySlot | attempt.checkQueue | attempt.recheck => split at h
  all_goals
    subst h
    refine ⟨_, rfl, ?_, ?_, fun c' => ?_, ?_, fun c' => ?_, ?_, ?_, ?_⟩
  all_goals simp_all [settled, hasSlot, isQueueFull, State.goto, Load.take, Load.free, Load.queue,
    Call.marked, Call.holding, Phase.counted, Phase.marked, Phase.holding, Phase.queued, Phase.begun,
    Phase.rank, Function.update_apply]
  all_goals grind

structure Inv (cfg : Config) (s : State) : Prop where
  queuedTasks : s.queuedTasks = total Call.counted s.calls
  queuedHeavy : s.queuedHeavy = total Call.marked s.calls
  slots : ∀ c, s.slots c = s.running c
  queued : total Call.queued s.calls ≤ cfg.maxQueueDepth
  capacity : ∀ c, s.slots c ≤ cfg.capacity c
  started : ∀ i, s.started.count i = (s.calls[i]?.any (fun x => x.phase.begun)).toNat

theorem init_inv (cfg : Config) : Inv cfg {} where
  queuedTasks := rfl
  queuedHeavy := rfl
  slots _ := rfl
  queued := Nat.zero_le _
  capacity _ := Nat.zero_le _
  started _ := rfl

theorem call_inv (hinv : Inv cfg s) (c : Semaphore) :
    Inv cfg { s with calls := s.calls ++ [⟨c, .attempt .trySlot⟩] } where
  queuedTasks := by simp [total_append, hinv.queuedTasks, total, Call.counted, Phase.counted]
  queuedHeavy := by simp [total_append, hinv.queuedHeavy, total, Call.marked, Phase.marked]
  slots c' := by
    simp [total_append, hinv.slots c', State.running, total, Call.holding, Phase.holding]
  queued := by simpa [total_append, total, Call.queued, Phase.queued] using hinv.queued
  capacity := hinv.capacity
  started i := by
    rw [hinv.started i, List.getElem?_append]
    split
    · rfl
    · next h =>
      rw [List.getElem?_eq_none (Nat.le_of_not_lt h)]
      cases i - s.calls.length <;> rfl

section
variable {p : Phase}

theorem Moves.total_eq (h : Moves cfg s i x p t) (hx : s.calls[i]? = some x) (f : Call → Nat) :
    total f t.calls + f x = total f s.calls + f ⟨x.sem, p⟩ := by
  rw [h.calls]
  exact total_set f hx _

theorem Moves.work_lt (h : Moves cfg s i x p t) (hx : s.calls[i]? = some x) : t.work < s.work := by
  have hw := h.total_eq hx Call.rank
  have hr : (Call.mk x.sem p).rank < x.rank := h.rank
  unfold State.work
  omega

theorem queued_le_counted (x : Call) : x.queued ≤ x.counted := by
  unfold Call.queued Call.counted
  cases x.phase with
  | attempt p => exact Nat.zero_le _
  | _ => decide

section

variable (h : Moves cfg s i x p t) (hx : s.calls[i]? = some x)

include h hx

theorem Moves.queued_le (hinv : Inv cfg s) : total Call.queued t.calls ≤ cfg.maxQueueDepth := by
  obtain hroom | ⟨hcounted, hroom⟩ := h.room
  · have hq := h.total_eq hx Call.queued
    have hle : (Call.mk x.sem p).queued ≤ x.queued := hroom
    have := hinv.queued
    omega
  · have hc := h.total_eq hx Call.counted
    have hx1 : x.counted = 1 := by simp [Call.counted, hcounted]
    have hp1 : (Call.mk x.sem p).counted ≤ 1 := toNat_le _
    have hle := total_mono queued_le_counted t.calls
    have := hinv.queuedTasks
    omega

theorem Moves.count_started (hinv : Inv cfg s) (j : Nat) :
    t.started.count j = (t.calls[j]?.any (fun y => y.phase.begun)).toNat := by
  have hs := hinv.started j
  rw [h.started, h.calls]
  by_cases hj : i = j
  · subst hj
    rw [hx] at hs
    rw [List.getElem?_set_self (List.getElem?_eq_some_iff.mp hx).1]
    simp only [any_some, h.begun] at hs ⊢
    by_cases hr : x.phase = .ready
    · simp [hr, hs, Phase.begun]
    · simp [hr, hs, beq_eq_false_iff_ne.mpr hr]
  · rw [List.getElem?_set_ne hj, ← hs]
    split
    · exact List.count_cons_of_ne hj
    · rfl

theorem Moves.inv (hinv : Inv cfg s) : Inv cfg t where
  queuedTasks := by
    have hc := h.total_eq hx Call.counted
    have := h.queuedTasks
    have := hinv.queuedTasks
    simp only [Call.counted] at hc
    omega
  queuedHeavy := by
    have hm := h.total_eq hx Call.marked
    have := h.queuedHeavy
    have := hinv.queuedHeavy
    omega
  slots c := by
    have hh := h.total_eq hx (Call.holding c)
    have := h.slots c
    have := hinv.slots c
    unfold State.running at *
    omega
  queued := h.queued_le hx hinv
  capacity c := by
    have := h.slots c
    have := hinv.capacity c
    obtain hle | hlt := h.free c
    · omega
    · have : (Call.mk x.sem p).holding c ≤ 1 := by
        simp only [Call.holding]
        split
        · exact toNat_le _
        · exact Nat.zero_le _
      omega
  started := h.count_started hx hinv

end

end

theorem step_inv (s : State) (a : Action) (t : State) (hinv : Inv cfg s) (h : step cfg s a = some t) : Inv cfg t := by
  cases a with
  | call c =>
    cases h
    exact call_inv hinv c
  | advance i =>
    obtain ⟨x, hx, h⟩ := bind_eq_some_iff.mp h
    obtain ⟨p, hmoves⟩ := advance_moves h
    exact hmoves.inv hx hinv

theorem run_inv {as : List Action} (h : run (step cfg) {} as = some s) : Inv cfg s :=
  run_invariant_of_step step_inv (init_inv cfg) h

theorem waits_le_queued (x : Call) : x.waits ≤ x.queued := by
  unfold Call.waits Call.queued
  cases x.phase <;> simp [Phase.waits, Phase.queued]

theorem total_of_finished {f : Call → Nat} (hf : ∀ x : Call, x.phase.finished = true → f x = 0)
    (h : s.Finished) : total f s.calls = 0 :=
  total_eq_zero (fun x hx => hf x (h x hx))

theorem unweighted_of_finished {p : Phase} (h : p.finished = true) : p.counted = false ∧ p.marked = false := by
  cases p <;> simp_all [Phase.counted, Phase.marked, Phase.finished]

theorem begun_of_finished {p : Phase} (h : p.finished = true) (ha : p.accepted = true) : p.begun = true := by
  cases p <;> simp_all [Phase.finished, Phase.accepted, Phase.begun]

theorem enabled (hinv : Inv cfg s) (hx : s.calls[i]? = some x) (hf : x.phase.finished = false)
    (hw : x.phase = .waiting → s.slots x.sem < cfg.capacity x.sem) : ∃ t, step cfg s (.advance i) = some t := by
  simp only [step, hx, bind_some]
  obtain ⟨c, p⟩ := x
  cases p with
  | waiting =>
    refine ⟨_, map_eq_some_iff.mpr ⟨_, if_pos ?_, rfl⟩⟩
    exact decide_eq_true (hw rfl)
  | ending =>
    have hle := le_total (Call.holding c) hx
    have hpos : 0 < s.slots c := by
      rw [hinv.slots c]
      exact Nat.lt_of_lt_of_le (by simp [Call.holding, Phase.holding]) hle
    exact ⟨_, if_pos hpos⟩
  | rejected | ended => simp [Phase.finished] at hf
  | attempt | markHeavy | dequeue | unmarkHeavy | ready | running => exact ⟨_, rfl⟩

theorem finished_of_holding {p : Phase} (h : p.holding = true) : p.finished = false := by
  cases p <;> simp_all [Phase.holding, Phase.finished]

theorem progress (hinv : Inv cfg s) (h : ¬ s.Finished) : ∃ i t, step cfg s (.advance i) = some t := by
  simp only [State.Finished, not_forall, not_eq_true] at h
  obtain ⟨x, hmem, hf⟩ := h
  obtain ⟨i, hx⟩ := List.getElem?_of_mem hmem
  by_cases hfree : s.slots x.sem < cfg.capacity x.sem
  · exact ⟨i, enabled hinv hx hf (fun _ => hfree)⟩
  · have hpos : 0 < total (Call.holding x.sem) s.calls := by
      have := cfg.capacity_pos x.sem
      have := hinv.slots x.sem
      unfold State.running at this
      omega
    obtain ⟨j, y, hy, hheld⟩ := exists_of_total_pos hpos
    have hheld : y.phase.holding = true := by
      unfold Call.holding at hheld
      split at hheld
      · cases hp : y.phase.holding with
        | true => rfl
        | false => simp [hp] at hheld
      · exact absurd hheld (Nat.lt_irrefl 0)
    exact ⟨j, enabled hinv hy (finished_of_holding hheld)
      (fun hw => absurd hheld (by simp [hw, Phase.holding]))⟩

theorem length_le_work {is : List Nat} (h : run (step cfg) s (is.map Action.advance) = some t) :
    is.length ≤ s.work := by
  induction is generalizing s with
  | nil => exact Nat.zero_le _
  | cons i is ih =>
    obtain ⟨u, hu, h⟩ := run_cons.mp h
    obtain ⟨x, hx, hu⟩ := bind_eq_some_iff.mp hu
    obtain ⟨p, hmoves⟩ := advance_moves hu
    exact Nat.lt_of_le_of_lt (ih h) (hmoves.work_lt hx)

/-- The throttle keeps its guarantees in every state of every run. -/
theorem run_guarantees (cfg : Config) (as : List Action) (s : State)
    (h : run (step cfg) {} as = some s) : Guarantees cfg s := by
  have hinv := run_inv h
  exact {
    queue := Nat.le_trans (total_mono waits_le_queued s.calls) hinv.queued
    capacity := fun c => hinv.slots c ▸ hinv.capacity c
    queuedTasks := by
      rw [hinv.queuedTasks]
      exact Int.natCast_nonneg _
    queuedHeavy := by
      rw [hinv.queuedHeavy]
      exact Int.natCast_nonneg _
    drained := fun hf => by
      have hc : total Call.counted s.calls = 0 :=
        total_of_finished (fun x hx => by simp [Call.counted, unweighted_of_finished hx]) hf
      have hm : total Call.marked s.calls = 0 :=
        total_of_finished (fun x hx => by simp [Call.marked, unweighted_of_finished hx]) hf
      exact ⟨by rw [hinv.queuedTasks, hc]; rfl, by rw [hinv.queuedHeavy, hm]; rfl⟩
    once := fun i => hinv.started i ▸ toNat_le _
    ran := fun hf i x hx ha => by
      have hb := begun_of_finished (hf x (List.mem_of_getElem? hx)) ha
      simp [hinv.started i, hx, hb]
    refused := fun i x hx hr => by
      have hcount : s.started.count i = 0 := by simp [hinv.started i, hx, hr, Phase.begun]
      exact List.count_eq_zero.mp hcount
    progress := progress hinv
    bounded := fun is t => length_le_work }

def narrow : Config :=
  { heavy := 1, light := 1, interactive := 1, maxQueueDepth := 1
    heavy_pos := Nat.one_pos, light_pos := Nat.one_pos, interactive_pos := Nat.one_pos }

/-- The first call takes the slot, and the second, which found none, is let
into the queue before the goroutine of the first has called its `fn`. -/
def twoCalls : List Action :=
  [Action.call .heavy, Action.advance 0, Action.call .heavy, Action.advance 1, Action.advance 1,
    Action.advance 1, Action.advance 1, Action.advance 1]

/-- A task that took a free slot is accepted before its `fn` is called. -/
theorem unstarted_exceeds_depth : ∃ s ∈ run (step narrow) {} twoCalls, narrow.maxQueueDepth < s.unstarted :=
  run_reaches (by decide)

def twoTasks : List Action :=
  twoCalls ++ [Action.advance 0, Action.advance 0, Action.advance 0, Action.advance 1,
    Action.advance 1, Action.advance 1, Action.advance 1, Action.advance 1, Action.advance 1]

theorem run_guarantees_twoTasks : ∃ s ∈ run (step narrow) {} twoTasks, s.started = [1, 0] ∧ Guarantees narrow s := by
  have hrun : ∃ s ∈ run (step narrow) {} twoTasks, s.started = [1, 0] := run_reaches (by decide)
  obtain ⟨s, hs, h⟩ := hrun
  exact ⟨s, hs, h, run_guarantees narrow twoTasks s hs⟩

end Wireops.Worker.Throttle
