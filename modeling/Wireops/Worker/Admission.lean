import Wireops.Worker.Results
import Wireops.Worker.Slots

namespace Wireops.Worker.Admission

open Function Option List Protocol Lib.Steps Lib.Table Worker.Handlers Worker.Slots

/-- The closure of `HandleRunJob`, one shared operation at a time. -/
inductive JobPhase where
  | mark | activate | start | running | deactivate | unmark | ended
  deriving DecidableEq

/-- A task runs the handler of a received copy, or the closure of a job. -/
inductive Work where
  | copy (k : Nat)
  | job (cmd : RunJobCommand) (phase : JobPhase)

structure Task where
  seat : Seat
  work : Work

/-- Where the read loop is with the envelope it handles: `DispatchThrottled`,
`HandleRunJob` and `TryScheduleThrottled` run on its goroutine. -/
inductive ReadPhase where
  | checkAccepting
  | lookup
  | judge (entry : DurableResultEntry)
  | expire
  | checkRunning
  | schedule (p : Attempt)
  | refuse (draining : Bool)
  | record (task : Nat)
  | store (task now : Nat)
  | release
  | trySweep
  | sweep (now : Nat)
  | evict (now : Nat) (commandID : String)
  | reply

/-- `admitted` and `refused` are the commands of which a copy was scheduled or
refused, `acceptedAt` when that was for the admitted jobs. -/
structure State extends Load where
  worker : Handlers.State := {}
  accepting : Bool := true
  activeJobs : String → Bool := fun _ => false
  tasks : Nat → Option Task := fun _ => none
  nextTask : Nat := 0
  reading : Option (Command × ReadPhase) := none
  admitted : List String := []
  acceptedAt : String → Option Nat := fun _ => none
  refused : List String := []

/-- `others` is what light and interactive commands do to the queue counter
they share with the heavy class. -/
inductive Action where
  | setAcceptingWork (accept : Bool)
  | others (d : Int)
  | deliver (cmd : Command)
  | read
  | pick (commandID : String)
  | task (i : Nat)
  | handler (a : Handlers.Action)
  deriving DecidableEq, Repr

def isJob : Command → Bool
  | .runJob _ => true
  | _ => false

def jobRunID : Command → String
  | .runJob c => c.jobRunID
  | _ => ""

def acceptResult (commandID : String) : CommandResult := ⟨commandID, "", "queued", ""⟩

/-- A refusal that would carry no id is not sent; only the overload refusal of
`HandleRunJob` does not look at the id. -/
def silent (cmd : Command) (draining : Bool) : Bool :=
  cmd.commandID == "" && (draining || !isJob cmd)

namespace State

def goto (s : State) (cmd : Command) (p : ReadPhase) : State :=
  { s with reading := some (cmd, p) }

def idle (s : State) : State :=
  { s with reading := none }

def withLoad (s : State) (l : Load) : State :=
  { s with toLoad := l }

def withWorker (s : State) (w : Handlers.State) : State :=
  { s with worker := w }

def setTask (s : State) (i : Nat) (t : Task) : State :=
  { s with tasks := update s.tasks i (some t) }

end State

variable (lim : Limits) (s : State) (cmd : Command)

def turnAway (draining : Bool) : State :=
  if silent cmd draining then s.idle
  else { s.goto cmd (.refuse draining) with refused := cmd.commandID :: s.refused }

def scheduleJob (seat : Seat) (c : RunJobCommand) : State :=
  { s.goto (.runJob c) (.record s.nextTask) with
    tasks := update s.tasks s.nextTask (some ⟨seat, .job c .mark⟩)
    nextTask := s.nextTask + 1
    admitted := c.commandID :: s.admitted
    acceptedAt := update s.acceptedAt c.commandID (some s.worker.now) }

def scheduleCopy (seat : Seat) (cmd : Command) : State :=
  { s.idle with
    worker := receive s.worker cmd
    tasks := update s.tasks s.nextTask (some ⟨seat, .copy s.worker.nextCopy⟩)
    nextTask := s.nextTask + 1
    admitted := cmd.commandID :: s.admitted }

def schedule (seat : Seat) : Command → State
  | .runJob c => scheduleJob s seat c
  | cmd => scheduleCopy s seat cmd

/-- What the verdict of `TryScheduleThrottled` on its last operation leads to. -/
def settle : Verdict → State
  | .goesOn p => s.goto cmd (.schedule p)
  | .accepted seat => schedule s seat cmd
  | .rejected => turnAway s cmd false

def read : ReadPhase → State
  | .checkAccepting =>
    if s.accepting then s.goto cmd (if isJob cmd then .lookup else .schedule .trySlot)
    else turnAway s cmd true
  | .lookup =>
    match s.worker.completed cmd.commandID with
    | none => s.goto cmd .checkRunning
    | some entry => s.goto cmd (.judge entry)
  | .judge entry =>
    if fresh s.worker.now entry then
      s.idle.withWorker (s.worker.send entry.result (some entry.exec))
    else s.goto cmd .expire
  | .expire => (s.goto cmd .checkRunning).withWorker (delete s.worker cmd.commandID)
  | .checkRunning =>
    if s.activeJobs (jobRunID cmd) then
      s.idle.withWorker (s.worker.send (acceptResult cmd.commandID) none)
    else s.goto cmd (.schedule .trySlot)
  | .schedule p =>
    let (verdict, l) := attempt lim .heavy s.toLoad p
    settle (s.withLoad l) cmd verdict
  | .refuse draining =>
    s.idle.withWorker (s.worker.send (refusal cmd.commandID draining) none)
  | .record task => s.goto cmd (.store task s.worker.now)
  | .store task now => (s.goto cmd .release).withWorker { s.worker with
      completed := update s.worker.completed cmd.commandID
        (some ⟨acceptResult cmd.commandID, now, task⟩) }
  | .release => (s.goto cmd .trySweep).withWorker { s.worker with
      claimed := update s.worker.claimed cmd.commandID false }
  | .trySweep =>
    if s.worker.sweeping then s.goto cmd .reply
    else (s.goto cmd (.sweep s.worker.now)).withWorker { s.worker with sweeping := true }
  | .sweep _ => (s.goto cmd .reply).withWorker { s.worker with sweeping := false }
  | .evict now commandID => (s.goto cmd (.sweep now)).withWorker (delete s.worker commandID)
  | .reply => s.idle.withWorker (s.worker.send (acceptResult cmd.commandID) none)

/-- The next operation of a job's closure. The container runs from `running`
on. -/
def runJob (i : Nat) (cmd : RunJobCommand) : JobPhase → State
  | .mark => { s.setTask i ⟨.held, .job cmd .activate⟩ with
      activeJobs := update s.activeJobs cmd.jobRunID true }
  | .activate => (s.setTask i ⟨.held, .job cmd .start⟩).withWorker { s.worker with
      active := update s.worker.active cmd.commandID true }
  | .start => s.setTask i ⟨.held, .job cmd .running⟩
  | .running => s.setTask i ⟨.held, .job cmd .deactivate⟩
  | .deactivate => (s.setTask i ⟨.held, .job cmd .unmark⟩).withWorker { s.worker with
      active := update s.worker.active cmd.commandID false }
  | .unmark => { s.setTask i ⟨.held, .job cmd .ended⟩ with
      activeJobs := update s.activeJobs cmd.jobRunID false }
  | .ended => (s.setTask i ⟨.freed, .job cmd .ended⟩).withLoad (s.free .heavy)

/-- The next operation of a task's goroutine, the handler of a copy between its
first and its last operation apart. -/
def advanceTask (i : Nat) : Task → Option State
  | ⟨.held, .copy k⟩ => do
    let c ← s.worker.copies k
    match c.phase with
    -- from here on the steps are the handler's own, until it is done
    | .queued => (Handlers.step s.worker (.advance k)).map s.withWorker
    | .done _ _ => some ((s.setTask i ⟨.freed, .copy k⟩).withLoad (s.free .heavy))
    | _ => none
  | ⟨.held, .job cmd phase⟩ => some (runJob s i cmd phase)
  | ⟨seat, work⟩ => (seat.advance lim .heavy s.toLoad).map fun (seat, l) =>
      (s.setTask i ⟨seat, work⟩).withLoad l

/-- What the handlers do by themselves: the read loop receives and refuses, and
the task of a copy starts its handler. -/
def inside (w : Handlers.State) : Handlers.Action → Bool
  | .tick _ | .complete _ _ _ | .pick _ _ => true
  | .advance k => (w.copies k).any (fun c => c.phase != .queued)
  | .receive _ | .refuse _ _ => false

def step (lim : Limits) (s : State) : Action → Option State
  | .setAcceptingWork accept => some { s with accepting := accept }
  | .others d => some (s.withLoad (s.queue d))
  | .deliver cmd =>
    if s.reading = none ∧ (claims cmd || isJob cmd) then some (s.goto cmd .checkAccepting) else none
  | .read => s.reading.map (fun r => read lim s r.1 r.2)
  | .pick commandID =>
    match s.reading, s.worker.completed commandID with
    | some (cmd, .sweep now), some entry =>
      if fresh now entry then none else some (s.goto cmd (.evict now commandID))
    | _, _ => none
  | .task i => (s.tasks i).bind (advanceTask lim s i)
  | .handler a =>
    if inside s.worker a then (Handlers.step s.worker a).map s.withWorker else none

def Rejected (commandID : String) : Prop :=
  ∃ m ∈ s.worker.outbox, m.exec = none ∧ ∃ draining, m.result = refusal commandID draining

def begun : JobPhase → Bool
  | .mark | .activate | .start => false
  | .running | .deactivate | .unmark | .ended => true

def Executed (commandID : String) : Prop :=
  (∃ e, ∃ x ∈ s.worker.execs e, x.cmd.commandID = commandID) ∨
    ∃ i, ∃ t ∈ s.tasks i, ∃ cmd p, t.work = .job cmd p ∧ begun p = true ∧ cmd.commandID = commandID

/-- No command that was answered with a refusal has an execution. Neither is
ever taken back, so along a run this is about the executions before the answer
and those after it. -/
def Honest : Prop :=
  ∀ commandID, Rejected s commandID → ¬ Executed s commandID

/-- The queue has no room for the copy. -/
def crowded (l : Load) : Attempt → Bool
  | .checkQueue => isQueueFull lim l
  | .recheck => lim.maxQueueDepth < l.queuedTasks
  | _ => false

/-- What is asked where the read loop handles a copy. For a job the queue may be
full: the cache or `ActiveJobs` answers a later copy, unless the answer has
expired and the job does not run. -/
def Prepared : ReadPhase → Prop
  | .checkAccepting => s.accepting = false → cmd.commandID ∉ s.admitted
  | .checkRunning => ∀ at_ ∈ s.acceptedAt cmd.commandID,
      s.worker.now ≤ at_ + completedDurableRetention ∨ s.activeJobs (jobRunID cmd) = true
  | .schedule p => isJob cmd = false → crowded lim s.toLoad p = true → cmd.commandID ∉ s.admitted
  | _ => True

/-- No copy is delivered of a command that was refused, and none that has the id of
a command of another class. -/
def Admissible : Action → Prop
  | .deliver cmd => cmd.commandID ∉ s.refused ∧
      (cmd.commandID ∈ s.admitted → isJob cmd = (s.acceptedAt cmd.commandID).isSome)
  | .read => ∀ r ∈ s.reading, Prepared lim s r.1 r.2
  | _ => True

instance (lim : Limits) (s : State) (cmd : Command) (p : ReadPhase) : Decidable (Prepared lim s cmd p) := by
  unfold Prepared
  split <;> infer_instance

instance (lim : Limits) (s : State) (a : Action) : Decidable (Admissible lim s a) := by
  unfold Admissible
  split <;> infer_instance

variable {lim : Limits} {s t : State} {a : Action} {w w' : Handlers.State} {cmd : Command}

section Handlers

/-- The worker has received no copy and refused none. -/
structure Quiet (w w' : Handlers.State) : Prop where
  copies : ∀ k c, w'.copies k = some c → ∃ j d, w.copies j = some d ∧ d.cmd = c.cmd
  execs : ∀ e x, w'.execs e = some x → (∃ y, w.execs e = some y ∧ y.cmd = x.cmd) ∨
    ∃ k c, w.copies k = some c ∧ c.cmd = x.cmd
  sent : ∀ m ∈ w'.outbox, m ∈ w.outbox ∨ m.exec ≠ none

theorem handler_quiet {a : Handlers.Action} (h : Handlers.step w a = some w')
    (hr : ∀ cmd, a ≠ .receive cmd) (hf : ∀ cmd draining, a ≠ .refuse cmd draining) : Quiet w w' where
  copies k c hc := by
    cases Results.step_outcome h with
    | tick | silent => exact ⟨k, c, hc, rfl⟩
    | receive cmd => exact absurd rfl (hr cmd)
    | refuse cmd draining => exact absurd rfl (hf cmd draining)
    | turn hc' _ hcopies _ =>
      rw [hcopies] at hc
      obtain ⟨_, rfl⟩ | ⟨_, hc⟩ := update_some_cases hc
      · exact ⟨_, _, hc', rfl⟩
      · exact ⟨k, c, hc, rfl⟩
  execs e x hx := by
    obtain hy | ⟨k, c, hc, hcmd, _⟩ := Results.step_execs h hx
    · exact .inl hy
    · exact .inr ⟨k, c, hc, hcmd⟩
  sent m hm := by
    cases Results.step_outcome h with
    | tick | silent | receive => exact .inl hm
    | refuse cmd draining => exact absurd rfl (hf cmd draining)
    | turn _ _ _ turn =>
      obtain hm | ⟨entry, _, _, rfl⟩ | ⟨e, r, _, rfl⟩ := turn.sent hm
      · exact .inl hm
      · exact .inr (some_ne_none _)
      · exact .inr (some_ne_none _)

/-- A sweep has the time it began at, and deletes entries that have lapsed. -/
def Timed (now : Nat) (lapsed : String → Prop) : Phase → Prop
  | .sweep _ _ at_ => at_ ≤ now
  | .evict _ _ at_ commandID => at_ ≤ now ∧ lapsed commandID
  | _ => True

variable {lapsed lapsed' : String → Prop} {now now' : Nat}

theorem Timed.imp {p : Phase} (h : Timed now lapsed p) (hnow : now ≤ now')
    (himp : ∀ commandID, lapsed commandID → lapsed' commandID) : Timed now' lapsed' p := by
  cases p with
  | sweep => exact Nat.le_trans h hnow
  | evict => exact ⟨Nat.le_trans h.1 hnow, himp _ h.2⟩
  | _ => trivial

theorem advance_timed {k : Nat} {c : Copy} (ha : advance w k c c.phase = some w')
    (ht : Timed w.now lapsed c.phase) : w'.now = w.now ∧
      (∃ p after, w'.copies = update w.copies k (some ⟨c.cmd, p, after⟩) ∧ Timed w.now lapsed p) ∧
      ∃ commandID x, w'.completed = update w.completed commandID x ∧
        (commandID = c.cmd.commandID ∨ x = none ∧ lapsed commandID) := by
  have same : w.completed = update w.completed c.cmd.commandID (w.completed c.cmd.commandID) :=
    (update_eq_self _ _).symm
  generalize c.phase = p at ha ht
  cases p with
  | queued | activate | start | release | sweep | reply | deactivate =>
    cases ha
    exact ⟨rfl, ⟨_, _, rfl, trivial⟩, _, _, same, .inl rfl⟩
  | checkActive =>
    cases ha
    unfold begin_
    dsimp only
    split <;> exact ⟨rfl, ⟨_, _, rfl, trivial⟩, _, _, same, .inl rfl⟩
  | lookup =>
    cases ha
    unfold Handlers.lookup
    split <;> exact ⟨rfl, ⟨_, _, rfl, trivial⟩, _, _, same, .inl rfl⟩
  | judge =>
    cases ha
    unfold judge
    split <;> exact ⟨rfl, ⟨_, _, rfl, trivial⟩, _, _, same, .inl rfl⟩
  | claim =>
    cases ha
    unfold claim
    split <;> exact ⟨rfl, ⟨_, _, rfl, trivial⟩, _, _, same, .inl rfl⟩
  | trySweep =>
    cases ha
    unfold trySweep
    split
    · exact ⟨rfl, ⟨_, _, rfl, trivial⟩, _, _, same, .inl rfl⟩
    · exact ⟨rfl, ⟨_, _, rfl, Nat.le_refl _⟩, _, _, same, .inl rfl⟩
  | expire | store =>
    cases ha
    exact ⟨rfl, ⟨_, _, rfl, trivial⟩, _, _, rfl, .inl rfl⟩
  | evict =>
    cases ha
    exact ⟨rfl, ⟨_, _, rfl, ht.1⟩, _, _, rfl, .inr ⟨rfl, ht.2⟩⟩
  | running | done => cases ha

theorem step_timed {a : Handlers.Action} (h : Handlers.step w a = some w') (hr : ∀ cmd, a ≠ .receive cmd)
    (hlapsed : ∀ commandID entry, w.completed commandID = some entry →
      entry.storedAt + completedDurableRetention < w.now → lapsed commandID)
    (htimed : ∀ k c, w.copies k = some c → Timed w.now lapsed c.phase) :
    w.now ≤ w'.now ∧ (∀ k c, w'.copies k = some c → Timed w'.now lapsed c.phase) ∧
      ∀ commandID, w'.completed commandID = w.completed commandID ∨
        (∃ k c, w.copies k = some c ∧ c.cmd.commandID = commandID) ∨
        w'.completed commandID = none ∧ lapsed commandID := by
  cases step_fires h with
  | tick d =>
    have hle : w.now ≤ w.now + d := Nat.le_add_right _ _
    exact ⟨hle, fun k c hc => (htimed k c hc).imp hle (fun _ h => h), fun _ => .inl rfl⟩
  | receive => exact absurd rfl (hr _)
  | refuse | refuseSilently => exact ⟨Nat.le_refl _, htimed, fun _ => .inl rfl⟩
  | complete output error hc hp =>
    exact ⟨Nat.le_refl _, forall_update_some htimed trivial, fun _ => .inl rfl⟩
  | @pick k _ at_ c _ commandID entry hc hp he hf =>
    have hle := htimed k c hc
    rw [hp] at hle
    have hle : at_ ≤ w.now := hle
    refine ⟨Nat.le_refl _, forall_update_some htimed ⟨hle, hlapsed _ _ he ?_⟩, fun _ => .inl rfl⟩
    have hstale := mt fresh_iff.mpr (ne_true_of_eq_false hf)
    omega
  | @advance k c _ hc ha =>
    obtain ⟨hnow, ⟨p, after, hcopies, hp⟩, id, x, hcompleted, hid⟩ := advance_timed ha (htimed k c hc)
    refine ⟨Nat.le_of_eq hnow.symm, ?_, fun commandID => ?_⟩
    · rw [hcopies, hnow]
      exact forall_update_some htimed hp
    · rw [hcompleted]
      by_cases heq : commandID = id
      · subst heq
        rw [update_self]
        obtain rfl | hnone := hid
        · exact .inr (.inl ⟨k, c, hc, rfl⟩)
        · exact .inr (.inr hnone)
      · exact .inl (update_of_ne heq _ _)

end Handlers

section Invariant

/-- The answer to a job of that id, if there was one, is not kept any more. -/
def Lapsed (s : State) (commandID : String) : Prop := commandID ∈ s.admitted ∧
  ∀ at_ ∈ s.acceptedAt commandID, at_ + completedDurableRetention < s.worker.now

def Undecided (s : State) (cmd : Command) : Prop := cmd.commandID ∉ s.refused ∧
  (cmd.commandID ∈ s.admitted → isJob cmd = (s.acceptedAt cmd.commandID).isSome)

/-- What the read loop knows of the copy it handles. -/
def Learned (s : State) (cmd : Command) : ReadPhase → Prop
  | .checkAccepting | .lookup => Undecided s cmd
  | .judge entry => Undecided s cmd ∧ ∀ at_ ∈ s.acceptedAt cmd.commandID, at_ ≤ entry.storedAt
  | .expire | .checkRunning => Undecided s cmd ∧
      ∀ at_ ∈ s.acceptedAt cmd.commandID, at_ + completedDurableRetention < s.worker.now
  | .schedule p => Undecided s cmd ∧ (isJob cmd = true ∨ p = .withdraw → cmd.commandID ∉ s.admitted)
  | .refuse _ => cmd.commandID ∈ s.refused
  | .record _ => cmd.commandID ∈ s.admitted
  | .store _ now => cmd.commandID ∈ s.admitted ∧ ∀ at_ ∈ s.acceptedAt cmd.commandID, at_ ≤ now
  | .sweep now => now ≤ s.worker.now
  | .evict now commandID => now ≤ s.worker.now ∧ Lapsed s commandID
  | .release | .trySweep | .reply => True

/-- The read loop is about to store the answer. -/
def Storing : Option (Command × ReadPhase) → String → Prop
  | some (cmd, .record _), commandID | some (cmd, .store ..), commandID => cmd.commandID = commandID
  | _, _ => False

/-- All that may run was let in, every refusal was decided, no command is on
both sides, and the answer to a job is cached as long as it is kept. -/
structure Inv (s : State) : Prop where
  copies : ∀ k c, s.worker.copies k = some c → c.cmd.commandID ∈ s.admitted ∧ s.acceptedAt c.cmd.commandID = none
  timed : ∀ k c, s.worker.copies k = some c → Timed s.worker.now (Lapsed s) c.phase
  execs : ∀ e x, s.worker.execs e = some x → x.cmd.commandID ∈ s.admitted
  jobs : ∀ i x cmd p, s.tasks i = some x → x.work = .job cmd p → cmd.commandID ∈ s.admitted
  sent : ∀ m ∈ s.worker.outbox, m.exec = none → ∀ commandID draining,
    m.result = refusal commandID draining → commandID ∈ s.refused
  reading : ∀ cmd p, s.reading = some (cmd, p) → Learned s cmd p
  apart : ∀ commandID ∈ s.refused, commandID ∉ s.admitted
  accepted : ∀ commandID at_, s.acceptedAt commandID = some at_ → commandID ∈ s.admitted ∧ at_ ≤ s.worker.now
  entries : ∀ commandID entry, s.worker.completed commandID = some entry →
    commandID ∈ s.admitted ∧ ∀ at_ ∈ s.acceptedAt commandID, at_ ≤ entry.storedAt
  kept : ∀ commandID at_, s.acceptedAt commandID = some at_ →
    at_ + completedDurableRetention < s.worker.now ∨ s.worker.completed commandID ≠ none ∨ Storing s.reading commandID

theorem inv_init : Inv {} where
  copies _ _ h := by cases h
  timed _ _ h := by cases h
  execs _ _ h := by cases h
  jobs _ _ _ _ h := by cases h
  sent := forall_mem_nil _
  reading _ _ h := by cases h
  apart := forall_mem_nil _
  accepted _ _ h := by cases h
  entries _ _ h := by cases h
  kept _ _ h := by cases h

theorem Lapsed.later {commandID : String} (h : Lapsed s commandID) (hnow : s.worker.now ≤ w.now) :
    Lapsed (s.withWorker w) commandID :=
  ⟨h.1, fun at_ hat => Nat.lt_of_lt_of_le (h.2 at_ hat) hnow⟩

theorem Learned.later {p : ReadPhase} (h : Learned s cmd p) (hnow : s.worker.now ≤ w.now) :
    Learned (s.withWorker w) cmd p := by
  cases p with
  | expire | checkRunning => exact ⟨h.1, fun at_ hat => Nat.lt_of_lt_of_le (h.2 at_ hat) hnow⟩
  | sweep now => exact Nat.le_trans h hnow
  | evict now commandID => exact ⟨Nat.le_trans h.1 hnow, h.2.later hnow⟩
  | _ => exact h

theorem Inv.lapsed (hs : Inv s) {commandID : String} {entry : DurableResultEntry} {now : Nat}
    (he : s.worker.completed commandID = some entry) (hnow : now ≤ s.worker.now)
    (hstale : entry.storedAt + completedDurableRetention < now) : Lapsed s commandID := by
  refine ⟨(hs.entries commandID entry he).1, fun at_ hat => ?_⟩
  have := (hs.entries commandID entry he).2 at_ hat
  omega

theorem Inv.handler (hs : Inv s) {a : Handlers.Action} (h : Handlers.step s.worker a = some w)
    (hr : ∀ cmd, a ≠ .receive cmd) (hf : ∀ cmd draining, a ≠ .refuse cmd draining) : Inv (s.withWorker w) := by
  have quiet := handler_quiet h hr hf
  obtain ⟨hnow, htimed, hcache⟩ := step_timed h hr
    (fun _ _ he hstale => hs.lapsed he (Nat.le_refl _) hstale) hs.timed
  refine { hs with
    copies := fun k c hc => ?_
    timed := fun k c hc => (htimed k c hc).imp (Nat.le_refl _) (fun _ h => h.later hnow)
    execs := fun e x hx => ?_
    sent := fun m hm he => ?_
    reading := fun cmd p h => (hs.reading cmd p h).later hnow
    accepted := fun id at_ hat => ?_
    entries := fun id entry he => ?_
    kept := fun id at_ hat => ?_ }
  · obtain ⟨j, d, hd, hcmd⟩ := quiet.copies k c hc
    exact hcmd ▸ hs.copies j d hd
  · obtain ⟨y, hy, hcmd⟩ | ⟨k, c, hc, hcmd⟩ := quiet.execs e x hx
    · exact hcmd ▸ hs.execs e y hy
    · exact hcmd ▸ (hs.copies k c hc).1
  · obtain hm | hexec := quiet.sent m hm
    · exact hs.sent m hm he
    · exact absurd he hexec
  · exact ⟨(hs.accepted id at_ hat).1, Nat.le_trans (hs.accepted id at_ hat).2 hnow⟩
  · obtain hsame | ⟨k, c, hc, rfl⟩ | ⟨hnone, _⟩ := hcache id
    · exact hs.entries id entry (hsame ▸ he)
    · obtain ⟨hmem, hcopy⟩ := hs.copies k c hc
      refine ⟨hmem, fun at_ hat => ?_⟩
      cases hcopy.symm.trans hat
    · cases hnone.symm.trans he
  · obtain hlate | hcached | hstoring := hs.kept id at_ hat
    · exact .inl (Nat.lt_of_lt_of_le hlate hnow)
    · obtain hsame | ⟨k, c, hc, rfl⟩ | ⟨_, hlapsed⟩ := hcache id
      · exact .inr (.inl (hsame ▸ hcached))
      · cases (hs.copies k c hc).2.symm.trans hat
      · exact .inl (Nat.lt_of_lt_of_le (hlapsed.2 at_ hat) hnow)
    · exact .inr (.inr hstoring)

theorem Inv.cache (hs : Inv s) (commandID : String) (x : Option DurableResultEntry)
    (hsome : ∀ entry ∈ x, commandID ∈ s.admitted ∧ ∀ at_ ∈ s.acceptedAt commandID, at_ ≤ entry.storedAt)
    (hnone : x = none → ∀ at_ ∈ s.acceptedAt commandID, at_ + completedDurableRetention < s.worker.now) :
    Inv (s.withWorker { s.worker with completed := update s.worker.completed commandID x }) := by
  refine { hs with
    entries := fun id entry he => ?_
    kept := fun id at_ hat => ?_ }
  · have he : update s.worker.completed commandID x id = some entry := he
    by_cases hid : id = commandID
    · subst hid
      rw [update_self] at he
      exact hsome entry he
    · rw [update_of_ne hid] at he
      exact hs.entries id entry he
  · by_cases hid : id = commandID
    · subst hid
      cases x with
      | none => exact .inl (hnone rfl at_ hat)
      | some entry =>
        refine .inr (.inl ?_)
        show update _ _ _ _ ≠ _
        rw [update_self]
        exact some_ne_none entry
    · refine (hs.kept id at_ hat).imp_right (.imp_left fun hcached => ?_)
      show update _ _ _ _ ≠ _
      rwa [update_of_ne hid]

theorem Inv.send (hs : Inv s) {r : CommandResult} {exec : Option Nat}
    (h : exec = none → ∀ commandID draining, r = refusal commandID draining → commandID ∈ s.refused) :
    Inv (s.withWorker (s.worker.send r exec)) := by
  refine { hs with sent := fun m hm he => ?_ }
  obtain hm | hm := mem_append.mp hm
  · exact hs.sent m hm he
  · cases mem_singleton.mp hm
    exact h he

theorem refusal_error (commandID : String) (draining : Bool) : (refusal commandID draining).error ≠ "" := by
  cases draining <;> simp [refusal]

theorem Inv.sendAccept (hs : Inv s) (commandID : String) :
    Inv (s.withWorker (s.worker.send (acceptResult commandID) none)) := by
  refine hs.send fun _ id draining h => ?_
  exact absurd (congrArg CommandResult.error h).symm (refusal_error id draining)

theorem Inv.reads (hs : Inv s) {r : Option (Command × ReadPhase)} (hl : ∀ cmd p, r = some (cmd, p) → Learned s cmd p)
    (hstore : ∀ id, Storing s.reading id → Storing r id ∨ s.worker.completed id ≠ none) :
    Inv { s with reading := r } := by
  refine { hs with reading := hl, kept := fun id at_ hat => ?_ }
  obtain hlate | hcached | hstoring := hs.kept id at_ hat
  · exact .inl hlate
  · exact .inr (.inl hcached)
  · exact .inr (hstore id hstoring).symm

variable {p q : ReadPhase}

def stores : ReadPhase → Bool
  | .record _ | .store .. => true
  | _ => false

theorem not_storing (hr : s.reading = some (cmd, p)) (hp : stores p = false) (commandID : String) :
    ¬ Storing s.reading commandID := by
  rw [hr]
  cases p with
  | record | store => cases hp
  | _ => exact id

section

variable (hs : Inv s) (hr : s.reading = some (cmd, p)) (hp : stores p = false)

include hs hr hp

theorem Inv.goto (hl : Learned s cmd q) : Inv (s.goto cmd q) := by
  refine hs.reads (fun cmd' q' h => ?_) (fun id h => absurd h (not_storing hr hp id))
  cases h
  exact hl

theorem Inv.idle : Inv s.idle :=
  hs.reads (fun _ _ h => by cases h) (fun id h => absurd h (not_storing hr hp id))

theorem Inv.turnAway (hid : cmd.commandID ∉ s.admitted) (draining : Bool) : Inv (turnAway s cmd draining) := by
  unfold Admission.turnAway
  split
  · exact hs.idle hr hp
  · exact {
      hs with
      sent := fun m hm he id draining h => mem_cons_of_mem _ (hs.sent m hm he id draining h)
      reading := fun _ _ h => by
        cases h
        exact mem_cons_self
      apart := forall_mem_cons.mpr ⟨hid, hs.apart⟩
      kept := fun id at_ hat =>
        (hs.kept id at_ hat).imp_right (.imp_right fun h => absurd h (not_storing hr hp id)) }

end

theorem apart_cons {admitted refused : List String} {commandID : String}
    (h : ∀ i ∈ refused, i ∉ admitted) (hid : commandID ∉ refused) : ∀ i ∈ refused, i ∉ commandID :: admitted := by
  intro i hi
  rw [mem_cons, not_or]
  exact ⟨fun he => hid (he ▸ hi), h i hi⟩

section

variable (hs : Inv s) (seat : Seat) (hr : s.reading = some (cmd, p)) (hp : stores p = false)
  (hid : cmd.commandID ∉ s.refused)

include hs hr hp hid

theorem Inv.scheduleCopy (hcopy : s.acceptedAt cmd.commandID = none) : Inv (scheduleCopy s seat cmd) where
  copies := forall_update_some
    (fun k d hd => ⟨mem_cons_of_mem _ (hs.copies k d hd).1, (hs.copies k d hd).2⟩) ⟨mem_cons_self, hcopy⟩
  timed := forall_update_some
    (fun k d hd => (hs.timed k d hd).imp (Nat.le_refl _) fun _ h => ⟨mem_cons_of_mem _ h.1, h.2⟩) trivial
  execs e x hx := mem_cons_of_mem _ (hs.execs e x hx)
  jobs i x cmd' q hx hw := by
    obtain ⟨_, rfl⟩ | ⟨_, hx⟩ := update_some_cases hx
    · cases hw
    · exact mem_cons_of_mem _ (hs.jobs i x cmd' q hx hw)
  sent := hs.sent
  reading _ _ h := by cases h
  apart := apart_cons hs.apart hid
  accepted id at_ hat := ⟨mem_cons_of_mem _ (hs.accepted id at_ hat).1, (hs.accepted id at_ hat).2⟩
  entries id entry he := ⟨mem_cons_of_mem _ (hs.entries id entry he).1, (hs.entries id entry he).2⟩
  kept id at_ hat :=
    (hs.kept id at_ hat).imp_right (.imp_right fun h => absurd h (not_storing hr hp id))

end

section

variable (hs : Inv s)

include hs

theorem Inv.scheduleJob (seat : Seat) {c : RunJobCommand}
    (hr : s.reading = some (.runJob c, p)) (hp : stores p = false) (hid : c.commandID ∉ s.refused)
    (hnew : c.commandID ∉ s.admitted) : Inv (scheduleJob s seat c) := by
  have hold {id : String} (h : id ∈ s.admitted) :
      update s.acceptedAt c.commandID (some s.worker.now) id = s.acceptedAt id :=
    update_of_ne (fun he : id = c.commandID => hnew (he ▸ h)) _ _
  have hlapsed {id : String} (h : Lapsed s id) : Lapsed (Admission.scheduleJob s seat c) id :=
    ⟨mem_cons_of_mem _ h.1, fun at_ hat => h.2 at_ ((hold h.1).symm.trans hat)⟩
  refine { hs with
    copies := fun k d hd => ⟨mem_cons_of_mem _ (hs.copies k d hd).1, ?_⟩
    timed := fun k d hd => (hs.timed k d hd).imp (Nat.le_refl _) fun _ => hlapsed
    execs := fun e x hx => mem_cons_of_mem _ (hs.execs e x hx)
    jobs := fun i x cmd q hx hw => ?_
    reading := fun cmd q h => ?_
    apart := apart_cons hs.apart hid
    accepted := fun id at_ hat => ?_
    entries := fun id entry he => ?_
    kept := fun id at_ hat => ?_ }
  · exact (hold (hs.copies k d hd).1).trans (hs.copies k d hd).2
  · obtain ⟨_, rfl⟩ | ⟨_, hx⟩ := update_some_cases hx
    · cases hw
      exact mem_cons_self
    · exact mem_cons_of_mem _ (hs.jobs i x cmd q hx hw)
  · cases h
    exact mem_cons_self
  · obtain ⟨rfl, rfl⟩ | ⟨_, hat⟩ := update_some_cases hat
    · exact ⟨mem_cons_self, Nat.le_refl _⟩
    · exact ⟨mem_cons_of_mem _ (hs.accepted id at_ hat).1, (hs.accepted id at_ hat).2⟩
  · obtain ⟨hmem, hle⟩ := hs.entries id entry he
    exact ⟨mem_cons_of_mem _ hmem, fun at_ hat => hle at_ ((hold hmem).symm.trans hat)⟩
  · obtain ⟨rfl, rfl⟩ | ⟨_, hat⟩ := update_some_cases hat
    · exact .inr (.inr rfl)
    · exact (hs.kept id at_ hat).imp_right (.imp_right fun h => absurd h (not_storing hr hp id))

theorem Inv.schedule (seat : Seat) {x : Attempt}
    (hr : s.reading = some (cmd, .schedule x)) : Inv (schedule s seat cmd) := by
  obtain ⟨⟨hid, hclass⟩, hnew⟩ := hs.reading _ _ hr
  have hcopy (hj : isJob cmd = false) : s.acceptedAt cmd.commandID = none := by
    cases hat : s.acceptedAt cmd.commandID with
    | none => rfl
    | some at_ =>
      have hsome := hclass (hs.accepted _ _ hat).1
      rw [hj, hat] at hsome
      cases hsome
  cases cmd with
  | runJob c => exact hs.scheduleJob seat hr rfl hid (hnew (.inl rfl))
  | _ => exact hs.scheduleCopy seat hr rfl hid (hcopy rfl)

theorem Inv.load (l : Load) : Inv (s.withLoad l) :=
  { hs with }

theorem Inv.attempt {x : Attempt} (hr : s.reading = some (cmd, .schedule x))
    (hg : Prepared lim s cmd (.schedule x)) : Inv (read lim s cmd (.schedule x)) := by
  obtain ⟨hundecided, hnew⟩ := hs.reading _ _ hr
  have hcrowded (h : crowded lim s.toLoad x = true) : cmd.commandID ∉ s.admitted := by
    cases hj : isJob cmd with
    | true => exact hnew (.inl hj)
    | false => exact hg hj h
  have hnext {y : Attempt} (l : Load) (hy : y ≠ .withdraw) : Inv ((s.withLoad l).goto cmd (.schedule y)) :=
    (hs.load l).goto hr rfl ⟨hundecided, fun h => hnew (.inl (h.resolve_right hy))⟩
  rw [read]
  cases x with
  | trySlot =>
    simp only [Slots.attempt]
    split
    · exact (hs.load _).schedule _ hr
    · exact hnext _ Attempt.noConfusion
  | checkQueue =>
    simp only [Slots.attempt]
    split
    · next hfull => exact (hs.load _).turnAway hr rfl (hcrowded hfull) false
    · exact hnext _ Attempt.noConfusion
  | enqueue => exact hnext _ Attempt.noConfusion
  | recheck =>
    simp only [Slots.attempt]
    split
    · next hfull =>
      exact (hs.load _).goto hr rfl ⟨hundecided, fun _ => hcrowded (decide_eq_true hfull)⟩
    · exact (hs.load _).schedule _ hr
  | withdraw => exact (hs.load (s.queue (-1))).turnAway hr rfl (hnew (.inr rfl)) false

theorem Inv.read (hr : s.reading = some (cmd, p)) (hg : Prepared lim s cmd p) :
    Inv (read lim s cmd p) := by
  have hl := hs.reading cmd p hr
  cases p with
  | checkAccepting =>
    rw [Admission.read]
    split
    · refine hs.goto hr rfl ?_
      cases hj : isJob cmd with
      | true => exact hl
      | false => exact ⟨hl, fun h => by simp [hj] at h⟩
    · next h => exact hs.turnAway hr rfl (hg (eq_false_of_ne_true h)) true
  | lookup =>
    rw [Admission.read]
    split
    · next hnone =>
      refine hs.goto hr rfl ⟨hl, fun at_ hat => ?_⟩
      exact (hs.kept _ at_ hat).resolve_right
        (not_or.mpr ⟨fun h => h hnone, not_storing hr rfl _⟩)
    · next entry he => exact hs.goto hr rfl ⟨hl, (hs.entries _ entry he).2⟩
  | judge entry =>
    rw [Admission.read]
    split
    · exact (hs.idle hr rfl).send (fun h => by cases h)
    · next hstale =>
      have hstale := mt fresh_iff.mpr hstale
      refine hs.goto hr rfl ⟨hl.1, fun at_ hat => ?_⟩
      have := hl.2 at_ hat
      omega
  | expire => exact (hs.cache _ none (fun _ h => by cases h) (fun _ => hl.2)).goto hr rfl hl
  | checkRunning =>
    rw [Admission.read]
    split
    · exact (hs.idle hr rfl).sendAccept _
    · next hidle =>
      refine hs.goto hr rfl ⟨hl.1, fun hj hmem => ?_⟩
      have hjob : (s.acceptedAt cmd.commandID).isSome = true :=
        (hl.1.2 hmem).symm.trans (hj.resolve_right Attempt.noConfusion)
      obtain ⟨at_, hat⟩ := isSome_iff_exists.mp hjob
      have hlate := hl.2 at_ hat
      exact (hg at_ hat).elim (fun h => by omega) hidle
  | schedule x => exact hs.attempt hr hg
  | refuse draining =>
    refine (hs.idle hr rfl).send fun _ id draining' h => ?_
    -- a refusal names its command, so the one sent is of no other
    have hid : cmd.commandID = id := congrArg CommandResult.commandID h
    exact hid ▸ hl
  | record task =>
    refine hs.reads (fun _ _ h => ?_) (fun id h => .inl ?_)
    · cases h
      exact ⟨hl, fun at_ hat => (hs.accepted _ at_ hat).2⟩
    · rw [hr] at h
      exact h
  | store task now =>
    have hcached := hs.cache cmd.commandID (some ⟨acceptResult cmd.commandID, now, task⟩)
      (fun _ h => by cases h; exact hl) (fun h => by cases h)
    refine hcached.reads (fun _ _ h => by cases h; trivial) (fun id h => .inr ?_)
    have h : Storing s.reading id := h
    rw [hr] at h
    cases h
    show update _ _ _ _ ≠ _
    rw [update_self]
    exact some_ne_none _
  | release => exact { hs.goto (q := .trySweep) hr rfl trivial with }
  | trySweep =>
    rw [Admission.read]
    split
    · exact hs.goto hr rfl trivial
    · exact { hs.goto (q := .sweep s.worker.now) hr rfl (Nat.le_refl _) with }
  | sweep => exact { hs.goto (q := .reply) hr rfl trivial with }
  | evict now id => exact (hs.cache id none (fun _ h => by cases h) (fun _ => hl.2.2)).goto hr rfl hl.1
  | reply => exact (hs.idle hr rfl).sendAccept _

theorem Inv.setTask {i : Nat} {x y : Task} (hx : s.tasks i = some x)
    (hw : ∀ cmd p, y.work = .job cmd p → ∃ q, x.work = .job cmd q) : Inv (s.setTask i y) := by
  refine { hs with jobs := fun j z cmd p hz hp => ?_ }
  obtain ⟨_, rfl⟩ | ⟨_, hz⟩ := update_some_cases hz
  · obtain ⟨q, hq⟩ := hw cmd p hp
    exact hs.jobs i x cmd q hx hq
  · exact hs.jobs j z cmd p hz hp

theorem Inv.advanceTask {i : Nat} {x : Task} (hx : s.tasks i = some x)
    (h : advanceTask lim s i x = some t) : Inv t := by
  unfold Admission.advanceTask at h
  split at h
  · obtain ⟨c, _, h⟩ := bind_eq_some_iff.mp h
    split at h
    · obtain ⟨w', hw, rfl⟩ := map_eq_some_iff.mp h
      exact hs.handler hw (by simp) (by simp)
    · cases h
      exact (hs.setTask hx (by simp)).load _
    · cases h
  · next cmd phase =>
    cases h
    have hset (q : JobPhase) (seat : Seat) : Inv (s.setTask i ⟨seat, .job cmd q⟩) := by
      refine hs.setTask hx (fun cmd' p hp => ?_)
      cases hp
      exact ⟨phase, rfl⟩
    cases phase <;> exact { hset _ _ with }
  · obtain ⟨⟨seat', l⟩, _, rfl⟩ := map_eq_some_iff.mp h
    exact (hs.setTask (y := ⟨seat', _⟩) hx (fun _ p hp => ⟨p, hp⟩)).load l

end

theorem step_inv (lim : Limits) (s : State) (a : Action) (t : State) (hs : Inv s)
    (hg : Admissible lim s a) (h : step lim s a = some t) : Inv t := by
  cases a with
  | setAcceptingWork | others =>
    cases h
    exact { hs with }
  | deliver cmd =>
    obtain ⟨⟨hnone, _⟩, ⟨⟩⟩ := ite_none_right_eq_some.mp h
    refine hs.reads (fun _ _ h => ?_) (fun id h => ?_)
    · cases h
      exact hg
    · rw [hnone] at h
      cases h
  | read =>
    obtain ⟨⟨cmd, p⟩, hr, rfl⟩ := map_eq_some_iff.mp h
    exact hs.read hr (hg _ hr)
  | pick commandID =>
    simp only [step] at h
    split at h
    · next cmd now entry hr he =>
      obtain ⟨hstale, ⟨⟩⟩ := ite_none_left_eq_some.mp h
      have hle : now ≤ s.worker.now := hs.reading _ _ hr
      refine hs.goto hr rfl ⟨hle, hs.lapsed he hle ?_⟩
      exact Nat.lt_of_not_le (mt fresh_iff.mpr hstale)
    · cases h
  | task i =>
    obtain ⟨x, hx, h⟩ := bind_eq_some_iff.mp h
    exact hs.advanceTask hx h
  | handler a =>
    obtain ⟨hin, h⟩ := ite_none_right_eq_some.mp h
    obtain ⟨w', hw, rfl⟩ := map_eq_some_iff.mp h
    refine hs.handler hw ?_ ?_
    · rintro cmd rfl
      cases hin
    · rintro cmd draining rfl
      cases hin

theorem Inv.honest (hs : Inv s) : Honest s := by
  rintro commandID ⟨m, hm, he, draining, hr⟩ hx
  refine hs.apart commandID (hs.sent m hm he commandID draining hr) ?_
  obtain ⟨e, x, hx, rfl⟩ | ⟨i, x, hx, cmd, p, hw, _, rfl⟩ := hx
  · exact hs.execs e x hx
  · exact hs.jobs i x cmd p hx hw

end Invariant

/-- In every interleaving of deliveries, drains and handlers that meets the
condition. -/
theorem honest_of_admissible (lim : Limits) {as : List Action} {t : State}
    (hg : Meets (step lim) (Admissible lim) {} as) (hr : run (step lim) {} as = some t) : Honest t :=
  (run_invariant (step_inv lim) inv_init hg hr).honest

def oneSlot : Limits := ⟨1, 1, 1, 1⟩

def deploy (commandID : String) : Command := .deploy ⟨commandID, "", "stack", "c1"⟩

def job (commandID : String) : Command := .runJob ⟨commandID, "", "run-1"⟩

def opened : List Action :=
  [Action.deliver (deploy "sync-1"), .read, .read, .task 0] ++ List.replicate 5 (Action.handler (.advance 0))

def handled (cmd : Command) (reads : Nat) : List Action :=
  Action.deliver cmd :: List.replicate reads Action.read

/-- A job takes the place in the queue. Another copy of it is answered from the
cache, and another deploy is refused. -/
def jobQueued : List Action :=
  opened ++ handled (job "job-1") 13 ++ handled (job "job-1") 3 ++ handled (deploy "sync-2") 4

theorem job_queued_honest : ∃ t ∈ run (step oneSlot) {} jobQueued, Honest t ∧
    Rejected t "sync-2" ∧ Executed t "sync-1" :=
  ⟨_, rfl, @honest_of_admissible oneSlot jobQueued _ (by decide) rfl,
    ⟨_, mem_cons_of_mem _ (mem_cons_of_mem _ (mem_singleton_self _)), rfl, false, rfl⟩, .inl ⟨0, _, rfl, rfl⟩⟩

/-- A redelivered copy of a running deploy is answered with a refusal, by the
full queue and by the drain. -/
theorem running_deploy_refused :
    (∃ t ∈ run (step oneSlot) {} (opened ++ handled (deploy "sync-2") 5 ++ handled (deploy "sync-1") 4), ¬ Honest t) ∧
    ∃ t ∈ run (step oneSlot) {} (opened ++ [Action.setAcceptingWork false] ++ handled (deploy "sync-1") 2),
      ¬ Honest t :=
  ⟨⟨_, rfl, fun h => h "sync-1" ⟨_, mem_singleton_self _, rfl, false, rfl⟩
      (.inl ⟨0, _, rfl, rfl⟩)⟩, ⟨_, rfl, fun h => h "sync-1" ⟨_, mem_singleton_self _, rfl, true, rfl⟩
      (.inl ⟨0, _, rfl, rfl⟩)⟩⟩

end Wireops.Worker.Admission
