import Wireops.Lib.Steps
import Wireops.Lib.Table
import Wireops.Protocol
import Wireops.Worker.Slots

namespace Wireops.Worker.Drain

open Function Option List Protocol Lib.Steps Lib.Table Worker.Slots

/-- The semaphore that the switch of `readLoop` names; `HandleRunJob` takes the
heavy one. -/
def semaphore : MessageType → Semaphore
  | .deploy | .redeploy | .teardown | .runJob => .heavy
  | .probe | .inspect | .getStatus | .getResources => .light
  | _ => .interactive

/-- What a handler does to the shared tables. `begin_` is `beginDurableCommand`,
`finish` `finishDurableCommand`, `spool` the `Enqueue` of its result or
completion. -/
inductive Op where
  | begin_ | mark | register | execute | unmark | finish | spool | unregister
  deriving DecidableEq

/-- The handlers, one shared operation after the other. The answer to
`get_metrics` is sent without the spool. -/
def handler : MessageType → List Op
  | .deploy | .redeploy | .teardown => [.begin_, .register, .execute, .finish, .spool, .unregister]
  | .runJob => [.mark, .register, .execute, .unmark, .spool, .unregister, .unmark]
  | .killJob => [.execute, .spool]
  | .getMetrics => [.execute]
  | _ => [.register, .execute, .spool, .unregister]

def script (ty : MessageType) (valid : Bool) : List Op :=
  if valid then handler ty else [.spool]

/-- A command or job that was accepted, with what is left of its handler.
`ignored` is a copy of a command that is under way. -/
structure Task where
  ty : MessageType
  commandID : String
  jobRunID : String
  valid : Bool
  seat : Seat
  rest : List Op
  ignored : Bool := false

namespace Task

def finished (t : Task) : Bool := !t.rest.contains .execute && !t.rest.contains .spool

def underWay (t : Task) : Bool := t.rest.contains .unregister && !t.rest.contains .register

/-- Accepted, neither finished nor in `ActiveCommands`: it waits for a slot, has
not come to the store, or its handler has none. -/
def unseen (t : Task) : Bool := !t.finished && !t.underWay

def replies (t : Task) : Bool := (script t.ty t.valid).contains .spool && !t.ignored

end Task

/-- Where `drainAndFlush` is: before it counts the active commands, then the
active jobs, before it flushes the spool, before it counts what is pending. -/
inductive Phase where
  | off | countCommands | countJobs (commands : Nat) | flush | countPending | returned
  deriving DecidableEq

/-- `pending` are the tasks with a result in the spool, beside messages of other
origin. `accepted` is how many tasks there were when the shutdown started,
`late` that a loop was left at its deadline. -/
structure State where
  load : Load := {}
  tasks : Nat → Option Task := fun _ => none
  nextTask : Nat := 0
  activeCommands : List String := []
  activeJobs : List String := []
  completed : List String := []
  claimed : List String := []
  pending : List Nat := []
  others : Nat := 0
  acked : List Nat := []
  drain : Phase := .off
  accepted : Nat := 0
  late : Bool := false

namespace State

def setTask (s : State) (i : Nat) (t : Task) : State :=
  { s with tasks := update s.tasks i (some t) }

end State

/-- `work` is the next operation of a handler, `ok` whether a write of the spool
succeeds; `lose` is a file that `Pending` cannot read and puts in quarantine;
`past` tells that the deadline is over. -/
inductive Action where
  | accept (ty : MessageType) (commandID jobRunID : String) (valid : Bool)
  | takeSlot (i : Nat)
  | work (i : Nat) (ok : Bool)
  | freeSlot (i : Nat)
  | expire (commandID : String)
  | ack (i : Nat)
  | lose (i : Nat)
  | others (n : Nat)
  | shutdown
  | countCommands
  | countJobs (past : Bool)
  | flush
  | countPending (past : Bool)
  deriving DecidableEq, Repr

def newTask (s : State) (ty : MessageType) (commandID jobRunID : String) (valid : Bool) (seat : Seat) : State :=
  { s.setTask s.nextTask { ty, commandID, jobRunID, valid, seat, rest := script ty valid } with
    nextTask := s.nextTask + 1 }

def accept (lim : Limits) (s : State) (ty : MessageType) (commandID jobRunID : String) (valid : Bool) :
    Option State :=
  (tryScheduleThrottled lim (semaphore ty) s.load).map fun (seat, load) =>
    newTask { s with load } ty commandID jobRunID valid seat

/-- A copy of a command that is running or claimed is ignored; the cached result
of one that has finished is sent again. -/
def begin_ (s : State) (i : Nat) (t : Task) (ops : List Op) : State :=
  if t.commandID ∈ s.activeCommands then s.setTask i { t with rest := [], ignored := true }
  else if t.commandID ∈ s.completed then s.setTask i { t with rest := [.spool] }
  else if t.commandID ∈ s.claimed then s.setTask i { t with rest := [], ignored := true }
  else { s.setTask i { t with rest := ops } with claimed := t.commandID :: s.claimed }

def without (x : String) (l : List String) : List String := l.filter (fun y => y ≠ x)

def work (s : State) (i : Nat) (t : Task) (ok : Bool) (ops : List Op) : Op → State
  | .begin_ => begin_ s i t ops
  | .mark => { s.setTask i { t with rest := ops } with activeJobs := s.activeJobs.insert t.jobRunID }
  | .register =>
    { s.setTask i { t with rest := ops } with activeCommands := s.activeCommands.insert t.commandID }
  | .execute => s.setTask i { t with rest := ops }
  | .unmark => { s.setTask i { t with rest := ops } with activeJobs := without t.jobRunID s.activeJobs }
  | .finish =>
    { s.setTask i { t with rest := ops } with
      completed := s.completed.insert t.commandID
      claimed := without t.commandID s.claimed }
  | .spool =>
    { s.setTask i { t with rest := ops } with pending := if ok then i :: s.pending else s.pending }
  | .unregister =>
    { s.setTask i { t with rest := ops } with activeCommands := without t.commandID s.activeCommands }

def step (lim : Limits) (s : State) : Action → Option State
  | .accept ty commandID jobRunID valid => accept lim s ty commandID jobRunID valid
  | .takeSlot i => do
    let t ← s.tasks i
    (t.seat.advance lim (semaphore t.ty) s.load).map fun (seat, load) =>
      { s.setTask i { t with seat } with load }
  | .work i ok => do
    let t ← s.tasks i
    match t.seat, t.rest with
    | .held, op :: ops => some (work s i t ok ops op)
    | _, _ => none
  | .freeSlot i => do
    let t ← s.tasks i
    if t.seat = .held ∧ t.rest = [] then
      some { s.setTask i { t with seat := .freed } with load := s.load.free (semaphore t.ty) }
    else none
  | .expire commandID => some { s with completed := without commandID s.completed }
  | .ack i =>
    if i ∈ s.pending then some { s with pending := s.pending.filter (fun j => j ≠ i), acked := i :: s.acked }
    else none
  | .lose i => some { s with pending := s.pending.filter (fun j => j ≠ i) }
  | .others n => some { s with others := n }
  | .shutdown =>
    if s.drain = .off then some { s with drain := .countCommands, accepted := s.nextTask } else none
  | .countCommands =>
    if s.drain = .countCommands then some { s with drain := .countJobs s.activeCommands.length } else none
  | .countJobs past =>
    match s.drain with
    | .countJobs commands =>
      if commands + s.activeJobs.length = 0 then some { s with drain := .flush }
      else if past then some { s with drain := .flush, late := true }
      else some { s with drain := .countCommands }
    | _ => none
  | .flush => if s.drain = .flush then some { s with drain := .countPending } else none
  | .countPending past =>
    if s.drain = .countPending then
      if s.pending.length + s.others = 0 then some { s with drain := .returned }
      else if past then some { s with drain := .returned, late := true }
      else some { s with drain := .flush }
    else none

/-- When `drainAndFlush` returns before its deadline, the tasks that were accepted
when the shutdown started are finished, and their results were spooled and
acked. -/
def Drained (s : State) : Prop :=
  s.drain = .returned → s.late = false → ∀ i t, i < s.accepted → s.tasks i = some t →
    t.finished = true ∧ (t.replies = true → i ∈ s.acked)

/-- When the table of active commands is counted and empty, no accepted task is
left out of it; a task does not take the entry of another one with its id away; no file
of the spool fails. -/
def Seen (s : State) : Action → Prop
  | .countCommands => s.activeCommands = [] → ∀ i < s.accepted, ∀ t ∈ s.tasks i, t.unseen = false
  | .work i ok => ∀ t ∈ s.tasks i,
      (t.rest.head? = some .spool → ok = true) ∧ (t.rest.head? = some .unregister →
        ∀ j < s.nextTask, j ≠ i → ∀ u ∈ s.tasks j, u.underWay = true → u.commandID ≠ t.commandID)
  | .lose _ => False
  | _ => True

instance (s : State) (a : Action) : Decidable (Seen s a) := by
  unfold Seen
  split <;> infer_instance

/-- What is left of a handler deletes its entry at most once, and begins only
where it has a result to spool. -/
structure Sound (ops : List Op) : Prop where
  once : ops.count .unregister ≤ 1
  begins : .begin_ ∉ ops.tail
  replies : ops.head? = some .begin_ → .spool ∈ ops

instance (ops : List Op) : Decidable (Sound ops) :=
  decidable_of_iff (ops.count .unregister ≤ 1 ∧ .begin_ ∉ ops.tail ∧
    (ops.head? = some .begin_ → .spool ∈ ops)) ⟨fun ⟨h, h', h''⟩ => ⟨h, h', h''⟩, fun ⟨h, h', h''⟩ => ⟨h, h', h''⟩⟩

theorem sound_script (ty : MessageType) (valid : Bool) : Sound (script ty valid) := by
  cases valid <;> cases ty <;> decide

theorem Sound.tail {op : Op} {ops : List Op} (h : Sound (op :: ops)) : Sound ops where
  once := Nat.le_trans count_le_count_cons h.once
  begins hm := h.begins (mem_of_mem_tail hm)
  replies hh := by
    cases ops with
    | nil => cases hh
    | cons op' ops =>
      cases hh
      exact absurd mem_cons_self h.begins

/-- The zero count is behind the drain, and its deadline was not over. -/
def Phase.counted : Phase → Bool
  | .countJobs n => n == 0
  | .flush | .countPending | .returned => true
  | _ => false

structure Inv (s : State) : Prop where
  known : ∀ i t, s.tasks i = some t → i < s.nextTask
  sound : ∀ i t, s.tasks i = some t → Sound t.rest
  active : ∀ i t, s.tasks i = some t → t.underWay = true → t.commandID ∈ s.activeCommands
  spooled : ∀ i t, s.tasks i = some t → t.replies = true → .spool ∉ t.rest → i ∈ s.pending ∨ i ∈ s.acked
  finished : s.drain.counted = true → s.late = false → ∀ i t, i < s.accepted → s.tasks i = some t → t.finished = true
  acked : s.drain = .returned → s.late = false → ∀ i t, i < s.accepted → s.tasks i = some t →
    t.replies = true → i ∈ s.acked
  accepted : s.accepted ≤ s.nextTask

theorem Inv.init : Inv {} where
  known _ _ h := by cases h
  sound _ _ h := by cases h
  active _ _ h := by cases h
  spooled _ _ h := by cases h
  finished h := by cases h
  acked h := by cases h
  accepted := Nat.le_refl _

theorem Inv.drained {s : State} (hi : Inv s) : Drained s := by
  intro hd hl i t ha ht
  refine ⟨hi.finished ?_ hl i t ha ht, hi.acked hd hl i t ha ht⟩
  rw [hd]
  rfl

section Steps

variable {lim : Limits} {s : State} {i : Nat} {t u : Task}

theorem Inv.setTask (hi : Inv s) (ht : s.tasks i = some t) (hsound : Sound u.rest)
    (hactive : u.underWay = true → u.commandID ∈ s.activeCommands)
    (hspooled : u.replies = true → .spool ∉ u.rest → i ∈ s.pending ∨ i ∈ s.acked)
    (hfinished : t.finished = true → u.finished = true)
    (hreplies : u.replies = true → t.replies = true) : Inv (s.setTask i u) where
  known := forall_update_some hi.known (hi.known i t ht)
  sound := forall_update_some hi.sound hsound
  active := forall_update_some hi.active hactive
  spooled := forall_update_some hi.spooled hspooled
  finished hc hl j x ha hx := by
    obtain ⟨rfl, rfl⟩ | ⟨-, hx⟩ := update_some_cases hx
    · exact hfinished (hi.finished hc hl j t ha ht)
    · exact hi.finished hc hl j x ha hx
  acked hd hl j x ha hx hr := by
    obtain ⟨rfl, rfl⟩ | ⟨-, hx⟩ := update_some_cases hx
    · exact hi.acked hd hl j t ha ht (hreplies hr)
    · exact hi.acked hd hl j x ha hx hr
  accepted := hi.accepted

theorem Inv.counters (hi : Inv s) (load : Load) (others : Nat) (activeJobs completed claimed : List String) :
    Inv { s with load, others, activeJobs, completed, claimed } where
  __ := hi

variable {ops : List Op}

theorem finished_tail {op : Op} (hr : t.rest = op :: ops) (h : t.finished = true) :
    { t with rest := ops }.finished = true := by
  simp only [Task.finished, hr, contains_cons, Bool.not_or, Bool.and_eq_true] at h ⊢
  exact ⟨h.1.2, h.2.2⟩

theorem not_spooling (h : t.finished = true) : .spool ∉ t.rest := by
  simp only [Task.finished, Bool.and_eq_true, Bool.not_eq_true'] at h
  intro hmem
  rw [contains_iff_mem.mpr hmem] at h
  exact absurd h.2 (by decide)

theorem underWay_tail {op : Op} (hr : t.rest = op :: ops) (h : op ≠ .register)
    (h' : op ≠ .unregister) : { t with rest := ops }.underWay = t.underWay := by
  have hne : (Op.register == op) = false := beq_false_of_ne h.symm
  have hne' : (Op.unregister == op) = false := beq_false_of_ne h'.symm
  simp only [Task.underWay, hr, contains_cons, hne, hne', Bool.false_or]

section

variable (hi : Inv s) (ht : s.tasks i = some t)

include hi ht

theorem Inv.sound_rest (hr : t.rest = ops) : Sound ops :=
  hr ▸ hi.sound i t ht

theorem Inv.spooled_tail {op : Op}
    (hr : t.rest = op :: ops) (h : op ≠ .spool) (hu : { t with rest := ops }.replies = true) (hs : .spool ∉ ops) :
    i ∈ s.pending ∨ i ∈ s.acked := by
  apply hi.spooled i t ht hu
  rw [hr, mem_cons, not_or]
  exact ⟨h.symm, hs⟩

theorem Inv.pop {op : Op} (hr : t.rest = op :: ops) (h : op ≠ .register) (h' : op ≠ .unregister) (h'' : op ≠ .spool) :
    Inv (s.setTask i { t with rest := ops }) := by
  refine hi.setTask ht (hi.sound_rest ht hr).tail ?_ (hi.spooled_tail ht hr h'') (finished_tail hr) (fun hu => hu)
  intro hu
  rw [underWay_tail hr h h'] at hu
  exact hi.active i t ht hu

theorem Inv.register (hr : t.rest = .register :: ops) :
    Inv { s.setTask i { t with rest := ops } with
      activeCommands := s.activeCommands.insert t.commandID } := by
  have hgrown : Inv { s with activeCommands := s.activeCommands.insert t.commandID } :=
    { hi with active := fun j x hx hu => mem_insert_of_mem (hi.active j x hx hu) }
  exact hgrown.setTask ht (hi.sound_rest ht hr).tail (fun _ => mem_insert_self)
    (hi.spooled_tail ht hr Op.noConfusion) (finished_tail hr) (fun hu => hu)

theorem Inv.spool (hr : t.rest = .spool :: ops) :
    Inv { s.setTask i { t with rest := ops } with pending := i :: s.pending } := by
  have hgrown : Inv { s with pending := i :: s.pending } :=
    { hi with spooled := fun j x hx hr hs => (hi.spooled j x hx hr hs).imp_left (mem_cons_of_mem _) }
  refine hgrown.setTask ht (hi.sound_rest ht hr).tail ?_ (fun _ _ => .inl mem_cons_self) (finished_tail hr)
    (fun hu => hu)
  intro hu
  rw [underWay_tail hr Op.noConfusion Op.noConfusion] at hu
  exact hi.active i t ht hu

theorem Inv.unregister (hr : t.rest = .unregister :: ops)
    (hother : ∀ j < s.nextTask, j ≠ i → ∀ u ∈ s.tasks j, u.underWay = true → u.commandID ≠ t.commandID) :
    Inv { s.setTask i { t with rest := ops } with
      activeCommands := without t.commandID s.activeCommands } := by
  have hsound := hi.sound_rest ht hr
  have hdone : { t with rest := ops }.underWay = false := by
    have hcount := hsound.once
    rw [count_cons_self] at hcount
    have hnot : Op.unregister ∉ ops := count_eq_zero.mp (by omega)
    simp [Task.underWay, hnot]
  have hset : Inv (s.setTask i { t with rest := ops }) := by
    refine hi.setTask ht hsound.tail ?_ (hi.spooled_tail ht hr Op.noConfusion) (finished_tail hr) (fun hu => hu)
    intro hu
    rw [hdone] at hu
    cases hu
  refine { hset with active := ?_ }
  intro j x hx hu
  obtain ⟨rfl, rfl⟩ | ⟨hne, hx⟩ := update_some_cases hx
  · rw [hdone] at hu
    cases hu
  · refine mem_filter.mpr ⟨hi.active j x hx hu, decide_eq_true ?_⟩
    exact hother j (hi.known j x hx) hne x hx hu

theorem Inv.begin_ (hr : t.rest = .begin_ :: ops) : Inv (begin_ s i t ops) := by
  have hsound := hi.sound_rest ht hr
  -- the handler of a finished task does not begin
  have hbusy : t.finished = true → False := fun hf => not_spooling hf (hr ▸ hsound.replies rfl)
  have hignored : Inv (s.setTask i { t with rest := [], ignored := true }) := by
    refine hi.setTask ht (show Sound [] by decide) (fun hu => by cases hu) ?_ (fun hf => (hbusy hf).elim) ?_
    · intro hu
      simp [Task.replies] at hu
    · intro hu
      simp [Task.replies] at hu
  unfold Drain.begin_
  split
  · exact hignored
  · split
    · refine hi.setTask ht (show Sound [.spool] by decide) (fun hu => by cases hu) ?_ (fun hf => (hbusy hf).elim)
        (fun hu => hu)
      intro _ hs
      exact absurd mem_cons_self hs
    · split
      · exact hignored
      · have hpop := hi.pop ht hr Op.noConfusion Op.noConfusion Op.noConfusion
        exact hpop.counters ..

theorem Inv.work {ok : Bool} {op : Op}
    (hr : t.rest = op :: ops) (hseen : Seen s (.work i ok)) : Inv (work s i t ok ops op) := by
  obtain ⟨hok, hother⟩ := hseen t ht
  rw [hr] at hok hother
  cases op with
  | begin_ => exact hi.begin_ ht hr
  | register => exact hi.register ht hr
  | unregister => exact hi.unregister ht hr (hother rfl)
  | spool =>
    cases hok rfl
    exact hi.spool ht hr
  | mark | execute | unmark | finish =>
    have hpop := hi.pop ht hr Op.noConfusion Op.noConfusion Op.noConfusion
    exact hpop.counters ..

end

section

variable (hi : Inv s)

include hi

theorem Inv.newTask (ty : MessageType) (commandID jobRunID : String) (valid : Bool) (seat : Seat) :
    Inv (newTask s ty commandID jobRunID valid seat) where
  known := forall_update_some (fun j x hx => Nat.lt_succ_of_lt (hi.known j x hx)) (Nat.lt_succ_self _)
  sound := forall_update_some hi.sound (sound_script ty valid)
  active := by
    refine forall_update_some hi.active (fun hu => ?_)
    have hnew : ((script ty valid).contains .unregister && !(script ty valid).contains .register) = false := by
      cases valid <;> cases ty <;> decide
    cases hnew.symm.trans hu
  spooled := by
    refine forall_update_some hi.spooled (fun hr hs => ?_)
    obtain ⟨hmem, -⟩ := Bool.and_eq_true_iff.mp hr
    exact absurd (contains_iff_mem.mp hmem) hs
  -- the new task was not there when the shutdown started
  finished hc hl j x ha hx := by
    have hne : j ≠ s.nextTask := Nat.ne_of_lt (Nat.lt_of_lt_of_le ha hi.accepted)
    exact hi.finished hc hl j x ha ((Function.update_of_ne hne ..).symm.trans hx)
  acked hd hl j x ha hx := by
    have hne : j ≠ s.nextTask := Nat.ne_of_lt (Nat.lt_of_lt_of_le ha hi.accepted)
    exact hi.acked hd hl j x ha ((Function.update_of_ne hne ..).symm.trans hx)
  accepted := Nat.le_succ_of_le hi.accepted

theorem Inv.setSeat (ht : s.tasks i = some t) (seat : Seat) : Inv (s.setTask i { t with seat }) :=
  hi.setTask ht (hi.sound i t ht) (hi.active i t ht) (hi.spooled i t ht) (fun h => h) (fun h => h)

theorem Inv.all_finished (hseen : Seen s .countCommands) (hnone : s.activeCommands = [])
    (ha : i < s.accepted) (ht : s.tasks i = some t) : t.finished = true := by
  by_contra hf
  have hu : t.underWay = true := by
    have h := hseen hnone i ha t ht
    simp only [Task.unseen, eq_false_of_ne_true hf, Bool.not_false, Bool.true_and, Bool.not_eq_false'] at h
    exact h
  have hmem := hi.active i t ht hu
  rw [hnone] at hmem
  cases hmem

theorem Inv.ack (i : Nat) :
    Inv { s with pending := s.pending.filter (fun j => j ≠ i), acked := i :: s.acked } := by
  refine { hi with
    spooled := fun j x hx hr hs => ?_
    acked := fun hd hl j x ha hx hr => mem_cons_of_mem _ (hi.acked hd hl j x ha hx hr) }
  by_cases hji : j = i
  · subst hji
    exact .inr mem_cons_self
  · refine (hi.spooled j x hx hr hs).imp (fun hj => ?_) (mem_cons_of_mem _)
    exact mem_filter.mpr ⟨hj, decide_eq_true hji⟩

theorem Inv.toPhase {drain : Phase} (hd : drain ≠ .returned)
    (hfinished : drain.counted = true → s.late = false → ∀ i t, i < s.accepted → s.tasks i = some t →
      t.finished = true) : Inv { s with drain } :=
  { hi with finished := hfinished, acked := fun h => absurd h hd }

theorem Inv.toLate (drain : Phase) : Inv { s with drain, late := true } :=
  { hi with
    finished := fun _ hl => by cases hl
    acked := fun _ hl => by cases hl }

theorem Inv.toReturned (hd : s.drain = .countPending) (hnone : s.pending = []) :
    Inv { s with drain := .returned } := by
  have hfinished := hi.finished (by rw [hd]; rfl)
  refine { hi with finished := fun _ => hfinished, acked := ?_ }
  intro _ hl i t ha ht hr
  refine (hi.spooled i t ht hr (not_spooling (hfinished hl i t ha ht))).resolve_left ?_
  rw [hnone]
  exact not_mem_nil

end

theorem step_inv (s : State) (a : Action) (s' : State) (hi : Inv s) (hseen : Seen s a)
    (h : step lim s a = some s') : Inv s' := by
  cases a with
  | accept ty commandID jobRunID valid =>
    obtain ⟨⟨seat, load⟩, -, rfl⟩ := map_eq_some_iff.mp h
    exact (hi.counters load ..).newTask ..
  | takeSlot i =>
    obtain ⟨t, ht, h⟩ := bind_eq_some_iff.mp h
    obtain ⟨⟨seat, load⟩, -, rfl⟩ := map_eq_some_iff.mp h
    exact (hi.setSeat ht seat).counters load ..
  | work i ok =>
    obtain ⟨t, ht, h⟩ := bind_eq_some_iff.mp h
    split at h
    · next hr =>
      cases h
      exact hi.work ht hr hseen
    · cases h
  | freeSlot i =>
    obtain ⟨t, ht, h⟩ := bind_eq_some_iff.mp h
    obtain ⟨-, h⟩ := ite_none_right_eq_some.mp h
    cases h
    exact (hi.setSeat ht .freed).counters ..
  | expire | others =>
    cases h
    exact hi.counters ..
  | ack i =>
    obtain ⟨-, h⟩ := ite_none_right_eq_some.mp h
    cases h
    exact hi.ack i
  | lose i => exact hseen.elim
  | shutdown =>
    obtain ⟨-, h⟩ := ite_none_right_eq_some.mp h
    cases h
    exact { hi with
      finished := fun hc => by cases hc
      acked := fun hd => by cases hd
      accepted := Nat.le_refl _ }
  | countCommands =>
    obtain ⟨-, h⟩ := ite_none_right_eq_some.mp h
    cases h
    apply hi.toPhase Phase.noConfusion
    intro hc _ i t ha ht
    exact hi.all_finished hseen (length_eq_zero_iff.mp (eq_of_beq hc)) ha ht
  | countJobs past =>
    simp only [step] at h
    split at h
    · next n hd =>
      split at h
      · next hzero =>
        cases h
        apply hi.toPhase Phase.noConfusion
        intro _
        apply hi.finished
        rw [hd, Nat.eq_zero_of_add_eq_zero_right hzero]
        rfl
      · split at h
        · cases h
          exact hi.toLate .flush
        · cases h
          exact hi.toPhase Phase.noConfusion (fun hc => by cases hc)
    · cases h
  | flush =>
    obtain ⟨hd, h⟩ := ite_none_right_eq_some.mp h
    cases h
    exact hi.toPhase Phase.noConfusion (fun _ => hi.finished (by rw [hd]; rfl))
  | countPending past =>
    obtain ⟨hd, h⟩ := ite_none_right_eq_some.mp h
    split at h
    · next hzero =>
      cases h
      exact hi.toReturned hd (length_eq_zero_iff.mp (Nat.eq_zero_of_add_eq_zero_right hzero))
    · split at h
      · cases h
        exact hi.toLate .returned
      · cases h
        exact hi.toPhase Phase.noConfusion (fun _ => hi.finished (by rw [hd]; rfl))

/-- In a run where the counts of the drain see every accepted task, a drain that
returns before its deadline has waited for all of them. -/
theorem drained_of_seen (lim : Limits) (as : List Action) {s : State} (hr : run (step lim) {} as = some s)
    (hseen : Meets (step lim) Seen {} as) : Drained s :=
  (run_invariant step_inv Inv.init hseen hr).drained

end Steps

def oneSlot : Limits := ⟨1, 1, 1, 4⟩

def deployed (i : Nat) : List Action := List.replicate 6 (.work i true)

/-- One deploy runs when the shutdown starts and another waits for its slot. The
drain counts the first, and then the second. -/
def awaited : List Action :=
  [.accept .deploy "sync-1" "" true, .accept .deploy "sync-2" "" true, .work 0 true, .work 0 true, .shutdown,
    .countCommands, .countJobs false, .work 0 true, .work 0 true, .work 0 true, .work 0 true, .freeSlot 0,
    .takeSlot 1, .takeSlot 1, .work 1 true, .work 1 true, .countCommands, .countJobs false, .work 1 true,
    .work 1 true, .work 1 true, .work 1 true, .freeSlot 1, .countCommands, .countJobs false, .flush,
    .countPending false, .flush, .ack 0, .ack 1, .countPending false]

theorem awaited_drained : ∃ s ∈ run (step oneSlot) {} awaited,
    Drained s ∧ s.drain = .returned ∧ s.late = false ∧ s.acked = [1, 0] := by
  refine ⟨_, rfl, ?_, rfl, rfl, rfl⟩
  exact drained_of_seen oneSlot awaited rfl (by decide)

/-- A second deploy waits for the slot of the first; the drain counts between the
end of the first handler and the start of the second. -/
def overtaken : List Action :=
  [Action.accept .deploy "sync-1" "" true, Action.accept .deploy "sync-2" "" true, Action.shutdown] ++ deployed 0 ++
    [Action.ack 0, Action.countCommands, Action.countJobs false, Action.flush, Action.countPending false]

theorem queued_deploy_abandoned : ∃ s ∈ run (step oneSlot) {} overtaken,
    s.drain = .returned ∧ s.late = false ∧ s.accepted = 2 ∧
      (s.tasks 1).map (fun t => (t.seat, t.finished)) = some (.waiting, false) ∧ ¬ Drained s := by
  refine ⟨_, rfl, rfl, rfl, rfl, rfl, ?_⟩
  intro h
  exact absurd (h rfl rfl 1 _ (by decide) rfl).1 (by decide)

end Wireops.Worker.Drain
