import Wireops.Server.Callers

namespace Wireops.Sync.Boot

open Function Option Lib.Steps Lib.Table Protocol Server

inductive CommandStatus where
  | queued | dispatched | acked | success | error | timedOut | cancelled
  deriving DecidableEq

def CommandStatus.terminal : CommandStatus → Bool
  | .success | .error | .timedOut | .cancelled => true
  | .queued | .dispatched | .acked => false

inductive LogStatus where
  | running | queued | waitingJobs | success | error | noop | degraded
  deriving DecidableEq, Repr

def LogStatus.terminal : LogStatus → Bool
  | .success | .error | .noop | .degraded => true
  | .running | .queued | .waitingJobs => false

structure CommandRow where
  workerID : String
  messageID : String := ""
  status : CommandStatus
  attemptCount : Nat := 0
  result : String := ""

structure LogRow where
  stack : String
  status : LogStatus
  output : String := ""

/-- What the owner of a sync log is doing: waiting for jobs before a deploy,
deploying, or writing the log of a queued reconcile. -/
inductive Flow where
  | waiting | deploying | queueing
  deriving DecidableEq, Repr

/-- The server with the tables that outlive it. `flows` and `enqueued` are in
memory, as is the command channel. -/
structure State where
  server : Dispatch.State := {}
  flows : Nat → Option Flow := fun _ => none
  enqueued : List String := []
  commands : String → Option CommandRow := fun _ => none
  logs : Nat → Option LogRow := fun _ => none
  nextLog : Nat := 0
  /-- The stacks of the rows of `stack_pending_reconciles`. -/
  reconciles : List String := []

/-- Each action takes a step in memory or writes one row. A write that fails is
not taken; `leave` then ends the flow without it. -/
inductive Action where
  | server (a : Dispatch.Action)
  | logDispatch (call : Nat) (messageID : String)
  | logReplay (session : Nat) (messageID : String)
  | logQueued (call : Nat)
  | logAck (messageID commandID : String)
  | logFinish (call : Nat)
  | enqueue (stackID : String)
  | createSyncLog (stackID : String) (flow : Flow)
  | updateSyncLog (id : Nat) (status : LogStatus) (output : String)
  | leave (id : Nat)
  | triggerPending (workerID stackID : String)
  | restart
  deriving DecidableEq, Repr

def dispatchedRow (old : Option CommandRow) (workerID messageID : String) : CommandRow where
  workerID
  messageID
  status := .dispatched
  attemptCount := (old.elim 0 (·.attemptCount)) + 1

def queuedRow (old : Option CommandRow) (workerID : String) : CommandRow where
  workerID
  messageID := old.elim "" (·.messageID)
  status := .queued
  attemptCount := old.elim 0 (·.attemptCount)
  result := old.elim "" (·.result)

def ackedRow (row : CommandRow) : CommandRow :=
  if row.status.terminal then row else { row with status := .acked }

def finishStatus : Dispatch.Reply → CommandStatus
  | .result r => if r.error = "" then .success else .error
  | .error text =>
    if text = "context canceled" then .cancelled
    else if text = "context deadline exceeded" ∨ "timed out".toList.isPrefixOf text.toList then .timedOut
    else .error

def replyText : Dispatch.Reply → String
  | .result r => r.output
  | .error text => text

def Flow.writes : Flow → LogStatus → Bool
  | .waiting, .waitingJobs | .waiting, .running | .waiting, .error => true
  | .deploying, .running => true
  | .deploying, status => status.terminal
  | .queueing, .queued => true
  | _, _ => false

def Flow.next : Flow → LogStatus → Option Flow
  | .waiting, .waitingJobs => some .waiting
  | _, .running => some .deploying
  | _, _ => none

def recoverLog (row : LogRow) : LogRow :=
  if row.status = .running then
    { row with
      status := .error
      output := "Synchronization interrupted: server restarted during execution." }
  else row

def recoverCommand (row : CommandRow) : CommandRow :=
  if row.status = .dispatched ∨ row.status = .acked then
    { row with status := .error, result := "Command interrupted: server restarted during dispatch." }
  else row

def restart (s : State) : State where
  commands id := (s.commands id).map recoverCommand
  logs id := (s.logs id).map recoverLog
  nextLog := s.nextLog
  reconciles := s.reconciles

def State.setCommand (s : State) (id : String) (row : CommandRow) : State :=
  { s with commands := update s.commands id (some row) }

def State.setLog (s : State) (id : Nat) (row : LogRow) (flow : Option Flow) : State :=
  { s with
    logs := update s.logs id (some row)
    flows := update s.flows id flow }

/-- A call that has to be logged as queued: its worker was offline, or the write
to the worker failed. -/
def queueing (s : Dispatch.State) (k : Nat) (c : Dispatch.Call) : Bool :=
  match c.phase with
  | .send none => true
  | .wait => s.writes.any (fun w => w.call = k && !w.ok)
  | _ => false

variable (workerOf : String → Option String)

def step (s : State) : Action → Option State
  | .server a => (Dispatch.step s.server a).map (fun server => { s with server })
  | .logDispatch k messageID => do
    let c ← s.server.calls k
    match c.phase with
    | .send (some _) =>
      let id := c.cmd.commandID
      some (s.setCommand id (dispatchedRow (s.commands id) c.workerID messageID))
    | _ => none
  | .logReplay n messageID => do
    let x ← s.server.sessions n
    match x.phase with
    | .replaying (pr :: _) =>
      some (s.setCommand pr.commandID
        (dispatchedRow (s.commands pr.commandID) x.workerID messageID))
    | _ => none
  | .logQueued k => do
    let c ← s.server.calls k
    if queueing s.server k c then
      some (s.setCommand c.cmd.commandID (queuedRow (s.commands c.cmd.commandID) c.workerID))
    else none
  | .logAck messageID id => do
    let row ← s.commands id
    if messageID ≠ "" ∧ row.messageID = messageID then some (s.setCommand id (ackedRow row)) else none
  | .logFinish k => do
    let c ← s.server.calls k
    match c.phase with
    | .unregister reply => do
      let row ← s.commands c.cmd.commandID
      some (s.setCommand c.cmd.commandID
        { row with status := finishStatus reply, result := replyText reply })
    | _ => none
  | .enqueue stackID =>
    some { s with
      reconciles := stackID :: s.reconciles.filter (· ≠ stackID)
      enqueued := stackID :: s.enqueued }
  | .createSyncLog stackID flow =>
    -- a queue log is written by the flow that has enqueued its reconcile
    if flow = .queueing ∧ stackID ∉ s.enqueued then none
    else
      let s := if flow = .queueing then { s with enqueued := s.enqueued.erase stackID } else s
      some { s.setLog s.nextLog ⟨stackID, .running, ""⟩ (some flow) with nextLog := s.nextLog + 1 }
  | .updateSyncLog id status output => do
    let flow ← s.flows id
    let row ← s.logs id
    if flow.writes status then some (s.setLog id { row with status, output } (flow.next status))
    else none
  | .leave id => some { s with flows := update s.flows id none }
  | .triggerPending workerID stackID =>
    if (s.server.connections workerID).isSome ∧ workerOf stackID = some workerID ∧ stackID ∈ s.reconciles then
      some { s with reconciles := s.reconciles.filter (· ≠ stackID) }
    else none
  | .restart => some (restart s)

/-- The stacks that `TriggerPendingReconciles` finds when the worker reconnects. -/
def pendingReconciles (s : State) (workerID : String) : List String :=
  s.reconciles.filter (fun stackID => workerOf stackID = some workerID)

/-- However the new process goes on, once the worker has reconnected and its
replay is done the command has been written to it or its row is closed. -/
def Replayed (s : State) (id : String) (workerID : String) : Prop :=
  ∀ as t, run (step workerOf) s as = some t → (∃ n, t.server.sessions n = some ⟨workerID, .reading⟩) →
      (∃ w ∈ t.server.writes, w.env.payload.commandID = id) ∨
        ∃ row, t.commands id = some row ∧ row.status.terminal = true

/-- Every row is in a terminal state or will be acted on. -/
structure Recovered (s : State) : Prop where
  commands : ∀ id row, s.commands id = some row → row.status.terminal = true ∨ Replayed workerOf s id row.workerID
  logs : ∀ id row, s.logs id = some row → row.status.terminal = true ∨ s.flows id ≠ none ∨
    row.status = .queued ∧ ∃ workerID, row.stack ∈ pendingReconciles workerOf s workerID

/-- No command is queued, no sync waits for jobs, and the reconcile behind each
queued log is still to be triggered. -/
structure Settled (s : State) : Prop where
  commands : ∀ id row, s.commands id = some row → row.status ≠ .queued
  logs : ∀ id row, s.logs id = some row → row.status ≠ .waitingJobs ∧
    (row.status = .queued → ∃ workerID, row.stack ∈ pendingReconciles workerOf s workerID)

section Rows

variable {s : State}

theorem recoverCommand_terminal (row : CommandRow) :
    (recoverCommand row).status.terminal = true ↔ row.status ≠ .queued := by
  unfold recoverCommand
  cases hs : row.status <;> simp [hs, CommandStatus.terminal]

theorem recoverLog_stack (row : LogRow) : (recoverLog row).stack = row.stack := by
  unfold recoverLog
  split <;> rfl

theorem recoverLog_queued (row : LogRow) : (recoverLog row).status = .queued ↔ row.status = .queued := by
  unfold recoverLog
  cases hs : row.status <;> simp [hs]

theorem recoverLog_terminal (row : LogRow) : (recoverLog row).status.terminal = true ↔
    row.status ≠ .waitingJobs ∧ row.status ≠ .queued := by
  unfold recoverLog
  cases hs : row.status <;> simp [hs, LogStatus.terminal]

theorem restart_commands {id : String} {row : CommandRow} (h : s.commands id = some row) :
    (restart s).commands id = some (recoverCommand row) :=
  congrArg (Option.map recoverCommand) h

theorem restart_logs {id : Nat} {row : LogRow} (h : s.logs id = some row) :
    (restart s).logs id = some (recoverLog row) :=
  congrArg (Option.map recoverLog) h

end Rows

def reconnect (workerID : String) : List Action :=
  [.server (.connect workerID), .server (.snapshot 0 []), .server (.read 0)]

theorem run_reconnect (s : State) (workerID : String) : ∃ t,
    run (step workerOf) (restart s) (reconnect workerID) = some t ∧
      t.server.sessions 0 = some ⟨workerID, .reading⟩ ∧ t.server.writes = [] ∧ t.commands = (restart s).commands := by
  refine ⟨_, rfl, ?_, rfl, rfl⟩
  rfl

theorem not_replayed {s : State} {id : String} {row : CommandRow}
    (hrow : (restart s).commands id = some row) (hopen : ¬ row.status.terminal = true) :
    ¬ Replayed workerOf (restart s) id row.workerID := by
  intro h
  obtain ⟨t, hrun, hread, hwrites, hcommands⟩ := run_reconnect workerOf s row.workerID
  obtain ⟨w, hw, _⟩ | ⟨row', hrow', hterminal⟩ := h _ t hrun ⟨0, hread⟩
  · rw [hwrites] at hw
    cases hw
  · rw [hcommands, hrow, Option.some.injEq] at hrow'
    subst hrow'
    exact hopen hterminal

theorem command_recovered_iff {s : State} {id : String} {row : CommandRow} (hrow : s.commands id = some row) :
    (recoverCommand row).status.terminal = true ∨
        Replayed workerOf (restart s) id (recoverCommand row).workerID ↔ row.status ≠ .queued := by
  rw [← recoverCommand_terminal]
  constructor
  · intro h
    by_contra hopen
    exact not_replayed workerOf (restart_commands hrow) hopen (h.resolve_left hopen)
  · exact .inl

theorem log_recovered_iff (s : State) (id : Nat) (row : LogRow) :
    ((recoverLog row).status.terminal = true ∨ (restart s).flows id ≠ none ∨ (recoverLog row).status = .queued ∧
          ∃ workerID, (recoverLog row).stack ∈ pendingReconciles workerOf (restart s) workerID) ↔
      row.status ≠ .waitingJobs ∧
        (row.status = .queued → ∃ workerID, row.stack ∈ pendingReconciles workerOf s workerID) := by
  rw [recoverLog_terminal, recoverLog_queued, recoverLog_stack]
  constructor
  · rintro (⟨hwaiting, hqueued⟩ | hflow | ⟨hqueued, hfound⟩)
    · exact ⟨hwaiting, fun hq => absurd hq hqueued⟩
    · exact absurd rfl hflow
    · refine ⟨?_, fun _ => hfound⟩
      rw [hqueued]
      decide
  · rintro ⟨hwaiting, hfound⟩
    by_cases hqueued : row.status = .queued
    · exact .inr (.inr ⟨hqueued, hfound hqueued⟩)
    · exact .inl ⟨hwaiting, hqueued⟩

theorem restart_recovered_iff (s : State) : Recovered workerOf (restart s) ↔ Settled workerOf s := by
  constructor
  · intro h
    refine ⟨fun id row hrow => ?_, fun id row hrow => ?_⟩
    · exact (command_recovered_iff workerOf hrow).mp (h.commands id _ (restart_commands hrow))
    · exact (log_recovered_iff workerOf s id row).mp (h.logs id _ (restart_logs hrow))
  · intro h
    refine ⟨fun id row' hrow' => ?_, fun id row' hrow' => ?_⟩
    · obtain ⟨row, hrow, rfl⟩ := map_eq_some_iff.mp hrow'
      exact (command_recovered_iff workerOf hrow).mpr (h.commands id row hrow)
    · obtain ⟨row, hrow, rfl⟩ := map_eq_some_iff.mp hrow'
      exact (log_recovered_iff workerOf s id row).mpr (h.logs id row hrow)

section Abandoned

open Server.Dispatch Server.Callers

variable {s t : State} {id : String}

/-- The process neither is about to write the command nor has written it. -/
def Unwritten (id : String) (s : State) : Prop := Sent (fun _ cmd => cmd.commandID ≠ id) s.server

def NotDispatched (id : String) (_ : State) : Action → Prop
  | .server (.dispatch _ cmd) => cmd.commandID ≠ id
  | _ => True

theorem step_server {a : Action} (h : step workerOf s a = some t) :
    (∃ b, a = .server b ∧ Dispatch.step s.server b = some t.server) ∨ t.server = {} ∨ t.server = s.server := by
  cases a with
  | server b =>
    obtain ⟨server, hserver, rfl⟩ := map_eq_some_iff.mp h
    exact .inl ⟨b, rfl, hserver⟩
  | restart =>
    cases h
    exact .inr (.inl rfl)
  | enqueue | leave =>
    cases h
    exact .inr (.inr rfl)
  | logDispatch | logReplay | logQueued | logAck =>
    obtain ⟨_, _, h⟩ := bind_eq_some_iff.mp h
    split at h
    · cases h
      exact .inr (.inr rfl)
    · cases h
  | logFinish =>
    obtain ⟨_, _, h⟩ := bind_eq_some_iff.mp h
    split at h
    · obtain ⟨_, _, h⟩ := bind_eq_some_iff.mp h
      cases h
      exact .inr (.inr rfl)
    · cases h
  | createSyncLog stackID flow =>
    obtain ⟨_, ⟨⟩⟩ := ite_none_left_eq_some.mp h
    refine .inr (.inr ?_)
    simp only [State.setLog]
    split <;> rfl
  | updateSyncLog =>
    obtain ⟨_, _, h⟩ := bind_eq_some_iff.mp h
    obtain ⟨_, _, h⟩ := bind_eq_some_iff.mp h
    split at h
    · cases h
      exact .inr (.inr rfl)
    · cases h
  | triggerPending =>
    obtain ⟨_, ⟨⟩⟩ := ite_none_right_eq_some.mp h
    exact .inr (.inr rfl)

theorem step_unwritten {a : Action} (h : Unwritten id s) (ha : NotDispatched id s a)
    (hstep : step workerOf s a = some t) : Unwritten id t := by
  unfold Unwritten at h ⊢
  obtain ⟨b, rfl, hserver⟩ | hnew | hsame := step_server workerOf hstep
  · refine fires_sent h (step_fires hserver) ?_
    rintro workerID cmd rfl
    exact ha
  · rw [hnew]
    exact sent_init _
  · rw [hsame]
    exact h

/-- The new process never writes a command of the old one by itself, whoever
reconnects: only a call for the same command does. -/
theorem never_written_after_restart {as : List Action} (hm : Meets (step workerOf) (NotDispatched id) (restart s) as)
    (hr : run (step workerOf) (restart s) as = some t) : ∀ w ∈ t.server.writes, w.env.payload.commandID ≠ id := by
  intro w hw
  have init : Unwritten id (restart s) := sent_init _
  have hs := run_invariant (fun _ _ _ => step_unwritten workerOf) init hm hr
  obtain ⟨_, cmd, m, _, hid, hpay⟩ := hs.writes w hw
  rwa [hpay, withDispatchMessageID_commandID]

end Abandoned

def interrupted : List Action :=
  [.server (.dispatch "w1" (.deploy { commandID := "c1", stackID := "st1" })), .server (.register 0),
    .logQueued 0, .server (.queue 0), .createSyncLog "st2" .waiting,
    .updateSyncLog 0 .waitingJobs "deploy paused: 1 job(s) currently running on this repository",
    .restart] ++ reconnect "w1"

theorem queued_and_waiting_left : ∃ t ∈ run (step (fun _ => some "w1")) {} interrupted,
      (t.commands "c1").map (·.status) = some .queued ∧ (t.logs 0).map (·.status) = some .waitingJobs ∧
      t.server.sessions 0 = some ⟨"w1", .reading⟩ ∧ t.server.writes = [] ∧ t.flows 0 = none :=
  run_reaches (by decide)

def resumed : List Action :=
  reconnect "w1" ++ [.server (.dispatch "w1" (.deploy { commandID := "c2", stackID := "st1" })),
    .server (.register 0), .server (.send 0 "m1" true)]

theorem never_written_after_interruption : ∃ s ∈ run (step (fun _ => some "w1")) {} interrupted,
    ∃ t ∈ run (step (fun _ => some "w1")) (restart s) resumed,
      t.server.writes ≠ [] ∧ ∀ w ∈ t.server.writes, w.env.payload.commandID ≠ "c1" := by
  refine ⟨_, rfl, _, rfl, List.cons_ne_nil _ _, ?_⟩
  apply @never_written_after_restart (fun _ => some "w1") _ _ "c1" resumed _ rfl
  have hid : "c2" ≠ "c1" := by decide
  exact ⟨trivial, trivial, trivial, hid, trivial, trivial, trivial⟩

end Wireops.Sync.Boot
