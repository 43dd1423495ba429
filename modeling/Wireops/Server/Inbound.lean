import Wireops.Lib.Table
import Wireops.Server.Dispatch

namespace Wireops.Server.Inbound

open Function Protocol Lib.Table

/-- The id of a worker record, which has no colon in it. -/
structure WorkerID where
  id : String
  plain : ':' ∉ id.toList

def second : Nat := 1000000000

inductive RunStatus where
  | pending | running | success | error | stalled | forgotten
  deriving DecidableEq, Repr

/-- `timeoutMs` is the timeout of the job the run is of. -/
structure JobRun where
  worker : String
  status : RunStatus
  output : List UInt8 := []
  durationMs : Int := 0
  queueTimeMs : Int := 0
  executionTimeMs : Int := 0
  startedAt : Option Nat := none
  updated : Nat := 0
  timeoutMs : Int := 600000

inductive CommandStatus where
  | queued | dispatched | acked | success | error | timedOut | cancelled

/-- A row of the commands log; the stack is the one its payload names. -/
structure CommandRecord where
  commandID : String
  worker : String
  messageID : String
  stackID : String
  status : CommandStatus
  ackedAt : Option Nat := none

structure LiveCommand where
  output : String := ""
  lastSeq : Int := 0
  updatedAt : Nat := 0

/-- `startedAt` and `fileOpen` are the entries of the recorder, `tracked` the
one of the table of open sessions, `ended` the end time and exit code. -/
structure TerminalSession where
  worker : String
  startedAt : Option Nat
  fileOpen : Bool
  transcript : List (Nat × List UInt8) := []
  ended : Option (Nat × Int) := none
  tracked : Bool := true

inductive TerminalEvent where
  | output (data : List UInt8)
  | closed (exitCode : Int) (error : String)

/-- The health history and times of a worker's record; the info and telemetry of
a heartbeat are left out. -/
structure WorkerRecord where
  lastSeen : Nat := 0
  revoked : Bool := false
  active : Bool := false
  healthHistory : List (String × Nat) := []

/-- What the messages of workers are handled against. `lines` and `events` were
published to the subscribers of a stack and a terminal session, `acks` sent back
to workers; `termQueues` are the lengths of the sessions' work queues. -/
structure State where
  now : Nat := 0
  dispatch : Dispatch.State := {}
  workers : String → Option WorkerRecord := fun _ => none
  seenMessages : String → Option Nat := fun _ => none
  commands : List CommandRecord := []
  runs : String → Option JobRun := fun _ => none
  live : String → Option LiveCommand := fun _ => none
  lines : List (String × String × String) := []
  termQueues : String → Nat := fun _ => 0
  sessions : String → Option TerminalSession := fun _ => none
  events : List (String × TerminalEvent) := []
  acks : List (String × String) := []

structure JobCompletedMessage where
  messageID : String := ""
  jobRunID : String
  success : Bool
  output : List UInt8
  durationMs : Int
  queueTimeMs : Int
  executionTimeMs : Int
  deriving DecidableEq, Repr

structure CommandOutputMessage where
  commandID : String
  stackID : String
  phase : String
  line : String
  seq : Int
  deriving DecidableEq, Repr

/-- `unreadable` is a message that is not text, does not parse or has a type
the server does not know. -/
inductive Message where
  | unreadable
  | ack (messageID : String)
  | heartbeat (activeJobRunIDs : List String)
  | jobCompleted (m : JobCompletedMessage)
  | commandOutput (m : CommandOutputMessage)
  | result (r : CommandResult)
  | terminalOutput (sessionID dataB64 : String)
  | terminalClosed (sessionID : String) (exitCode : Int) (error : String)
  | getMetricsResult (commandID metrics : String)

def isSpace (c : Char) : Bool :=
  c.toNat ∈ [9, 10, 11, 12, 13, 32, 0x85, 0xA0, 0x1680, 0x2028, 0x2029, 0x202F, 0x205F, 0x3000] ||
    (0x2000 ≤ c.toNat && c.toNat ≤ 0x200A)

def blank (s : String) : Bool := s.toList.all isSpace

variable (s : State) (workerID messageID sessionID : String)

def seenKey : String := workerID ++ ":" ++ messageID

def seenFresh (now seenAt : Nat) : Bool := now - seenAt ≤ 24 * 3600 * second

def sweepSeen : String → Option Nat :=
  fun key => (s.seenMessages key).filter (seenFresh s.now)

def isDuplicateMessage : Bool :=
  !blank messageID && (sweepSeen s (seenKey workerID messageID)).isSome

def markSeen : State :=
  if blank messageID then s
  else if (sweepSeen s (seenKey workerID messageID)).isSome then
    { s with seenMessages := sweepSeen s }
  else
    { s with seenMessages := update (sweepSeen s) (seenKey workerID messageID) (some s.now) }

def sendAck : State :=
  if blank messageID || (s.dispatch.connections workerID).isNone then s
  else { s with acks := s.acks ++ [(workerID, messageID)] }

def editWorker (workerID : String) (f : WorkerRecord → WorkerRecord) : State :=
  { s with workers := update s.workers workerID ((s.workers workerID).map f) }

def updateLastSeen (workerID : String) : State :=
  editWorker s workerID (fun w =>
    { w with lastSeen := s.now, active := if w.revoked then w.active else true })

def recordHealthEvent (workerID status : String) : State :=
  editWorker s workerID (fun w =>
    let history := w.healthHistory ++ [(status, s.now)]
    { w with healthHistory := history.drop (history.length - 10) })

def lost (now : Nat) (workerID : String) (activeIDs : List String) (runID : String) (r : JobRun) : Bool :=
  r.worker = workerID && r.status = .running && !activeIDs.contains runID &&
    r.updated + 60 * second ≤ now

def jobLost : List UInt8 := "job lost: worker disconnected and job is no longer running".toUTF8.toList

def reconcileActiveJobs (workerID : String) (activeIDs : List String) : State :=
  { s with runs := fun runID => (s.runs runID).map (fun r =>
      if lost s.now workerID activeIDs runID r then
        { r with status := .error, output := jobLost, executionTimeMs := r.timeoutMs, updated := s.now }
      else r) }

def finished : CommandStatus → Bool
  | .success | .error | .timedOut | .cancelled => true
  | _ => false

def acked (now : Nat) (r : CommandRecord) : CommandRecord :=
  if finished r.status then r else { r with status := .acked, ackedAt := some now }

@[simp]
theorem acked_worker (now : Nat) (r : CommandRecord) : (acked now r).worker = r.worker := by
  unfold acked
  split <;> rfl

@[simp]
theorem acked_commandID (now : Nat) (r : CommandRecord) : (acked now r).commandID = r.commandID := by
  unfold acked
  split <;> rfl

def logCommandAck (now : Nat) (messageID : String) : List CommandRecord → List CommandRecord
  | [] => []
  | r :: rs =>
    if r.messageID = messageID then acked now r :: rs else r :: logCommandAck now messageID rs

def maxOutputLength : Nat := 1000000

def truncationMarker : List UInt8 := "\n\n... [OUTPUT TRUNCATED FOR SIZE] ...\n\n".toUTF8.toList

def truncateOutput (output : List UInt8) : List UInt8 :=
  if output.length > maxOutputLength then
    let available := maxOutputLength - truncationMarker.length
    let head := available / 2
    let tail := available - head
    output.take head ++ truncationMarker ++ output.drop (output.length - tail)
  else output

def completeRun (now : Nat) (m : JobCompletedMessage) (r : JobRun) : JobRun :=
  { r with
    status := if m.success then .success else .error
    output := truncateOutput m.output
    durationMs := m.durationMs
    queueTimeMs := if m.queueTimeMs > 0 then m.queueTimeMs else r.queueTimeMs
    executionTimeMs :=
      if m.executionTimeMs > 0 then m.executionTimeMs
      else match r.startedAt with
        | some startedAt => ((now - startedAt) / 1000000 : Nat)
        | none => r.executionTimeMs
    updated := now }

def liveCommandRetention : Nat := 15 * 60 * second

def liveCommandMaxBytes : Nat := 1048576

def idle (now : Nat) (lc : LiveCommand) : Bool := lc.updatedAt + liveCommandRetention < now

def appendLine (now : Nat) (m : CommandOutputMessage) (lc : LiveCommand) : LiveCommand :=
  if m.seq > lc.lastSeq then
    { output :=
        if lc.output.utf8ByteSize < liveCommandMaxBytes then
          lc.output ++ (if m.phase = "" then "" else "[" ++ m.phase ++ "] ") ++ m.line ++ "\n"
        else lc.output
      lastSeq := m.seq
      updatedAt := now }
  else { lc with updatedAt := now }

def publishLine (m : CommandOutputMessage) : State :=
  let lc := appendLine s.now m ((s.live m.commandID).getD {})
  { s with
    live := fun id => (update s.live m.commandID (some lc) id).filter (fun lc => !idle s.now lc)
    lines := s.lines ++ [(m.stackID, m.commandID, lc.output)] }

def publishEvent (ev : TerminalEvent) : State :=
  { s with events := s.events ++ [(sessionID, ev)] }

def editSession (f : TerminalSession → TerminalSession) : State :=
  { s with sessions := update s.sessions sessionID ((s.sessions sessionID).map f) }

def appendTranscript (data : List UInt8) : State :=
  editSession s sessionID (fun x =>
    match x.startedAt with
    | some startedAt =>
      if x.fileOpen then { x with transcript := x.transcript ++ [(s.now - startedAt, data)] } else x
    | none => x)

def closeRecord (exitCode : Int) : State :=
  editSession s sessionID (fun x =>
    { x with startedAt := none, fileOpen := false, ended := some (s.now, exitCode) })

def forgetTerminalSession : State :=
  editSession s sessionID (fun x => { x with tracked := false })

def terminalOpenCommandIDPrefix : String := "terminal-open-"

def terminalOpenSessionIDFromCommandID (commandID : String) : Option String :=
  let start := terminalOpenCommandIDPrefix.toList
  if start.length < commandID.toList.length ∧ start.isPrefixOf commandID.toList then
    some (String.ofList (commandID.toList.drop start.length))
  else none

/-- What a message does to something it names by an id. -/
inductive Effect where
  | complete (r : CommandResult)
  | ack (messageID : String)
  | finishRun (m : JobCompletedMessage)
  | line (m : CommandOutputMessage)
  | terminalOutput (sessionID : String) (data : List UInt8)
  | terminalClosed (sessionID : String) (exitCode : Int) (error : String)
  | openRejected (sessionID reason : String)

def duplicate : Bool :=
  messageID ≠ "" && isDuplicateMessage s workerID messageID

def roomy : Bool := s.termQueues sessionID < 256

def completion (r : CommandResult) : Option Effect :=
  if (Dispatch.target s.dispatch r).isSome then some (.complete r) else none

/-- The branches of the read loop, up to the one thing each does beyond the
sender's record. `decode` decodes base64. -/
def effect (decode : String → Option (List UInt8)) (s : State) (workerID : String) : Message → Option Effect
  | .unreadable | .heartbeat _ => none
  | .ack messageID =>
    if messageID = "" then none
    else match s.commands.find? (fun r => r.messageID = messageID) with
      | none => none
      | some r => if finished r.status then none else some (.ack messageID)
  | .jobCompleted m =>
    if duplicate s workerID m.messageID then none
    else if (s.runs m.jobRunID).isSome then some (.finishRun m)
    else none
  | .commandOutput m => if m.commandID = "" then none else some (.line m)
  | .result r =>
    if duplicate s workerID r.messageID then none
    else match s.dispatch.pending.lookup r.commandID with
      | some _ => completion s r
      | none => (terminalOpenSessionIDFromCommandID r.commandID).map (fun id => .openRejected id r.error)
  | .terminalOutput sessionID dataB64 =>
    if roomy s sessionID then (decode dataB64).map (.terminalOutput sessionID) else none
  | .terminalClosed sessionID exitCode error =>
    if roomy s sessionID then some (.terminalClosed sessionID exitCode error) else none
  | .getMetricsResult commandID metrics => completion s ⟨commandID, "", metrics, ""⟩

def apply : Effect → State
  | .complete r => { s with dispatch := Dispatch.deliver s.dispatch r }
  | .ack messageID => { s with commands := logCommandAck s.now messageID s.commands }
  | .finishRun m =>
    { s with runs := update s.runs m.jobRunID ((s.runs m.jobRunID).map (completeRun s.now m)) }
  | .line m => publishLine s m
  | .terminalOutput sessionID data =>
    appendTranscript (publishEvent s sessionID (.output data)) sessionID data
  | .terminalClosed sessionID exitCode error =>
    closeRecord (publishEvent s sessionID (.closed exitCode error)) sessionID exitCode
  | .openRejected sessionID reason =>
    publishEvent (closeRecord (forgetTerminalSession s sessionID) sessionID (-1)) sessionID
      (.closed (-1) reason)

def noteMessage : State :=
  sendAck (if messageID = "" then s else markSeen s workerID messageID) workerID messageID

def locally (workerID : String) : Message → State
  | .heartbeat activeIDs =>
    reconcileActiveJobs (recordHealthEvent s workerID "online") workerID activeIDs
  | .jobCompleted m => noteMessage s workerID m.messageID
  | .result r => noteMessage s workerID r.messageID
  | _ => s

def receive (decode : String → Option (List UInt8)) (s : State) (workerID : String) (m : Message) : State :=
  let t := locally (updateLastSeen s workerID) workerID m
  match effect decode s workerID m with
  | none => t
  | some e => apply t e

end Wireops.Server.Inbound
