import Wireops.Lib.Cursor
import Wireops.Lib.Octets

/-!
# The live stream of a sync log

A reconcile writes the output of its sync log anew while it waits for jobs, for
each attempt that it retries, and at the end. Each write is an event for the
clients of the stack's stream, who are sent what the output has beyond the
length that they were sent before. -/

namespace Wireops.Sync.LogStream

open Function List Lib.Cursor Lib.Octets

structure Event where
  recordID : String
  output : Bytes

variable (recordID : String) (lastLen : String → Nat) (events : List Event)

/-- `apply`: what is new of an event, and how much was written of each record since. -/
def apply (ev : Event) : Bytes × (String → Nat) :=
  let prev := lastLen ev.recordID
  if ev.output.length ≤ prev then ([], lastLen)
  else (ev.output.drop prev, update lastLen ev.recordID ev.output.length)

def stream : (String → Nat) → List Event → List (String × Bytes)
  | _, [] => []
  | lastLen, ev :: events =>
    let (delta, lastLen) := apply lastLen ev
    if delta ≠ [] then (ev.recordID, delta) :: stream lastLen events else stream lastLen events

def received : Bytes :=
  ((stream (fun _ => 0) events).filter (fun p => p.1 = recordID)).flatMap Prod.snd

def outputsOf : List Bytes :=
  (events.filter (fun ev => ev.recordID = recordID)).map Event.output

def maxOutputLength : Nat := 1000000

def truncateOutput (output : Bytes) : Bytes :=
  if output.length ≤ maxOutputLength then output
  else
    let marker := text "\n\n... [OUTPUT TRUNCATED FOR SIZE] ...\n\n"
    let prefixLen := (maxOutputLength - marker.length) / 2
    let suffixLen := maxOutputLength - marker.length - prefixLen
    output.take prefixLen ++ marker ++ output.drop (output.length - suffixLen)

def number (n : Nat) : Bytes := text (toString n)

def pausedText (active : Nat) : Bytes :=
  text "deploy paused: " ++ number active ++ text " job(s) currently running on this repository"

/-- How a wait ends that lets no deploy follow. -/
inductive Denial where
  | cancelled (err : Bytes)
  | timedOut (elapsed : Bytes) (active : Nat)

def Denial.output : Denial → Bytes
  | .cancelled err => err
  | .timedOut elapsed active =>
    text "timeout waiting " ++ elapsed ++ text " for " ++ number active ++
      text " running job(s) on repository to finish before deploy"

def proceededText (elapsed : Bytes) (queryFailed : Bool) : Bytes :=
  if queryFailed then
    text "proceeded after " ++ elapsed ++ text ": failed to query active jobs, continuing best-effort"
  else text "proceeded after waiting " ++ elapsed ++ text " for running jobs to finish"

/-- A wait that a deploy follows. Its updates of the log may fail, and a commit that
moved meanwhile has the record saved as it is. -/
structure Wait where
  active : Nat
  pausedSaved : Bool := true
  elapsed : Bytes
  queryFailed : Bool := false
  proceededSaved : Bool := true
  realigned : Bool := false

def Wait.outputs (w : Wait) : List Bytes :=
  let written := (if w.pausedSaved then [truncateOutput (pausedText w.active)] else []) ++
    (if w.proceededSaved then [truncateOutput (proceededText w.elapsed w.queryFailed)] else [])
  if w.realigned then written ++ [written.getLast?.getD []] else written

def retryText (output : Bytes) (attempt : Nat) (err : Bytes) : Bytes :=
  output ++ text "\n\n[Attempt " ++ number attempt ++ text " failed: " ++ err ++ text ". Retrying in 3s...]\n"

/-- The attempts that were retried, with their outputs and errors. -/
structure Retries where
  failed : List (Bytes × Bytes) := []
  few : failed.length < 3 := by decide

def Retries.outputs (r : Retries) : List Bytes :=
  r.failed.mapIdx (fun i attempt => truncateOutput (retryText attempt.1 (i + 1) attempt.2))

def buildErrorOutput (output err : Bytes) : Bytes :=
  (if output = [] then []
    else if output.getLast? = some (byte '\n') then output else output ++ [byte '\n']) ++ text "\nerror: " ++ err

/-- How the last attempt ends. A deploy that ran out of time may have a detail of what
was found afterwards. -/
inductive Outcome where
  | failed (output err postTimeout : Bytes)
  | succeeded (output detail : Bytes)
  | unsaved (err : Bytes)

def Outcome.output : Outcome → Bytes
  | .failed output err postTimeout =>
    buildErrorOutput output err ++ if postTimeout = [] then [] else text "\n\n[post-timeout] " ++ postTimeout
  | .succeeded output detail => output ++ text "\n\n[post-check] " ++ detail
  | .unsaved err =>
    text "worker deploy succeeded but failed to persist stack success: " ++ err

def noopText (checksum : Bytes) (version : Nat) : Bytes :=
  text "No changes detected.\n\nRendered compose checksum: " ++ checksum ++ text "\nRevision: v" ++
    number version ++ text "\nDeployment skipped because the active stack already matches the desired compose state."

inductive SyncLog where
  | denied (active : Nat) (pausedSaved : Bool) (denial : Denial)
  | unchanged (wait : Option Wait) (checksum : Bytes) (version : Nat)
  | deployed (wait : Option Wait) (retries : Retries) (outcome : Outcome)

def SyncLog.final : SyncLog → Bytes
  | .denied _ _ denial => truncateOutput denial.output
  | .unchanged _ checksum version => truncateOutput (noopText checksum version)
  | .deployed _ _ outcome => truncateOutput outcome.output

def SyncLog.earlier : SyncLog → List Bytes
  | .denied active pausedSaved _ =>
    if pausedSaved then [truncateOutput (pausedText active)] else []
  | .unchanged wait _ _ => wait.elim [] Wait.outputs
  | .deployed wait retries _ => wait.elim [] Wait.outputs ++ retries.outputs

def SyncLog.outputs (log : SyncLog) : List Bytes := [] :: log.earlier ++ [log.final]

theorem apply_eq (ev : Event) : apply lastLen ev = (ev.output.drop (lastLen ev.recordID),
      update lastLen ev.recordID (max (lastLen ev.recordID) ev.output.length)) := by
  unfold apply
  dsimp only
  split
  · rename_i hle
    rw [drop_eq_nil_of_le hle, Nat.max_eq_left hle, update_eq_self]
  · rename_i hlt
    rw [Nat.max_eq_right (by omega)]

def piece (delta : Bytes) : List (String × Bytes) :=
  if delta ≠ [] then [(recordID, delta)] else []

theorem stream_cons (ev : Event) (events : List Event) :
    stream lastLen (ev :: events) = piece ev.recordID (ev.output.drop (lastLen ev.recordID)) ++
      stream (update lastLen ev.recordID (max (lastLen ev.recordID) ev.output.length)) events := by
  rw [stream, apply_eq, piece]
  dsimp only
  split
  · rfl
  · rfl

theorem flatMap_piece (recordID id : String) (delta : Bytes) :
    ((piece id delta).filter (fun p => p.1 = recordID)).flatMap Prod.snd = if id = recordID then delta else [] := by
  unfold piece
  split
  · by_cases hid : id = recordID
    · simp [hid]
    · simp [hid]
  · rename_i hnil
    rw [not_not.mp hnil, ite_self]
    rfl

theorem stream_eq :
    ((stream lastLen events).filter (fun p => p.1 = recordID)).flatMap Prod.snd =
      sent (lastLen recordID) (outputsOf recordID events) := by
  induction events generalizing lastLen with
  | nil => rfl
  | cons ev events ih =>
    rw [stream_cons, filter_append, flatMap_append, ih, flatMap_piece]
    by_cases hid : ev.recordID = recordID
    · have houtputs : outputsOf recordID (ev :: events) = ev.output :: outputsOf recordID events := by
        simp [outputsOf, hid]
      rw [if_pos hid, houtputs, hid, update_self, sent]
    · have houtputs : outputsOf recordID (ev :: events) = outputsOf recordID events := by
        simp [outputsOf, hid]
      rw [if_neg hid, houtputs, update_of_ne (Ne.symm hid), nil_append]

theorem received_eq : received recordID events = sent 0 (outputsOf recordID events) :=
  stream_eq recordID (fun _ => 0) events

theorem ends_with_final_iff {recordID : String} {events : List Event} {log : SyncLog}
    (h : outputsOf recordID events = log.outputs) :
    log.final <:+ received recordID events ↔ Agrees log.outputs log.final := by
  rw [received_eq, h]
  exact suffix_sent_iff (mem_append_right _ mem_cons_self)

def direct : SyncLog := .deployed none {} (.succeeded (text "Container web Started") (text "1/1 running"))

theorem direct_received :
    direct.final <:+ received "a" [⟨"a", []⟩, ⟨"live:a", text "Container web"⟩, ⟨"a", direct.final⟩] :=
  (ends_with_final_iff (by decide +kernel)).mpr (by decide +kernel)

def waited : SyncLog :=
  .deployed (some { active := 1, elapsed := text "5s" }) {}
    (.succeeded (text "Container web Started") (text "1/1 running"))

/-- All that is received is that the deploy is paused. -/
theorem waited_not_received : received "a" (waited.outputs.map (fun output => ⟨"a", output⟩)) = pausedText 1 ∧
      ¬ waited.final <:+ received "a" (waited.outputs.map (fun output => ⟨"a", output⟩)) := by
  decide +kernel

end Wireops.Sync.LogStream
