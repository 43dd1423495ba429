import Wireops.Lib.Flow

namespace Wireops.Sync.Reconcile

open Lib.Flow

inductive Status where
  | pending | syncing | active | degraded | error | paused
  deriving DecidableEq

/-- The fields of a stack's record that the flows read and write. An empty
checksum is `none`; `synced` says that `last_synced_at` is set. -/
structure Stack where
  status : Status := .pending
  isLocal : Bool := false
  secretError : Bool := false
  synced : Bool := false
  checksum : Option String := none
  currentVersion : Nat := 0
  desiredCommit : String := ""
  deployedVersion : Nat := 0
  deployedCommit : String := ""
  deployedChecksum : Option String := none

/-- The places where a flow saves the record. -/
inductive Site where
  | start | mark | restore | pending | clearSecret | render | complete
  deriving DecidableEq

inductive Wait where
  | proceed | cancelled | timedOut
  deriving DecidableEq

inductive Reason where
  | timeout | other
  deriving DecidableEq

/-- What one attempt to deploy meets with; `result` is the failure the worker
or the dispatch reports. -/
structure Attempt where
  readable : Bool := true
  registry : Bool := true
  serialized : Bool := true
  result : Option Reason := none
  logged : Bool := true
  cancelled : Bool := false

inductive Verdict where
  | active | degraded | error
  deriving DecidableEq

def Verdict.status : Verdict → Status
  | .active => .active
  | .degraded => .degraded
  | .error => .error

structure PostCheck where
  verdict : Verdict := .active
  skipped : Bool := false

structure InspectResult where
  commitSHA : String := ""
  commitSHAs : List String := []
  deriving DecidableEq

/-- What the rest of the system answers to one execution of a flow: the
lookups, the repository, the worker, the renderer and the saves. -/
structure Answers where
  cron : Bool := false
  found : Bool := true
  secretBackends : Bool := true
  repoFound : Bool := true
  fetched : Option String := some ""
  repoReloaded : Bool := true
  workerResolved : Bool := true
  online : Bool := true
  queued : Bool := true
  containerSHA : String := ""
  wait : Wait := .proceed
  freshSHA : String := ""
  workDir : Bool := true
  composeFile : Bool := true
  envVars : Bool := true
  sops : Bool := true
  reloaded : Bool := true
  rendered : Option String := some ""
  revisionStored : Bool := true
  logCreated : Bool := true
  attempts : Nat → Attempt := fun _ => {}
  check : PostCheck := {}
  inspected : InspectResult := {}
  logUpdated : Bool := true
  repoSaved : Bool := true
  importPath : Bool := true
  fileChecksum : Option String := some ""
  saves : Site → Bool := fun _ => true

/-- The stored record, the copy the flow works on, and the variables of the
flow. -/
structure Run where
  db : Stack
  stack : Stack
  prevStatus : Status := .pending
  neverSynced : Bool := true
  remoteSHA : String := ""
  lastSHA : String := ""
  prevChecksum : Option String := none
  prevVersion : Nat := 0
  version : Nat := 0
  checksum : String := ""

inductive Skip where
  | offline
  | container
  | compose (checksum : String)
  | localFile (checksum : String)
  deriving DecidableEq

/-- How an execution ends. `failed` are the exits that marked the stack. -/
inductive Exit where
  | notFound
  | paused
  | secretError
  | saveFailed
  | failed
  | queued
  | skipped (why : Skip) (restored : Status)
  | unrestored (why : Skip)
  | cancelled
  | vanished
  | logFailed
  | repoUnsaved
  | deployed
  deriving DecidableEq

structure Finish where
  exit : Exit
  run : Run

variable (o : Answers) (r : Run) (status : Status)

def Run.save (ok : Bool) : Run := if ok then { r with db := r.stack } else r

def Run.setStatus : Run := { r with stack := { r.stack with status } }

def Run.setSecretError (secretError : Bool) : Run :=
  { r with stack := { r.stack with secretError } }

/-- `markErrorWithStatus`: a save that fails is only logged. -/
def markError (r : Run) : Run := (r.setStatus status).save (o.saves .mark)

def fail : Except Finish Run := .error ⟨.failed, markError o .error r⟩

/-- The checks that mark the stack and return when they fail. -/
def require (ok : Bool) (r : Run) : Except Finish Run := if ok then .ok r else fail o r

def requireSecret (ok : Bool) (r : Run) : Except Finish Run :=
  if ok then .ok r else fail o (r.setSecretError true)

def clearSecretError : Except Finish Run :=
  if r.stack.secretError then .ok ((r.setSecretError false).save (o.saves .clearSecret)) else .ok r

def effectivePrevStatus (s : Stack) : Status :=
  if s.status = .pending ∧ s.synced then .active else s.status

def shouldMarkPendingOnQueue (s : Stack) : Bool := s.status ≠ .error

def enter : Except Finish Run :=
  if !o.found then .error ⟨.notFound, r⟩
  else if r.stack.status = .paused then .error ⟨.paused, r⟩
  else if o.cron && r.stack.secretError then .error ⟨.secretError, r⟩
  else .ok r

def start (o : Answers) (r : Run) : Except Finish Run :=
  let r := { r.setStatus .syncing with prevStatus := effectivePrevStatus r.stack }
  if o.saves .start then .ok (r.save true) else .error ⟨.saveFailed, r⟩

/-- The skip paths put the status back that the execution found. -/
def restore (o : Answers) (why : Skip) (r : Run) : Except Finish Run :=
  let r := r.setStatus r.prevStatus
  if o.saves .restore then .error ⟨.skipped why r.prevStatus, r.save true⟩
  else .error ⟨.unrestored why, r⟩

def queuePending : Except Finish Run :=
  if !o.queued then fail o r
  else if shouldMarkPendingOnQueue r.stack then
    let r := r.setStatus .pending
    if o.saves .pending then .error ⟨.queued, r.save true⟩ else .error ⟨.saveFailed, r⟩
  else .error ⟨.queued, r⟩

def fetch : Except Finish Run :=
  match o.fetched with
  | none => fail o r
  | some sha => .ok { r with
      remoteSHA := sha, lastSHA := r.stack.deployedCommit, neverSynced := !r.stack.synced }

def checkOnline : Except Finish Run :=
  if o.online then .ok r
  else if r.remoteSHA ≠ r.lastSHA || !o.cron then queuePending o r
  else restore o .offline r

def checkContainer : Except Finish Run :=
  if o.cron && !r.neverSynced && r.remoteSHA = r.lastSHA && o.containerSHA = r.remoteSHA then
    restore o .container r
  else .ok r

def waitForRunningJobs : Except Finish Run :=
  match o.wait with
  | .proceed => .ok r
  | .cancelled => .error ⟨.cancelled, r⟩
  | .timedOut => fail o r

def reloadSHA : Except Finish Run :=
  .ok { r with remoteSHA := if o.freshSHA = "" then r.remoteSHA else o.freshSHA }

def reload : Except Finish Run :=
  if !o.reloaded then .error ⟨.vanished, r⟩
  else .ok { r with
    stack := r.db, prevChecksum := r.db.checksum, prevVersion := r.db.currentVersion }

/-- The end of `GenerateRevision`: the version is bumped unless the checksum is
the stored one, and the record moves to the render. -/
def generateRevision (force : Bool) (commitSHA : String) (r : Run) : Except Finish Run :=
  match o.rendered with
  | none => fail o r
  | some checksum =>
    let currentVersion := if r.stack.currentVersion = 0 then 1 else r.stack.currentVersion
    if !force && r.stack.checksum = some checksum then
      .ok { r with version := currentVersion, checksum }
    else
      let nextVersion :=
        if force || r.stack.checksum.isSome then currentVersion + 1 else currentVersion
      if !o.revisionStored then fail o r
      else
        let r := { r with
          stack := { r.stack with
            currentVersion := nextVersion, desiredCommit := commitSHA, checksum := some checksum }
          version := nextVersion
          checksum }
        if o.saves .render then .ok (r.save true) else fail o r

def checkUnchanged : Except Finish Run :=
  if !r.neverSynced && some r.checksum = r.prevChecksum && r.version = r.prevVersion then
    restore o (.compose r.checksum) r
  else .ok r

def createSyncLog : Except Finish Run :=
  if o.logCreated then .ok r else .error ⟨.logFailed, r⟩

def maxRetries : Nat := 3

def shouldRetryDeploy (attempt maxRetries : Nat) : Bool := attempt < maxRetries

inductive LoopEnd where
  | success
  | failed (reason : Reason)
  | unreadable
  | unlogged
  | cancelled
  deriving DecidableEq

/-- What one pass of the loop body reports: a missing credential ends the loop,
other failures are retried. -/
def runErr (a : Attempt) : Option Reason := if a.serialized then a.result else some .other

def deployLoop (attempts : Nat → Attempt) (attempt : Nat) : Nat → LoopEnd
  | 0 => .failed .other
  | n + 1 =>
    let a := attempts attempt
    if !a.readable then .unreadable
    else if !a.registry then .failed .other
    else match runErr a with
      | none => .success
      | some reason =>
        if shouldRetryDeploy attempt maxRetries then
          if !a.logged then .unlogged
          else if a.cancelled then .cancelled
          else deployLoop attempts (attempt + 1) n
        else .failed reason

def agreedRevision (inspected : InspectResult) : String :=
  match inspected.commitSHAs with
  | [sha] => sha
  | _ => ""

def convergeAfterTimeout (commitSHA previousSHA : String) : Option Verdict :=
  if commitSHA = "" || o.check.skipped || commitSHA = previousSHA then none
  else if agreedRevision o.inspected = commitSHA then some o.check.verdict
  else none

def recordDeployed (commitSHA checksum : String) (r : Run) : Run :=
  { r with stack := { r.stack with
      synced := true
      deployedVersion := r.version
      deployedCommit := commitSHA
      deployedChecksum := some checksum } }

def deployFailed (reason : Reason) (r : Run) : Except Finish Run :=
  match if reason = .timeout then convergeAfterTimeout o r.remoteSHA r.lastSHA else none with
  | some verdict =>
    .error ⟨.failed, markError o (if o.logUpdated then verdict.status else .error)
      (recordDeployed r.remoteSHA r.checksum r)⟩
  | none => fail o r

def deploy : Except Finish Run :=
  match deployLoop o.attempts 1 maxRetries with
  | .success => .ok r
  | .failed reason => deployFailed o reason r
  | .unreadable | .unlogged => fail o r
  | .cancelled => .error ⟨.cancelled, r⟩

def deployOnce : Except Finish Run :=
  let a := o.attempts 1
  if a.readable && a.registry && runErr a = none then .ok r else fail o r

def saveDeployed (r : Run) : Except Finish Run :=
  let r := r.setStatus status
  if !o.saves .complete then .error ⟨.saveFailed, r⟩
  else if o.logUpdated then .ok (r.save true)
  else fail o (r.save true)

def complete (r : Run) : Except Finish Run :=
  saveDeployed o status (recordDeployed r.remoteSHA r.checksum r)

def reconcileGit : Stage Run Finish :=
  chain [requireSecret o o.secretBackends, start o, require o o.repoFound, fetch o,
    require o o.repoReloaded, require o o.workerResolved, checkOnline o, checkContainer o,
    waitForRunningJobs o, reloadSHA o, require o o.workDir, require o o.composeFile,
    requireSecret o o.envVars, requireSecret o o.sops, clearSecretError o, reload o,
    fun r => generateRevision o false r.remoteSHA r, checkUnchanged o, createSyncLog o, deploy o,
    complete o o.check.verdict.status]

def checkLocalOnline : Except Finish Run :=
  if o.online then .ok r else queuePending o r

def readFile : Except Finish Run :=
  match o.fileChecksum with
  | none => fail o r
  | some c =>
    if o.cron && r.stack.synced && some c = r.stack.checksum then restore o (.localFile c) r else .ok r

def completeLocal : Except Finish Run :=
  let c := o.fileChecksum.getD ""
  saveDeployed o o.check.verdict.status
    (recordDeployed "imported" c { r with stack := { r.stack with checksum := some c } })

def reconcileLocal : Stage Run Finish :=
  chain [requireSecret o o.secretBackends, require o o.importPath, require o o.workerResolved,
    checkLocalOnline o, start o, readFile o, requireSecret o o.envVars, clearSecretError o,
    generateRevision o false "imported", createSyncLog o, deployOnce o, completeLocal o]

def finishOf : Except Finish Run → Finish
  | .ok r => ⟨.deployed, r⟩
  | .error f => f

theorem finishOf_after {Q : Run → Prop} {E : Finish → Prop} {x : Except Finish Run}
    (h : After Q E x) (hQ : ∀ r, Q r → E ⟨.deployed, r⟩) : E (finishOf x) := by
  cases x with
  | ok r => exact hQ r h
  | error f => exact h

def reconcileStack (s : Stack) : Finish :=
  finishOf (seq (enter o) (if s.isLocal then reconcileLocal o else reconcileGit o) { db := s, stack := s })

def checkFound : Except Finish Run :=
  if o.found then .ok r else .error ⟨.notFound, r⟩

def resolvePostDeployStatus (pauseAfter : Bool) : Status :=
  if status = .active ∧ pauseAfter then .paused else status

def saveRepo : Except Finish Run :=
  if o.repoSaved then .ok r else .error ⟨.repoUnsaved, r⟩

/-- `fetched` stands for the reset of the repository to the commit. -/
def rollbackStack (commitSHA : String) (s : Stack) : Finish :=
  finishOf (chain [checkFound o, requireSecret o o.secretBackends, start o, require o o.repoFound,
    require o o.fetched.isSome, require o o.workDir, require o o.composeFile,
    requireSecret o o.envVars, requireSecret o o.sops, clearSecretError o,
    require o o.workerResolved, generateRevision o true commitSHA, require o o.logCreated, deployOnce o, saveRepo o,
    complete o (resolvePostDeployStatus o.check.verdict.status true)]
    { db := s, stack := s, remoteSHA := commitSHA })

def forceRedeployStack (pauseAfter : Bool) (s : Stack) : Finish :=
  finishOf (chain [checkFound o, requireSecret o o.secretBackends, start o, require o o.repoFound,
    require o o.logCreated, require o o.workDir, requireSecret o o.envVars, requireSecret o o.sops,
    clearSecretError o, require o o.workerResolved, generateRevision o true o.freshSHA,
    deployOnce o, complete o (resolvePostDeployStatus o.check.verdict.status pauseAfter)]
    { db := s, stack := s, remoteSHA := o.freshSHA })

/-- A migration re-points the record and resets its sync state. -/
def migrateStack (s : Stack) : Stack :=
  { s with status := .pending, desiredCommit := "", checksum := none }

end Wireops.Sync.Reconcile
