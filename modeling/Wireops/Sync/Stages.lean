import Wireops.Sync.Reconcile

namespace Wireops.Sync.Stages

open Lib.Flow Sync.Reconcile

inductive Operation where
  | reconcile
  | rollback (commitSHA : String)
  | forceRedeploy (pauseAfter : Bool)
  deriving DecidableEq

variable (o : Answers) (s : Stack) (op : Operation)

def execute : Operation → Finish
  | .reconcile => reconcileStack o s
  | .rollback commitSHA => rollbackStack o commitSHA s
  | .forceRedeploy pauseAfter => forceRedeployStack o pauseAfter s

def initial : Operation → Run
  | .reconcile => { db := s, stack := s }
  | .rollback commitSHA => { db := s, stack := s, remoteSHA := commitSHA }
  | .forceRedeploy _ => { db := s, stack := s, remoteSHA := o.freshSHA }

/-- A flow, cut where it renders and where it deploys. -/
structure Parts where
  opening : List (Stage Run Finish)
  force : Bool
  commitSHA : Run → String
  middle : List (Stage Run Finish)
  closing : List (Stage Run Finish)

def gitParts : Parts where
  opening := [enter o, requireSecret o o.secretBackends, start o, require o o.repoFound, fetch o,
    require o o.repoReloaded, require o o.workerResolved, checkOnline o, checkContainer o,
    waitForRunningJobs o, reloadSHA o, require o o.workDir, require o o.composeFile,
    requireSecret o o.envVars, requireSecret o o.sops, clearSecretError o, reload o]
  force := false
  commitSHA := (·.remoteSHA)
  middle := [checkUnchanged o, createSyncLog o]
  closing := [deploy o, complete o o.check.verdict.status]

def localParts : Parts where
  opening := [enter o, requireSecret o o.secretBackends, require o o.importPath,
    require o o.workerResolved, checkLocalOnline o, start o, readFile o, requireSecret o o.envVars,
    clearSecretError o]
  force := false
  commitSHA := fun _ => "imported"
  middle := [createSyncLog o]
  closing := [deployOnce o, completeLocal o]

def rollbackParts (commitSHA : String) : Parts where
  opening := [checkFound o, requireSecret o o.secretBackends, start o, require o o.repoFound,
    require o o.fetched.isSome, require o o.workDir, require o o.composeFile,
    requireSecret o o.envVars, requireSecret o o.sops, clearSecretError o,
    require o o.workerResolved]
  force := true
  commitSHA := fun _ => commitSHA
  middle := [require o o.logCreated]
  closing := [deployOnce o, saveRepo o, complete o (resolvePostDeployStatus o.check.verdict.status true)]

def forceRedeployParts (pauseAfter : Bool) : Parts where
  opening := [checkFound o, requireSecret o o.secretBackends, start o, require o o.repoFound,
    require o o.logCreated, require o o.workDir, requireSecret o o.envVars, requireSecret o o.sops,
    clearSecretError o, require o o.workerResolved]
  force := true
  commitSHA := fun _ => o.freshSHA
  middle := []
  closing := [deployOnce o, complete o (resolvePostDeployStatus o.check.verdict.status pauseAfter)]

def parts : Operation → Parts
  | .reconcile => if s.isLocal then localParts o else gitParts o
  | .rollback commitSHA => rollbackParts o commitSHA
  | .forceRedeploy pauseAfter => forceRedeployParts o pauseAfter

def Parts.render (p : Parts) (o : Answers) : Stage Run Finish :=
  fun r => generateRevision o p.force (p.commitSHA r) r

def Parts.stages (p : Parts) (o : Answers) : List (Stage Run Finish) :=
  p.opening ++ p.render o :: p.middle ++ p.closing

theorem execute_eq_stages :
    execute o s op = finishOf (chain ((parts o s op).stages o) (initial o s op)) := by
  cases op with
  | reconcile =>
    cases hl : s.isLocal with
    | true | false =>
      rw [execute, reconcileStack, parts, hl]
      rfl
  | rollback commitSHA => rfl
  | forceRedeploy pauseAfter => rfl

def atRender : Except Finish Run :=
  chain (parts o s op).opening (initial o s op)

def atDeploy : Except Finish Run :=
  chain ((parts o s op).opening ++ (parts o s op).render o :: (parts o s op).middle) (initial o s op)

theorem atDeploy_eq : atDeploy o s op =
      atRender o s op >>= seq ((parts o s op).render o) (chain (parts o s op).middle) := by
  rw [atDeploy, chain_append]
  rfl

theorem execute_eq :
    execute o s op = finishOf (atDeploy o s op >>= chain (parts o s op).closing) := by
  rw [execute_eq_stages, Parts.stages, chain_append]
  rfl

def attemptSucceeds (a : Attempt) : Bool := a.readable && a.registry && runErr a = none

def deploySucceeds (r : Run) : Operation → Bool
  | .reconcile =>
    if s.isLocal then attemptSucceeds (o.attempts 1)
    else match deployLoop o.attempts 1 maxRetries with
      | .success => true
      | .failed .timeout => (convergeAfterTimeout o r.remoteSHA r.lastSHA).isSome
      | _ => false
  | .rollback _ | .forceRedeploy _ => attemptSucceeds (o.attempts 1)

/-- The execution gets to its deploy, and the deploy succeeds. -/
def lands : Bool :=
  match atDeploy o s op with
  | .ok r => deploySucceeds o s r op
  | .error _ => false

structure Both (P : Stack → Prop) (r : Run) : Prop where
  db : P r.db
  stack : P r.stack

theorem Both.save {P : Stack → Prop} {r : Run} (h : Both P r) (ok : Bool) : Both P (r.save ok) := by
  cases ok with
  | false => exact h
  | true => exact ⟨h.stack, h.stack⟩

end Wireops.Sync.Stages
