import Wireops.Lib.Steps
import Wireops.Sync.Checks

namespace Wireops.Sync.Protection

open Lib.Flow Lib.Steps Sync.Checks Sync.Reconcile
open Sync.Stages

variable {o : Answers} {s : Stack} {r : Run}

/-- What a transfer meets with. `eligible` stands for the checks between the
secret backends and the first save; `verdict` is `active` where the status
could not be queried. -/
structure TransferAnswers where
  found : Bool := true
  secretBackends : Bool := true
  eligible : Bool := true
  started : Bool := true
  logCreated : Bool := true
  preflight : Bool := true
  deployed : Bool := true
  verdict : Verdict := .active
  saved : Bool := true
  logUpdated : Bool := true
  marked : Bool := true
  restored : Bool := true

def markTransferError (o : TransferAnswers) (s : Stack) : Stack :=
  if o.marked then { s with status := .error } else s

def transferStack (o : TransferAnswers) (s : Stack) : Stack :=
  if !o.found then s
  else if !o.secretBackends then
    if o.marked then { s with status := .error, secretError := true } else s
  else if !o.eligible || !o.started then s
  else
    let syncing := { s with status := .syncing }
    if !o.logCreated then markTransferError o syncing
    else if !o.preflight then
      if !o.logUpdated then markTransferError o syncing
      else if o.restored then { syncing with status := s.status }
      else syncing
    else if !o.deployed then markTransferError o syncing
    else if !o.saved then syncing
    else
      let moved := { syncing with status := o.verdict.status, synced := true }
      if o.logUpdated then moved else markTransferError o moved

/-- What the boot of the server does to a stack whose flow was cut off. -/
def recoverOrphanState (s : Stack) : Stack :=
  if s.status = .syncing then { s with status := .error } else s

/-- `guarded` says that a rollback has returned without error and no operator
has asked for the stack since, `broken` that a periodic sync has got to its
deploy all the same. -/
structure State where
  stack : Stack
  guarded : Bool := false
  broken : Bool := false

/-- Of the syncs, those of an operator lift the guard; the others come from the
ticker, a webhook or a replay. -/
inductive Action where
  | sync (operator : Bool) (o : Answers)
  | rollback (commitSHA : String) (o : Answers)
  | forceRedeploy (pauseAfter : Bool) (o : Answers)
  | setStatus (status : Status)
  | transfer (o : TransferAnswers)
  | migrate
  | boot

def deploys (o : Answers) (s : Stack) : Bool :=
  match atDeploy o s .reconcile with
  | .ok _ => true
  | .error _ => false

def step (s : State) : Action → Option State
  | .sync operator o =>
    if operator && o.cron then none
    else some
      { stack := (execute o s.stack .reconcile).run.db
        guarded := s.guarded && !operator
        broken := s.broken || (s.guarded && o.cron && deploys o s.stack) }
  | .rollback commitSHA o =>
    let f := execute o s.stack (.rollback commitSHA)
    some { s with stack := f.run.db, guarded := decide (f.exit = .deployed) }
  | .forceRedeploy pauseAfter o =>
    some { s with stack := (execute o s.stack (.forceRedeploy pauseAfter)).run.db, guarded := false }
  | .setStatus status =>
    some { s with stack := { s.stack with status }, guarded := s.guarded && status = .paused }
  | .transfer o => some { s with stack := transferStack o s.stack }
  | .migrate => some { s with stack := migrateStack s.stack }
  | .boot => some { s with stack := recoverOrphanState s.stack }

/-- The transfer ends before its first save, or is turned back by the checks of
the target and puts the status back. -/
def turnedBack (o : TransferAnswers) : Bool :=
  !o.found || (o.secretBackends &&
    (!o.eligible || !o.started || (o.logCreated && !o.preflight && o.logUpdated && o.restored)))

/-- A rollback is found active by its check, and a stack under guard is neither
moved to another worker nor migrated. -/
def Shielded (s : State) : Action → Prop
  | .rollback _ o => o.check.verdict = .active
  | .transfer o => s.guarded = true → turnedBack o = true
  | .migrate => s.guarded = false
  | .sync .. | .forceRedeploy .. | .setStatus _ | .boot => True

instance (s : State) (a : Action) : Decidable (Shielded s a) := by
  unfold Shielded
  split <;> infer_instance

theorem transferStack_turnedBack {o : TransferAnswers} (h : turnedBack o = true) (s : Stack) :
    (transferStack o s).status = s.status := by
  unfold turnedBack at h
  unfold transferStack
  cases hf : o.found with
  | false => rfl
  | true =>
    rw [hf, Bool.not_true, Bool.false_or, Bool.and_eq_true, Bool.or_eq_true, Bool.or_eq_true] at h
    obtain ⟨hsecret, (hel | hst) | hpre⟩ := h
    · simp [hsecret, hel]
    · simp [hsecret, hst]
    · simp only [Bool.and_eq_true, Bool.not_eq_true'] at hpre
      obtain ⟨⟨⟨hlog, hpre⟩, hupd⟩, hres⟩ := hpre
      cases hel : !o.eligible || !o.started with
      | true => simp only [hsecret, Bool.not_true, Bool.false_eq_true, if_false, if_true]
      | false =>
        simp only [hsecret, hlog, hpre, hupd, hres, Bool.not_true, Bool.not_false,
          Bool.false_eq_true, if_false, if_true]

section Paused

theorem atDeploy_paused (h : s.status = .paused) : ∃ f, atDeploy o s .reconcile = .error f ∧ f.run.db = s := by
  have henter : ∃ f, enter o { db := s, stack := s } = .error f ∧ f.run.db = s := by
    unfold enter
    split
    · exact ⟨_, rfl, rfl⟩
    · exact ⟨_, rfl, rfl⟩
  obtain ⟨f, hf, hdb⟩ := henter
  refine ⟨f, ?_, hdb⟩
  cases hl : s.isLocal with
  | true | false =>
    rw [atDeploy, parts, hl]
    exact congrArg (· >>= _) hf

theorem execute_paused (h : s.status = .paused) : (execute o s .reconcile).run.db = s := by
  obtain ⟨f, hf, hdb⟩ := @atDeploy_paused o s h
  rw [execute_eq, hf]
  exact hdb

theorem deploys_paused (h : s.status = .paused) : deploys o s = false := by
  obtain ⟨f, hf, _⟩ := @atDeploy_paused o s h
  rw [deploys, hf]

end Paused

section Rollback

def Undeployed (f : Finish) : Prop := f.exit ≠ .deployed

theorem fail_undeployed {Q : Run → Prop} : After Q Undeployed (fail o r) := nofun

theorem any_check {m : Stage Run Finish} (hm : Check o m) : Triple (fun _ => True) m (fun _ => True) Undeployed := by
  refine hm.triple ⟨nofun, nofun, ?_⟩
  rintro r exit _ hplain rfl
  cases hplain

theorem any_start : Triple (fun _ => True) (start o) (fun _ => True) Undeployed := by
  intro r _
  unfold start
  split
  · trivial
  · exact nofun

theorem any_clearSecretError : Triple (fun _ => True) (clearSecretError o) (fun _ => True) Undeployed := by
  intro r _
  unfold clearSecretError
  split <;> trivial

theorem any_generateRevision (force : Bool) (commitSHA : String) :
    Triple (fun _ => True) (generateRevision o force commitSHA) (fun _ => True) Undeployed := by
  intro r _
  unfold generateRevision
  split
  · exact fail_undeployed
  · dsimp only
    split
    · trivial
    · split
      · exact fail_undeployed
      · split
        · trivial
        · exact fail_undeployed

theorem complete_status (status : Status) :
    Triple (fun _ => True) (complete o status) (fun r => r.db.status = status) Undeployed := by
  intro r _
  unfold complete saveDeployed
  split
  · exact nofun
  · split
    · rfl
    · exact fail_undeployed

theorem rollback_status {commitSHA : String} (h : (execute o s (.rollback commitSHA)).exit = .deployed) :
    (execute o s (.rollback commitSHA)).run.db.status = resolvePostDeployStatus o.check.verdict.status true := by
  have hflow : Triple (fun _ => True)
      (chain ((rollbackParts o commitSHA).stages o))
      (fun r => r.db.status = resolvePostDeployStatus o.check.verdict.status true) Undeployed := by
    refine triple_begin any_check any_start ?_
    refine (any_check (check_require _)).seq ?_
    refine triple_secrets any_check any_clearSecretError ?_
    refine (any_generateRevision true commitSHA).seq ?_
    refine (any_check (check_require _)).seq ?_
    refine (any_check check_deployOnce).seq ?_
    refine (any_check check_saveRepo).seq ?_
    refine (complete_status _).seq ?_
    exact fun _ hr => hr
  rw [execute_eq_stages] at h ⊢
  have hafter := hflow (initial o s (.rollback commitSHA)) trivial
  unfold parts at h ⊢
  cases hx : chain ((rollbackParts o commitSHA).stages o) (initial o s (.rollback commitSHA)) with
  | ok r =>
    rw [hx] at hafter
    exact hafter
  | error f =>
    rw [hx] at hafter h
    exact absurd h hafter

end Rollback

structure Inv (s : State) : Prop where
  paused : s.guarded = true → s.stack.status = .paused
  kept : s.broken = false

theorem step_inv (s : State) (a : Action) (t : State) (hs : Inv s) (ha : Shielded s a)
    (h : step s a = some t) : Inv t := by
  cases a with
  | sync operator o =>
    rw [step] at h
    obtain ⟨_, ⟨⟩⟩ := Option.ite_none_left_eq_some.mp h
    cases hg : s.guarded with
    | false =>
      refine ⟨nofun, ?_⟩
      rw [hs.kept]
      rfl
    | true =>
      have hp := hs.paused hg
      refine ⟨fun _ => ?_, ?_⟩
      · dsimp only
        rw [execute_paused hp, hp]
      · dsimp only
        rw [hs.kept, deploys_paused hp, Bool.and_false]
        rfl
  | rollback commitSHA o =>
    cases h
    refine ⟨fun hd => ?_, hs.kept⟩
    rw [rollback_status (of_decide_eq_true hd), ha]
    rfl
  | forceRedeploy pauseAfter o =>
    cases h
    exact ⟨nofun, hs.kept⟩
  | setStatus status =>
    cases h
    refine ⟨fun hg => ?_, hs.kept⟩
    rw [Bool.and_eq_true, decide_eq_true_eq] at hg
    exact hg.2
  | transfer o =>
    cases h
    refine ⟨fun hg => ?_, hs.kept⟩
    exact (transferStack_turnedBack (ha hg) s.stack).trans (hs.paused hg)
  | migrate =>
    cases h
    refine ⟨fun hg => ?_, hs.kept⟩
    rw [ha] at hg
    cases hg
  | boot =>
    cases h
    refine ⟨fun hg => ?_, hs.kept⟩
    have hp := hs.paused hg
    rw [recoverOrphanState, hp]
    exact hp

theorem shielded_rollback_kept {s : Stack} {as : List Action} {t : State}
    (hg : Meets step Shielded { stack := s } as) (hr : run step { stack := s } as = some t) : t.broken = false := by
  have hinit : Inv { stack := s } := by
    refine ⟨fun h => ?_, rfl⟩
    cases h
  exact (run_invariant step_inv hinit hg hr).kept

def deployedStack : Stack where
  status := .active
  synced := true
  checksum := some "v2"
  currentVersion := 2
  desiredCommit := "c2"
  deployedVersion := 2
  deployedCommit := "c2"
  deployedChecksum := some "v2"

def rolledBack (verdict : Verdict) : Action :=
  .rollback "c1" { rendered := some "v1", check := { verdict } }

def tick : Action := .sync false { cron := true, fetched := some "c2", rendered := some "v2" }

/-- The ticker deploys the head again: after a transfer, and after a rollback
whose check found the stack degraded. -/
theorem rollback_undone : (∃ t ∈ run step { stack := deployedStack } [rolledBack .active, .transfer {}, tick],
      t.broken = true ∧ t.stack.deployedCommit = "c2") ∧
    (∃ t ∈ run step { stack := deployedStack } [rolledBack .degraded, tick],
      t.broken = true ∧ t.stack.deployedCommit = "c2") :=
  ⟨run_reaches (by decide +kernel), run_reaches (by decide +kernel)⟩

theorem refused_transfer_kept : ∃ t ∈ run step { stack := deployedStack }
    [rolledBack .active, .transfer { preflight := false }, .boot, tick],
    t.guarded = true ∧ t.stack.deployedCommit = "c1" ∧ t.broken = false := by
  obtain ⟨t, ht, hguard, hcommit⟩ := run_reaches
    (P := fun t => t.guarded = true ∧ t.stack.deployedCommit = "c1")
    (by decide +kernel : (run step { stack := deployedStack }
      [rolledBack .active, .transfer { preflight := false }, .boot, tick]).any _ = true)
  exact ⟨t, ht, hguard, hcommit, shielded_rollback_kept (by decide +kernel) ht⟩

end Wireops.Sync.Protection
