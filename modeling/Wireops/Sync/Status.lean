import Wireops.Lib.Steps
import Wireops.Sync.Reconcile

namespace Wireops.Sync.Status

open Lib.Flow Lib.Steps Sync.Reconcile

variable {o : Answers} {r : Run}

def sites : List Site := [.start, .mark, .restore, .pending, .clearSecret, .render, .complete]

theorem mem_sites (site : Site) : site ∈ sites := by
  cases site <;> decide

/-- The saves succeed, and the execution is neither cancelled nor denied its
sync log or the second look at the record. -/
structure Undisturbed (o : Answers) : Prop where
  saves : ∀ site, o.saves site = true
  wait : o.wait ≠ .cancelled
  reloaded : o.reloaded = true
  logCreated : o.logCreated = true
  loop : deployLoop o.attempts 1 maxRetries ≠ .cancelled

instance (o : Answers) : Decidable (Undisturbed o) :=
  decidable_of_iff ((∀ site ∈ sites, o.saves site = true) ∧ o.wait ≠ .cancelled ∧ o.reloaded = true ∧
      o.logCreated = true ∧ deployLoop o.attempts 1 maxRetries ≠ .cancelled)
    ⟨fun ⟨hs, hw, hr, hl, hd⟩ => ⟨fun site => hs site (mem_sites site), hw, hr, hl, hd⟩,
      fun h => ⟨fun site _ => h.saves site, h.wait, h.reloaded, h.logCreated, h.loop⟩⟩

/-- The execution has left the record with another status than `syncing`, and
has restored none. -/
structure Settled (f : Finish) : Prop where
  status : f.run.db.status ≠ .syncing
  restored : ∀ why st, f.exit = .skipped why st → st ≠ .syncing

/-- The record between the start of an execution and its end. -/
structure Open (r : Run) : Prop where
  prev : r.prevStatus ≠ .syncing
  db : r.db.status = .syncing
  stack : r.stack.status = .syncing

structure Idle (r : Run) : Prop where
  db : r.db.status ≠ .syncing
  stack : r.stack.status ≠ .syncing

section Stages

variable (ho : Undisturbed o)

include ho

theorem markError_status (st : Status) : (markError o st r).db.status = st := by
  rw [markError, ho.saves]
  rfl

variable {Q : Run → Prop}

theorem fail_settled : After Q Settled (fail o r) := by
  refine Settled.mk ?_ nofun
  rw [markError_status ho]
  decide

theorem triple_require {P : Run → Prop} (ok : Bool) : Triple P (require o ok) P Settled := by
  intro r h
  cases ok with
  | true => exact h
  | false => exact fail_settled ho

theorem triple_requireSecret {P : Run → Prop} (ok : Bool) : Triple P (requireSecret o ok) P Settled := by
  intro r h
  cases ok with
  | true => exact h
  | false => exact fail_settled ho

theorem restore_settled (h : Open r) {why : Skip} : After Q Settled (restore o why r) := by
  unfold restore
  rw [if_pos (ho.saves _)]
  refine Settled.mk h.prev ?_
  rintro _ _ ⟨rfl, rfl⟩
  exact h.prev

theorem queuePending_settled (h : r.stack.status = .error → r.db.status ≠ .syncing) :
    After Q Settled (queuePending o r) := by
  unfold queuePending
  split
  · exact fail_settled ho
  · split
    · rw [if_pos (ho.saves _)]
      refine Settled.mk ?_ nofun
      rintro ⟨⟩
    · next herr =>
      refine Settled.mk (h ?_) nofun
      rw [shouldMarkPendingOnQueue, decide_eq_true_eq, not_not] at herr
      exact herr

theorem triple_start : Triple Idle (start o) Open Settled := by
  intro r h
  unfold start
  rw [if_pos (ho.saves _)]
  refine Open.mk ?_ rfl rfl
  have hprev : effectivePrevStatus r.stack ≠ .syncing := by
    unfold effectivePrevStatus
    split
    · decide
    · exact h.stack
  exact hprev

omit ho in
theorem triple_clearSecretError : Triple Open (clearSecretError o) Open Settled := by
  intro r h
  unfold clearSecretError
  split
  · unfold Run.save
    split
    · exact ⟨h.prev, h.stack, h.stack⟩
    · exact ⟨h.prev, h.db, h.stack⟩
  · exact h

theorem triple_fetch : Triple Open (fetch o) Open Settled := by
  intro r h
  unfold fetch
  split
  · exact fail_settled ho
  · exact ⟨h.prev, h.db, h.stack⟩

theorem triple_checkOnline : Triple Open (checkOnline o) Open Settled := by
  intro r h
  unfold checkOnline
  split
  · exact h
  · split
    · refine queuePending_settled ho (fun he => ?_)
      cases h.stack.symm.trans he
    · exact restore_settled ho h

theorem triple_checkContainer : Triple Open (checkContainer o) Open Settled := by
  intro r h
  unfold checkContainer
  split
  · exact restore_settled ho h
  · exact h

theorem triple_waitForRunningJobs : Triple Open (waitForRunningJobs o) Open Settled := by
  intro r h
  unfold waitForRunningJobs
  split
  · exact h
  · next hw => exact absurd hw ho.wait
  · exact fail_settled ho

omit ho in
theorem triple_reloadSHA : Triple Open (reloadSHA o) Open Settled :=
  fun _ h => ⟨h.prev, h.db, h.stack⟩

theorem triple_reload : Triple Open (reload o) Open Settled := by
  intro r h
  unfold reload
  rw [ho.reloaded]
  exact ⟨h.prev, h.db, h.db⟩

theorem triple_generateRevision (force : Bool) (commitSHA : Run → String) :
    Triple Open (fun r => generateRevision o force (commitSHA r) r) Open Settled := by
  intro r h
  unfold generateRevision
  split
  · exact fail_settled ho
  · dsimp only
    split
    · exact ⟨h.prev, h.db, h.stack⟩
    · split
      · exact fail_settled ho
      · rw [if_pos (ho.saves _)]
        exact ⟨h.prev, h.stack, h.stack⟩

theorem triple_checkUnchanged : Triple Open (checkUnchanged o) Open Settled := by
  intro r h
  unfold checkUnchanged
  split
  · exact restore_settled ho h
  · exact h

theorem triple_createSyncLog : Triple Open (createSyncLog o) Open Settled := by
  intro r h
  unfold createSyncLog
  rw [if_pos ho.logCreated]
  exact h

omit ho in
theorem verdict_ne (v : Verdict) : v.status ≠ .syncing := by
  cases v <;> decide

theorem triple_deploy : Triple Open (deploy o) Open Settled := by
  intro r h
  unfold deploy
  split
  · exact h
  · unfold deployFailed
    split
    · next verdict _ =>
      refine Settled.mk ?_ nofun
      rw [markError_status ho]
      split
      · exact verdict_ne verdict
      · decide
    · exact fail_settled ho
  · exact fail_settled ho
  · exact fail_settled ho
  · next hc => exact absurd hc ho.loop

theorem triple_deployOnce : Triple Open (deployOnce o) Open Settled := by
  intro r h
  unfold deployOnce
  dsimp only
  split
  · exact h
  · exact fail_settled ho

theorem saveDeployed_settled {status : Status} (hst : status ≠ .syncing) :
    After (fun r => r.db.status ≠ .syncing) Settled (saveDeployed o status r) := by
  unfold saveDeployed
  rw [ho.saves]
  dsimp only [Bool.not_true]
  split
  · next hf => cases hf
  · split
    · exact hst
    · exact fail_settled ho

theorem triple_checkLocalOnline : Triple Idle (checkLocalOnline o) Idle Settled := by
  intro r h
  unfold checkLocalOnline
  split
  · exact h
  · exact queuePending_settled ho (fun _ => h.db)

theorem triple_readFile : Triple Open (readFile o) Open Settled := by
  intro r h
  unfold readFile
  split
  · exact fail_settled ho
  · split
    · exact restore_settled ho h
    · exact h

omit ho in
theorem triple_enter : Triple Idle (enter o) Idle Settled := by
  intro r h
  unfold enter
  split
  · exact ⟨h.db, nofun⟩
  · split
    · exact ⟨h.db, nofun⟩
    · split
      · exact ⟨h.db, nofun⟩
      · exact h

end Stages

section Flows

variable (ho : Undisturbed o)

include ho

theorem reconcileGit_settled : Triple Idle (reconcileGit o) (fun r => r.db.status ≠ .syncing) Settled := by
  refine (triple_requireSecret ho _).seq ?_
  refine (triple_start ho).seq ?_
  refine (triple_require ho _).seq ?_
  refine (triple_fetch ho).seq ?_
  refine (triple_require ho _).seq ?_
  refine (triple_require ho _).seq ?_
  refine (triple_checkOnline ho).seq ?_
  refine (triple_checkContainer ho).seq ?_
  refine (triple_waitForRunningJobs ho).seq ?_
  refine triple_reloadSHA.seq ?_
  refine (triple_require ho _).seq ?_
  refine (triple_require ho _).seq ?_
  refine (triple_requireSecret ho _).seq ?_
  refine (triple_requireSecret ho _).seq ?_
  refine triple_clearSecretError.seq ?_
  refine (triple_reload ho).seq ?_
  refine (triple_generateRevision ho false (·.remoteSHA)).seq ?_
  refine (triple_checkUnchanged ho).seq ?_
  refine (triple_createSyncLog ho).seq ?_
  refine (triple_deploy ho).seq ?_
  refine Triple.seq (fun _ _ => saveDeployed_settled ho (verdict_ne _)) ?_
  exact fun _ h => h

theorem reconcileLocal_settled : Triple Idle (reconcileLocal o) (fun r => r.db.status ≠ .syncing) Settled := by
  refine (triple_requireSecret ho _).seq ?_
  refine (triple_require ho _).seq ?_
  refine (triple_require ho _).seq ?_
  refine (triple_checkLocalOnline ho).seq ?_
  refine (triple_start ho).seq ?_
  refine (triple_readFile ho).seq ?_
  refine (triple_requireSecret ho _).seq ?_
  refine triple_clearSecretError.seq ?_
  refine (triple_generateRevision ho false (fun _ => "imported")).seq ?_
  refine (triple_createSyncLog ho).seq ?_
  refine (triple_deployOnce ho).seq ?_
  refine Triple.seq (fun _ _ => saveDeployed_settled ho (verdict_ne _)) ?_
  exact fun _ h => h

theorem reconcileStack_settled {s : Stack} (hs : s.status ≠ .syncing) : Settled (reconcileStack o s) := by
  have hflow : Triple Idle (if s.isLocal then reconcileLocal o else reconcileGit o)
      (fun r => r.db.status ≠ .syncing) Settled := by
    split
    · exact reconcileLocal_settled ho
    · exact reconcileGit_settled ho
  have h := (triple_enter (o := o)).seq hflow { db := s, stack := s } ⟨hs, hs⟩
  exact finishOf_after h (fun _ hr => ⟨hr, nofun⟩)

end Flows

structure State where
  stack : Stack := {}
  restored : List Status := []

def restoredBy : Exit → List Status
  | .skipped _ st => [st]
  | _ => []

/-- One execution after the other: each holds the lock of the stack. -/
def step (s : State) (o : Answers) : Option State :=
  let f := reconcileStack o s.stack
  some ⟨f.run.db, s.restored ++ restoredBy f.exit⟩

/-- No execution so far has left or restored the status `syncing`. -/
structure NeverStuck (s : State) : Prop where
  status : s.stack.status ≠ .syncing
  restored : ∀ st ∈ s.restored, st ≠ .syncing

theorem step_neverStuck (s : State) (o : Answers) (t : State) (hs : NeverStuck s)
    (ho : Undisturbed o) (h : step s o = some t) : NeverStuck t := by
  cases h
  have hf := reconcileStack_settled ho hs.status
  refine ⟨hf.status, fun st hm => ?_⟩
  obtain hm | hm := List.mem_append.mp hm
  · exact hs.restored st hm
  · cases hx : (reconcileStack o s.stack).exit with
    | skipped why st' =>
      rw [hx] at hm
      cases List.mem_singleton.mp hm
      exact hf.restored why st hx
    | _ =>
      rw [hx] at hm
      cases hm

theorem undisturbed_never_stuck {s : Stack} (hs : s.status ≠ .syncing) {os : List Answers}
    {t : State} (ho : Meets step (fun _ o => Undisturbed o) { stack := s } os)
    (hr : run step { stack := s } os = some t) : NeverStuck t := by
  refine run_invariant step_neverStuck (NeverStuck.mk hs ?_) ho hr
  intro st hm
  cases hm

def cancelledRetry (_ : Nat) : Attempt := { result := some .other, cancelled := true }

/-- An execution is cancelled between its attempts; the next one finds the
container on its commit. -/
def cancelledThenSkipped : List Answers :=
  [{ fetched := some "c1", rendered := some "v1" },
    { fetched := some "c2", rendered := some "v2", attempts := cancelledRetry },
    { cron := true, fetched := some "c1", containerSHA := "c1" }]

theorem cancelled_retry_stuck : (∃ t ∈ run step {} (cancelledThenSkipped.take 2), t.stack.status = .syncing) ∧
      ∃ t ∈ run step {} cancelledThenSkipped,
        t.restored = [.syncing] ∧ t.stack.status = .syncing ∧ ¬ NeverStuck t := by
  refine ⟨run_reaches (by decide +kernel), ?_⟩
  obtain ⟨t, ht, hrestored, hst⟩ := run_reaches
    (P := fun t => t.restored = [.syncing] ∧ t.stack.status = .syncing)
    (by decide +kernel : (run step {} cancelledThenSkipped).any _ = true)
  exact ⟨t, ht, hrestored, hst, fun h => h.status hst⟩

/-- All attempts of the second execution fail. -/
def failedThenSkippedOffline : List Answers :=
  [{ fetched := some "c1", rendered := some "v1" },
    { fetched := some "c2", rendered := some "v2", attempts := fun _ => { result := some .other } },
    { cron := true, fetched := some "c1", online := false }]

theorem failed_attempts_settle : ∃ t ∈ run step {} failedThenSkippedOffline,
    t.restored = [.error] ∧ NeverStuck t := by
  obtain ⟨t, ht, hrestored⟩ := run_reaches (P := fun t => t.restored = [.error])
    (by decide +kernel : (run step {} failedThenSkippedOffline).any _ = true)
  exact ⟨t, ht, hrestored, undisturbed_never_stuck (by decide) (by decide +kernel) ht⟩

end Wireops.Sync.Status
