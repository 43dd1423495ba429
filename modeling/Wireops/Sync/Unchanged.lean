import Wireops.Lib.Steps
import Wireops.Sync.Frame

namespace Wireops.Sync.Unchanged

open Bool Lib.Flow Lib.Steps Sync.Checks Sync.Frame Sync.Reconcile Sync.Stages

variable {o : Answers} {s₀ s : Stack} {r : Run}

/-- A stack that was synced is stored at the revision it was deployed at, or at
none. -/
def Aligned (s : Stack) : Prop :=
  s.synced = true → s.checksum = none ∨ s.checksum = s.deployedChecksum

/-- The fields the alignment is about are as in the other record. -/
structure Agree (s₀ s : Stack) : Prop where
  synced : s.synced = s₀.synced
  checksum : s.checksum = s₀.checksum
  deployed : s.deployedChecksum = s₀.deployedChecksum

theorem Aligned.agree (h : Aligned s₀) (ha : Agree s₀ s) : Aligned s := by
  unfold Aligned
  rw [ha.synced, ha.checksum, ha.deployed]
  exact h

def checksumOf : Exit → Option String
  | .skipped (.compose c) _ | .skipped (.localFile c) _ => some c
  | .unrestored (.compose c) | .unrestored (.localFile c) => some c
  | _ => none

/-- An execution leaves the record aligned, and skips an unchanged revision
only if it is the deployed one. -/
structure Good (f : Finish) : Prop where
  aligned : Aligned f.run.db
  skip : ∀ c, checksumOf f.exit = some c → f.run.db.deployedChecksum = some c

/-- Before the render both copies of the record are as the flow found it. -/
structure Before (s₀ : Stack) (r : Run) : Prop where
  db : Agree s₀ r.db
  stack : Agree s₀ r.stack
  synced : r.neverSynced = false → s₀.synced = true

theorem Good.of_agree {f : Finish} (hs : Aligned s₀) (h : Agree s₀ f.run.db)
    (hx : checksumOf f.exit = none) : Good f where
  aligned := hs.agree h
  skip c hc := by
    rw [hx] at hc
    cases hc

theorem save_before (h : Before s₀ r) (ok : Bool) : Before s₀ (r.save ok) := by
  cases ok with
  | false => exact h
  | true => exact ⟨h.stack, h.stack, h.synced⟩

theorem setStatus_before (h : Before s₀ r) (status : Status) : Before s₀ (r.setStatus status) :=
  ⟨h.db, ⟨h.stack.synced, h.stack.checksum, h.stack.deployed⟩, h.synced⟩

theorem setSecretError_before (h : Before s₀ r) (b : Bool) : Before s₀ (r.setSecretError b) :=
  ⟨h.db, ⟨h.stack.synced, h.stack.checksum, h.stack.deployed⟩, h.synced⟩

theorem markError_before (h : Before s₀ r) (status : Status) : Before s₀ (markError o status r) :=
  save_before (setStatus_before h status) _

section Early

variable (hs : Aligned s₀)

include hs

theorem fail_good (h : Before s₀ r) {Q : Run → Prop} : After Q Good (fail o r) :=
  Good.of_agree hs (markError_before h .error).db rfl

theorem rules_good : Rules o (Before s₀) Good where
  fail h := fail_good (Q := Before s₀) hs h
  failSecret h := fail_good (Q := Before s₀) hs (setSecretError_before h true)
  stop {r exit} h hplain := by
    refine Good.of_agree hs h.db ?_
    cases exit <;> first | rfl | cases hplain

theorem triple_check {m : Stage Run Finish} (hm : Check o m) : Triple (Before s₀) m (Before s₀) Good :=
  hm.triple (rules_good hs)

omit hs in
theorem triple_clearSecretError : Triple (Before s₀) (clearSecretError o) (Before s₀) Good := by
  intro r h
  unfold clearSecretError
  split
  · exact save_before (setSecretError_before h false) _
  · exact h

theorem triple_start : Triple (Before s₀) (start o) (Before s₀) Good := by
  intro r h
  have h' : Before s₀ { r.setStatus .syncing with prevStatus := effectivePrevStatus r.stack } :=
    let h := setStatus_before h .syncing
    ⟨h.db, h.stack, h.synced⟩
  unfold start
  split
  · exact save_before h' true
  · exact Good.of_agree hs h'.db rfl

theorem restore_good (h : Before s₀ r) {why : Skip}
    (hw : ∀ c, checksumOf (.unrestored why) = some c → s₀.deployedChecksum = some c)
    {Q : Run → Prop} : After Q Good (restore o why r) := by
  have h' := save_before (setStatus_before h r.prevStatus) true
  unfold restore
  split
  · refine Good.mk (hs.agree h'.db) (fun c hc => h'.db.deployed.trans (hw c ?_))
    rw [← hc]
    cases why <;> rfl
  · exact Good.mk (hs.agree h.db) (fun c hc => h.db.deployed.trans (hw c hc))

theorem queuePending_good (h : Before s₀ r) {Q : Run → Prop} : After Q Good (queuePending o r) := by
  unfold queuePending
  split
  · exact fail_good hs h
  · split
    · dsimp only
      split
      · exact Good.of_agree hs (save_before (setStatus_before h .pending) true).db rfl
      · exact Good.of_agree hs h.db rfl
    · exact Good.of_agree hs h.db rfl

theorem triple_fetch : Triple (Before s₀) (fetch o) (Before s₀) Good := by
  intro r h
  unfold fetch
  split
  · exact fail_good hs h
  · refine ⟨h.db, h.stack, fun hn => ?_⟩
    rw [not_eq_false'] at hn
    exact h.stack.synced.symm.trans hn

theorem triple_checkOnline : Triple (Before s₀) (checkOnline o) (Before s₀) Good := by
  intro r h
  unfold checkOnline
  split
  · exact h
  · split
    · exact queuePending_good hs h
    · refine restore_good hs h ?_
      rintro c ⟨⟩

theorem triple_checkLocalOnline : Triple (Before s₀) (checkLocalOnline o) (Before s₀) Good := by
  intro r h
  unfold checkLocalOnline
  split
  · exact h
  · exact queuePending_good hs h

theorem triple_checkContainer : Triple (Before s₀) (checkContainer o) (Before s₀) Good := by
  intro r h
  unfold checkContainer
  split
  · refine restore_good hs h ?_
    rintro c ⟨⟩
  · exact h

omit hs in
theorem triple_reloadSHA : Triple (Before s₀) (reloadSHA o) (Before s₀) Good :=
  fun _ h => ⟨h.db, h.stack, h.synced⟩

theorem triple_reload : Triple (Before s₀) (reload o) (fun r => Before s₀ r ∧ r.prevChecksum = s₀.checksum) Good := by
  intro r h
  unfold reload
  split
  · exact Good.of_agree hs h.db rfl
  · exact ⟨⟨h.db, h.db, h.synced⟩, h.db.checksum⟩

theorem triple_readFile : Triple (Before s₀) (readFile o) (Before s₀) Good := by
  intro r h
  unfold readFile
  split
  · exact fail_good hs h
  · next c _ =>
    split
    · next hskip =>
      simp only [and_eq_true, decide_eq_true_eq] at hskip
      obtain ⟨⟨_, hsynced⟩, hsame⟩ := hskip
      refine restore_good hs h ?_
      rintro d ⟨rfl⟩
      obtain hnone | heq := hs.agree h.stack hsynced
      · rw [hnone] at hsame
        cases hsame
      · rw [← h.stack.deployed, ← heq, ← hsame]
    · exact h

end Early

/-- After the render either the record has moved to a new revision, which the
flow is bound to land (`L`), or both copies are as the flow found them. -/
structure Rendered (s₀ : Stack) (L : Prop) (r : Run) : Prop where
  stored : r.stack.checksum = some r.checksum
  lands : (L ∧ s₀.checksum ≠ some r.checksum) ∨ Before s₀ r

theorem Rendered.before {L : Prop} (h : Rendered s₀ L r) (hno : ¬ L) : Before s₀ r := by
  obtain ⟨hL, _⟩ | hb := h.lands
  · exact absurd hL hno
  · exact hb

/-- The end of the deploy records the revision. -/
def landsDeploy (o : Answers) (s : Stack) : Bool :=
  match deployLoop o.attempts 1 maxRetries with
  | .success => o.saves .complete
  | .failed .timeout => (convergeAfterTimeout o (attempted o) s.deployedCommit).isSome && o.saves .mark
  | _ => false

section Late

variable {L : Prop} (hs : Aligned s₀)

include hs

theorem triple_generateRevision (force : Bool) (commitSHA : Run → String) (P : Option String → String → String → Prop)
    (hrender : ∀ c, o.rendered = some c → s₀.checksum ≠ some c → L) (hsave : L → o.saves .render = true) :
    Triple (fun r => Before s₀ r ∧ P r.prevChecksum r.remoteSHA r.lastSHA)
      (fun r => generateRevision o force (commitSHA r) r)
      (fun r => Rendered s₀ L r ∧ P r.prevChecksum r.remoteSHA r.lastSHA) Good := by
  rintro r ⟨h, hp⟩
  unfold generateRevision
  split
  · exact fail_good hs h
  · next c hc =>
    dsimp only
    split
    · next hsame =>
      rw [and_eq_true, decide_eq_true_eq] at hsame
      exact ⟨⟨hsame.2, .inr ⟨h.db, h.stack, h.synced⟩⟩, hp⟩
    · split
      · exact fail_good hs h
      · by_cases hmoved : s₀.checksum = some c
        · have hstack : ∀ v d, Agree s₀ { r.stack with
              currentVersion := v, desiredCommit := d, checksum := some c } :=
            fun _ _ => ⟨h.stack.synced, hmoved.symm, h.stack.deployed⟩
          split
          · exact ⟨⟨rfl, .inr ⟨hstack _ _, hstack _ _, h.synced⟩⟩, hp⟩
          · refine fail_good hs ?_
            exact ⟨h.db, hstack _ _, h.synced⟩
        · have hL := hrender c hc hmoved
          rw [if_pos (hsave hL)]
          exact ⟨⟨rfl, .inl ⟨hL, hmoved⟩⟩, hp⟩

theorem triple_checkUnchanged : Triple (fun r => Rendered s₀ L r ∧ r.prevChecksum = s₀.checksum) (checkUnchanged o)
      (Rendered s₀ L) Good := by
  rintro r ⟨h, hp⟩
  unfold checkUnchanged
  split
  · next hskip =>
    simp only [and_eq_true, not_eq_true', decide_eq_true_eq] at hskip
    obtain ⟨⟨hnever, hsame⟩, _⟩ := hskip
    rw [hp] at hsame
    obtain ⟨_, hne⟩ | hb := h.lands
    · exact absurd hsame.symm hne
    · refine restore_good hs hb ?_
      rintro c ⟨rfl⟩
      obtain hnone | heq := hs (hb.synced hnever)
      · rw [hnone] at hsame
        cases hsame
      · rw [← heq, hsame]
  · exact h

theorem triple_landing {m : Stage Run Finish} (hm : Check o m) (hpass : L → ∀ r, m r = .ok r) :
    Triple (Rendered s₀ L) m (Rendered s₀ L) Good := by
  intro r h
  by_cases hL : L
  · rw [hpass hL r]
    exact h
  · exact hm.after (rules_good hs) (h.before hL) h

omit hs in
theorem recordDeployed_aligned {c : String} (h : r.stack.checksum = some c) (commitSHA : String) :
    Aligned (recordDeployed commitSHA c r).stack :=
  fun _ => .inr h

theorem converged_good (h : Rendered s₀ L r) (hmark : L → o.saves .mark = true) (status : Status) :
    Good ⟨.failed, markError o status (recordDeployed r.remoteSHA r.checksum r)⟩ := by
  refine Good.mk ?_ nofun
  unfold markError Run.save
  split
  · exact recordDeployed_aligned h.stored r.remoteSHA
  · next hno => exact hs.agree (h.before (fun hL => hno (hmark hL))).db

/-- The revision is deployed when the loop ends in success, or in a timeout
after which the stack is found converged. -/
theorem triple_deploy (hlands : L → landsDeploy o s₀ = true) :
    Triple (fun r => Rendered s₀ L r ∧ Commits o s₀.deployedCommit r) (deploy o)
      (Rendered s₀ (L ∧ deployLoop o.attempts 1 maxRetries = .success)) Good := by
  rintro r ⟨h, hremote, hlast⟩
  unfold landsDeploy at hlands
  unfold deploy
  cases hend : deployLoop o.attempts 1 maxRetries with
  | success => exact ⟨h.stored, h.lands.imp_left (fun hl => ⟨⟨hl.1, rfl⟩, hl.2⟩)⟩
  | failed reason =>
    rw [hend] at hlands
    dsimp only
    unfold deployFailed
    rw [hremote, hlast]
    cases reason with
    | other => exact fail_good hs (h.before (fun hL => nomatch hlands hL))
    | timeout =>
      rw [if_pos rfl]
      split
      · rw [← hremote]
        exact converged_good hs h (fun hL => (and_eq_true_iff.mp (hlands hL)).2) _
      · next hnone =>
        refine fail_good hs (h.before (fun hL => ?_))
        have hsome := (and_eq_true_iff.mp (hlands hL)).1
        rw [hnone] at hsome
        cases hsome
  | unreadable | unlogged =>
    rw [hend] at hlands
    exact fail_good hs (h.before (fun hL => nomatch hlands hL))
  | cancelled =>
    rw [hend] at hlands
    exact Good.of_agree hs (h.before (fun hL => nomatch hlands hL)).db rfl

omit hs in
theorem saveDeployed_aligned (status : Status) (hd : o.saves .complete = false → Aligned r.db)
    (hstack : Aligned r.stack) : After (fun r => Aligned r.db) Good (saveDeployed o status r) := by
  unfold saveDeployed
  split
  · next hno => exact ⟨hd ((not_eq_true' _).mp hno), nofun⟩
  · split
    · exact hstack
    · refine Good.mk ?_ nofun
      unfold markError Run.save
      split
      · exact hstack
      · exact hstack

theorem triple_complete (status : Status) (hsave : L → o.saves .complete = true) :
    Triple (Rendered s₀ L) (complete o status) (fun r => Aligned r.db) Good := by
  intro r h
  refine saveDeployed_aligned status (fun hno => ?_) (recordDeployed_aligned h.stored _)
  exact hs.agree (h.before (fun hL => Bool.noConfusion ((hsave hL).symm.trans hno))).db

theorem triple_completeLocal (hsave : L → o.saves .complete = true) :
    Triple (Rendered s₀ L) (completeLocal o) (fun r => Aligned r.db) Good := by
  intro r h
  refine saveDeployed_aligned _ (fun hno => ?_) (recordDeployed_aligned rfl _)
  exact hs.agree (h.before (fun hL => Bool.noConfusion ((hsave hL).symm.trans hno))).db

end Late

def landsGit (o : Answers) (s : Stack) : Bool := o.saves .render && o.logCreated && landsDeploy o s

def landsOnce (o : Answers) : Bool :=
  o.saves .render && o.logCreated &&
    ((o.attempts 1).readable && (o.attempts 1).registry && runErr (o.attempts 1) = none) &&
    o.saves .complete

theorem landsGit_parts (h : landsGit o s = true) :
    o.saves .render = true ∧ o.logCreated = true ∧ landsDeploy o s = true := by
  rw [landsGit, and_eq_true, and_eq_true] at h
  exact ⟨h.1.1, h.1.2, h.2⟩

theorem landsDeploy_complete (h : landsDeploy o s = true)
    (hend : deployLoop o.attempts 1 maxRetries = .success) : o.saves .complete = true := by
  rwa [landsDeploy, hend] at h

theorem landsOnce_parts (h : landsOnce o = true) : o.saves .render = true ∧ o.logCreated = true ∧
    ((o.attempts 1).readable && (o.attempts 1).registry && runErr (o.attempts 1) = none) = true ∧
    o.saves .complete = true := by
  rw [landsOnce, and_eq_true, and_eq_true, and_eq_true] at h
  exact ⟨h.1.1.1, h.1.1.2, h.1.2, h.2⟩

theorem finishOf_good {m : Stage Run Finish}
    (hm : Triple (fun r => Before s₀ r ∧ r.stack.deployedCommit = s₀.deployedCommit) m
      (fun r => Aligned r.db) Good) (commitSHA : String) :
    Good (finishOf (m { db := s₀, stack := s₀, remoteSHA := commitSHA })) := by
  have hb : Before s₀ { db := s₀, stack := s₀, remoteSHA := commitSHA } :=
    ⟨⟨rfl, rfl, rfl⟩, ⟨rfl, rfl, rfl⟩, nofun⟩
  exact finishOf_after (hm _ ⟨hb, rfl⟩) (fun _ h => ⟨h, nofun⟩)

section Flows

variable (hs : Aligned s₀)

include hs

theorem opening_good : Triple (Before s₀) (chain (gitParts o).opening.tail)
    (fun r => Before s₀ r ∧ r.prevChecksum = s₀.checksum) Good := by
  have hcheck : Rules o (Before s₀) Good := rules_good hs
  exact triple_gitOpening hcheck hcheck hcheck hcheck hcheck (triple_start hs) (triple_fetch hs)
    (triple_checkOnline hs) (triple_checkContainer hs) triple_reloadSHA triple_clearSecretError (triple_reload hs)

theorem reconcileGit_good (hrender : ∀ c, o.rendered = some c → s₀.checksum ≠ some c → landsGit o s₀ = true) :
    Triple (fun r => Before s₀ r ∧ r.stack.deployedCommit = s₀.deployedCommit) (reconcileGit o)
      (fun r => Aligned r.db) Good := by
  have hparts : reconcileGit o = chain ((gitParts o).opening.tail ++
      [fun r => generateRevision o false r.remoteSHA r, checkUnchanged o, createSyncLog o, deploy o,
        complete o o.check.verdict.status]) := rfl
  have hrevise : Triple (fun r => (Before s₀ r ∧ r.prevChecksum = s₀.checksum) ∧ Commits o s₀.deployedCommit r)
      (fun r => generateRevision o false r.remoteSHA r)
      (fun r => (Rendered s₀ (landsGit o s₀ = true) r ∧ r.prevChecksum = s₀.checksum) ∧
        Commits o s₀.deployedCommit r) Good :=
    (triple_generateRevision hs false (·.remoteSHA)
      (fun prev remote last => prev = s₀.checksum ∧ remote = attempted o ∧ last = s₀.deployedCommit)
      hrender (fun h => (landsGit_parts h).1)).conseq
      (fun _ h => ⟨h.1.1, h.1.2, h.2⟩) (fun _ h => ⟨⟨h.1, h.2.1⟩, h.2.2⟩)
  have hlog : Triple (Rendered s₀ (landsGit o s₀ = true)) (createSyncLog o) (Rendered s₀ (landsGit o s₀ = true)) Good :=
    triple_landing hs check_createSyncLog (fun h _ => if_pos (landsGit_parts h).2.1)
  rw [hparts, chain_append]
  refine ((opening_good hs).and opening_commits).seq ?_
  refine hrevise.seq ?_
  refine ((triple_checkUnchanged hs).and still_checkUnchanged.keeps).seq ?_
  refine (hlog.and (still_check check_createSyncLog).keeps).seq ?_
  refine (triple_deploy hs (fun h => (landsGit_parts h).2.2)).seq ?_
  refine (triple_complete hs _ (fun h => landsDeploy_complete (landsGit_parts h.1).2.2 h.2)).seq ?_
  exact fun _ h => h

section Once

variable {L : Prop} (hL : L → landsOnce o = true)
  (hrender : ∀ c, o.rendered = some c → s₀.checksum ≠ some c → L)

include hL hrender

theorem triple_renderOnce (force : Bool) (commitSHA : String) :
    Triple (Before s₀) (generateRevision o force commitSHA) (Rendered s₀ L) Good := by
  refine (triple_generateRevision hs force (fun _ => commitSHA) (fun _ _ _ => True) hrender
    (fun h => (landsOnce_parts (hL h)).1)).conseq ?_ ?_
  · exact fun _ h => ⟨h, trivial⟩
  · exact fun _ h => h.1

theorem reconcileLocal_good : Triple (Before s₀) (reconcileLocal o) (fun r => Aligned r.db) Good := by
  refine (triple_check hs (check_requireSecret _)).seq ?_
  refine (triple_check hs (check_require _)).seq ?_
  refine (triple_check hs (check_require _)).seq ?_
  refine (triple_checkLocalOnline hs).seq ?_
  refine (triple_start hs).seq ?_
  refine (triple_readFile hs).seq ?_
  refine (triple_check hs (check_requireSecret _)).seq ?_
  refine triple_clearSecretError.seq ?_
  refine (triple_renderOnce hs hL hrender false "imported").seq ?_
  refine (triple_landing hs check_createSyncLog (fun h _ => if_pos (landsOnce_parts (hL h)).2.1)).seq ?_
  refine (triple_landing hs check_deployOnce (fun h _ => if_pos (landsOnce_parts (hL h)).2.2.1)).seq ?_
  refine (triple_completeLocal hs (fun h => (landsOnce_parts (hL h)).2.2.2)).seq ?_
  exact fun _ h => h

theorem rollbackStack_good (hrepo : L → o.repoSaved = true) (commitSHA : String) :
    Good (rollbackStack o commitSHA s₀) := by
  refine finishOf_good (Triple.conseq ?_ (fun _ h => h.1) (fun _ h => h)) commitSHA
  refine triple_begin (triple_check hs) (triple_start hs) ?_
  refine (triple_check hs (check_require _)).seq ?_
  refine triple_secrets (triple_check hs) triple_clearSecretError ?_
  refine (triple_renderOnce hs hL hrender true commitSHA).seq ?_
  refine (triple_landing hs (check_require _) (fun h _ => if_pos (landsOnce_parts (hL h)).2.1)).seq ?_
  refine (triple_landing hs check_deployOnce (fun h _ => if_pos (landsOnce_parts (hL h)).2.2.1)).seq ?_
  refine (triple_landing hs check_saveRepo (fun h _ => if_pos (hrepo h))).seq ?_
  refine (triple_complete hs _ (fun h => (landsOnce_parts (hL h)).2.2.2)).seq ?_
  exact fun _ h => h

theorem forceRedeployStack_good (pauseAfter : Bool) : Good (forceRedeployStack o pauseAfter s₀) := by
  refine finishOf_good (Triple.conseq ?_ (fun _ h => h.1) (fun _ h => h)) o.freshSHA
  refine triple_begin (triple_check hs) (triple_start hs) ?_
  refine triple_secrets (triple_check hs) triple_clearSecretError ?_
  refine (triple_renderOnce hs hL hrender true o.freshSHA).seq ?_
  refine (triple_landing hs check_deployOnce (fun h _ => if_pos (landsOnce_parts (hL h)).2.2.1)).seq ?_
  refine (triple_complete hs _ (fun h => (landsOnce_parts (hL h)).2.2.2)).seq ?_
  exact fun _ h => h

end Once

end Flows

structure State where
  stack : Stack := {}
  skips : List (String × Option String) := []

inductive Action where
  | reconcile (o : Answers)
  | rollback (commitSHA : String) (o : Answers)
  | forceRedeploy (pauseAfter : Bool) (o : Answers)
  | migrate

def finish (s : State) (f : Finish) : State where
  stack := f.run.db
  skips := match checksumOf f.exit with
    | none => s.skips
    | some c => s.skips ++ [(c, f.run.db.deployedChecksum)]

/-- The flows hold the lock of the stack, so one follows the other. -/
def step (s : State) : Action → Option State
  | .reconcile o => some (finish s (reconcileStack o s.stack))
  | .rollback commitSHA o => some (finish s (rollbackStack o commitSHA s.stack))
  | .forceRedeploy pauseAfter o => some (finish s (forceRedeployStack o pauseAfter s.stack))
  | .migrate => some { s with stack := migrateStack s.stack }

def moves (o : Answers) (s : Stack) : Bool := o.rendered.any (fun c => s.checksum ≠ some c)

def Landing (s : State) : Action → Prop
  | .reconcile o => moves o s.stack = true → (if s.stack.isLocal then landsOnce o else landsGit o s.stack) = true
  | .rollback _ o => moves o s.stack = true → (landsOnce o && o.repoSaved) = true
  | .forceRedeploy _ o => moves o s.stack = true → landsOnce o = true
  | .migrate => True

instance (s : State) : (a : Action) → Decidable (Landing s a)
  | .reconcile _ | .rollback _ _ | .forceRedeploy _ _ => inferInstanceAs (Decidable (_ → _))
  | .migrate => .isTrue trivial

theorem moves_of_rendered {c : String} (hc : o.rendered = some c) (hne : s.checksum ≠ some c) : moves o s = true := by
  rw [moves, hc, Option.any_some, decide_eq_true_eq]
  exact hne

structure Inv (s : State) : Prop where
  aligned : Aligned s.stack
  skips : ∀ c d, (c, d) ∈ s.skips → d = some c

theorem finish_inv {s : State} {f : Finish} (hs : Inv s) (hf : Good f) : Inv (finish s f) where
  aligned := hf.aligned
  skips c d hm := by
    unfold finish at hm
    split at hm
    · exact hs.skips c d hm
    · next c' hc =>
      obtain hm | hm := List.mem_append.mp hm
      · exact hs.skips c d hm
      · obtain ⟨rfl, rfl⟩ := Prod.mk.inj (List.mem_singleton.mp hm)
        exact hf.skip c hc

theorem reconcileStack_good (hs : Aligned s) (hg : moves o s = true →
    (if s.isLocal then landsOnce o else landsGit o s) = true) : Good (reconcileStack o s) := by
  refine finishOf_good ?_ ""
  refine ((triple_check hs check_enter).and (still_check check_enter).keeps).seq ?_
  have hrender : ∀ c, o.rendered = some c → s.checksum ≠ some c →
      (if s.isLocal then landsOnce o else landsGit o s) = true :=
    fun c hc hne => hg (moves_of_rendered hc hne)
  split at hrender
  · next hl => exact if_pos hl ▸ (reconcileLocal_good hs id hrender).conseq (fun _ h => h.1) (fun _ h => h)
  · next hl => exact if_neg hl ▸ reconcileGit_good hs hrender

theorem step_inv (s : State) (a : Action) (t : State) (hs : Inv s) (hg : Landing s a)
    (h : step s a = some t) : Inv t := by
  cases a with
  | reconcile o =>
    cases h
    exact finish_inv hs (reconcileStack_good hs.aligned hg)
  | rollback commitSHA o =>
    cases h
    have hrender : ∀ c, o.rendered = some c → s.stack.checksum ≠ some c →
        (landsOnce o && o.repoSaved) = true := fun c hc hne => hg (moves_of_rendered hc hne)
    simp only [and_eq_true] at hrender
    exact finish_inv hs (rollbackStack_good hs.aligned And.left hrender And.right commitSHA)
  | forceRedeploy pauseAfter o =>
    cases h
    exact finish_inv hs (forceRedeployStack_good hs.aligned id
      (fun c hc hne => hg (moves_of_rendered hc hne)) pauseAfter)
  | migrate =>
    cases h
    exact ⟨fun _ => .inl rfl, hs.skips⟩

/-- Every skip so far rested on the revision deployed at the time. -/
def SkipsDeployed (s : State) : Prop := ∀ c d, (c, d) ∈ s.skips → d = some c

theorem landing_skips_deployed {s : Stack} (hs : s.synced = false) {as : List Action} {t : State}
    (hg : Meets step Landing { stack := s } as) (hr : run step { stack := s } as = some t) : SkipsDeployed t := by
  have hinv : Inv { stack := s } := by
    refine Inv.mk (fun h => ?_) (fun c d hm => nomatch hm)
    cases hs.symm.trans h
  exact (run_invariant step_inv hinv hg hr).skips

def failing (_ : Nat) : Attempt := { result := some .other }

/-- The second revision is rendered and never deployed; the next sync renders
it again. -/
def failedThenSkipped : List Action :=
  [.reconcile { rendered := some "v1", fetched := some "c1" },
    .reconcile { rendered := some "v2", fetched := some "c2", attempts := failing },
    .reconcile { rendered := some "v2", fetched := some "c2" }]

theorem undeployed_revision_skipped : ∃ t ∈ run step {} failedThenSkipped,
    t.skips = [("v2", some "v1")] ∧ t.stack.checksum = some "v2" ∧
      t.stack.deployedChecksum = some "v1" ∧ t.stack.deployedCommit = "c1" ∧
      t.stack.status = .error ∧ ¬ SkipsDeployed t := by
  obtain ⟨t, ht, hskips, hsum, hdep, hcommit, hstatus⟩ := run_reaches
    (P := fun t => t.skips = [("v2", some "v1")] ∧ t.stack.checksum = some "v2" ∧
      t.stack.deployedChecksum = some "v1" ∧ t.stack.deployedCommit = "c1" ∧ t.stack.status = .error)
    (by decide +kernel : (run step {} failedThenSkipped).any _ = true)
  refine ⟨t, ht, hskips, hsum, hdep, hcommit, hstatus, fun h => ?_⟩
  have hm : ("v2", some "v1") ∈ t.skips := hskips ▸ List.mem_cons_self
  exact absurd (h "v2" (some "v1") hm) (by decide)

def failingOnce (n : Nat) : Attempt := if n = 1 then failing n else {}

def timingOut (_ : Nat) : Attempt := { result := some .timeout }

/-- The second revision lands at the second attempt; the failing forced redeploy
renders it again, and a commit that leaves it alone is skipped. The third times out and
is found converged, so it is skipped as well. -/
def landedThenSkipped : List Action :=
  [.reconcile { rendered := some "v1", fetched := some "c1" },
    .reconcile { rendered := some "v2", fetched := some "c2", attempts := failingOnce },
    .forceRedeploy false { rendered := some "v2", freshSHA := "c2", attempts := failing },
    .reconcile { rendered := some "v2", fetched := some "c3" },
    .reconcile { rendered := some "v3", fetched := some "c4", attempts := timingOut
                 inspected := { commitSHAs := ["c4"] } },
    .reconcile { rendered := some "v3", fetched := some "c5" }]

theorem deployed_revision_skipped : ∃ t ∈ run step {} landedThenSkipped,
    t.skips = [("v2", some "v2"), ("v3", some "v3")] ∧ SkipsDeployed t := by
  obtain ⟨t, ht, hskips⟩ := run_reaches (P := fun t => t.skips = [("v2", some "v2"), ("v3", some "v3")])
    (by decide +kernel : (run step {} landedThenSkipped).any _ = true)
  exact ⟨t, ht, hskips, landing_skips_deployed rfl (by decide +kernel) ht⟩

end Wireops.Sync.Unchanged
