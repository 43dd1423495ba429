import Wireops.Lib.Steps
import Wireops.Sync.Checks

namespace Wireops.Sync.Recovery

open Lib.Flow Lib.Steps Sync.Checks Sync.Reconcile
open Sync.Stages

variable {o : Answers} {s₀ s : Stack} {r : Run}

/-- The statuses a stack has from an error to its next deploy. -/
def awaiting : Status → Bool
  | .error | .pending | .syncing => true
  | .active | .degraded | .paused => false

structure Waits (s₀ s : Stack) : Prop where
  status : awaiting s.status = true
  isLocal : s.isLocal = s₀.isLocal

structure Same (s₀ s : Stack) : Prop extends Waits s₀ s where
  synced : s.synced = s₀.synced
  checksum : s.checksum = s₀.checksum
  deployedCommit : s.deployedCommit = s₀.deployedCommit

theorem Waits.setStatus (h : Waits s₀ s) {status : Status} (hst : awaiting status = true) :
    Waits s₀ { s with status } :=
  ⟨hst, h.isLocal⟩

theorem Same.setStatus (h : Same s₀ s) {status : Status} (hst : awaiting status = true) : Same s₀ { s with status } :=
  ⟨h.toWaits.setStatus hst, h.synced, h.checksum, h.deployedCommit⟩

theorem Same.setSecretError (h : Same s₀ s) (secretError : Bool) : Same s₀ { s with secretError } :=
  ⟨⟨h.status, h.isLocal⟩, h.synced, h.checksum, h.deployedCommit⟩

theorem both_waits (h : Both (Same s₀) r) : Both (Waits s₀) r := ⟨h.db.toWaits, h.stack.toWaits⟩

/-- An execution without a successful deploy leaves the stack waiting for one,
and a skip leaves it in error. -/
structure Left (s₀ : Stack) (f : Finish) : Prop where
  db : Waits s₀ f.run.db
  skip : ∀ why st, f.exit = .skipped why st → f.run.db.status = .error

section Failing

variable {P Q : Run → Prop}

theorem fail_left (h : Both (Waits s₀) r) : After Q (Left s₀) (fail o r) := by
  refine Left.mk ?_ nofun
  have hstack : Both (Waits s₀) (r.setStatus .error) := ⟨h.db, h.stack.setStatus rfl⟩
  exact (hstack.save _).db

theorem rules_left (hP : ∀ r, P r → Both (Waits s₀) r) : Rules o P (Left s₀) := by
  refine ⟨fun h => fail_left (Q := P) (hP _ h), fun h => ?_, fun h hplain => ?_⟩
  · have hw := hP _ h
    exact fail_left (Q := P) ⟨hw.db, ⟨hw.stack.status, hw.stack.isLocal⟩⟩
  · refine ⟨(hP _ h).db, ?_⟩
    rintro why st rfl
    cases hplain

theorem triple_check {m : Stage Run Finish} (hm : Check o m) : Triple (Both (Waits s₀)) m (Both (Waits s₀)) (Left s₀) :=
  hm.triple (rules_left fun _ h => h)

theorem queuePending_left (h : Both (Waits s₀) r) : After Q (Left s₀) (queuePending o r) := by
  unfold queuePending
  split
  · exact fail_left h
  · split
    · dsimp only
      split
      · exact ⟨h.stack.setStatus rfl, nofun⟩
      · exact ⟨h.db, nofun⟩
    · exact ⟨h.db, nofun⟩

end Failing

section Skips

/-- The answers and the record let the execution skip: the periodic one finds
nothing new, or the render answers with the stored checksum. -/
def skipGate (o : Answers) (s : Stack) : Bool :=
  (o.cron && o.fetched = some s.deployedCommit &&
      (!o.online || s.synced && o.containerSHA = s.deployedCommit)) ||
    (s.synced && o.rendered.isSome && o.rendered = s.checksum)

/-- An execution that may skip found the stack in error. -/
def Deserved (o : Answers) (s₀ : Stack) : Prop := s₀.status = .error ∨ skipGate o s₀ = false

theorem Deserved.error (h : Deserved o s₀) (hgate : skipGate o s₀ = true) : s₀.status = .error := by
  refine h.resolve_right (fun hno => ?_)
  rw [hgate] at hno
  cases hno

structure Begun (s₀ : Stack) (r : Run) : Prop extends Both (Same s₀) r where
  prev : s₀.status = .error → r.prevStatus = .error

structure Fetched (o : Answers) (s₀ : Stack) (r : Run) : Prop extends Begun s₀ r where
  remote : o.fetched = some r.remoteSHA
  last : r.lastSHA = s₀.deployedCommit
  never : r.neverSynced = !s₀.synced

structure Passed (s₀ : Stack) (r : Run) : Prop extends Begun s₀ r where
  never : r.neverSynced = !s₀.synced

structure Rendered (o : Answers) (s₀ : Stack) (r : Run) : Prop extends Both (Waits s₀) r where
  prev : s₀.status = .error → r.prevStatus = .error
  never : r.neverSynced = !s₀.synced
  prevChecksum : r.prevChecksum = s₀.checksum
  checksum : o.rendered = some r.checksum

theorem restore_left {Q : Run → Prop} {why : Skip} (h : Both (Waits s₀) r)
    (hprev : r.prevStatus = .error) : After Q (Left s₀) (restore o why r) := by
  unfold restore
  rw [hprev]
  split
  · exact ⟨h.stack.setStatus rfl, fun _ _ _ => rfl⟩
  · exact ⟨h.db, nofun⟩

theorem triple_start : Triple (fun r => Both (Same s₀) r ∧ r.stack = s₀) (start o) (Begun s₀) (Left s₀) := by
  rintro r ⟨h, rfl⟩
  have hsync : Same r.stack { r.stack with status := .syncing } := h.stack.setStatus rfl
  unfold start
  split
  · refine ⟨⟨hsync, hsync⟩, fun herr => ?_⟩
    have hprev : effectivePrevStatus r.stack = .error := by
      rw [effectivePrevStatus, herr]
      rfl
    exact hprev
  · exact ⟨(both_waits h).db, nofun⟩

theorem triple_fetch : Triple (Begun s₀) (fetch o) (Fetched o s₀) (Left s₀) := by
  intro r h
  unfold fetch
  split
  · exact fail_left (both_waits h.toBoth)
  · next sha hsha =>
    refine ⟨⟨⟨h.db, h.stack⟩, h.prev⟩, hsha, h.stack.deployedCommit, ?_⟩
    rw [h.stack.synced]

theorem triple_checkOnline (hd : Deserved o s₀) : Triple (Fetched o s₀) (checkOnline o) (Fetched o s₀) (Left s₀) := by
  intro r h
  unfold checkOnline
  split
  · exact h
  · next hoff =>
    split
    · exact queuePending_left (both_waits h.toBoth)
    · next hsame =>
      refine restore_left (both_waits h.toBoth) (h.prev (hd.error ?_))
      simp only [Bool.or_eq_true, decide_eq_true_eq, Bool.not_eq_true', not_or, not_not,
        Bool.not_eq_false] at hsame hoff
      simp [skipGate, hsame.2, hoff, h.remote, hsame.1, h.last]

theorem triple_checkContainer (hd : Deserved o s₀) :
    Triple (Fetched o s₀) (checkContainer o) (Passed s₀) (Left s₀) := by
  intro r h
  unfold checkContainer
  split
  · next hskip =>
    refine restore_left (both_waits h.toBoth) (h.prev (hd.error ?_))
    simp only [Bool.and_eq_true, decide_eq_true_eq, h.never, Bool.not_not] at hskip
    obtain ⟨⟨⟨hcron, hsynced⟩, hsame⟩, hcontainer⟩ := hskip
    rw [hsame, h.last] at hcontainer
    simp [skipGate, hcron, hsynced, h.remote, hsame, h.last, hcontainer]
  · exact ⟨h.toBegun, h.never⟩

theorem triple_reloadSHA : Triple (Passed s₀) (reloadSHA o) (Passed s₀) (Left s₀) :=
  fun _ h => ⟨⟨⟨h.db, h.stack⟩, h.prev⟩, h.never⟩

theorem triple_clearSecretError : Triple (Passed s₀) (clearSecretError o) (Passed s₀) (Left s₀) := by
  intro r h
  unfold clearSecretError
  split
  · have hboth : Both (Same s₀) (r.setSecretError false) := ⟨h.db, h.stack.setSecretError false⟩
    unfold Run.save
    split
    · exact ⟨⟨⟨hboth.stack, hboth.stack⟩, h.prev⟩, h.never⟩
    · exact ⟨⟨hboth, h.prev⟩, h.never⟩
  · exact h

theorem triple_reload : Triple (Passed s₀) (reload o)
    (fun r => Passed s₀ r ∧ r.prevChecksum = s₀.checksum) (Left s₀) := by
  intro r h
  unfold reload
  split
  · exact ⟨(both_waits h.toBoth).db, nofun⟩
  · exact ⟨⟨⟨⟨h.db, h.db⟩, h.prev⟩, h.never⟩, h.db.checksum⟩

theorem generateRevision_after {force : Bool} {commitSHA : String} {Q : Run → Prop} (h : Both (Waits s₀) r)
    (hQ : ∀ t : Run, Both (Waits s₀) t → t.prevStatus = r.prevStatus → t.neverSynced = r.neverSynced →
      t.prevChecksum = r.prevChecksum → o.rendered = some t.checksum → Q t) :
    After Q (Left s₀) (generateRevision o force commitSHA r) := by
  unfold generateRevision
  split
  · exact fail_left h
  · next c hc =>
    dsimp only
    split
    · exact hQ _ ⟨h.db, h.stack⟩ rfl rfl rfl hc
    · split
      · exact fail_left h
      · have hstack : ∀ v, Waits s₀ { r.stack with
            currentVersion := v, desiredCommit := commitSHA, checksum := some c } :=
          fun v => ⟨h.stack.status, h.stack.isLocal⟩
        split
        · exact hQ _ ⟨hstack _, hstack _⟩ rfl rfl rfl hc
        · exact fail_left ⟨h.db, hstack _⟩

theorem triple_checkUnchanged (hd : Deserved o s₀) :
    Triple (Rendered o s₀) (checkUnchanged o) (Both (Waits s₀)) (Left s₀) := by
  intro r h
  unfold checkUnchanged
  split
  · next hskip =>
    refine restore_left h.toBoth (h.prev (hd.error ?_))
    simp only [Bool.and_eq_true, decide_eq_true_eq, h.never, Bool.not_not] at hskip
    obtain ⟨⟨hsynced, hsame⟩, _⟩ := hskip
    rw [h.prevChecksum] at hsame
    simp [skipGate, hsynced, h.checksum, ← hsame]
  · exact h.toBoth

end Skips

section Flows

theorem reconcileGit_waits (hd : Deserved o s₀) (hs : Waits s₀ s₀) : After (Both (Waits s₀)) (Left s₀)
      (chain ((gitParts o).opening ++ (gitParts o).render o :: (gitParts o).middle) { db := s₀, stack := s₀ }) := by
  have hsame : Same s₀ s₀ := ⟨hs, rfl, rfl, rfl⟩
  have hflow : Triple (fun r => Both (Same s₀) r ∧ r.stack = s₀)
      (chain ((gitParts o).opening ++ (gitParts o).render o :: (gitParts o).middle))
      (Both (Waits s₀)) (Left s₀) := by
    have hinitial : Rules o (fun r => Both (Same s₀) r ∧ r.stack = s₀) (Left s₀) := rules_left fun _ h => both_waits h.1
    have hbegun : Rules o (Begun s₀) (Left s₀) := rules_left fun _ h => both_waits h.toBoth
    have hfetched : Rules o (Fetched o s₀) (Left s₀) := rules_left fun _ h => both_waits h.toBoth
    have hpassed : Rules o (Passed s₀) (Left s₀) := rules_left fun _ h => both_waits h.toBoth
    rw [chain_append]
    refine ((check_enter.triple hinitial).seq (triple_gitOpening hinitial hbegun hfetched hpassed hpassed triple_start
      triple_fetch (triple_checkOnline hd) (triple_checkContainer hd) triple_reloadSHA triple_clearSecretError
      triple_reload)).seq ?_
    refine Triple.seq (Q := Rendered o s₀) ?_ ?_
    · rintro r ⟨h, hsum⟩
      refine generateRevision_after (both_waits h.toBoth) (fun t ht hprev hnever hpsum hc => ?_)
      exact ⟨ht, fun herr => hprev.trans (h.prev herr), hnever.trans h.never, hpsum.trans hsum, hc⟩
    refine (triple_checkUnchanged hd).seq ?_
    refine (triple_check check_createSyncLog).seq ?_
    exact fun _ h => h
  exact hflow _ ⟨⟨hsame, hsame⟩, rfl⟩

theorem triple_startWaiting : Triple (Both (Waits s₀)) (start o) (Both (Waits s₀)) (Left s₀) := by
  intro r h
  have hsync : Waits s₀ { r.stack with status := .syncing } := h.stack.setStatus rfl
  unfold start
  split
  · exact ⟨hsync, hsync⟩
  · exact ⟨h.db, nofun⟩

theorem triple_clearWaiting : Triple (Both (Waits s₀)) (clearSecretError o) (Both (Waits s₀)) (Left s₀) := by
  intro r h
  have hboth : Both (Waits s₀) (r.setSecretError false) :=
    ⟨h.db, ⟨h.stack.status, h.stack.isLocal⟩⟩
  unfold clearSecretError
  split
  · exact hboth.save _
  · exact h

theorem triple_renderWaiting (force : Bool) (commitSHA : Run → String) :
    Triple (Both (Waits s₀)) (fun r => generateRevision o force (commitSHA r) r) (Both (Waits s₀)) (Left s₀) :=
  fun _ h => generateRevision_after h (fun _ ht _ _ _ _ => ht)

theorem rollback_waits (commitSHA : String) : Triple (Both (Waits s₀)) (chain ((rollbackParts o commitSHA).opening ++
      (rollbackParts o commitSHA).render o :: (rollbackParts o commitSHA).middle)) (Both (Waits s₀)) (Left s₀) := by
  refine triple_begin triple_check triple_startWaiting ?_
  refine (triple_check (check_require _)).seq ?_
  refine triple_secrets triple_check triple_clearWaiting ?_
  refine (triple_renderWaiting true (fun _ => commitSHA)).seq ?_
  refine (triple_check (check_require _)).seq ?_
  exact fun _ h => h

theorem forceRedeploy_waits (pauseAfter : Bool) : Triple (Both (Waits s₀))
    (chain ((forceRedeployParts o pauseAfter).opening ++
      (forceRedeployParts o pauseAfter).render o :: (forceRedeployParts o pauseAfter).middle))
    (Both (Waits s₀)) (Left s₀) := by
  refine triple_begin triple_check triple_startWaiting ?_
  refine triple_secrets triple_check triple_clearWaiting ?_
  refine (triple_renderWaiting true (fun _ => o.freshSHA)).seq ?_
  exact fun _ h => h

variable {Q : Run → Prop} {op : Operation}

theorem deploy_left (hl : s₀.isLocal = false) (h : Both (Waits s₀) r)
    (hno : deploySucceeds o s₀ r .reconcile = false) : After Q (Left s₀) (deploy o r) := by
  rw [deploySucceeds, hl] at hno
  unfold deploy
  cases hend : deployLoop o.attempts 1 maxRetries with
  | success =>
    rw [hend] at hno
    cases hno
  | failed reason =>
    rw [hend] at hno
    unfold deployFailed
    cases reason with
    | timeout =>
      have hnone : convergeAfterTimeout o r.remoteSHA r.lastSHA = none := by simpa using hno
      dsimp only
      rw [if_pos rfl, hnone]
      exact fail_left h
    | other => exact fail_left h
  | unreadable => exact fail_left h
  | unlogged => exact fail_left h
  | cancelled => exact ⟨h.db, nofun⟩

theorem deployOnce_left (h : Both (Waits s₀) r)
    (hno : attemptSucceeds (o.attempts 1) = false) : After Q (Left s₀) (deployOnce o r) := by
  unfold deployOnce
  dsimp only
  rw [← attemptSucceeds, hno]
  exact fail_left h

/-- The condition on an execution; only a sync skips. -/
def DeservedBy (o : Answers) (s : Stack) : Operation → Prop
  | .reconcile => Deserved o s
  | .rollback _ | .forceRedeploy _ => True

theorem atDeploy_waits (hl : s₀.isLocal = false) (hs : awaiting s₀.status = true)
    (hd : DeservedBy o s₀ op) : After (Both (Waits s₀)) (Left s₀) (atDeploy o s₀ op) := by
  have hw : Waits s₀ s₀ := ⟨hs, rfl⟩
  cases op with
  | reconcile =>
    have hparts : parts o s₀ .reconcile = gitParts o := by rw [parts, hl]; rfl
    rw [atDeploy, hparts]
    exact reconcileGit_waits hd hw
  | rollback commitSHA => exact rollback_waits commitSHA _ ⟨hw, hw⟩
  | forceRedeploy pauseAfter => exact forceRedeploy_waits pauseAfter _ ⟨hw, hw⟩

theorem closing_left (hl : s₀.isLocal = false) (h : Both (Waits s₀) r) (hno : deploySucceeds o s₀ r op = false) :
    After Q (Left s₀) (chain (parts o s₀ op).closing r) := by
  cases op with
  | reconcile =>
    have hparts : parts o s₀ .reconcile = gitParts o := by rw [parts, hl]; rfl
    rw [hparts]
    exact After.seq (Q := fun _ => False) (deploy_left hl h hno) (fun _ _ hf => hf.elim)
  | rollback | forceRedeploy =>
    exact After.seq (Q := fun _ => False) (deployOnce_left h hno) (fun _ _ hf => hf.elim)

theorem execute_left (hl : s₀.isLocal = false) (hs : awaiting s₀.status = true)
    (hd : DeservedBy o s₀ op) (hno : lands o s₀ op = false) : Left s₀ (execute o s₀ op) := by
  have hflow := atDeploy_waits hl hs hd
  rw [execute_eq]
  unfold lands at hno
  refine finishOf_after (Q := fun _ => False) ?_ (fun _ hf => hf.elim)
  cases hx : atDeploy o s₀ op with
  | error f =>
    rw [hx] at hflow
    exact hflow
  | ok r =>
    rw [hx] at hflow hno
    exact closing_left hl hflow hno

end Flows

/-- A stack, whether a deploy of it has succeeded, and the statuses that skips
have left before. -/
structure State where
  stack : Stack
  landed : Bool := false
  skips : List Status := []

inductive Action where
  | execute (op : Operation) (o : Answers)
  | migrate

def skippedWith (f : Finish) : List Status :=
  match f.exit with
  | .skipped _ _ => [f.run.db.status]
  | _ => []

/-- A queued sync that is replayed later is one more execution, with the trigger
it was queued with. -/
def step (s : State) : Action → Option State
  | .execute op o =>
    let f := execute o s.stack op
    let landed := s.landed || lands o s.stack op
    some ⟨f.run.db, landed, if landed then s.skips else s.skips ++ skippedWith f⟩
  | .migrate => some { s with stack := migrateStack s.stack }

/-- Until a deploy succeeds, an execution that may skip finds the stack in
error. -/
def Marked (s : State) : Action → Prop
  | .execute op o => s.landed = true ∨ DeservedBy o s.stack op
  | .migrate => True

/-- The stack is not active before a deploy has succeeded, and the skips until
then have left it in error. -/
structure Recovers (s : State) : Prop where
  status : s.landed = false → s.stack.status ≠ .active
  skips : ∀ st ∈ s.skips, st = .error

structure Inv (s : State) : Prop where
  stack : s.landed = false → awaiting s.stack.status = true ∧ s.stack.isLocal = false
  skips : ∀ st ∈ s.skips, st = .error

theorem Inv.recovers {s : State} (h : Inv s) : Recovers s where
  status hl hst := by
    have haw := (h.stack hl).1
    rw [hst] at haw
    cases haw
  skips := h.skips

theorem step_inv (s : State) (a : Action) (t : State) (hs : Inv s) (ha : Marked s a)
    (h : step s a = some t) : Inv t := by
  cases a with
  | migrate =>
    cases h
    exact ⟨fun hl => ⟨rfl, (hs.stack hl).2⟩, hs.skips⟩
  | execute op o =>
    cases h
    cases hl : s.landed || lands o s.stack op with
    | true => exact ⟨nofun, hs.skips⟩
    | false =>
      rw [Bool.or_eq_false_iff] at hl
      obtain ⟨haw, hloc⟩ := hs.stack hl.1
      have hd : DeservedBy o s.stack op := ha.resolve_left (by rw [hl.1]; decide)
      have hleft := execute_left hloc haw hd hl.2
      refine ⟨fun _ => ⟨hleft.db.status, hleft.db.isLocal.trans hloc⟩, fun st hm => ?_⟩
      obtain hm | hm := List.mem_append.mp hm
      · exact hs.skips st hm
      · unfold skippedWith at hm
        split at hm
        · next why st' hx => rw [List.mem_singleton.mp hm, hleft.skip why st' hx]
        · cases hm

theorem marked_recovers {s : Stack} (hgit : s.isLocal = false) (herr : s.status = .error)
    {as : List Action} {t : State} (hg : Meets step Marked { stack := s } as)
    (hr : run step { stack := s } as = some t) : Recovers t := by
  refine (run_invariant step_inv ⟨fun _ => ⟨?_, hgit⟩, ?_⟩ hg hr).recovers
  · rw [herr]
    rfl
  · intro st hm
    cases hm

instance (o : Answers) (s : Stack) : (op : Operation) → Decidable (DeservedBy o s op)
  | .reconcile => inferInstanceAs (Decidable (_ ∨ _))
  | .rollback _ | .forceRedeploy _ => .isTrue trivial

instance (s : State) : (a : Action) → Decidable (Marked s a)
  | .execute _ _ => inferInstanceAs (Decidable (_ ∨ _))
  | .migrate => .isTrue trivial

def failedStack : Stack where
  status := .error
  synced := true
  checksum := some "v2"
  currentVersion := 2
  desiredCommit := "c2"
  deployedVersion := 1
  deployedCommit := "c1"
  deployedChecksum := some "v1"

/-- A sync is queued for the offline worker, and the replay renders what is
stored. -/
def queuedThenSkipped : List Action :=
  [.execute .reconcile { fetched := some "c2", online := false },
    .execute .reconcile { fetched := some "c2", rendered := some "v2" }]

theorem replayed_skip_active : ∃ t ∈ run step { stack := failedStack } queuedThenSkipped,
    t.landed = false ∧ t.stack.status = .active ∧ t.skips = [.active] ∧ t.stack.deployedChecksum = some "v1" :=
  run_reaches (by decide +kernel)

/-- The replay renders the next revision and fails; the periodic sync after it
skips. -/
def queuedThenFailed : List Action :=
  [.execute .reconcile { fetched := some "c2", online := false },
    .execute .reconcile
      { fetched := some "c3", rendered := some "v3", attempts := fun _ => { result := some .other } },
    .execute .reconcile { cron := true, fetched := some "c1", online := false }]

theorem replayed_failure_recovers : ∃ t ∈ run step { stack := failedStack } queuedThenFailed,
    t.skips = [.error] ∧ Recovers t := by
  obtain ⟨t, ht, hskips⟩ := run_reaches (P := fun t => t.skips = [.error])
    (by decide +kernel : (run step { stack := failedStack } queuedThenFailed).any _ = true)
  exact ⟨t, ht, hskips, marked_recovers rfl rfl (by decide +kernel) ht⟩

end Wireops.Sync.Recovery
