import Wireops.Sync.Checks

namespace Wireops.Sync.Frame

open List Lib.Flow Sync.Checks Sync.Reconcile Sync.Stages

variable {P : Stack → Prop} {o : Answers} {s : Stack} {r : Run} {op : Operation}

/-- A property of a record that speaks neither of its status and its secret
error nor of the deployed revision. -/
structure Firm (P : Stack → Prop) : Prop where
  status : ∀ {s}, P s → ∀ status, P { s with status }
  secretError : ∀ {s}, P s → ∀ secretError, P { s with secretError }
  deployed : ∀ {s}, P s → ∀ synced deployedVersion deployedCommit deployedChecksum,
    P { s with synced, deployedVersion, deployedCommit, deployedChecksum }

def Ended (P : Stack → Prop) (f : Finish) : Prop := P f.run.db

def Keeps (P : Stack → Prop) (m : Stage Run Finish) : Prop := Triple (Both P) m (Both P) (Ended P)

section Stages

section

variable (hP : Firm P)

include hP

theorem both_setStatus (h : Both P r) (status : Status) : Both P (r.setStatus status) :=
  ⟨h.db, hP.status h.stack status⟩

variable {Q : Run → Prop}

theorem fail_ended (h : Both P r) : After Q (Ended P) (fail o r) :=
  ((both_setStatus hP h .error).save _).db

theorem rules_keeps : Rules o (Both P) (Ended P) where
  fail h := fail_ended (Q := Both P) hP h
  failSecret h := fail_ended (Q := Both P) hP ⟨h.db, hP.secretError h.stack true⟩
  stop h _ := h.db

theorem keeps_check {m : Stage Run Finish} (hm : Check o m) : Keeps P m :=
  hm.triple (rules_keeps hP)

theorem keeps_clearSecretError : Keeps P (clearSecretError o) := by
  intro r h
  unfold clearSecretError
  split
  · have hclear : Both P (r.setSecretError false) := ⟨h.db, hP.secretError h.stack false⟩
    exact hclear.save _
  · exact h

theorem keeps_start : Keeps P (start o) := by
  intro r h
  unfold start
  split
  · exact ⟨hP.status h.stack .syncing, hP.status h.stack .syncing⟩
  · exact h.db

theorem restore_ended (why : Skip) (h : Both P r) : After Q (Ended P) (restore o why r) := by
  unfold restore
  split
  · exact hP.status h.stack r.prevStatus
  · exact h.db

theorem queuePending_ended (h : Both P r) : After Q (Ended P) (queuePending o r) := by
  unfold queuePending
  split
  · exact fail_ended hP h
  · split
    · dsimp only
      split
      · exact hP.status h.stack .pending
      · exact h.db
    · exact h.db

theorem keeps_fetch : Keeps P (fetch o) := by
  intro r h
  unfold fetch
  split
  · exact fail_ended hP h
  · exact ⟨h.db, h.stack⟩

theorem keeps_checkOnline : Keeps P (checkOnline o) := by
  intro r h
  unfold checkOnline
  split
  · exact h
  · split
    · exact queuePending_ended hP h
    · exact restore_ended hP _ h

theorem keeps_checkLocalOnline : Keeps P (checkLocalOnline o) := by
  intro r h
  unfold checkLocalOnline
  split
  · exact h
  · exact queuePending_ended hP h

theorem keeps_checkContainer : Keeps P (checkContainer o) := by
  intro r h
  unfold checkContainer
  split
  · exact restore_ended hP _ h
  · exact h

end

theorem keeps_reloadSHA : Keeps P (reloadSHA o) := fun _ h => ⟨h.db, h.stack⟩

theorem keeps_reload : Keeps P (reload o) := by
  intro r h
  unfold reload
  split
  · exact h.db
  · exact ⟨h.db, h.db⟩

section

variable (hP : Firm P)

include hP

theorem keeps_readFile : Keeps P (readFile o) := by
  intro r h
  unfold readFile
  split
  · exact fail_ended hP h
  · split
    · exact restore_ended hP _ h
    · exact h

theorem keeps_checkUnchanged : Keeps P (checkUnchanged o) := by
  intro r h
  unfold checkUnchanged
  split
  · exact restore_ended hP _ h
  · exact h

theorem both_recordDeployed (h : Both P r) (commitSHA checksum : String) :
    Both P (recordDeployed commitSHA checksum r) :=
  ⟨h.db, hP.deployed h.stack true r.version commitSHA (some checksum)⟩

theorem keeps_deploy : Keeps P (deploy o) := by
  intro r h
  unfold deploy
  split
  · exact h
  · unfold deployFailed
    split
    · have hdep := both_recordDeployed hP h r.remoteSHA r.checksum
      exact ((both_setStatus hP hdep _).save _).db
    · exact fail_ended hP h
  · exact fail_ended hP h
  · exact fail_ended hP h
  · exact h.db

theorem keeps_saveDeployed (status : Status) : Keeps P (saveDeployed o status) := by
  intro r h
  have hst := both_setStatus hP h status
  unfold saveDeployed
  split
  · exact h.db
  · split
    · exact hst.save true
    · exact fail_ended hP (hst.save true)

theorem keeps_complete (status : Status) : Keeps P (complete o status) :=
  fun r h => keeps_saveDeployed hP status _ (both_recordDeployed hP h r.remoteSHA r.checksum)

theorem keeps_completeLocal (hsum : ∀ {s}, P s → ∀ checksum, P { s with checksum }) :
    Keeps P (completeLocal o) := by
  intro r h
  have hc : Both P { r with stack := { r.stack with checksum := some (o.fileChecksum.getD "") } } :=
    ⟨h.db, hsum h.stack _⟩
  exact keeps_saveDeployed hP _ _ (both_recordDeployed hP hc "imported" _)

end

end Stages

section Parts

theorem opening_keeps (hP : Firm P) (o : Answers) (s : Stack) (op : Operation) :
    Triple (Both P) (chain (parts o s op).opening) (Both P) (Ended P) := by
  have hreq (ok : Bool) : Keeps P (require o ok) := keeps_check hP (check_require ok)
  have hsec (ok : Bool) : Keeps P (requireSecret o ok) := keeps_check hP (check_requireSecret ok)
  have hnil := forall_mem_nil (Keeps P)
  refine Triple.chain ?_
  cases op with
  | reconcile =>
    have henter : Keeps P (enter o) := keeps_check hP check_enter
    cases hl : s.isLocal with
    | true =>
      simp only [parts, hl, localParts, if_true, forall_mem_cons]
      exact ⟨henter, hsec _, hreq _, hreq _, keeps_checkLocalOnline hP, keeps_start hP,
        keeps_readFile hP, hsec _, keeps_clearSecretError hP, hnil⟩
    | false =>
      simp only [parts, hl, gitParts, Bool.false_eq_true, if_false, forall_mem_cons]
      exact ⟨henter, hsec _, keeps_start hP, hreq _, keeps_fetch hP, hreq _, hreq _,
        keeps_checkOnline hP, keeps_checkContainer hP, keeps_check hP check_waitForRunningJobs,
        keeps_reloadSHA, hreq _, hreq _, hsec _, hsec _, keeps_clearSecretError hP, keeps_reload, hnil⟩
  | rollback commitSHA =>
    simp only [parts, rollbackParts, forall_mem_cons]
    exact ⟨keeps_check hP check_checkFound, hsec _, keeps_start hP, hreq _, hreq _, hreq _, hreq _,
      hsec _, hsec _, keeps_clearSecretError hP, hreq _, hnil⟩
  | forceRedeploy pauseAfter =>
    simp only [parts, forceRedeployParts, forall_mem_cons]
    exact ⟨keeps_check hP check_checkFound, hsec _, keeps_start hP, hreq _, hreq _, hreq _, hsec _,
      hsec _, keeps_clearSecretError hP, hreq _, hnil⟩

theorem closing_keeps (hP : Firm P) (o : Answers) (s : Stack) (op : Operation)
    (hsum : s.isLocal = true → ∀ {s}, P s → ∀ checksum, P { s with checksum }) :
    Triple (Both P) (chain (parts o s op).closing) (Both P) (Ended P) := by
  have honce : Keeps P (deployOnce o) := keeps_check hP check_deployOnce
  have hnil := forall_mem_nil (Keeps P)
  refine Triple.chain ?_
  cases op with
  | reconcile =>
    cases hl : s.isLocal with
    | true =>
      simp only [parts, hl, localParts, if_true, forall_mem_cons]
      exact ⟨honce, keeps_completeLocal hP (hsum hl), hnil⟩
    | false =>
      simp only [parts, hl, gitParts, Bool.false_eq_true, if_false, forall_mem_cons]
      exact ⟨keeps_deploy hP, keeps_complete hP _, hnil⟩
  | rollback commitSHA =>
    simp only [parts, rollbackParts, forall_mem_cons]
    exact ⟨honce, keeps_check hP check_saveRepo, keeps_complete hP _, hnil⟩
  | forceRedeploy pauseAfter =>
    simp only [parts, forceRedeployParts, forall_mem_cons]
    exact ⟨honce, keeps_complete hP _, hnil⟩

/-- A stage that changes nothing where it goes on. -/
def Still (m : Stage Run Finish) : Prop := ∀ r, Triple (· = r) m (· = r) fun _ => True

theorem rules_true {R : Run → Prop} : Rules o R fun _ => True :=
  ⟨fun _ => trivial, fun _ => trivial, fun _ _ => trivial⟩

theorem still_check {m : Stage Run Finish} (hm : Check o m) : Still m :=
  fun _ => hm.triple rules_true

theorem Still.keeps {R : Run → Prop} {m : Stage Run Finish} (h : Still m) : Triple R m R fun _ => True := by
  intro r hr
  refine (h r r rfl).mono ?_ (fun _ h => h)
  rintro _ rfl
  exact hr

theorem firm_true : Firm fun _ => True := ⟨fun h _ => h, fun h _ => h, fun h _ _ _ _ => h⟩

theorem still_checkOnline : Still (checkOnline o) := by
  rintro r _ rfl
  unfold checkOnline
  split
  · rfl
  · split
    · exact queuePending_ended firm_true ⟨trivial, trivial⟩
    · exact restore_ended firm_true _ ⟨trivial, trivial⟩

theorem still_checkContainer : Still (checkContainer o) := by
  rintro r _ rfl
  unfold checkContainer
  split
  · exact restore_ended firm_true _ ⟨trivial, trivial⟩
  · rfl

theorem still_checkUnchanged : Still (checkUnchanged o) := by
  rintro r _ rfl
  unfold checkUnchanged
  split
  · exact restore_ended firm_true _ ⟨trivial, trivial⟩
  · rfl

theorem middle_stages (o : Answers) (s : Stack) (op : Operation) :
    ∀ m ∈ (parts o s op).middle, m = checkUnchanged o ∨ Check o m := by
  cases op with
  | reconcile =>
    cases hl : s.isLocal with
    | true =>
      simp only [parts, hl, localParts, if_true, forall_mem_cons]
      exact ⟨.inr check_createSyncLog, forall_mem_nil _⟩
    | false =>
      simp only [parts, hl, gitParts, Bool.false_eq_true, if_false, forall_mem_cons]
      exact ⟨.inl trivial, .inr check_createSyncLog, forall_mem_nil _⟩
  | rollback commitSHA =>
    simp only [parts, rollbackParts, forall_mem_cons]
    exact ⟨.inr (check_require _), forall_mem_nil _⟩
  | forceRedeploy pauseAfter => exact forall_mem_nil _

theorem middle_keeps (hP : Firm P) (o : Answers) (s : Stack) (op : Operation) :
    Triple (Both P) (chain (parts o s op).middle) (Both P) (Ended P) := by
  refine Triple.chain (fun m hm => ?_)
  obtain rfl | hcheck := middle_stages o s op m hm
  · exact keeps_checkUnchanged hP
  · exact keeps_check hP hcheck

theorem middle_still (o : Answers) (s : Stack) (op : Operation) : Still (chain (parts o s op).middle) := by
  refine fun r => Triple.chain (fun m hm => ?_)
  obtain rfl | hcheck := middle_stages o s op m hm
  · exact still_checkUnchanged r
  · exact still_check hcheck r

end Parts

section Commit

variable {c : String}

/-- The commit that a reconciliation attempts. -/
def attempted (o : Answers) : String := if o.freshSHA = "" then o.fetched.getD "" else o.freshSHA

/-- The commit a flow attempts and the one it compares it with. -/
def Commits (o : Answers) (c : String) (r : Run) : Prop := r.remoteSHA = attempted o ∧ r.lastSHA = c

theorem start_deployedCommit : Triple (fun r => r.stack.deployedCommit = c) (start o)
    (fun r => r.stack.deployedCommit = c) fun _ => True := by
  intro r h
  unfold start
  dsimp only
  split
  · exact h
  · trivial

theorem fetch_commits : Triple (fun r => r.stack.deployedCommit = c) (fetch o)
    (fun r => o.fetched = some r.remoteSHA ∧ r.lastSHA = c) fun _ => True := by
  intro r h
  unfold fetch
  split
  · trivial
  · next sha hsha => exact ⟨hsha, h⟩

theorem reloadSHA_commits : Triple (fun r => o.fetched = some r.remoteSHA ∧ r.lastSHA = c)
    (reloadSHA o) (Commits o c) fun _ => True := by
  rintro r ⟨h, hlast⟩
  refine ⟨?_, hlast⟩
  show (if o.freshSHA = "" then r.remoteSHA else o.freshSHA) = attempted o
  rw [attempted, h]
  rfl

theorem clearSecretError_commits : Triple (Commits o c) (clearSecretError o) (Commits o c) fun _ => True := by
  intro r h
  unfold clearSecretError Run.save
  split
  · split <;> exact h
  · exact h

theorem reload_commits : Triple (Commits o c) (reload o) (Commits o c) fun _ => True := by
  intro r h
  unfold reload
  split
  · trivial
  · exact h

theorem opening_commits : Triple (fun r => r.stack.deployedCommit = c) (chain (gitParts o).opening.tail)
    (Commits o c) fun _ => True :=
  triple_gitOpening rules_true rules_true rules_true rules_true rules_true start_deployedCommit fetch_commits
    still_checkOnline.keeps still_checkContainer.keeps reloadSHA_commits clearSecretError_commits reload_commits

theorem atRender_commits (hl : s.isLocal = false) (h : atRender o s .reconcile = .ok r) :
    Commits o s.deployedCommit r := by
  have hafter := (still_check (@check_enter o)).keeps.seq (@opening_commits o _) (initial o s .reconcile) rfl
  rw [atRender, parts, hl] at h
  rw [show seq (enter o) (chain (gitParts o).opening.tail) (initial o s .reconcile) = .ok r from h] at hafter
  exact hafter

end Commit

section Render

structure Head where
  version : Nat
  checksum : Option String
  isLocal : Bool

def head (s : Stack) : Head := ⟨s.currentVersion, s.checksum, s.isLocal⟩

theorem firm_head (x : Head) : Firm (head · = x) :=
  ⟨fun h _ => h, fun h _ => h, fun h _ _ _ _ => h⟩

def Head.current (x : Head) : Nat := if x.version = 0 then 1 else x.version

def currentVersion (s : Stack) : Nat := (head s).current

def nextVersion (force : Bool) (s : Stack) : Nat :=
  if force || s.checksum.isSome then currentVersion s + 1 else currentVersion s

def newRevision (o : Answers) (force : Bool) (s : Stack) : Option (Nat × String) :=
  match o.rendered with
  | none => none
  | some checksum =>
    if !force && s.checksum = some checksum then none else some (nextVersion force s, checksum)

/-- Whether the record gets to the stored revision: after a failed save the flow
marks the stack in error, and that save takes the revision along. -/
def records (o : Answers) : Bool := o.revisionStored && (o.saves .render || o.saves .mark)

def headAfter (o : Answers) (force : Bool) (s : Stack) : Head :=
  match newRevision o force s with
  | some (version, checksum) =>
    if records o then ⟨version, some checksum, s.isLocal⟩ else head s
  | none => head s

def renderedVersion (o : Answers) (force : Bool) (s : Stack) : Nat :=
  match newRevision o force s with
  | some (version, _) => version
  | none => currentVersion s

structure Rendered (o : Answers) (force : Bool) (s : Stack) (r t : Run) : Prop where
  both : Both (head · = headAfter o force s) t
  version : t.version = renderedVersion o force s
  checksum : o.rendered = some t.checksum
  recorded : (headAfter o force s).checksum = some t.checksum
  remoteSHA : t.remoteSHA = r.remoteSHA
  lastSHA : t.lastSHA = r.lastSHA
  records : (newRevision o force s).isSome → records o = true

def revise (r : Run) (version : Nat) (commitSHA checksum : String) : Run :=
  { r with
    stack := { r.stack with
      currentVersion := version, desiredCommit := commitSHA, checksum := some checksum }
    version
    checksum }

variable {force : Bool}

theorem generateRevision_eq (commitSHA : String) (h : head r.stack = head s) : generateRevision o force commitSHA r =
      match o.rendered, newRevision o force s with
      | none, _ => fail o r
      | some checksum, none => .ok { r with version := currentVersion s, checksum }
      | some checksum, some (version, _) =>
        if !o.revisionStored then fail o r
        else if o.saves .render then .ok ((revise r version commitSHA checksum).save true)
        else fail o (revise r version commitSHA checksum) := by
  have hv : r.stack.currentVersion = s.currentVersion := congrArg Head.version h
  have hsum : r.stack.checksum = s.checksum := congrArg Head.checksum h
  unfold generateRevision newRevision
  cases hc : o.rendered with
  | none => rfl
  | some c =>
    dsimp only
    rw [hv, hsum]
    by_cases hsame : (!force && s.checksum = some c) = true
    · rw [if_pos hsame, if_pos hsame]
      rfl
    · rw [if_neg hsame, if_neg hsame]
      rfl

theorem newRevision_none (h : o.rendered = none) (force : Bool) (s : Stack) : newRevision o force s = none := by
  rw [newRevision, h]

variable {c : String}

theorem newRevision_same (hc : o.rendered = some c)
    (h : newRevision o force s = none) : force = false ∧ s.checksum = some c := by
  rw [newRevision, hc] at h
  dsimp only at h
  split at h
  · next hsame => simpa using hsame
  · cases h

theorem newRevision_recorded (h : o.rendered = s.checksum) : newRevision o false s = none := by
  unfold newRevision
  split
  · rfl
  · next c hc =>
    rw [if_pos]
    rw [← h, hc]
    simp

variable {version : Nat}

theorem newRevision_some (h : newRevision o force s = some (version, c)) :
    version = nextVersion force s ∧ o.rendered = some c := by
  unfold newRevision at h
  split at h
  · cases h
  · next hc =>
    split at h
    · cases h
    · cases h
      exact ⟨rfl, hc⟩

theorem newRevision_congr {t : Stack} (h : head s = head t) (force : Bool) :
    newRevision o force s = newRevision o force t := by
  have hsum : s.checksum = t.checksum := congrArg Head.checksum h
  rw [newRevision, newRevision, nextVersion, nextVersion, currentVersion, currentVersion, h, hsum]

theorem headAfter_congr {t : Stack} (h : head s = head t) (force : Bool) :
    headAfter o force s = headAfter o force t := by
  have hlocal : s.isLocal = t.isLocal := congrArg Head.isLocal h
  rw [headAfter, headAfter, newRevision_congr h, h, hlocal]

theorem headAfter_of_none (h : newRevision o force s = none) : headAfter o force s = head s := by
  rw [headAfter, h]

theorem headAfter_of_not_records (h : records o = false) (force : Bool) (s : Stack) :
    headAfter o force s = head s := by
  rw [headAfter, h]
  split <;> rfl

section

variable (hnew : newRevision o force s = some (version, c))

include hnew

theorem headAfter_of_records (h : records o = true) : headAfter o force s = ⟨version, some c, s.isLocal⟩ := by
  rw [headAfter, hnew]
  exact if_pos h

theorem revise_head (hrec : records o = true) (h : head r.stack = head s) (commitSHA : String) :
    head (revise r version commitSHA c).stack = headAfter o force s := by
  have hlocal : r.stack.isLocal = s.isLocal := congrArg Head.isLocal h
  rw [headAfter_of_records hnew hrec, ← hlocal]
  rfl

theorem fail_revised (hst : o.revisionStored = true)
    (hsave : o.saves .render = false) (h : Both (head · = head s) r) (commitSHA : String) {Q : Run → Prop} :
    After Q (Ended (head · = headAfter o force s)) (fail o (revise r version commitSHA c)) := by
  have hrec : records o = o.saves .mark := by rw [records, hst, hsave]; rfl
  show head (markError o .error _).db = _
  cases hmark : o.saves .mark with
  | true =>
    rw [hmark] at hrec
    rw [markError, hmark]
    exact revise_head hnew hrec h.stack commitSHA
  | false =>
    rw [hmark] at hrec
    rw [markError, hmark, headAfter_of_not_records hrec]
    exact h.db

end

theorem generateRevision_after (force : Bool) (commitSHA : String) (h : Both (head · = head s) r) :
    After (Rendered o force s r) (Ended (head · = headAfter o force s)) (generateRevision o force commitSHA r) := by
  rw [generateRevision_eq commitSHA h.stack]
  cases hc : o.rendered with
  | none =>
    rw [headAfter_of_none (newRevision_none hc force s)]
    exact fail_ended (firm_head _) h
  | some c =>
    cases hnew : newRevision o force s with
    | none =>
      have hver : renderedVersion o force s = currentVersion s := by rw [renderedVersion, hnew]
      refine ⟨?_, hver.symm, hc, ?_, rfl, rfl, ?_⟩
      · rw [headAfter_of_none hnew]
        exact ⟨h.db, h.stack⟩
      · rw [headAfter_of_none hnew]
        exact (newRevision_same hc hnew).2
      · rw [hnew]
        exact nofun
    | some x =>
      obtain ⟨version, c'⟩ := x
      obtain rfl := Option.some.inj (hc.symm.trans (newRevision_some hnew).2)
      cases hst : o.revisionStored with
      | false =>
        rw [headAfter_of_not_records (by rw [records, hst]; rfl)]
        exact fail_ended (firm_head _) h
      | true =>
        cases hsave : o.saves .render with
        | true =>
          have hrec : records o = true := by rw [records, hst, hsave]; rfl
          have hhead := revise_head hnew hrec h.stack commitSHA
          have hver : renderedVersion o force s = version := by rw [renderedVersion, hnew]
          refine ⟨⟨hhead, hhead⟩, hver.symm, hc, ?_, rfl, rfl, fun _ => hrec⟩
          rw [headAfter_of_records hnew hrec]
          rfl
        | false => exact fail_revised hnew hst hsave h commitSHA

end Render

section Execution

theorem initial_both (h : P s) : Both P (initial o s op) := by
  cases op <;> exact ⟨h, h⟩

theorem atRender_after (o : Answers) (s : Stack) (op : Operation) :
    After (Both (head · = head s)) (Ended (head · = head s)) (atRender o s op) :=
  opening_keeps (firm_head _) o s op _ (initial_both rfl)

/-- The rule for an execution: what a render leads to, a property that the later
stages keep, and what the exits before them leave. -/
theorem execute_after {E : Stack → Prop} (hP : Firm P)
    (hsum : s.isLocal = true → ∀ {s}, P s → ∀ checksum, P { s with checksum }) (hE : ∀ t, P t → E t)
    (hopening : ∀ f, atRender o s op = .error f → head f.run.db = head s → E f.run.db)
    (hrender : ∀ r, atRender o s op = .ok r → Both (head · = head s) r →
      After (Both P) (Ended E) ((parts o s op).render o r)) : E (execute o s op).run.db := by
  have hended : ∀ x : Except Finish Run, After (Both P) (Ended P) x → After (Both P) (Ended E) x := by
    intro x hx
    cases x with
    | ok t => exact hx
    | error f => exact hE _ hx
  have hopen := atRender_after o s op
  rw [execute_eq, atDeploy_eq]
  refine finishOf_after (Q := Both P) (E := Ended E) ?_ (fun r h => hE _ h.db)
  cases hr : atRender o s op with
  | error f =>
    rw [hr] at hopen
    exact hopening f hr hopen
  | ok r =>
    rw [hr] at hopen
    have h := hrender r hr hopen
    show After _ _ (seq (seq ((parts o s op).render o) (chain (parts o s op).middle))
      (chain (parts o s op).closing) r)
    rw [seq_assoc]
    refine After.seq h (fun t _ ht => ?_)
    refine hended _ ?_
    exact (middle_keeps hP o s op).seq (closing_keeps hP o s op hsum) t ht

def finalHead (o : Answers) (s : Stack) (op : Operation) : Head :=
  match atRender o s op with
  | .ok _ => headAfter o (parts o s op).force s
  | .error _ => head s

theorem finalHead_isLocal : (finalHead o s op).isLocal = s.isLocal := by
  unfold finalHead headAfter
  split
  · split
    · split <;> rfl
    · rfl
  · rfl

theorem finalHead_after (h : Both (head · = head s) r) (hr : atRender o s op = .ok r) :
    After (Both (head · = finalHead o s op)) (Ended (head · = finalHead o s op)) ((parts o s op).render o r) := by
  rw [finalHead, hr]
  exact (generateRevision_after _ _ h).mono (fun _ ht => ht.both) (fun _ hf => hf)

theorem execute_head (hl : s.isLocal = false) : head (execute o s op).run.db = finalHead o s op := by
  refine execute_after (P := (head · = finalHead o s op)) (E := (head · = finalHead o s op))
    (firm_head _) ?_ (fun _ h => h) ?_ (fun r hr h => finalHead_after h hr)
  · rw [hl]
    exact nofun
  · intro f hf h
    rw [finalHead, hf]
    exact h

theorem execute_version : (execute o s op).run.db.currentVersion = (finalHead o s op).version ∧
    (execute o s op).run.db.isLocal = s.isLocal := by
  have hweak : ∀ t, head t = finalHead o s op →
      t.currentVersion = (finalHead o s op).version ∧ t.isLocal = s.isLocal :=
    fun t ht => ⟨congrArg Head.version ht, (congrArg Head.isLocal ht).trans finalHead_isLocal⟩
  refine execute_after (P := fun t => t.currentVersion = (finalHead o s op).version ∧
    t.isLocal = s.isLocal) (E := fun t => t.currentVersion = (finalHead o s op).version ∧
    t.isLocal = s.isLocal) ⟨fun h _ => h, fun h _ => h, fun h _ _ _ _ => h⟩ (fun _ _ h _ => h)
    (fun _ h => h) ?_ ?_
  · intro f hf h
    refine hweak _ ?_
    rw [finalHead, hf]
    exact h
  · intro r hr h
    exact (finalHead_after h hr).mono (fun _ ht => ⟨hweak _ ht.db, hweak _ ht.stack⟩)
      (fun _ hf => hweak _ hf)

def Head.Sound (x : Head) : Prop := x.checksum.isSome = true → 0 < x.version

theorem Head.current_pos (x : Head) : 0 < x.current := by
  unfold Head.current
  split <;> omega

theorem nextVersion_pos (force : Bool) (s : Stack) : 0 < nextVersion force s := by
  have hpos : 0 < currentVersion s := (head s).current_pos
  unfold nextVersion
  split <;> omega

theorem headAfter_sound (hs : (head s).Sound) (force : Bool) : (headAfter o force s).Sound := by
  unfold headAfter
  split
  · next version c hnew =>
    split
    · intro _
      rw [(newRevision_some hnew).1]
      exact nextVersion_pos force s
    · exact hs
  · exact hs

theorem execute_sound (hs : (head s).Sound) : (head (execute o s op).run.db).Sound := by
  refine execute_after (P := fun t => 0 < t.currentVersion) (E := fun t => (head t).Sound)
    ⟨fun h _ => h, fun h _ => h, fun h _ _ _ _ => h⟩ (fun _ _ h _ => h) (fun _ h _ => h) ?_ ?_
  · intro f _ h
    show (head f.run.db).Sound
    rw [h]
    exact hs
  · intro r _ h
    refine (generateRevision_after (parts o s op).force _ h).mono (fun t ht => ?_) (fun f hf => ?_)
    · have hpos : 0 < (headAfter o (parts o s op).force s).version := by
        refine headAfter_sound hs _ ?_
        rw [ht.recorded]
        rfl
      have hdb := ht.both.db
      have hstack := ht.both.stack
      rw [← hdb] at hpos
      refine ⟨hpos, ?_⟩
      rw [hdb, ← hstack] at hpos
      exact hpos
    · show (head f.run.db).Sound
      rw [hf]
      exact headAfter_sound hs _

theorem Rendered.version_current {force : Bool} {t : Run} (h : Rendered o force s r t) :
    t.version = (headAfter o force s).current := by
  rw [h.version, renderedVersion]
  cases hnew : newRevision o force s with
  | none =>
    rw [headAfter_of_none hnew]
    rfl
  | some x =>
    rw [headAfter_of_records hnew (h.records (by rw [hnew]; rfl))]
    have hpos := nextVersion_pos force s
    rw [← (newRevision_some hnew).1] at hpos
    exact (if_neg (Nat.ne_of_gt hpos)).symm

theorem Rendered.version_eq {force : Bool} {t : Run} (h : Rendered o force s r t)
    (hs : (head s).Sound) : t.version = (headAfter o force s).version := by
  have hpos : 0 < (headAfter o force s).version := by
    refine headAfter_sound hs force ?_
    rw [h.recorded]
    rfl
  rw [h.version_current]
  exact if_neg (Nat.ne_of_gt hpos)

theorem atDeploy_rendered {d : Run} (h : atDeploy o s op = .ok d) :
    ∃ r, atRender o s op = .ok r ∧ Rendered o (parts o s op).force s r d := by
  rw [atDeploy_eq] at h
  have hopen := atRender_after o s op
  cases hr : atRender o s op with
  | error f =>
    rw [hr] at h
    cases h
  | ok r =>
    rw [hr] at h hopen
    refine ⟨r, rfl, ?_⟩
    have hgen := generateRevision_after (o := o) (parts o s op).force ((parts o s op).commitSHA r) hopen
    have hdone : After (Rendered o (parts o s op).force s r) (fun _ => True)
        (seq ((parts o s op).render o) (chain (parts o s op).middle) r) := by
      refine After.seq (hgen.mono (fun _ ht => ht) (fun _ _ => trivial)) (fun t _ ht => ?_)
      refine (middle_still o s op t t rfl).mono ?_ (fun _ h => h)
      rintro _ rfl
      exact ht
    rw [show seq ((parts o s op).render o) (chain (parts o s op).middle) r = .ok d from h] at hdone
    exact hdone

end Execution

end Wireops.Sync.Frame
