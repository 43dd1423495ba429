import Wireops.Lib.Octets
import Wireops.Server.Inbound

namespace Wireops.Jobs.Runs

open Option Function List Lib.Octets Lib.Steps Lib.Table Server.Inbound

structure Run extends JobRun where
  created : Nat := 0
  containerName : String := ""
  commitSHA : String := ""

def isTerminal : RunStatus → Bool
  | .success | .error | .stalled | .forgotten => true
  | .pending | .running => false

variable (s : State) (now : Nat) (m : JobCompletedMessage)

def updateJobRun (status : RunStatus) (output : Bytes) (durationMs queueTimeMs execTimeMs : Int) (r : Run) : Run :=
  { r with
    status := status
    output := truncateOutput output
    durationMs := durationMs
    queueTimeMs := if queueTimeMs > 0 then queueTimeMs else r.queueTimeMs
    executionTimeMs :=
      if execTimeMs > 0 then execTimeMs
      else if status = .success || status = .error then
        match r.startedAt with
        | some startedAt => ((now - startedAt) / 1000000 : Nat)
        | none => r.executionTimeMs
      else r.executionTimeMs
    updated := now }

def failRun (message : Bytes) (r : Run) : Run := updateJobRun now .error message 0 0 0 r

def statusOf : RunStatus := if m.success then .success else .error

def handleJobCompleted (r : Run) : Run :=
  updateJobRun now (statusOf m) m.output m.durationMs m.queueTimeMs m.executionTimeMs r

theorem handleJobCompleted_toJobRun (r : Run) :
    (handleJobCompleted now m r).toJobRun = completeRun now m r.toJobRun := by
  have hfinal : (statusOf m = .success || statusOf m = .error) = true := by
    unfold statusOf
    split <;> rfl
  rw [handleJobCompleted, updateJobRun, hfinal]
  rfl

def setJobRunStarted (r : Run) : Run :=
  if isTerminal r.status then r
  else
    { r with
      status := .running
      startedAt := some now
      queueTimeMs := ((now - r.created) / 1000000 : Nat)
      updated := now }

def patchJobRunMeta (runID commitSHA : String) (r : Run) : Run :=
  { r with containerName := "wireops-job-" ++ runID, commitSHA := commitSHA, updated := now }

def markLost (r : Run) : Run :=
  if r.status = .running then
    { r with status := .error, output := jobLost, executionTimeMs := r.timeoutMs, updated := now }
  else r

def jobForgotten : Bytes :=
  "job forgotten: still running after 1 hour with no completion signal".toUTF8.toList

def markForgotten (r : Run) : Run :=
  if r.status = .running then
    { r with
      status := .forgotten, output := jobForgotten, executionTimeMs := r.timeoutMs, updated := now }
  else r

def jobStuck : Bytes :=
  "job failed: stuck in pending for more than 15 minutes (failed to dispatch to worker)".toUTF8.toList

def markStuck (r : Run) : Run :=
  if r.status = .pending then { r with status := .error, output := jobStuck, updated := now } else r

def jobCanceled : Bytes := "Execution canceled: server restarted before dispatch.".toUTF8.toList

def recoverPending (r : Run) : Run :=
  if r.status = .pending then
    { r with status := .error, output := jobCanceled, durationMs := 0, updated := now }
  else r

def maxJobRunDuration : Nat := 3600 * second

def maxJobRunPendingDuration : Nat := 15 * 60 * second

inductive Purpose where
  | active (workerID : String) (activeIDs : List String)
  | forgotten
  | stuck
  deriving DecidableEq, Repr

def found : Purpose → Run → Bool
  | .active workerID _, r => r.worker = workerID && r.status = .running
  | .forgotten, r => r.status = .running
  | .stuck, r => r.status = .pending

def due (queriedAt : Nat) (runID : String) (updated : Nat) : Purpose → Bool
  | .active _ activeIDs => !activeIDs.contains runID && updated + 60 * second ≤ queriedAt
  | .forgotten => updated + maxJobRunDuration < queriedAt
  | .stuck => updated + maxJobRunPendingDuration < queriedAt

def mark : Purpose → Run → Run
  | .active _ _ => markLost now
  | .forgotten => markForgotten now
  | .stuck => markStuck now

/-- A sweep under way, with the rows that its query returned. -/
structure Sweep where
  purpose : Purpose
  queriedAt : Nat
  rows : List (String × Nat)

inductive Phase where
  | preparing | checking | waiting
  deriving DecidableEq

structure Report where
  status : RunStatus
  output : Bytes
  deriving DecidableEq

def reportOf : Report := ⟨statusOf m, truncateOutput m.output⟩

/-- `reports` is history: the first completion that was stored on each run. -/
structure State where
  now : Nat := 0
  runs : String → Option Run := fun _ => none
  dispatches : String → Option Phase := fun _ => none
  sweeps : List Sweep := []
  reports : String → Option Report := fun _ => none

/-- Where an action writes, `saved` tells whether the record was saved. A
query returns those of the given runs that it is for. -/
inductive Action where
  | tick (d : Nat)
  | create (runID worker : String) (status : RunStatus) (output : Bytes) (timeoutMs : Int)
  | patch (runID commitSHA : String)
  | refuse (runID : String) (message : Bytes) (saved : Bool)
  | send (runID : String)
  | dispatchError (runID : String) (message : Bytes) (saved : Bool)
  | workerError (runID : String) (message : Bytes) (saved : Bool)
  | ack (runID : String) (saved : Bool)
  | complete (m : JobCompletedMessage) (saved : Bool)
  | disconnect (workerID : String) (unsaved : List String)
  | query (purpose : Purpose) (runIDs : List String)
  | visit (i : Nat) (saved : Bool)
  | restart (unsaved : List String)
  deriving DecidableEq, Repr

def write (runID : String) (saved : Bool) (f : Run → Run) : State :=
  if saved then { s with runs := update s.runs runID ((s.runs runID).map f) } else s

def setPhase (runID : String) (phase : Option Phase) : State :=
  { s with dispatches := update s.dispatches runID phase }

def isWaiting (runID : String) : Bool := s.dispatches runID = some .waiting

def note (saved : Bool) : State :=
  if saved && (s.runs m.jobRunID).isSome && (s.reports m.jobRunID).isNone then
    { s with reports := update s.reports m.jobRunID (some (reportOf m)) }
  else s

def rowsOf (purpose : Purpose) (runIDs : List String) : List (String × Nat) :=
  runIDs.filterMap (fun runID =>
    ((s.runs runID).filter (found purpose)).map (fun r => (runID, r.updated)))

def writeAll (query : Run → Bool) (unsaved : List String) (f : Run → Run) : State :=
  { s with runs := fun runID => (s.runs runID).map (fun r =>
      if query r && !unsaved.contains runID then f r else r) }

def handleWorkerDisconnect (workerID : String) (unsaved : List String) : State :=
  writeAll s (fun r => r.worker = workerID) unsaved (markLost s.now)

def step : Action → Option State
  | .tick d => some { s with now := s.now + d }
  | .create runID worker status output timeoutMs =>
    if (s.runs runID).isSome then none
    else
      let r : Run :=
        { worker := worker, status := status, output := output, updated := s.now
          timeoutMs := timeoutMs, created := s.now }
      let t := { s with runs := update s.runs runID (some r) }
      some (if status = .pending then setPhase t runID (some .preparing) else t)
  | .patch runID commitSHA =>
    if s.dispatches runID = some .preparing then
      some (setPhase (write s runID true (patchJobRunMeta s.now runID commitSHA)) runID (some .checking))
    else none
  | .refuse runID message saved =>
    if s.dispatches runID = some .preparing || s.dispatches runID = some .checking then
      some (setPhase (write s runID saved (failRun s.now message)) runID none)
    else none
  | .send runID =>
    if s.dispatches runID = some .checking then some (setPhase s runID (some .waiting)) else none
  | .dispatchError runID message saved =>
    if isWaiting s runID then some (setPhase (write s runID saved (failRun s.now message)) runID none)
    else none
  | .workerError runID message saved =>
    if isWaiting s runID then some (setPhase (write s runID saved (failRun s.now message)) runID none)
    else none
  | .ack runID saved =>
    if isWaiting s runID then some (setPhase (write s runID saved (setJobRunStarted s.now)) runID none)
    else none
  | .complete m saved =>
    some (note (write s m.jobRunID saved (handleJobCompleted s.now m)) m saved)
  | .disconnect workerID unsaved => some (handleWorkerDisconnect s workerID unsaved)
  | .query purpose runIDs =>
    some { s with sweeps := s.sweeps ++ [⟨purpose, s.now, rowsOf s purpose runIDs⟩] }
  | .visit i saved =>
    match s.sweeps[i]? with
    | some ⟨purpose, queriedAt, (runID, updated) :: rows⟩ =>
      let t := { s with sweeps := s.sweeps.set i ⟨purpose, queriedAt, rows⟩ }
      some (if due queriedAt runID updated purpose then write t runID saved (mark s.now purpose) else t)
    | _ => none
  | .restart unsaved =>
    some { writeAll s (fun _ => true) unsaved (recoverPending s.now) with
      dispatches := fun _ => none, sweeps := [] }

section Rows

variable {s t : State} {a : Action} {id runID : String} {f : Run → Run} {saved : Bool}

def newRun (now : Nat) (worker : String) (status : RunStatus) (output : Bytes) (timeoutMs : Int) : Run :=
  { worker, status, output, updated := now, timeoutMs, created := now }

theorem create_step {worker : String} {status : RunStatus} {output : Bytes} {timeoutMs : Int}
    (hs : step s (.create runID worker status output timeoutMs) = some t) : s.runs runID = none ∧
      t.runs = update s.runs runID (some (newRun s.now worker status output timeoutMs)) ∧
      t.reports = s.reports ∧ t.sweeps = s.sweeps := by
  obtain ⟨hfresh, ht⟩ := ite_none_left_eq_some.mp hs
  refine ⟨not_isSome_iff_eq_none.mp hfresh, ?_⟩
  cases ht
  split <;> exact ⟨rfl, rfl, rfl⟩

theorem visit_step {i : Nat} (hs : step s (.visit i saved) = some t) : ∃ purpose queriedAt runID updated rows,
      s.sweeps[i]? = some ⟨purpose, queriedAt, (runID, updated) :: rows⟩ ∧
      (t = { s with sweeps := s.sweeps.set i ⟨purpose, queriedAt, rows⟩ } ∨
        due queriedAt runID updated purpose = true ∧
        t = write { s with sweeps := s.sweeps.set i ⟨purpose, queriedAt, rows⟩ } runID saved
          (mark s.now purpose)) := by
  rw [step] at hs
  split at hs
  · rename_i purpose queriedAt runID updated rows hsweep
    refine ⟨purpose, queriedAt, runID, updated, rows, hsweep, ?_⟩
    cases hs
    split
    · exact .inr ⟨‹_›, rfl⟩
    · exact .inl rfl
  · cases hs

inductive Rewrites (s : State) : Action → String → (Run → Run) → Prop where
  | keep (a : Action) (id : String) : Rewrites s a id (fun r => r)
  | patch (runID commitSHA : String) :
    Rewrites s (.patch runID commitSHA) runID (patchJobRunMeta s.now runID commitSHA)
  | refuse (runID : String) (message : Bytes) (saved : Bool) :
    Rewrites s (.refuse runID message saved) runID (failRun s.now message)
  | dispatchError (runID : String) (message : Bytes) (saved : Bool) :
    Rewrites s (.dispatchError runID message saved) runID (failRun s.now message)
  | workerError (runID : String) (message : Bytes) (saved : Bool) :
    Rewrites s (.workerError runID message saved) runID (failRun s.now message)
  | ack (runID : String) (saved : Bool) : Rewrites s (.ack runID saved) runID (setJobRunStarted s.now)
  | complete (m : JobCompletedMessage) (saved : Bool) :
    Rewrites s (.complete m saved) m.jobRunID (handleJobCompleted s.now m)
  | disconnect (workerID : String) (unsaved : List String) (id : String) :
    Rewrites s (.disconnect workerID unsaved) id (markLost s.now)
  | visit {i : Nat} (saved : Bool) {purpose : Purpose} {queriedAt : Nat} {id : String} {updated : Nat}
    {rows : List (String × Nat)} (hsweep : s.sweeps[i]? = some ⟨purpose, queriedAt, (id, updated) :: rows⟩)
    (hdue : due queriedAt id updated purpose = true) : Rewrites s (.visit i saved) id (mark s.now purpose)
  | restart (unsaved : List String) (id : String) : Rewrites s (.restart unsaved) id (recoverPending s.now)

def Rewritten (s : State) (a : Action) (id : String) (r' : Run) : Prop :=
  ∃ r f, s.runs id = some r ∧ Rewrites s a id f ∧ r' = f r

@[simp]
theorem write_reports : (write s runID saved f).reports = s.reports := by
  unfold write
  split <;> rfl

theorem write_sweeps : (write s runID saved f).sweeps = s.sweeps := by
  unfold write
  split <;> rfl

section Note

variable {m : JobCompletedMessage}

theorem note_runs : (note s m saved).runs = s.runs := by
  unfold note
  split <;> rfl

theorem note_sweeps : (note s m saved).sweeps = s.sweeps := by
  unfold note
  split <;> rfl

end Note

def Action.isSaved : Action → Bool
  | .refuse _ _ saved | .dispatchError _ _ saved | .workerError _ _ saved | .ack _ saved
  | .complete _ saved | .visit _ saved => saved
  | _ => true

inductive Effect (s : State) (a : Action) (t : State) : Prop where
  | quiet (hruns : t.runs = s.runs)
  | write {runID : String} {f : Run → Run} (hf : Rewrites s a runID f) (hsaved : a.isSaved = true)
    (hruns : t.runs = update s.runs runID ((s.runs runID).map f))
  | all {query : Run → Bool} {unsaved : List String} {f : Run → Run} (hf : ∀ id, Rewrites s a id f)
    (hsaved : a.isSaved = true) (hruns : t.runs = (writeAll s query unsaved f).runs)
  | create {runID worker : String} {status : RunStatus} {output : Bytes} {timeoutMs : Int}
    (ha : a = .create runID worker status output timeoutMs) (hfresh : s.runs runID = none)
    (hruns : t.runs = update s.runs runID (some (newRun s.now worker status output timeoutMs)))

theorem effect_write (hf : Rewrites s a runID f) (hsaved : a.isSaved = saved)
    (hruns : t.runs = (write s runID saved f).runs) : Effect s a t := by
  cases saved with
  | true => exact .write hf hsaved hruns
  | false => exact .quiet hruns

theorem step_effect (hs : step s a = some t) : Effect s a t := by
  cases a with
  | create runID worker status output timeoutMs =>
    obtain ⟨hfresh, hruns, -⟩ := create_step hs
    exact .create rfl hfresh hruns
  | tick | query =>
    cases hs
    exact .quiet rfl
  | send runID =>
    obtain ⟨-, ⟨rfl⟩⟩ := ite_none_right_eq_some.mp hs
    exact .quiet rfl
  | patch runID commitSHA =>
    obtain ⟨-, ⟨rfl⟩⟩ := ite_none_right_eq_some.mp hs
    exact .write (.patch runID commitSHA) rfl rfl
  | refuse runID message saved =>
    obtain ⟨-, ⟨rfl⟩⟩ := ite_none_right_eq_some.mp hs
    exact effect_write (.refuse runID message saved) rfl rfl
  | dispatchError runID message saved =>
    obtain ⟨-, ⟨rfl⟩⟩ := ite_none_right_eq_some.mp hs
    exact effect_write (.dispatchError runID message saved) rfl rfl
  | workerError runID message saved =>
    obtain ⟨-, ⟨rfl⟩⟩ := ite_none_right_eq_some.mp hs
    exact effect_write (.workerError runID message saved) rfl rfl
  | ack runID saved =>
    obtain ⟨-, ⟨rfl⟩⟩ := ite_none_right_eq_some.mp hs
    exact effect_write (.ack runID saved) rfl rfl
  | complete m saved =>
    cases hs
    exact effect_write (.complete m saved) rfl note_runs
  | disconnect workerID unsaved =>
    cases hs
    exact .all (.disconnect workerID unsaved) rfl rfl
  | visit i saved =>
    obtain ⟨purpose, queriedAt, runID, updated, rows, hsweep, rfl | ⟨hdue, rfl⟩⟩ := visit_step hs
    · exact .quiet rfl
    · refine effect_write (.visit saved hsweep hdue) rfl ?_
      cases saved <;> rfl
  | restart unsaved =>
    cases hs
    exact .all (.restart unsaved) rfl rfl

theorem rows_step {r' : Run} (hs : step s a = some t) (h : t.runs id = some r') :
    Rewritten s a id r' ∨ ∃ worker status output timeoutMs, a = .create id worker status output timeoutMs ∧
      s.runs id = none ∧ r' = { worker := worker, status := status, output := output, updated := s.now
                                timeoutMs := timeoutMs, created := s.now } := by
  have hkeep (h : s.runs id = some r') : Rewritten s a id r' := ⟨r', fun r => r, h, .keep a id, rfl⟩
  cases step_effect hs with
  | quiet hruns => exact .inl (hkeep (hruns ▸ h))
  | @write runID f hf hsaved hruns =>
    rw [hruns] at h
    by_cases hid : id = runID
    · subst hid
      rw [update_self] at h
      obtain ⟨r, hr, rfl⟩ := map_eq_some_iff.mp h
      exact .inl ⟨r, f, hr, hf, rfl⟩
    · rw [update_of_ne hid] at h
      exact .inl (hkeep h)
  | all hf hsaved hruns =>
    rw [hruns] at h
    obtain ⟨r, hr, rfl⟩ := map_eq_some_iff.mp h
    split
    · exact .inl ⟨r, _, hr, hf id, rfl⟩
    · exact .inl ⟨r, fun r => r, hr, .keep a id, rfl⟩
  | create ha hfresh hruns =>
    rw [hruns] at h
    obtain ⟨rfl, rfl⟩ | ⟨_, h⟩ := update_some_cases h
    · exact .inr ⟨_, _, _, _, ha, hfresh, rfl⟩
    · exact .inl (hkeep h)

theorem sweeps_step {sw : Sweep} (hs : step s a = some t) (h : sw ∈ t.sweeps) :
    (∃ sw' ∈ s.sweeps, sw.purpose = sw'.purpose ∧ sw.queriedAt = sw'.queriedAt ∧ sw.rows ⊆ sw'.rows) ∨
      ∃ purpose runIDs, a = .query purpose runIDs ∧ sw = ⟨purpose, s.now, rowsOf s purpose runIDs⟩ := by
  have hsame (hsw : sw ∈ s.sweeps) : ∃ sw' ∈ s.sweeps,
      sw.purpose = sw'.purpose ∧ sw.queriedAt = sw'.queriedAt ∧ sw.rows ⊆ sw'.rows :=
    ⟨sw, hsw, rfl, rfl, List.Subset.refl _⟩
  cases a with
  | query purpose runIDs =>
    cases hs
    obtain h | h := mem_append.mp h
    · exact .inl (hsame h)
    · exact .inr ⟨purpose, runIDs, rfl, mem_singleton.mp h⟩
  | visit i saved =>
    obtain ⟨purpose, queriedAt, runID, updated, rows, hsweep, ht⟩ := visit_step hs
    have hsweeps : t.sweeps = s.sweeps.set i ⟨purpose, queriedAt, rows⟩ := by
      rcases ht with rfl | ⟨_, rfl⟩
      · rfl
      · exact write_sweeps
    rw [hsweeps] at h
    obtain h | rfl := mem_or_eq_of_mem_set h
    · exact .inl (hsame h)
    · exact .inl ⟨_, mem_of_getElem? hsweep, rfl, rfl, subset_cons_self _ _⟩
  | restart unsaved =>
    cases hs
    cases h
  | create runID worker status output timeoutMs =>
    obtain ⟨-, -, -, hsweeps⟩ := create_step hs
    rw [hsweeps] at h
    exact .inl (hsame h)
  | tick | disconnect =>
    cases hs
    exact .inl (hsame h)
  | complete m saved =>
    cases hs
    rw [note_sweeps, write_sweeps] at h
    exact .inl (hsame h)
  | patch | refuse | send | dispatchError | workerError | ack =>
    obtain ⟨_, ht⟩ := ite_none_right_eq_some.mp hs
    cases ht
    have hsweeps := h
    simp only [setPhase, write_sweeps] at hsweeps
    exact .inl (hsame hsweeps)

end Rows

section Guarded

/-- The change leaves status and output of a finished run. -/
def Guarded (f : Run → Run) : Prop :=
  ∀ r, isTerminal r.status = true → (f r).status = r.status ∧ (f r).output = r.output

theorem guarded_setJobRunStarted (now : Nat) : Guarded (setJobRunStarted now) := by
  intro r hr
  rw [setJobRunStarted, if_pos hr]
  exact ⟨rfl, rfl⟩

theorem guarded_patchJobRunMeta (now : Nat) (runID commitSHA : String) :
    Guarded (patchJobRunMeta now runID commitSHA) :=
  fun _ _ => ⟨rfl, rfl⟩

theorem guarded_markLost (now : Nat) : Guarded (markLost now) := by
  intro r hr
  have hrunning : r.status ≠ .running := fun h => by rw [h] at hr; cases hr
  rw [markLost, if_neg hrunning]
  exact ⟨rfl, rfl⟩

theorem guarded_recoverPending (now : Nat) : Guarded (recoverPending now) := by
  intro r hr
  have hpending : r.status ≠ .pending := fun h => by rw [h] at hr; cases hr
  rw [recoverPending, if_neg hpending]
  exact ⟨rfl, rfl⟩

theorem guarded_mark (now : Nat) (purpose : Purpose) : Guarded (mark now purpose) := by
  cases purpose with
  | active workerID activeIDs => exact guarded_markLost now
  | forgotten =>
    intro r hr
    have hrunning : r.status ≠ .running := fun h => by rw [h] at hr; cases hr
    rw [mark, markForgotten, if_neg hrunning]
    exact ⟨rfl, rfl⟩
  | stuck =>
    intro r hr
    have hpending : r.status ≠ .pending := fun h => by rw [h] at hr; cases hr
    rw [mark, markStuck, if_neg hpending]
    exact ⟨rfl, rfl⟩

end Guarded

section Kept

structure Shows (c : Report) (r : Run) : Prop where
  status : r.status = c.status
  output : r.output = c.output

theorem Shows.guarded {c : Report} {r : Run} {f : Run → Run} (h : Shows c r) (hf : Guarded f)
    (hc : isTerminal c.status = true) : Shows c (f r) := by
  obtain ⟨hstatus, houtput⟩ := hf r (by rw [h.status]; exact hc)
  exact ⟨hstatus.trans h.status, houtput.trans h.output⟩

/-- Every completion that was stored is what its run shows. -/
def Kept (s : State) : Prop :=
  ∀ runID c, s.reports runID = some c → isTerminal c.status = true ∧ ∃ r, s.runs runID = some r ∧ Shows c r

variable {s t : State} {runID : String} {saved : Bool} {f : Run → Run} {m : JobCompletedMessage}

@[simp]
theorem setPhase_reports (phase : Option Phase) : (setPhase s runID phase).reports = s.reports := rfl

theorem isTerminal_statusOf (m : JobCompletedMessage) : isTerminal (statusOf m) = true := by
  unfold statusOf
  split <;> rfl

theorem shows_handleJobCompleted (now : Nat) (m : JobCompletedMessage) (r : Run) :
    Shows (reportOf m) (handleJobCompleted now m r) := ⟨rfl, rfl⟩

/-- What reports that a run did not start comes before any completion of it,
and a further completion says the same as the one stored. -/
def Orderly (s : State) : Action → Prop
  | .refuse runID _ saved | .dispatchError runID _ saved | .workerError runID _ saved =>
    saved = true → s.reports runID = none
  | .complete m saved =>
    saved = true → s.reports m.jobRunID = none ∨ s.reports m.jobRunID = some (reportOf m)
  | _ => True

instance (s : State) (a : Action) : Decidable (Orderly s a) := by
  unfold Orderly
  split <;> infer_instance

variable {a : Action}

theorem Rewrites.shows {c : Report} {r : Run} (hf : Rewrites s a runID f) (ha : Orderly s a)
    (hsaved : a.isSaved = true) (hc : s.reports runID = some c) (hterm : isTerminal c.status = true)
    (h : Shows c r) : Shows c (f r) := by
  have hnone (hnone : s.reports runID = none) : Shows c (f r) := by
    rw [hc] at hnone
    cases hnone
  cases hf with
  | keep => exact h
  | patch => exact h.guarded (guarded_patchJobRunMeta _ _ _) hterm
  | refuse | dispatchError | workerError => exact hnone (ha hsaved)
  | ack => exact h.guarded (guarded_setJobRunStarted _) hterm
  | complete m saved =>
    have hsame := ha hsaved
    rw [hc] at hsame
    obtain rfl : c = reportOf m := Option.some.inj (hsame.resolve_left nofun)
    exact shows_handleJobCompleted s.now m r
  | disconnect => exact h.guarded (guarded_markLost _) hterm
  | visit => exact h.guarded (guarded_mark _ _) hterm
  | restart => exact h.guarded (guarded_recoverPending _) hterm

theorem reports_cases (hs : step s a = some t) : t.reports = s.reports ∨
    ∃ m : JobCompletedMessage, s.reports m.jobRunID = none ∧
      t.reports = update s.reports m.jobRunID (some (reportOf m)) ∧
        ∃ r, t.runs m.jobRunID = some (handleJobCompleted s.now m r) := by
  cases a with
  | complete m saved =>
    cases hs
    unfold note
    split
    · next hnew =>
      simp only [Bool.and_eq_true, write_reports, isNone_iff_eq_none] at hnew
      obtain ⟨⟨rfl, hsome⟩, hnone⟩ := hnew
      obtain ⟨r', hr'⟩ := isSome_iff_exists.mp hsome
      have hmap : (s.runs m.jobRunID).map (handleJobCompleted s.now m) = some r' :=
        (update_self m.jobRunID _ s.runs).symm.trans hr'
      obtain ⟨r, -, rfl⟩ := map_eq_some_iff.mp hmap
      exact .inr ⟨m, hnone, rfl, r, hr'⟩
    · exact .inl write_reports
  | create id worker status output timeoutMs =>
    obtain ⟨-, -, hreports, -⟩ := create_step hs
    exact .inl hreports
  | visit i saved =>
    obtain ⟨_, _, _, _, _, -, rfl | ⟨-, rfl⟩⟩ := visit_step hs
    · exact .inl rfl
    · exact .inl write_reports
  | tick | disconnect | query | restart =>
    cases hs
    exact .inl rfl
  | patch | refuse | send | dispatchError | workerError | ack =>
    obtain ⟨-, ⟨rfl⟩⟩ := ite_none_right_eq_some.mp hs
    exact .inl (by simp)

theorem Kept.step (h : Kept s) (ha : Orderly s a) (hs : step s a = some t) : Kept t := by
  have hold {id : String} {c : Report} (hc : s.reports id = some c) :
      isTerminal c.status = true ∧ ∃ r, t.runs id = some r ∧ Shows c r := by
    obtain ⟨hterm, r, hrun, hshows⟩ := h id c hc
    refine ⟨hterm, ?_⟩
    cases step_effect hs with
    | quiet hruns => exact ⟨r, hruns ▸ hrun, hshows⟩
    | @write runID f hf hsaved hruns =>
      rw [hruns]
      by_cases hid : id = runID
      · subst hid
        rw [update_self, hrun]
        exact ⟨f r, rfl, hf.shows ha hsaved hc hterm hshows⟩
      · rw [update_of_ne hid]
        exact ⟨r, hrun, hshows⟩
    | all hf hsaved hruns =>
      rw [hruns]
      refine ⟨_, congrArg (Option.map _) hrun, ?_⟩
      dsimp only
      split
      · exact (hf id).shows ha hsaved hc hterm hshows
      · exact hshows
    | @create runID _ _ _ _ _ hfresh hruns =>
      rw [hruns]
      exact ⟨r, update_kept hfresh hrun, hshows⟩
  intro id c hc
  obtain hreports | ⟨m, -, hreports, r, hrun⟩ := reports_cases hs
  · exact hold (hreports ▸ hc)
  · rw [hreports] at hc
    obtain ⟨rfl, rfl⟩ | ⟨_, hc⟩ := update_some_cases hc
    · exact ⟨isTerminal_statusOf m, _, hrun, shows_handleJobCompleted s.now m r⟩
    · exact hold hc

theorem reports_step {runID : String} {c : Report} (hc : s.reports runID = some c)
    (hs : step s a = some t) : t.reports runID = some c := by
  obtain hreports | ⟨m, hnone, hreports, -⟩ := reports_cases hs
  · rw [hreports, hc]
  · rw [hreports]
    exact update_kept hnone hc

theorem completion_kept {as bs : List Action} {runID : String} {c : Report}
    (hg : Meets step Orderly {} as) (hs : run step {} as = some s) (hc : s.reports runID = some c)
    (hg' : Meets step Orderly s bs) (ht : run step s bs = some t) :
    ∃ r, t.runs runID = some r ∧ r.status = c.status ∧ r.output = c.output := by
  have hstep : ∀ s a t, Kept s → Orderly s a → step s a = some t → Kept t :=
    fun _ _ _ h ha hs => h.step ha hs
  have hinit : Kept {} := by
    intro id c hc
    cases hc
  have hkept := run_invariant hstep (run_invariant hstep hinit hg hs) hg' ht
  have hreport : t.reports runID = some c :=
    run_invariant_of_step (fun _ _ _ h hs => reports_step h hs) hc ht
  obtain ⟨_, r, hrun, hshows⟩ := hkept runID c hreport
  exact ⟨r, hrun, hshows.status, hshows.output⟩

def dispatched : List Action :=
  [.create "r1" "w1" .pending [] 600000, .patch "r1" "c1", .send "r1"]

def succeeded : JobCompletedMessage where
  jobRunID := "r1"
  success := true
  output := text "done"
  durationMs := 12
  queueTimeMs := 1
  executionTimeMs := 11

/-- The acknowledgement runs into its timeout after the completion is stored. -/
theorem dispatch_error_overwrites_completion :
    ∃ t ∈ run step {} (dispatched ++ [.complete succeeded true, .dispatchError "r1" (text "timeout") true]),
      t.reports "r1" = some ⟨.success, text "done"⟩ ∧
        (t.runs "r1").map (fun r => (r.status, r.output)) = some (.error, text "timeout") :=
  run_reaches (by decide)

theorem late_ack_keeps_completion :
    ∃ s ∈ run step {} (dispatched ++ [.complete succeeded true]), ∃ t ∈ run step s [.ack "r1" true],
      ∃ r, t.runs "r1" = some r ∧ r.status = .success ∧ r.output = text "done" := by
  refine ⟨_, rfl, _, rfl, ?_⟩
  exact @completion_kept _ _ (dispatched ++ [.complete succeeded true]) [.ack "r1" true] "r1"
    ⟨.success, text "done"⟩ (by decide) rfl rfl (by decide) rfl

end Kept

end Wireops.Jobs.Runs
