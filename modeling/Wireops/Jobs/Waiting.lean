import Wireops.Jobs.Runs
import Wireops.Worker.Handlers
import Wireops.Worker.Slots

namespace Wireops.Jobs.Waiting

open Bool Option Function List Lib.Octets Lib.Steps Lib.Table Server.Inbound Jobs.Runs
open Worker.Handlers (completedDurableRetention)
open Worker.Slots

/-- Where a job is on the worker: scheduled and waiting for a slot or with one,
in `ActiveJobs` with its container running, with its report sent, or done. -/
inductive Stage where
  | scheduled (seat : Seat)
  | running | reported | ended
  deriving DecidableEq

def Stage.unfinished : Stage → Bool
  | .scheduled _ | .running => true
  | .reported | .ended => false

def Stage.active : Stage → Bool
  | .running | .reported => true
  | .scheduled _ | .ended => false

structure Job where
  stage : Stage
  acceptedAt : Nat

/-- One worker, its server, and what is between them: commands that were sent,
acceptances, heartbeats and reports. -/
structure State where
  server : Runs.State := {}
  sent : List String := []
  jobs : String → Option Job := fun _ => none
  accepted : List String := []
  load : Load := {}
  replies : List String := []
  beats : List (List String) := []
  reports : List JobCompletedMessage := []

/-- `accept` is `HandleRunJob`. `ack`, `heartbeat` and `complete` are the server's
handling of what the worker has sent. -/
inductive Action where
  | accept (runID : String)
  | start (runID : String)
  | mark (runID : String)
  | finish (m : JobCompletedMessage)
  | unmark (runID : String)
  | beat
  | ack (i : Nat) (saved : Bool)
  | heartbeat (i : Nat) (runIDs : List String)
  | complete (i : Nat) (saved : Bool)
  | server (a : Runs.Action)
  deriving DecidableEq, Repr

variable (lim : Limits) (s : State) (runID : String)

def held : Bool := (s.jobs runID).any (·.stage.unfinished)

def getActiveJobsList : List String :=
  s.accepted.filter (fun runID => (s.jobs runID).any (·.stage.active))

def setStage (stage : Stage) : State :=
  { s with jobs := update s.jobs runID ((s.jobs runID).map (fun j => { j with stage := stage })) }

def isAt (stage : Stage) : Bool := (s.jobs runID).any (·.stage = stage)

def enter (stage : Stage) : State :=
  { s with
    jobs := update s.jobs runID (some ⟨stage, s.server.now⟩)
    accepted := runID :: s.accepted
    replies := s.replies ++ [runID] }

def schedule : Option State :=
  (tryScheduleThrottled lim .heavy s.load).map fun (seat, load) =>
    { enter s runID (.scheduled seat) with load }

def start : Option State := do
  match (← s.jobs runID).stage with
  | .scheduled seat =>
    (seat.advance lim .heavy s.load).map fun (seat, load) =>
      { setStage s runID (.scheduled seat) with load }
  | _ => none

/-- Another copy of the command is answered like the first, while the answer is
kept or the job is active. Later copies are not followed. -/
def accept : Option State :=
  if runID ∈ s.sent then
    match s.jobs runID with
    | none => schedule lim s runID
    | some j =>
      if s.server.now ≤ j.acceptedAt + completedDurableRetention || j.stage.active then
        some { s with replies := s.replies ++ [runID] }
      else none
  else none

/-- What the server does apart from the worker's messages. No failure to dispatch
a run reads like a lost job. -/
def apart (workerID : String) : Runs.Action → Bool
  | .ack .. | .complete .. | .query (.active ..) _ => false
  | .create _ worker status _ _ => worker = workerID && (status = .pending || status = .stalled)
  | .refuse _ message _ | .dispatchError _ message _ | .workerError _ message _ =>
    truncateOutput message ≠ jobLost
  | .disconnect worker _ => worker = workerID
  | _ => true

def sends : Runs.Action → List String
  | .send runID => [runID]
  | _ => []

def step (lim : Limits) (workerID : String) (s : State) : Action → Option State
  | .accept runID => accept lim s runID
  | .start runID => start lim s runID
  | .mark runID => if isAt s runID (.scheduled .held) then some (setStage s runID .running) else none
  | .finish m =>
    if isAt s m.jobRunID .running then
      some { setStage s m.jobRunID .reported with reports := s.reports ++ [m] }
    else none
  | .unmark runID =>
    if isAt s runID .reported then some { setStage s runID .ended with load := s.load.free .heavy }
    else none
  | .beat => some { s with beats := s.beats ++ [getActiveJobsList s] }
  | .ack i saved =>
    s.replies[i]?.map fun runID =>
      { s with
        replies := s.replies.eraseIdx i
        server := (Runs.step s.server (.ack runID saved)).getD s.server }
  | .heartbeat i runIDs =>
    s.beats[i]?.map fun b =>
      { s with
        beats := s.beats.eraseIdx i
        server := (Runs.step s.server (.query (.active workerID b) runIDs)).getD s.server }
  | .complete i saved =>
    s.reports[i]?.map fun m =>
      { s with
        reports := s.reports.eraseIdx i
        server := (Runs.step s.server (.complete m saved)).getD s.server }
  | .server a =>
    if apart workerID a then
      (Runs.step s.server a).map fun server => { s with server := server, sent := sends a ++ s.sent }
    else none

def Lost (r : Run) : Prop := r.status = .error ∧ r.output = jobLost

/-- No run is shown as lost that the worker executes or is going to execute, and a
report that was stored is what its run shows. -/
structure Sound (s : State) : Prop where
  held : ∀ runID, held s runID = true → ∀ r ∈ s.server.runs runID, ¬ Lost r
  reported : Kept s.server

def isDisconnect : Runs.Action → Bool
  | .disconnect .. => true
  | _ => false

/-- When a heartbeat is handled, the running row of each unfinished job that it
does not list was updated less than a minute ago; the connection ends when the
worker has no unfinished job; and the server's writes are orderly. -/
def Careful : Action → Prop
  | .heartbeat i _ => ∀ b ∈ s.beats[i]?, ∀ runID ∈ s.accepted, held s runID = true → runID ∉ b →
      ∀ r ∈ s.server.runs runID, r.status = .running → s.server.now < r.updated + 60 * second
  | .complete i saved => ∀ m ∈ s.reports[i]?, Orderly s.server (.complete m saved)
  | .server a =>
    Orderly s.server a ∧ (isDisconnect a = true → ∀ runID ∈ s.accepted, held s runID = false)
  | _ => True

instance (s : State) (a : Action) : Decidable (Careful s a) := by
  unfold Careful
  split <;> infer_instance

section Table

variable {jobs jobs' : String → Option Job} {runID : String} {r : Run}

def Done (jobs : String → Option Job) (runID : String) : Prop :=
  ∃ j, jobs runID = some j ∧ j.stage.unfinished = false

/-- What the row of a run says about its job. -/
structure Matches (jobs : String → Option Job) (runID : String) (r : Run) : Prop where
  running : r.status = .running → ∃ j, jobs runID = some j
  lost : Lost r → Done jobs runID

/-- What the worker may do to its jobs: those it has go on, and none is taken up
again. -/
def Advances (jobs jobs' : String → Option Job) : Prop :=
  ∀ runID j, jobs runID = some j →
    ∃ j', jobs' runID = some j' ∧ (j'.stage.unfinished = true → j.stage.unfinished = true)

theorem Done.advance (h : Done jobs runID) (ha : Advances jobs jobs') : Done jobs' runID := by
  obtain ⟨j, hj, hdone⟩ := h
  obtain ⟨j', hj', hfollows⟩ := ha runID j hj
  refine ⟨j', hj', eq_false_iff.mpr fun hunfinished => ?_⟩
  rw [hfollows hunfinished] at hdone
  cases hdone

theorem Matches.advance (h : Matches jobs runID r) (ha : Advances jobs jobs') : Matches jobs' runID r where
  running hr := by
    obtain ⟨j, hj⟩ := h.running hr
    obtain ⟨j', hj', _⟩ := ha runID j hj
    exact ⟨j', hj'⟩
  lost hr := (h.lost hr).advance ha

theorem advances_enter (j : Job) (h : jobs runID = none) : Advances jobs (update jobs runID (some j)) :=
  fun _ i hi => ⟨i, update_kept h hi, fun hunfinished => hunfinished⟩

theorem advances_stage {j : Job} {stage : Stage} (h : jobs runID = some j)
    (hstage : stage.unfinished = true → j.stage.unfinished = true) :
    Advances jobs (update jobs runID (some { j with stage := stage })) := by
  intro id i hi
  by_cases hid : id = runID
  · subst hid
    cases h.symm.trans hi
    exact ⟨_, update_self .., hstage⟩
  · exact ⟨i, (update_of_ne hid _ _).trans hi, fun hunfinished => hunfinished⟩

theorem matches_of_ne (hrunning : r.status ≠ .running) (hlost : ¬ Lost r) : Matches jobs runID r where
  running hr := absurd hr hrunning
  lost hr := absurd hr hlost

end Table

section Invariant

variable {lim : Limits} {workerID : String} {s t : State}

structure Inv (s : State) : Prop where
  kept : Kept s.server
  jobs : ∀ runID j, s.jobs runID = some j → runID ∈ s.accepted
  rows : ∀ runID r, s.server.runs runID = some r → Matches s.jobs runID r
  replies : ∀ runID ∈ s.replies, ∃ j, s.jobs runID = some j
  reports : ∀ m ∈ s.reports, Done s.jobs m.jobRunID
  sweeps : ∀ sw ∈ s.server.sweeps, ∀ worker runIDs, sw.purpose = .active worker runIDs →
    ∀ row ∈ sw.rows, due sw.queriedAt row.1 row.2 sw.purpose = true → Done s.jobs row.1

/-- When a step of the server suits the jobs of the worker. -/
def Harmless (s : State) : Runs.Action → Prop
  | .create _ _ status _ _ => status = .pending ∨ status = .stalled
  | .refuse _ message _ | .dispatchError _ message _ | .workerError _ message _ =>
    truncateOutput message ≠ jobLost
  | .ack runID _ => ∃ j, s.jobs runID = some j
  | .complete m _ => Done s.jobs m.jobRunID
  | .disconnect .. => ∀ runID j, s.jobs runID = some j → j.stage.unfinished = false
  | .query (.active _ runIDs) _ => ∀ runID j, s.jobs runID = some j → j.stage.unfinished = true →
      runID ∉ runIDs → ∀ r ∈ s.server.runs runID, r.status = .running → s.server.now < r.updated + 60 * second
  | _ => True

theorem jobStuck_ne_jobLost : jobStuck ≠ jobLost := by decide +kernel

theorem jobCanceled_ne_jobLost : jobCanceled ≠ jobLost := by decide +kernel

variable {runID : String}

theorem matches_failRun {now : Nat} {message : Bytes} (r : Run)
    (hmessage : truncateOutput message ≠ jobLost) : Matches s.jobs runID (failRun now message r) :=
  matches_of_ne (fun h => by cases h) (fun h => hmessage h.2)

theorem matches_markLost {r : Run} (h : Matches s.jobs runID r)
    (hdone : r.status = .running → Done s.jobs runID) : Matches s.jobs runID (markLost s.server.now r) := by
  unfold markLost
  split
  · next hrunning => exact ⟨fun hr => by (cases hr), fun _ => hdone hrunning⟩
  · exact h

theorem Inv.matches_mark (h : Inv s) {r : Run} {sw : Sweep} {row : String × Nat}
    (hsw : sw ∈ s.server.sweeps) (hrow : row ∈ sw.rows)
    (hdue : due sw.queriedAt row.1 row.2 sw.purpose = true) (hid : row.1 = runID) (hm : Matches s.jobs runID r) :
    Matches s.jobs runID (mark s.server.now sw.purpose r) := by
  cases hpurpose : sw.purpose with
  | active worker runIDs =>
    refine matches_markLost hm (fun _ => ?_)
    exact hid ▸ h.sweeps sw hsw worker runIDs hpurpose row hrow hdue
  | forgotten =>
    rw [mark, markForgotten]
    split
    · exact matches_of_ne (fun hr => by cases hr) (fun hr => by cases hr.1)
    · exact hm
  | stuck =>
    rw [mark, markStuck]
    split
    · exact matches_of_ne (fun hr => by cases hr) (fun hr => jobStuck_ne_jobLost hr.2)
    · exact hm

variable {a : Runs.Action}

theorem Inv.matches_rewrites (h : Inv s) {f : Run → Run} {r : Run}
    (hf : Rewrites s.server a runID f) (ha : Harmless s a) (hm : Matches s.jobs runID r) :
    Matches s.jobs runID (f r) := by
  cases hf with
  | keep => exact hm
  | patch _ commitSHA => exact ⟨hm.running, hm.lost⟩
  | refuse | dispatchError | workerError => exact matches_failRun r ha
  | ack _ saved =>
    unfold setJobRunStarted
    split
    · exact hm
    · exact ⟨fun _ => ha, fun hr => by cases hr.1⟩
  | complete m saved =>
    refine ⟨fun hr => ?_, fun _ => ha⟩
    have hterm := isTerminal_statusOf m
    rw [show statusOf m = .running from hr] at hterm
    cases hterm
  | disconnect worker unsaved =>
    refine matches_markLost hm (fun hr => ?_)
    obtain ⟨j, hj⟩ := hm.running hr
    exact ⟨j, hj, ha _ j hj⟩
  | visit saved hsweep hdue =>
    exact h.matches_mark (mem_of_getElem? hsweep) (mem_cons_self ..) hdue rfl hm
  | restart unsaved =>
    unfold recoverPending
    split
    · exact matches_of_ne (fun hr => by cases hr) (fun hr => jobCanceled_ne_jobLost hr.2)
    · exact hm

theorem Inv.done_of_due (h : Inv s) {worker : String} {runIDs queried : List String} {row : String × Nat}
    (ha : Harmless s (.query (.active worker runIDs) queried))
    (hrow : row ∈ rowsOf s.server (.active worker runIDs) queried)
    (hdue : due s.server.now row.1 row.2 (.active worker runIDs) = true) : Done s.jobs row.1 := by
  obtain ⟨runID, _, hmap⟩ := mem_filterMap.mp hrow
  obtain ⟨r, hr, rfl⟩ := map_eq_some_iff.mp hmap
  obtain ⟨hrun, hfound⟩ := filter_eq_some_iff.mp hr
  simp only [found, due, and_eq_true, not_eq_true', decide_eq_true_eq] at hfound hdue
  obtain ⟨j, hj⟩ := (h.rows runID r hrun).running hfound.2
  refine ⟨j, hj, eq_false_iff.mpr fun hunfinished => ?_⟩
  have hunlisted : runID ∉ runIDs := fun hlisted => by
    rw [contains_iff_mem.mpr hlisted] at hdue
    cases hdue.1
  have := ha runID j hj hunfinished hunlisted r hrun hfound.2
  have := hdue.2
  omega

theorem Inv.server (h : Inv s) {srv : Runs.State} (hs : Runs.step s.server a = some srv)
    (horderly : Orderly s.server a) (ha : Harmless s a) : Inv { s with server := srv } where
  __ := h
  kept := h.kept.step horderly hs
  rows runID r' hr' := by
    obtain ⟨r, f, hr, hf, rfl⟩ | ⟨worker, status, output, timeoutMs, rfl, _, rfl⟩ := rows_step hs hr'
    · exact h.matches_rewrites hf ha (h.rows runID r hr)
    · obtain rfl | rfl := ha
      · exact matches_of_ne (fun hr => by cases hr) (fun hr => by cases hr.1)
      · exact matches_of_ne (fun hr => by cases hr) (fun hr => by cases hr.1)
  sweeps sw hsw worker runIDs hpurpose row hrow hdue := by
    obtain ⟨old, hold, hsame, hqueried, hsub⟩ | ⟨purpose, queried, rfl, rfl⟩ := sweeps_step hs hsw
    · rw [hsame, hqueried] at hdue
      exact h.sweeps old hold worker runIDs (hsame ▸ hpurpose) row (hsub hrow) hdue
    · subst hpurpose
      exact h.done_of_due ha hrow hdue

theorem Inv.advance (h : Inv s) (ha : Advances s.jobs t.jobs)
    (haccepted : ∀ runID j, t.jobs runID = some j → runID ∈ t.accepted)
    (hreplies : ∀ runID ∈ t.replies, runID ∈ s.replies ∨ ∃ j, t.jobs runID = some j)
    (hserver : t.server = s.server := by rfl) (hreports : t.reports = s.reports := by rfl) : Inv t where
  kept := hserver ▸ h.kept
  jobs := haccepted
  rows runID r hr := (h.rows runID r (hserver ▸ hr)).advance ha
  replies runID hid := by
    obtain hold | hnew := hreplies runID hid
    · obtain ⟨j, hj⟩ := h.replies runID hold
      obtain ⟨j', hj', _⟩ := ha runID j hj
      exact ⟨j', hj'⟩
    · exact hnew
  reports m hm := (h.reports m (hreports ▸ hm)).advance ha
  sweeps sw hsw worker runIDs hpurpose row hrow hdue :=
    (h.sweeps sw (hserver ▸ hsw) worker runIDs hpurpose row hrow hdue).advance ha

theorem Inv.enter (h : Inv s) (stage : Stage) (hfresh : s.jobs runID = none) : Inv (enter s runID stage) := by
  have hself : (Waiting.enter s runID stage).jobs runID = some ⟨stage, s.server.now⟩ := update_self ..
  refine h.advance (advances_enter _ hfresh) ?_ ?_
  · exact forall_update_some (fun id j hj => mem_cons_of_mem _ (h.jobs id j hj)) mem_cons_self
  · intro id hid
    obtain hold | hnew := mem_append.mp hid
    · exact .inl hold
    · cases mem_singleton.mp hnew
      exact .inr ⟨_, hself⟩

theorem isAt_iff {stage : Stage} : isAt s runID stage = true ↔ ∃ j, s.jobs runID = some j ∧ j.stage = stage := by
  simp only [isAt, Option.any_eq_true, decide_eq_true_eq]

section

variable (h : Inv s)

include h

theorem Inv.setStage {stage stage' : Stage} (hat : isAt s runID stage = true)
    (hstage : stage'.unfinished = true → stage.unfinished = true) : Inv (setStage s runID stage') := by
  obtain ⟨j, hj, rfl⟩ := isAt_iff.mp hat
  have hjobs : (Waiting.setStage s runID stage').jobs = update s.jobs runID (some { j with stage := stage' }) := by
    rw [Waiting.setStage, hj]
    rfl
  refine h.advance (hjobs ▸ advances_stage hj hstage) ?_ (fun _ hid => .inl hid)
  rw [hjobs]
  exact forall_update_some h.jobs (h.jobs runID j hj)

theorem Inv.count (load : Load) : Inv { s with load } where
  __ := h

theorem Inv.accept (hs : accept lim s runID = some t) : Inv t := by
  obtain ⟨_, hs⟩ := ite_none_right_eq_some.mp hs
  split at hs
  · next hfresh =>
    obtain ⟨⟨seat, load⟩, _, rfl⟩ := map_eq_some_iff.mp hs
    exact (h.enter (.scheduled seat) hfresh).count load
  · next j hj =>
    obtain ⟨_, ht⟩ := ite_none_right_eq_some.mp hs
    cases ht
    refine { h with replies := fun id hid => ?_ }
    obtain hold | hnew := mem_append.mp hid
    · exact h.replies id hold
    · cases mem_singleton.mp hnew
      exact ⟨j, hj⟩

theorem Inv.not_held (hall : ∀ runID ∈ s.accepted, held s runID = false) {j : Job}
    (hj : s.jobs runID = some j) : j.stage.unfinished = false := by
  have hheld := hall runID (h.jobs runID j hj)
  rwa [held, hj] at hheld

theorem Inv.start (hs : start lim s runID = some t) : Inv t := by
  obtain ⟨j, hj, hs⟩ := bind_eq_some_iff.mp hs
  split at hs
  · next seat hstage =>
    obtain ⟨⟨seat', load⟩, _, rfl⟩ := map_eq_some_iff.mp hs
    exact (h.setStage (isAt_iff.mpr ⟨j, hj, hstage⟩) (fun _ => rfl)).count load
  · cases hs

theorem Inv.finish {m : JobCompletedMessage} (hat : isAt s m.jobRunID .running = true) :
    Inv { Waiting.setStage s m.jobRunID .reported with reports := s.reports ++ [m] } := by
  have hreported : Inv (Waiting.setStage s m.jobRunID .reported) := h.setStage hat (fun hr => by cases hr)
  obtain ⟨j, hj, _⟩ := isAt_iff.mp hat
  have hdone : Done (Waiting.setStage s m.jobRunID .reported).jobs m.jobRunID := by
    refine ⟨{ j with stage := .reported }, ?_, rfl⟩
    rw [Waiting.setStage, hj]
    exact update_self ..
  refine { hreported with reports := fun m' hm' => ?_ }
  obtain hold | hnew := mem_append.mp hm'
  · exact hreported.reports m' hold
  · cases mem_singleton.mp hnew
    exact hdone

theorem Inv.forget {replies : List String} {reports : List JobCompletedMessage}
    (hreplies : replies ⊆ s.replies) (hreports : reports ⊆ s.reports) (beats : List (List String)) :
    Inv { s with replies := replies, beats := beats, reports := reports } where
  __ := h
  replies id hid := h.replies id (hreplies hid)
  reports m hm := h.reports m (hreports hm)

theorem Inv.serverD (horderly : Orderly s.server a) (ha : Harmless s a) :
    Inv { s with server := (Runs.step s.server a).getD s.server } := by
  cases hs : Runs.step s.server a with
  | none => exact h
  | some srv => exact h.server hs horderly ha

theorem Inv.harmless (hapart : apart workerID a = true) (hc : Careful s (.server a)) : Harmless s a := by
  cases a with
  | ack | complete => cases hapart
  | query purpose runIDs =>
    cases purpose with
    | active => cases hapart
    | forgotten | stuck => trivial
  | create runID worker status output timeoutMs =>
    simp only [apart, and_eq_true, or_eq_true, decide_eq_true_eq] at hapart
    exact hapart.2
  | refuse | dispatchError | workerError =>
    have hmessage := hapart
    simp only [apart, decide_eq_true_eq] at hmessage
    exact hmessage
  | disconnect worker unsaved => exact fun runID j hj => h.not_held (hc.2 rfl) hj
  | tick | patch | send | visit | restart => trivial

theorem Inv.step {a : Action} (hc : Careful s a) (hs : step lim workerID s a = some t) : Inv t := by
  cases a with
  | accept runID => exact h.accept hs
  | start runID => exact h.start hs
  | mark runID =>
    obtain ⟨hat, ht⟩ := ite_none_right_eq_some.mp hs
    cases ht
    exact h.setStage hat (fun _ => rfl)
  | finish m =>
    obtain ⟨hat, ht⟩ := ite_none_right_eq_some.mp hs
    cases ht
    exact h.finish hat
  | unmark runID =>
    obtain ⟨hat, ht⟩ := ite_none_right_eq_some.mp hs
    cases ht
    exact (h.setStage hat (fun hr => by cases hr)).count _
  | beat =>
    cases hs
    exact { h with }
  | ack i saved =>
    obtain ⟨runID, hi, rfl⟩ := map_eq_some_iff.mp hs
    have hjob := h.replies runID (mem_of_getElem? hi)
    have hforget : Inv { s with replies := s.replies.eraseIdx i } :=
      h.forget (eraseIdx_subset ..) (List.Subset.refl _) _
    exact hforget.serverD (a := .ack runID saved) trivial hjob
  | heartbeat i runIDs =>
    obtain ⟨b, hi, rfl⟩ := map_eq_some_iff.mp hs
    have hforget : Inv { s with beats := s.beats.eraseIdx i } :=
      h.forget (List.Subset.refl _) (List.Subset.refl _) _
    refine hforget.serverD (a := .query (.active workerID b) runIDs) trivial (fun runID j hj hunfinished => ?_)
    refine hc b hi runID (h.jobs runID j hj) ?_
    rw [held, hj]
    exact hunfinished
  | complete i saved =>
    obtain ⟨m, hi, rfl⟩ := map_eq_some_iff.mp hs
    have hdone := h.reports m (mem_of_getElem? hi)
    have hforget : Inv { s with reports := s.reports.eraseIdx i } :=
      h.forget (List.Subset.refl _) (eraseIdx_subset ..) _
    exact hforget.serverD (a := .complete m saved) (hc m hi) hdone
  | server a =>
    obtain ⟨hapart, hs⟩ := ite_none_right_eq_some.mp hs
    obtain ⟨srv, hsrv, rfl⟩ := map_eq_some_iff.mp hs
    exact { h.server hsrv hc.1 (h.harmless hapart hc) with }

end

theorem Inv.init : Inv {} where
  kept _ _ hc := by cases hc
  jobs _ _ hj := by cases hj
  rows _ _ hr := by cases hr
  replies _ hid := by cases hid
  reports _ hm := by cases hm
  sweeps _ hsw := by cases hsw

theorem Inv.sound (h : Inv s) : Sound s where
  held runID hheld r hr hlost := by
    obtain ⟨j, hj, hdone⟩ := (h.rows runID r hr).lost hlost
    rw [held, hj] at hheld
    cases hdone.symm.trans hheld
  reported := h.kept

theorem sound_of_unhurried {as : List Action} (hg : Meets (step lim workerID) Careful {} as)
    (hr : run (step lim workerID) {} as = some t) : Sound t :=
  (run_invariant (fun _ _ _ h hc hs => h.step hc hs) Inv.init hg hr).sound

end Invariant

def dispatch (runID : String) : List Action :=
  [Action.server (.create runID "w1" .pending [] 600000), Action.server (.patch runID "c1"),
    Action.server (.send runID)]

def report (runID : String) : JobCompletedMessage where
  jobRunID := runID
  success := true
  output := text "done"
  durationMs := 12
  queueTimeMs := 1
  executionTimeMs := 11

/-- The second of two runs waits for the one slot for over a minute. Its row
says it is running; the heartbeat has only the first. -/
def overdue : List Action :=
  dispatch "r1" ++ dispatch "r2" ++
    [Action.accept "r1", Action.mark "r1", Action.accept "r2", Action.ack 0 true, Action.ack 0 true,
      Action.server (.tick (61 * second)), Action.beat, Action.heartbeat 0 ["r1", "r2"],
      Action.server (.visit 0 true), Action.server (.visit 0 true), Action.finish (report "r1"),
      Action.unmark "r1", Action.start "r2", Action.start "r2", Action.mark "r2"]

def oneSlot : Limits := ⟨1, 1, 1, 8⟩

/-- When the first is done the worker runs what the server has given up. -/
theorem lost_run_executed : ∃ t ∈ run (step oneSlot "w1") {} overdue, isAt t "r2" .running = true ∧
      (t.server.runs "r2").map (fun r => (r.status, r.output)) = some (.error, jobLost) ∧ ¬ Sound t := by
  have hend : ∃ t ∈ run (step oneSlot "w1") {} overdue, isAt t "r2" .running = true ∧
      (t.server.runs "r2").map (fun r => (r.status, r.output)) = some (.error, jobLost) :=
    run_reaches (by decide +kernel)
  obtain ⟨t, ht, hrunning, hlost⟩ := hend
  refine ⟨t, ht, hrunning, hlost, fun h => ?_⟩
  obtain ⟨r, hr, hshown⟩ := map_eq_some_iff.mp hlost
  obtain ⟨j, hj, hstage⟩ := isAt_iff.mp hrunning
  refine h.held "r2" ?_ r hr ⟨congrArg Prod.fst hshown, congrArg Prod.snd hshown⟩
  rw [held, hj, any_some, hstage]
  rfl

/-- The second run waits when the heartbeat is taken and handled, half a minute after
its row was written. -/
def attended : List Action :=
  dispatch "r1" ++ dispatch "r2" ++
    [Action.accept "r1", Action.mark "r1", Action.accept "r2", Action.ack 0 true, Action.ack 0 true,
      Action.server (.tick (30 * second)), Action.beat, Action.heartbeat 0 ["r1", "r2"],
      Action.server (.visit 0 true), Action.server (.visit 0 true), Action.finish (report "r1"),
      Action.unmark "r1", Action.complete 0 true, Action.start "r2", Action.start "r2", Action.mark "r2"]

theorem attended_sound : ∃ t ∈ run (step oneSlot "w1") {} attended,
    isAt t "r2" .running = true ∧ (t.server.runs "r2").map (·.status) = some .running ∧ Sound t :=
  ⟨_, rfl, rfl, rfl, @sound_of_unhurried oneSlot "w1" _ attended (by decide) rfl⟩

end Wireops.Jobs.Waiting
