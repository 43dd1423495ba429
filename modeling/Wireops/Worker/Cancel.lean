import Wireops.Worker.Admission

namespace Wireops.Worker.Cancel

open Bool Function Option List Protocol Lib.Steps Lib.Table Worker.Handlers Worker.Slots Worker.Admission

inductive Context where
  | copy (k : Nat)
  | job (i : Nat)
  deriving DecidableEq

/-- `holders` are the cancel functions in `ActiveCommands`, `called` those
called, `cancels` the goroutines of `HandleCancelCommand` with what they loaded.
The rest is history: the calls that gave up, the commands that started, those
whose cancel was handled after they were accepted and before that, and of these
the ones that started under a live context. -/
structure State where
  worker : Admission.State := {}
  holders : String → Option Context := fun _ => none
  called : List Context := []
  cancels : List (String × Option Context) := []
  gaveUp : List String := []
  started : List String := []
  withdrawn : List String := []
  late : List String := []

/-- `giveUp` is the end of a `Dispatch` that has no result; `sent` tells whether the
worker gets its cancel message. -/
inductive Action where
  | giveUp (commandID : String) (sent : Bool)
  | load (i : Nat)
  | call (i : Nat)
  | worker (a : Admission.Action)
  deriving DecidableEq, Repr

/-- Where the goroutine that makes a context is. -/
inductive Stage where
  | copy (p : Phase)
  | job (p : JobPhase)
  deriving DecidableEq

def Stage.undecided : Stage → Bool
  | .copy .queued | .copy .checkActive | .copy .lookup | .copy (.judge _) | .copy .expire | .copy .claim
  | .copy .activate | .copy .start => true
  | .copy _ => false
  | .job p => !begun p

/-- Registered, and before the executor. -/
def Stage.ready (st : Stage) : Bool := st = .copy .start || st = .job .start

def Task.stage (x : Task) : Option (String × Stage) :=
  match x.work with
  | .job cmd p => some (cmd.commandID, .job p)
  | .copy _ => none

def stage (w : Admission.State) : Context → Option (String × Stage)
  | .copy k => (w.worker.copies k).map (fun c => (c.cmd.commandID, .copy c.phase))
  | .job i => (w.tasks i).bind Task.stage

variable (s : State) (w : Admission.State) (commandID : String)

/-- The command may yet start under the context. -/
def unstarted (ctx : Context) : Bool :=
  (stage w ctx).any (fun x => x.1 = commandID && x.2.undecided)

def registered (ctx : Context) : Bool :=
  (stage w ctx).any (fun x => x.1 = commandID && x.2.ready)

def contexts : List Context :=
  (List.range w.worker.nextCopy).map .copy ++ (List.range w.nextTask).map .job

def pending : List Context :=
  (contexts w).filter (unstarted w commandID)

/-- Whose operation the step is, with the stage it is at. -/
def mover : Admission.Action → Option (Context × String × Stage)
  | .task i =>
    match w.tasks i with
    | some ⟨.held, .job cmd p⟩ => some (.job i, cmd.commandID, .job p)
    | _ => none
  | .handler (.advance k) => (stage w (.copy k)).map (.copy k, ·)
  | _ => none

/-- The change a step makes to `ActiveCommands`. -/
def registers (a : Admission.Action) : Option (String × Context × Bool) :=
  match mover w a with
  | some (ctx, commandID, .copy .activate) | some (ctx, commandID, .job .activate) =>
    some (commandID, ctx, true)
  | some (ctx, commandID, .copy (.deactivate ..)) | some (ctx, commandID, .job .deactivate) =>
    some (commandID, ctx, false)
  | _ => none

def starts (a : Admission.Action) : Option (String × Context) :=
  (mover w a).bind (fun x => if x.2.2.ready then some (x.2.1, x.1) else none)

/-- Under a context that was cancelled the executor runs no command. -/
def start (ctx : Context) : State :=
  { s with
    started := commandID :: s.started
    late := if s.withdrawn.contains commandID && !s.called.contains ctx then commandID :: s.late else s.late }

def register (x : String × Context × Bool) : State :=
  { s with holders := update s.holders x.1 (if x.2.2 then some x.2.1 else none) }

def waits : Bool :=
  s.worker.admitted.contains commandID && !s.started.contains commandID

def handled : State :=
  if waits s commandID then { s with withdrawn := commandID :: s.withdrawn } else s

def work (a : Admission.Action) (w : Admission.State) : State :=
  let s' := ((starts s.worker a).elim s (fun x => start s x.1 x.2))
  { (registers s.worker a).elim s' (register s') with worker := w }

def step (lim : Limits) (s : State) : Action → Option State
  | .giveUp commandID sent =>
    some { s with
      gaveUp := commandID :: s.gaveUp
      cancels := if sent then s.cancels ++ [(commandID, none)] else s.cancels }
  | .load i =>
    match s.cancels[i]? with
    | some (commandID, none) =>
      match s.holders commandID with
      | some ctx => some { s with cancels := s.cancels.set i (commandID, some ctx) }
      | none => some (handled { s with cancels := s.cancels.eraseIdx i } commandID)
    | _ => none
  | .call i =>
    match s.cancels[i]? with
    | some (commandID, some ctx) =>
      some (handled { s with cancels := s.cancels.eraseIdx i, called := ctx :: s.called } commandID)
    | _ => none
  | .worker a => (Admission.step lim s.worker a).map (work s a)

/-- No command starts whose cancel was handled while it waited; and every cancel is
of a `Dispatch` that gave up. -/
structure Obeyed (s : State) : Prop where
  late : s.late = []
  gaveUp : s.withdrawn ⊆ s.gaveUp

/-- The command of which the step schedules a copy. -/
def admits (lim : Limits) (w : Admission.State) : Admission.Action → Option String
  | .read =>
    match w.reading with
    | some (cmd, .schedule p) =>
      match (attempt lim .heavy w.toLoad p).1 with
      | .accepted _ => some cmd.commandID
      | _ => none
    | _ => none
  | _ => none

/-- A cancel that is looked up while its command waits finds every copy of it
registered, and no further copy is scheduled then; a copy is registered where no
other is, and takes away its own registration. -/
def Heeded (lim : Limits) (s : State) : Action → Prop
  | .load i => ∀ c ∈ s.cancels[i]?, c.2 = none → waits s c.1 = true →
      ∀ ctx ∈ pending s.worker c.1, registered s.worker c.1 ctx = true
  | .worker a =>
    (∀ x ∈ registers s.worker a, s.holders x.1 = if x.2.2 then none else some x.2.1) ∧
      ∀ commandID ∈ admits lim s.worker a,
        commandID ∉ s.withdrawn ∧ ∀ c ∈ s.cancels, c.1 = commandID → c.2 = none
  | _ => True

instance (lim : Limits) (s : State) (a : Action) : Decidable (Heeded lim s a) := by
  unfold Heeded
  split <;> infer_instance

section Stages

variable {w w' : Admission.State} {lim : Limits} {commandID : String} {ctx : Context} {st : Stage}
  {a : Admission.Action}

theorem any_stage_iff {f : Stage → Bool} : (stage w ctx).any (fun x => x.1 = commandID && f x.2) = true ↔
      ∃ st, stage w ctx = some (commandID, st) ∧ f st = true := by
  simp only [Option.any_eq_true, and_eq_true, decide_eq_true_eq]
  constructor
  · rintro ⟨⟨id, st⟩, hst, rfl, hf⟩
    exact ⟨st, hst, hf⟩
  · rintro ⟨st, hst, hf⟩
    exact ⟨_, hst, rfl, hf⟩

theorem stage_of_mover (h : mover w a = some (ctx, commandID, st)) : stage w ctx = some (commandID, st) := by
  unfold mover at h
  split at h
  · split at h
    · next htask =>
      cases h
      rw [stage, htask]
      rfl
    · cases h
  · obtain ⟨x, hx, heq⟩ := map_eq_some_iff.mp h
    cases heq
    exact hx
  · cases h

/-- A context goes on from one stage to the next. -/
structure Follows (w : Admission.State) (a : Admission.Action) (ctx : Context) (commandID : String)
    (st' : Stage) (st : Stage) : Prop where
  before : stage w ctx = some (commandID, st)
  undecided : st'.undecided = true → st.undecided = true
  ready : st'.ready = true → st = st' ∨ registers w a = some (commandID, ctx, true)

/-- What a step of the worker does to the contexts. -/
structure Moves (lim : Limits) (w : Admission.State) (a : Admission.Action) (w' : Admission.State) : Prop where
  stages : ∀ ctx commandID st', stage w' ctx = some (commandID, st') → (∃ st, Follows w a ctx commandID st' st) ∨
      admits lim w a = some commandID ∧ st'.ready = false ∧ ctx ∈ contexts w'
  contexts : contexts w ⊆ contexts w'
  admitted : ∀ commandID ∈ w'.admitted, commandID ∈ w.admitted ∨ admits lim w a = some commandID

theorem copy_mem_contexts {k : Nat} : .copy k ∈ contexts w ↔ k < w.worker.nextCopy := by
  simp [contexts]

variable {i : Nat}

theorem job_mem_contexts : .job i ∈ contexts w ↔ i < w.nextTask := by
  simp [contexts]

theorem Moves.of_stages (hst : ∀ ctx commandID st', stage w' ctx = some (commandID, st') →
      ∃ st, Follows w a ctx commandID st' st) (hk : w'.worker.nextCopy = w.worker.nextCopy := by rfl)
    (hi : w'.nextTask = w.nextTask := by rfl) (ha : w'.admitted = w.admitted := by rfl) : Moves lim w a w' where
  stages ctx id st' h := .inl (hst ctx id st' h)
  contexts := by
    rw [Cancel.contexts, Cancel.contexts, hk, hi]
    exact List.Subset.refl _
  admitted id h := .inl (ha ▸ h)

theorem Follows.refl (h : stage w ctx = some (commandID, st)) : Follows w a ctx commandID st st :=
  ⟨h, fun h => h, fun _ => .inl rfl⟩

theorem Moves.of_eq (hc : w'.worker.copies = w.worker.copies := by rfl)
    (hk : w'.worker.nextCopy = w.worker.nextCopy := by rfl) (ht : w'.tasks = w.tasks := by rfl)
    (hi : w'.nextTask = w.nextTask := by rfl) (ha : w'.admitted = w.admitted := by rfl) : Moves lim w a w' := by
  refine .of_stages (fun ctx id st' h => ⟨st', .refl ?_⟩) hk hi ha
  cases ctx with
  | copy k => rwa [stage, ← hc]
  | job i => rwa [stage, ← ht]

theorem Moves.copy {k : Nat} {c : Copy} {p : Phase} {after : Option Nat} (hc : w.worker.copies k = some c)
    (hcopies : w'.worker.copies = update w.worker.copies k (some ⟨c.cmd, p, after⟩))
    (hundecided : (Stage.copy p).undecided = true → (Stage.copy c.phase).undecided = true)
    (hready : p = .start → c.phase = .activate ∧ a = .handler (.advance k))
    (hk : w'.worker.nextCopy = w.worker.nextCopy := by rfl) (ht : w'.tasks = w.tasks := by rfl)
    (hi : w'.nextTask = w.nextTask := by rfl) (ha : w'.admitted = w.admitted := by rfl) : Moves lim w a w' := by
  refine .of_stages (fun ctx id st' h => ?_) hk hi ha
  cases ctx with
  | job i =>
    rw [stage, ht] at h
    exact ⟨st', .refl h⟩
  | copy j =>
    obtain ⟨d, hd, heq⟩ := map_eq_some_iff.mp h
    cases heq
    rw [hcopies] at hd
    obtain ⟨rfl, rfl⟩ | ⟨_, hd⟩ := update_some_cases hd
    · have hstage : stage w (.copy j) = some (c.cmd.commandID, .copy c.phase) := by rw [stage, hc]; rfl
      refine ⟨.copy c.phase, hstage, hundecided, fun hr => .inr ?_⟩
      have hp : p = .start := by simpa [Stage.ready] using hr
      obtain ⟨hphase, rfl⟩ := hready hp
      rw [registers, mover, hstage, hphase]
      rfl
    · refine ⟨.copy d.phase, .refl ?_⟩
      rw [stage, hd]
      rfl

theorem Moves.task {x y : Task} (hx : w.tasks i = some x) (ht : w'.tasks = update w.tasks i (some y))
    (hstage : ∀ commandID st', Task.stage y = some (commandID, st') →
      ∃ st, Follows w a (.job i) commandID st' st) (hc : w'.worker.copies = w.worker.copies := by rfl)
    (hk : w'.worker.nextCopy = w.worker.nextCopy := by rfl)
    (hi : w'.nextTask = w.nextTask := by rfl) (ha : w'.admitted = w.admitted := by rfl) : Moves lim w a w' := by
  refine .of_stages (fun ctx id st' h => ?_) hk hi ha
  cases ctx with
  | copy k =>
    rw [stage, hc] at h
    exact ⟨st', .refl h⟩
  | job j =>
    obtain ⟨z, hz, hst⟩ := bind_eq_some_iff.mp h
    rw [ht] at hz
    obtain ⟨rfl, rfl⟩ | ⟨_, hz⟩ := update_some_cases hz
    · exact hstage id st' hst
    · refine ⟨st', .refl ?_⟩
      rw [stage, hz]
      exact hst

theorem Moves.advance {h : Handlers.State} {k : Nat} {c : Copy} (hc : w.worker.copies k = some c)
    (ha : advance w.worker k c c.phase = some h) (hact : c.phase = .queued ∨ a = .handler (.advance k)) :
    Moves lim w a (w.withWorker h) := by
  obtain ⟨cmd, p, after⟩ := c
  cases p with
  | running | done => cases ha
  | checkActive | lookup | judge | claim | trySweep =>
    cases ha
    simp only [begin_, Handlers.lookup, judge, claim, trySweep]
    split <;> exact .copy hc rfl (fun _ => by first | rfl | contradiction) (fun h => by cases h)
  | activate =>
    cases ha
    exact .copy hc rfl (fun _ => rfl) (fun _ => ⟨rfl, hact.resolve_left Phase.noConfusion⟩)
  | queued | expire | start | store | release | sweep | evict | reply | deactivate =>
    cases ha
    exact .copy hc rfl (fun _ => by first | rfl | contradiction) (fun h => by cases h)

theorem Moves.handler {h : Handlers.State} {b : Handlers.Action} (hin : inside w.worker b = true)
    (hs : Handlers.step w.worker b = some h) : Moves lim w (.handler b) (w.withWorker h) := by
  cases step_fires hs with
  | tick => exact .of_eq
  | receive | refuse | refuseSilently => cases hin
  | advance hc ha => exact .advance hc ha (.inr rfl)
  | complete output error hc hp | pick hc hp _ _ =>
    exact .copy hc rfl (fun h => by cases h) (fun h => by cases h)

theorem Moves.job {cmd : RunJobCommand} {p : JobPhase}
    (hx : w.tasks i = some ⟨.held, .job cmd p⟩) : Moves lim w (.task i) (runJob w i cmd p) := by
  have hstage : stage w (.job i) = some (cmd.commandID, .job p) := by
    rw [stage, hx]
    rfl
  have hmover : mover w (.task i) = some (.job i, cmd.commandID, .job p) := by
    rw [mover, hx]
  cases p with
  | activate =>
    refine .task hx rfl fun id st' h => ?_
    cases h
    refine ⟨_, hstage, fun _ => rfl, fun _ => .inr ?_⟩
    rw [registers, hmover]
  | mark | start | running | deactivate | unmark | ended =>
    refine .task hx rfl fun id st' h => ?_
    cases h
    exact ⟨_, hstage, by decide, fun h => by cases h⟩

theorem Moves.advanceTask {x : Task} (hx : w.tasks i = some x)
    (h : advanceTask lim w i x = some w') : Moves lim w (.task i) w' := by
  unfold Admission.advanceTask at h
  split at h
  · obtain ⟨c, hc, h⟩ := bind_eq_some_iff.mp h
    split at h
    · next hp =>
      obtain ⟨h', hs, rfl⟩ := map_eq_some_iff.mp h
      obtain ⟨c', hc', ha⟩ := bind_eq_some_iff.mp hs
      cases hc.symm.trans hc'
      exact .advance hc ha (.inl hp)
    · cases h
      exact .task hx rfl (fun _ _ h => by cases h)
    · cases h
  · cases h
    exact .job hx
  · obtain ⟨⟨seat', l⟩, _, rfl⟩ := map_eq_some_iff.mp h
    refine .task (y := ⟨seat', _⟩) hx rfl fun id st' h => ⟨st', .refl ?_⟩
    rw [stage, hx]
    exact h

theorem Moves.scheduled {y : Task} (ha : admits lim w a = some commandID)
    (ht : w'.tasks = update w.tasks w.nextTask (some y)) (hi : w'.nextTask = w.nextTask + 1)
    (hy : ∀ id st, Task.stage y = some (id, st) → id = commandID ∧ st.ready = false)
    (hc : ∀ k c, w'.worker.copies k = some c → w.worker.copies k = some c ∨
      c.cmd.commandID = commandID ∧ c.phase = .queued ∧ k < w'.worker.nextCopy)
    (hk : w.worker.nextCopy ≤ w'.worker.nextCopy) (hadmitted : w'.admitted = commandID :: w.admitted) :
    Moves lim w a w' := by
  refine ⟨fun ctx id st' h => ?_, fun ctx h => ?_, fun id h => ?_⟩
  · cases ctx with
    | copy k =>
      obtain ⟨c, hck, heq⟩ := map_eq_some_iff.mp h
      cases heq
      obtain hold | ⟨rfl, hp, hlt⟩ := hc k c hck
      · exact .inl ⟨_, .refl (by rw [stage, hold]; rfl)⟩
      · exact .inr ⟨ha, by rw [hp]; rfl, copy_mem_contexts.mpr hlt⟩
    | job i =>
      obtain ⟨x, hx, hst⟩ := bind_eq_some_iff.mp h
      rw [ht] at hx
      obtain ⟨rfl, rfl⟩ | ⟨_, hx⟩ := update_some_cases hx
      · obtain ⟨rfl, hready⟩ := hy id st' hst
        exact .inr ⟨ha, hready, job_mem_contexts.mpr (hi ▸ Nat.lt_succ_self _)⟩
      · exact .inl ⟨st', .refl (by rw [stage, hx]; exact hst)⟩
  · cases ctx with
    | copy k => exact copy_mem_contexts.mpr (Nat.lt_of_lt_of_le (copy_mem_contexts.mp h) hk)
    | job i => exact job_mem_contexts.mpr (hi ▸ Nat.lt_succ_of_lt (job_mem_contexts.mp h))
  · rw [hadmitted] at h
    obtain rfl | h := mem_cons.mp h
    · exact .inr ha
    · exact .inl h

theorem Moves.schedule (l : Load) (seat : Seat) {cmd : Command} (ha : admits lim w a = some cmd.commandID) :
    Moves lim w a (schedule (w.withLoad l) seat cmd) := by
  cases cmd with
  | runJob c =>
    refine .scheduled ha rfl rfl (fun id st h => ?_) (fun _ _ h => .inl h) (Nat.le_refl _) rfl
    cases h
    exact ⟨rfl, rfl⟩
  | _ =>
    refine .scheduled ha rfl rfl (fun _ _ h => by cases h) (fun k c h => ?_) (Nat.le_succ _) rfl
    obtain ⟨rfl, rfl⟩ | ⟨_, h⟩ := update_some_cases h
    · exact .inr ⟨rfl, rfl, Nat.lt_succ_self _⟩
    · exact .inl h

theorem Moves.turnAway (l : Load) (cmd : Command) (draining : Bool) :
    Moves lim w a (turnAway (w.withLoad l) cmd draining) := by
  unfold Admission.turnAway
  split <;> exact .of_eq

theorem Moves.read {cmd : Command} {p : ReadPhase} (hr : w.reading = some (cmd, p)) :
    Moves lim w .read (read lim w cmd p) := by
  cases p with
  | schedule p =>
    rw [Admission.read]
    dsimp only
    cases hv : (attempt lim .heavy w.toLoad p).1 with
    | goesOn q => exact .of_eq
    | accepted seat =>
      refine .schedule _ seat ?_
      rw [admits, hr]
      dsimp only
      rw [hv]
    | rejected => exact .turnAway ..
  | checkAccepting =>
    rw [Admission.read]
    split
    · exact .of_eq
    · exact .turnAway w.toLoad ..
  | lookup | judge | checkRunning | trySweep =>
    rw [Admission.read]
    split <;> exact .of_eq
  | expire | refuse | record | store | release | sweep | evict | reply => exact .of_eq

theorem step_moves (h : Admission.step lim w a = some w') : Moves lim w a w' := by
  cases a with
  | setAcceptingWork | others =>
    cases h
    exact .of_eq
  | deliver cmd =>
    obtain ⟨_, ⟨⟩⟩ := ite_none_right_eq_some.mp h
    exact .of_eq
  | read =>
    obtain ⟨⟨cmd, p⟩, hr, rfl⟩ := map_eq_some_iff.mp h
    exact .read hr
  | pick id =>
    simp only [Admission.step] at h
    split at h
    · obtain ⟨_, ⟨⟩⟩ := ite_none_left_eq_some.mp h
      exact .of_eq
    · cases h
  | task i =>
    obtain ⟨x, hx, h⟩ := bind_eq_some_iff.mp h
    exact .advanceTask hx h
  | handler b =>
    obtain ⟨hin, h⟩ := ite_none_right_eq_some.mp h
    obtain ⟨h', hs, rfl⟩ := map_eq_some_iff.mp h
    exact .handler hin hs

end Stages

section Invariant

variable {lim : Limits} {s t : State} {a : Action}

/-- What is registered and has not started holds the entry of its command, so a
cancel that was looked up has the only context left. A withdrawn command has no
live context to start under. -/
structure Inv (s : State) : Prop where
  within : ∀ commandID ctx, unstarted s.worker commandID ctx = true → ctx ∈ contexts s.worker
  holders : ∀ commandID ctx, registered s.worker commandID ctx = true → s.holders commandID = some ctx
  looked : ∀ c ∈ s.cancels, ∀ ctx ∈ c.2, waits s c.1 = true → ∀ ctx', unstarted s.worker c.1 ctx' = true → ctx' = ctx
  withdrawn : ∀ commandID ∈ s.withdrawn, ∀ ctx, unstarted s.worker commandID ctx = true → ctx ∈ s.called
  late : s.late = []
  cancels : ∀ c ∈ s.cancels, c.1 ∈ s.gaveUp
  gaveUp : s.withdrawn ⊆ s.gaveUp

theorem Inv.init : Inv {} where
  within _ ctx h := by cases ctx <;> cases h
  holders _ ctx h := by cases ctx <;> cases h
  looked _ h := by cases h
  withdrawn _ h := by cases h
  late := rfl
  cancels _ h := by cases h
  gaveUp _ h := by cases h

variable {commandID : String}

theorem Inv.handled (h : Inv s) (hgave : commandID ∈ s.gaveUp)
    (hcalled : waits s commandID = true → ∀ ctx, unstarted s.worker commandID ctx = true → ctx ∈ s.called) :
    Inv (handled s commandID) := by
  unfold Cancel.handled
  split
  · next hwaits =>
    refine { h with
      withdrawn := fun id hid ctx hu => ?_
      gaveUp := cons_subset.mpr ⟨hgave, h.gaveUp⟩ }
    obtain rfl | hid := mem_cons.mp hid
    · exact hcalled hwaits ctx hu
    · exact h.withdrawn id hid ctx hu
  · exact h

theorem Inv.found (h : Inv s) {i : Nat} (hi : s.cancels[i]? = some (commandID, none))
    (hg : Heeded lim s (.load i)) (hwaits : waits s commandID = true) {ctx : Context}
    (hu : unstarted s.worker commandID ctx = true) : s.holders commandID = some ctx := by
  refine h.holders commandID ctx (hg _ hi rfl hwaits ctx ?_)
  exact mem_filter.mpr ⟨h.within commandID ctx hu, hu⟩

theorem Inv.load (h : Inv s) {i : Nat} (hg : Heeded lim s (.load i)) (hs : step lim s (.load i) = some t) :
    Inv t := by
  simp only [Cancel.step] at hs
  split at hs
  · next commandID hi =>
    have hgave : commandID ∈ s.gaveUp := h.cancels _ (mem_of_getElem? hi)
    split at hs
    · next ctx hholder =>
      cases hs
      refine { h with
        looked := fun c hc ctx' hctx hwaits ctx'' hu => ?_
        cancels := fun c hc => ?_ }
      · obtain hc | rfl := mem_or_eq_of_mem_set hc
        · exact h.looked c hc ctx' hctx hwaits ctx'' hu
        · cases hctx
          exact Option.some.inj ((h.found hi hg hwaits hu).symm.trans hholder)
      · obtain hc | rfl := mem_or_eq_of_mem_set hc
        · exact h.cancels c hc
        · exact hgave
    · next hholder =>
      cases hs
      have herased : Inv { s with cancels := s.cancels.eraseIdx i } :=
        { h with
          looked := fun c hc => h.looked c (eraseIdx_subset hc)
          cancels := fun c hc => h.cancels c (eraseIdx_subset hc) }
      refine herased.handled hgave fun hwaits ctx hu => ?_
      cases hholder.symm.trans (h.found hi hg hwaits hu)
  · cases hs

theorem Inv.call (h : Inv s) {i : Nat} (hs : step lim s (.call i) = some t) : Inv t := by
  simp only [Cancel.step] at hs
  split at hs
  · next commandID ctx hi =>
    cases hs
    have hmem := mem_of_getElem? hi
    have hcalled : Inv { s with cancels := s.cancels.eraseIdx i, called := ctx :: s.called } :=
      { h with
        looked := fun c hc => h.looked c (eraseIdx_subset hc)
        withdrawn := fun id hid ctx' hu => mem_cons_of_mem _ (h.withdrawn id hid ctx' hu)
        cancels := fun c hc => h.cancels c (eraseIdx_subset hc) }
    refine hcalled.handled (h.cancels _ hmem) fun hwaits ctx' hu => ?_
    exact mem_cons.mpr (.inl (h.looked _ hmem ctx rfl hwaits ctx' hu))
  · cases hs

theorem Inv.start_late (h : Inv s) {ctx : Context}
    (hu : unstarted s.worker commandID ctx = true) : (start s commandID ctx).late = [] := by
  rw [start]
  split
  · next hlate =>
    simp only [and_eq_true, contains_iff_mem, not_eq_true', ← not_eq_true] at hlate
    exact absurd (h.withdrawn commandID hlate.1 ctx hu) hlate.2
  · exact h.late

variable {b : Admission.Action} {w : Admission.State} {commandID : String} {ctx : Context}

theorem unstarted_of_starts
    (hs : starts s.worker b = some (commandID, ctx)) : unstarted s.worker commandID ctx = true := by
  obtain ⟨⟨ctx', id, st⟩, hm, heq⟩ := bind_eq_some_iff.mp hs
  obtain ⟨hready, heq⟩ := ite_none_right_eq_some.mp heq
  cases heq
  refine any_stage_iff.mpr ⟨st, stage_of_mover hm, ?_⟩
  simp only [Stage.ready, or_eq_true, decide_eq_true_eq] at hready
  obtain rfl | rfl := hready <;> rfl

theorem Inv.work_late (h : Inv s) (b : Admission.Action) (w : Admission.State) : (work s b w).late = [] := by
  have hstart : ((starts s.worker b).elim s (fun x => start s x.1 x.2)).late = [] := by
    cases hs : starts s.worker b with
    | none => exact h.late
    | some x => exact h.start_late (unstarted_of_starts hs)
  unfold work
  cases registers s.worker b with
  | none => exact hstart
  | some x => exact hstart

theorem work_frame (s : State) (b : Admission.Action) (w : Admission.State) :
    (work s b w).called = s.called ∧ (work s b w).cancels = s.cancels ∧
      (work s b w).gaveUp = s.gaveUp ∧ (work s b w).withdrawn = s.withdrawn ∧ s.started ⊆ (work s b w).started := by
  unfold work
  cases starts s.worker b <;> cases registers s.worker b <;>
    exact ⟨rfl, rfl, rfl, rfl, by first | exact List.Subset.refl _ | exact subset_cons_self _ _⟩

theorem work_holders (s : State) (b : Admission.Action) (w : Admission.State) :
    (work s b w).holders = (registers s.worker b).elim s.holders
      (fun x => update s.holders x.1 (if x.2.2 then some x.2.1 else none)) := by
  unfold work
  cases starts s.worker b <;> cases registers s.worker b <;> rfl

theorem not_ready_of_registers {stores : Bool} (hr : registers s.worker b = some (commandID, ctx, stores)) :
    registered s.worker commandID ctx = false := by
  rw [← not_eq_true, registered, any_stage_iff]
  rintro ⟨st, hst, hready⟩
  unfold registers at hr
  split at hr <;> try cases hr
  all_goals
    next hm =>
      rw [stage_of_mover hm] at hst
      cases hst
      cases hready

theorem Inv.work_holders (h : Inv s) (hg : Heeded lim s (.worker b)) (hm : Moves lim s.worker b w)
    (hr : registered w commandID ctx = true) : (work s b w).holders commandID = some ctx := by
  obtain ⟨st', hst', hready⟩ := any_stage_iff.mp hr
  rw [Cancel.work_holders]
  obtain ⟨st, hst⟩ | ⟨_, hno, _⟩ := hm.stages ctx commandID st' hst'
  · obtain rfl | hnew := hst.ready hready
    · have hbefore : registered s.worker commandID ctx = true := any_stage_iff.mpr ⟨st, hst.before, hready⟩
      have hheld := h.holders commandID ctx hbefore
      cases hreg : registers s.worker b with
      | none => exact hheld
      | some x =>
        obtain ⟨id, ctx', stores⟩ := x
        by_cases hid : commandID = id
        · subst hid
          have hcond := hg.1 _ hreg
          cases stores with
          | true => cases hheld.symm.trans hcond
          | false =>
            cases hheld.symm.trans hcond
            cases hbefore.symm.trans (not_ready_of_registers hreg)
        · exact (update_of_ne hid _ _).trans hheld
    · rw [hnew]
      exact update_self ..
  · cases hready.symm.trans hno

theorem Inv.worker (h : Inv s) (hg : Heeded lim s (.worker b))
    (hs : Admission.step lim s.worker b = some w) : Inv (work s b w) := by
  obtain ⟨hcalled, hcancels, hgave, hwithdrawn, hstarted⟩ := work_frame s b w
  have hm := step_moves hs
  have hold {commandID : String} {ctx : Context} (hu : unstarted w commandID ctx = true) :
      unstarted s.worker commandID ctx = true ∨ admits lim s.worker b = some commandID ∧ ctx ∈ contexts w := by
    obtain ⟨st', hst', hundecided⟩ := any_stage_iff.mp hu
    obtain ⟨st, hst⟩ | ⟨hadmits, _, hctx⟩ := hm.stages ctx commandID st' hst'
    · exact .inl (any_stage_iff.mpr ⟨st, hst.before, hst.undecided hundecided⟩)
    · exact .inr ⟨hadmits, hctx⟩
  refine ⟨fun id ctx hu => ?_, fun id ctx hr => h.work_holders hg hm hr, ?_, ?_, h.work_late b w, ?_, ?_⟩
  · exact (hold hu).elim (fun hu => hm.contexts (h.within id ctx hu)) (fun hnew => hnew.2)
  · rw [hcancels]
    intro c hc ctx hctx hwaits ctx' hu
    have hnew (hadmits : admits lim s.worker b = some c.1) : False := by
      rw [(hg.2 _ hadmits).2 c hc rfl] at hctx
      cases hctx
    simp only [waits, and_eq_true, contains_iff_mem, not_eq_true', ← not_eq_true] at hwaits
    have hbefore : waits s c.1 = true := by
      simp only [waits, and_eq_true, contains_iff_mem, not_eq_true', ← not_eq_true]
      exact ⟨(hm.admitted _ hwaits.1).resolve_right hnew, fun h => hwaits.2 (hstarted h)⟩
    exact h.looked c hc ctx hctx hbefore ctx' ((hold hu).resolve_right fun hn => hnew hn.1)
  · rw [hwithdrawn, hcalled]
    intro id hid ctx hu
    exact h.withdrawn id hid ctx ((hold hu).resolve_right fun hn => (hg.2 _ hn.1).1 hid)
  · rw [hcancels, hgave]
    exact h.cancels
  · rw [hwithdrawn, hgave]
    exact h.gaveUp

theorem Inv.step (h : Inv s) (hg : Heeded lim s a) (hs : step lim s a = some t) : Inv t := by
  cases a with
  | giveUp commandID sent =>
    cases hs
    have hmem : ∀ c ∈ if sent then s.cancels ++ [(commandID, none)] else s.cancels,
        c ∈ s.cancels ∨ c = (commandID, none) := by
      intro c hc
      split at hc
      · exact (mem_append.mp hc).imp_right mem_singleton.mp
      · exact .inl hc
    refine { h with
      looked := fun c hc ctx hctx => ?_
      cancels := fun c hc => ?_
      gaveUp := fun id hid => mem_cons_of_mem _ (h.gaveUp hid) }
    · obtain hc | rfl := hmem c hc
      · exact h.looked c hc ctx hctx
      · cases hctx
    · obtain hc | rfl := hmem c hc
      · exact mem_cons_of_mem _ (h.cancels c hc)
      · exact mem_cons_self
  | load i => exact h.load hg hs
  | call i => exact h.call hs
  | worker b =>
    obtain ⟨w, hw, rfl⟩ := map_eq_some_iff.mp hs
    exact h.worker hg hw

/-- In every interleaving of deliveries, cancels and handlers, under any load, whose
cancels come after the registration of what waits. -/
theorem obeyed_of_heeded {as : List Action} (hg : Meets (step lim) (Heeded lim) {} as)
    (hr : run (step lim) {} as = some t) : Obeyed t :=
  have h : Inv t := run_invariant (fun _ _ _ h hg hs => h.step hg hs) Inv.init hg hr
  ⟨h.late, h.gaveUp⟩

end Invariant

def queued : List Action := (opened ++ Admission.handled (deploy "sync-2") 5).map .worker

def resumed : List Action :=
  ([Admission.Action.handler (.complete 0 "" "")] ++ List.replicate 6 (Admission.Action.handler (.advance 0)) ++
    [Admission.Action.task 0, .task 1, .task 1, .task 1] ++
    List.replicate 5 (Admission.Action.handler (.advance 1))).map .worker

/-- The cancel of a deploy that waits finds nothing, and the deploy runs later. -/
theorem cancelled_deploy_runs :
    ∃ t ∈ run (step oneSlot) {} (queued ++ [Action.giveUp "sync-2" true, Action.load 0] ++ resumed),
      t.withdrawn = ["sync-2"] ∧ t.late = ["sync-2"] ∧ ¬ Obeyed t := by
  have hend : ∃ t ∈ run (step oneSlot) {} (queued ++ [Action.giveUp "sync-2" true, Action.load 0] ++ resumed),
      t.withdrawn = ["sync-2"] ∧ t.late = ["sync-2"] := run_reaches (by decide)
  obtain ⟨t, ht, hwithdrawn, hlate⟩ := hend
  refine ⟨t, ht, hwithdrawn, hlate, fun h => ?_⟩
  cases hlate.symm.trans h.late

def caught : List Action :=
  (Admission.handled (job "job-1") 10 ++ [Admission.Action.task 0, .task 0]).map .worker ++
    [Action.giveUp "job-1" true, Action.load 0, Action.call 0, Action.worker (.task 0)]

theorem caught_obeyed : ∃ t ∈ run (step oneSlot) {} caught, t.withdrawn = ["job-1"] ∧ Obeyed t :=
  ⟨_, rfl, rfl, @obeyed_of_heeded oneSlot _ caught (by decide) rfl⟩

end Wireops.Worker.Cancel
