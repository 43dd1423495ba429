import Wireops.Lib.Steps
import Wireops.Lib.Table

/-!
# The bypass of the immutability rule

No API request may change the fields of a stack that its definition file
manages. A migration, a refresh of the definition and a reconcile may: each
marks the stack as bypassed while it saves, and the hook of an API request that
comes by meanwhile sees the mark as well. -/

namespace Wireops.Sync.Bypass

open Function Option Lib.Steps Lib.Table

/-- The columns of a stack that are written here; a request may write others. -/
inductive Field where
  | composePath
  | composeFile
  | removeOrphans
  | forcePull
  | deployTimeoutSeconds
  | syncIntervalSeconds
  | waitRunningJobs
  | waitRunningJobsTimeoutSeconds
  | workerTags
  | wireopsFilePath
  | configSource
  | repository
  | status
  | desiredCommit
  | checksum
  | other (name : String)
  deriving DecidableEq

inductive Value where
  | text (s : String)
  | int (n : Int)
  | bool (b : Bool)
  | texts (l : List String)
  deriving DecidableEq

abbrev Record := Field → Value

def wireopsManagedStackFields : List Field :=
  [.composePath, .composeFile, .removeOrphans, .forcePull, .deployTimeoutSeconds,
    .syncIntervalSeconds, .waitRunningJobs, .waitRunningJobsTimeoutSeconds, .workerTags,
    .wireopsFilePath, .configSource]

def isFileManagedConfigSource (source : Value) : Bool :=
  source = .text "wireops_file" || source = .text "compose_embedded"

def setAll (edits : List (Field × Value)) (record : Record) : Record :=
  edits.foldl (fun r e => update r e.1 e.2) record

/-- The fields the hook refuses a record for. -/
def validateWireopsFieldsImmutable (bypassed : Bool) (original record : Record) : List Field :=
  if bypassed then []
  else if !isFileManagedConfigSource (original .configSource) then []
  else wireopsManagedStackFields.filter (fun f => original f ≠ record f)

def write (row original record : Record) : Record :=
  fun f => if record f = original f then row f else record f

structure Definition where
  removeOrphans : Bool
  forcePull : Bool
  deployTimeoutSeconds : Int
  syncIntervalSeconds : Int
  waitRunningJobs : String
  workerTags : List String
  resolvedComposePath : String
  resolvedComposeFile : String
  deriving DecidableEq

/-- A migration, with the definition file if the stack has its own; the route
that refreshes the definition; and the schedule a reconcile takes from it. -/
inductive Operation where
  | migrate (repository composePath composeFile : String) (wireopsFile : Option String)
  | resync (definition : Definition)
  | refresh (deployTimeoutSeconds syncIntervalSeconds : Int)
  deriving DecidableEq

def applyWireopsDefinition (d : Definition) (source : Value) : List (Field × Value) :=
  [(.removeOrphans, .bool d.removeOrphans), (.forcePull, .bool d.forcePull),
    (.deployTimeoutSeconds, .int d.deployTimeoutSeconds), (.syncIntervalSeconds, .int d.syncIntervalSeconds),
    (.waitRunningJobs, .text d.waitRunningJobs), (.workerTags, .texts d.workerTags)] ++
  if source = .text "wireops_file" then
    [(.composePath, .text d.resolvedComposePath), (.composeFile, .text d.resolvedComposeFile)]
  else []

def Operation.edits (original : Record) : Operation → List (Field × Value)
  | .migrate repository composePath composeFile wireopsFile =>
    [(.repository, .text repository), (.composePath, .text composePath), (.composeFile, .text composeFile)] ++
    wireopsFile.toList.map (fun file => (.wireopsFilePath, .text file)) ++
    [(.status, .text "pending"), (.desiredCommit, .text ""), (.checksum, .text "")]
  | .resync definition => applyWireopsDefinition definition (original .configSource)
  | .refresh deployTimeoutSeconds syncIntervalSeconds =>
    [(.deployTimeoutSeconds, .int deployTimeoutSeconds), (.syncIntervalSeconds, .int syncIntervalSeconds)]

/-- A migration loads the record in the transaction that saves it, under the bypass. -/
def Operation.transactional : Operation → Bool
  | .migrate .. => true
  | _ => false

inductive Phase where
  | locked
  | opened
  | saved
  | closed
  deriving DecidableEq

structure Job where
  op : Operation
  original : Option Record := none
  phase : Phase := .locked

/-- An update from an API request: the record as loaded and as the request sets
it, and whether the hook has let it through. -/
structure Request where
  original : Record
  record : Record
  checked : Bool := false

/-- One stack: its row, its mark in `bypassStacks` and who has its lock. -/
structure State where
  row : Record
  bypassed : Bool := false
  holder : Option Nat := none
  jobs : Nat → Option Job := fun _ => none
  requests : Nat → Option Request := fun _ => none

variable (s : State) (j : Nat) (job : Job)

def State.setJob (job : Option Job) : State :=
  { s with jobs := update s.jobs j job }

def State.setRequest (i : Nat) (r : Option Request) : State :=
  { s with requests := update s.requests i r }

inductive Action where
  | request (i : Nat) (edits : List (Field × Value))
  | check (i : Nat)
  | store (i : Nat)
  | lock (j : Nat) (op : Operation)
  | load (j : Nat)
  | bypass (j : Nat)
  | save (j : Nat)
  | clear (j : Nat)
  | unlock (j : Nat)
  deriving DecidableEq

def stepRequest (i : Nat) (r : Request) : State :=
  if validateWireopsFieldsImmutable s.bypassed r.original r.record = [] then
    s.setRequest i (some { r with checked := true })
  else s.setRequest i none

def load : Option State :=
  if job.original.isNone ∧ job.phase = (if job.op.transactional then .opened else .locked) then
    some (s.setJob j (some { job with original := some s.row }))
  else none

def openBypass : Option State :=
  if job.phase = .locked ∧ (job.op.transactional ∨ job.original.isSome) then
    some { s.setJob j (some { job with phase := .opened }) with bypassed := true }
  else none

def save : Option State :=
  job.original.bind (fun original =>
    let record := setAll (job.op.edits original) original
    if job.phase = .opened ∧ validateWireopsFieldsImmutable s.bypassed original record = [] then
      some { s.setJob j (some { job with phase := .saved }) with row := write s.row original record }
    else none)

/-- The bypass is cleared whether the operation has saved or not. -/
def clearBypass : Option State :=
  if job.phase = .opened ∨ job.phase = .saved then
    some { s.setJob j (some { job with phase := .closed }) with bypassed := false }
  else none

def unlock : Option State :=
  if job.phase = .locked ∨ job.phase = .closed then some { s.setJob j none with holder := none }
  else none

def step : Action → Option State
  | .request i edits =>
    if (s.requests i).isNone then
      some (s.setRequest i (some { original := s.row, record := setAll edits s.row }))
    else none
  | .check i => (s.requests i).bind (fun r => if r.checked then none else some (stepRequest s i r))
  | .store i => (s.requests i).bind (fun r =>
      if r.checked then some { s.setRequest i none with row := write s.row r.original r.record }
      else none)
  | .lock j op =>
    if s.holder.isNone ∧ (s.jobs j).isNone then
      some { s.setJob j (some { op }) with holder := some j }
    else none
  | .load j => (s.jobs j).bind (load s j)
  | .bypass j => (s.jobs j).bind (openBypass s j)
  | .save j => (s.jobs j).bind (save s j)
  | .clear j => (s.jobs j).bind (clearBypass s j)
  | .unlock j => (s.jobs j).bind (unlock s j)

def Opener : Action → Prop
  | .save j => ∃ job ∈ s.jobs j, job.phase = .opened
  | _ => False

/-- The step leaves what the definition manages as it is, or is the save of an
operation that has opened the bypass. -/
def Kept (a : Action) : Prop :=
  ∀ t ∈ step s a, (∀ f ∈ wireopsManagedStackFields, t.row f = s.row f) ∨ Opener s a

/-- An API update that has the hook run while a bypass is open sets no field that the
definition manages. -/
def Guarded : Action → Prop
  | .check i => ∀ r ∈ s.requests i, s.bypassed = true → ∀ f ∈ wireopsManagedStackFields, r.record f = r.original f
  | _ => True

instance (s : State) (a : Action) : Decidable (Opener s a) := by
  unfold Opener
  split <;> infer_instance

instance (s : State) (a : Action) : Decidable (Guarded s a) := by
  unfold Guarded
  split <;> infer_instance

instance (s : State) (a : Action) : Decidable (Kept s a) :=
  inferInstanceAs (Decidable (∀ t ∈ step s a, _ ∨ _))

inductive Effect (s : State) : Action → State → Prop
  | request {t : State} (i : Nat) (edits : List (Field × Value)) (hrow : t.row = s.row)
      (hrequests : t.requests = update s.requests i
        (some { original := s.row, record := setAll edits s.row })) : Effect s (.request i edits) t
  | check {i : Nat} {r : Request} (hr : s.requests i = some r) : Effect s (.check i) (stepRequest s i r)
  | store {t : State} {i : Nat} {r : Request} (hr : s.requests i = some r) (hchecked : r.checked = true)
      (hrow : t.row = write s.row r.original r.record)
      (hrequests : t.requests = update s.requests i none) : Effect s (.store i) t
  | save {t : State} {j : Nat} {job : Job} (original : Record) (hj : s.jobs j = some job)
      (hphase : job.phase = .opened)
      (hrow : t.row = write s.row original (setAll (job.op.edits original) original))
      (hrequests : t.requests = s.requests) : Effect s (.save j) t
  | other {a : Action} {t : State} (hrow : t.row = s.row) (hrequests : t.requests = s.requests) : Effect s a t

section Steps

variable {s t : State} {a : Action}

theorem step_effect (h : step s a = some t) : Effect s a t := by
  cases a with
  | request i edits =>
    obtain ⟨_, ⟨rfl⟩⟩ := ite_none_right_eq_some.mp h
    exact .request i edits rfl rfl
  | check i =>
    obtain ⟨r, hr, h⟩ := bind_eq_some_iff.mp h
    obtain ⟨_, ⟨rfl⟩⟩ := ite_none_left_eq_some.mp h
    exact .check hr
  | store i =>
    obtain ⟨r, hr, h⟩ := bind_eq_some_iff.mp h
    obtain ⟨hchecked, ⟨rfl⟩⟩ := ite_none_right_eq_some.mp h
    exact .store hr hchecked rfl rfl
  | lock j op =>
    obtain ⟨_, ⟨rfl⟩⟩ := ite_none_right_eq_some.mp h
    exact .other rfl rfl
  | load j | bypass j | clear j | unlock j =>
    obtain ⟨job, hj, h⟩ := bind_eq_some_iff.mp h
    obtain ⟨_, ⟨rfl⟩⟩ := ite_none_right_eq_some.mp h
    exact .other rfl rfl
  | save j =>
    obtain ⟨job, hj, h⟩ := bind_eq_some_iff.mp h
    obtain ⟨original, -, h⟩ := bind_eq_some_iff.mp h
    obtain ⟨⟨hphase, _⟩, ⟨rfl⟩⟩ := ite_none_right_eq_some.mp h
    exact .save original hj hphase rfl rfl

theorem edits_ne_configSource (op : Operation) (original : Record) :
    ∀ e ∈ op.edits original, e.1 ≠ .configSource := by
  cases op with
  | migrate repository composePath composeFile wireopsFile =>
    cases wireopsFile with
    | none | some => simp [Operation.edits]
  | resync definition =>
    by_cases hsource : original .configSource = .text "wireops_file"
    · simp [Operation.edits, applyWireopsDefinition, hsource]
    · simp [Operation.edits, applyWireopsDefinition, hsource]
  | refresh deployTimeoutSeconds syncIntervalSeconds => simp [Operation.edits]

theorem setAll_of_ne {edits : List (Field × Value)} {f : Field} (h : ∀ e ∈ edits, e.1 ≠ f)
    (record : Record) : setAll edits record f = record f := by
  induction edits generalizing record with
  | nil => rfl
  | cons e edits ih =>
    obtain ⟨he, hrest⟩ := List.forall_mem_cons.mp h
    exact (ih hrest _).trans (Function.update_of_ne he.symm _ _)

/-- A request that the hook has let through sets nothing that the definition manages. -/
structure Inv (s : State) : Prop where
  managed : isFileManagedConfigSource (s.row .configSource) = true
  source : ∀ i, ∀ r ∈ s.requests i, isFileManagedConfigSource (r.original .configSource) = true
  checked : ∀ i, ∀ r ∈ s.requests i, r.checked = true → ∀ f ∈ wireopsManagedStackFields, r.record f = r.original f

theorem same_of_valid {original record : Record} (hsource : isFileManagedConfigSource (original .configSource) = true)
    (h : validateWireopsFieldsImmutable false original record = []) :
    ∀ f ∈ wireopsManagedStackFields, record f = original f := by
  intro f hf
  rw [validateWireopsFieldsImmutable, if_neg Bool.false_ne_true, hsource, if_neg (by decide)] at h
  by_contra hne
  exact absurd (List.mem_filter.mpr ⟨hf, decide_eq_true (Ne.symm hne)⟩) (h ▸ List.not_mem_nil)

theorem write_of_same {row original record : Record} {f : Field} (h : record f = original f) :
    write row original record f = row f :=
  if_pos h

theorem Inv.requests (hs : Inv s) (hmanaged : isFileManagedConfigSource (t.row .configSource) = true)
    (h : ∀ i, ∀ r ∈ t.requests i, s.requests i = some r ∨
      isFileManagedConfigSource (r.original .configSource) = true ∧
        (r.checked = true → ∀ f ∈ wireopsManagedStackFields, r.record f = r.original f)) : Inv t where
  managed := hmanaged
  source i r hr := (h i r hr).elim (hs.source i r) And.left
  checked i r hr := (h i r hr).elim (hs.checked i r) And.right

theorem Inv.check {i : Nat} {r : Request} (hs : Inv s) (hr : s.requests i = some r)
    (hg : Guarded s (.check i)) : Inv (stepRequest s i r) := by
  unfold stepRequest
  split
  · rename_i hvalid
    have hsame : ∀ f ∈ wireopsManagedStackFields, r.record f = r.original f := by
      cases hb : s.bypassed with
      | true => exact hg r hr hb
      | false =>
        rw [hb] at hvalid
        exact same_of_valid (hs.source i r hr) hvalid
    refine hs.requests hs.managed (fun i' r' hr' => ?_)
    obtain ⟨-, rfl⟩ | ⟨-, hr'⟩ := update_some_cases hr'
    · exact .inr ⟨hs.source i r hr, fun _ => hsame⟩
    · exact .inl hr'
  · exact hs.requests hs.managed (fun i' r' hr' => .inl (update_none_cases hr').2)

theorem mem_configSource : Field.configSource ∈ wireopsManagedStackFields := by decide

theorem inv_step (hs : Inv s) (hg : Guarded s a) (h : step s a = some t) : Inv t := by
  cases step_effect h with
  | request i edits hrow hrequests =>
    refine hs.requests (hrow ▸ hs.managed) (fun i' r' hr' => ?_)
    rw [hrequests] at hr'
    obtain ⟨-, rfl⟩ | ⟨-, hr'⟩ := update_some_cases hr'
    · exact .inr ⟨hs.managed, nofun⟩
    · exact .inl hr'
  | check hr => exact hs.check hr hg
  | @store _ i r hr hchecked hrow hrequests =>
    refine hs.requests ?_ (fun i' r' hr' => .inl (update_none_cases (hrequests ▸ hr')).2)
    rw [hrow, write_of_same (hs.checked i r hr hchecked _ mem_configSource)]
    exact hs.managed
  | @save _ j job original hj hphase hrow hrequests =>
    refine ⟨?_, hrequests ▸ hs.source, hrequests ▸ hs.checked⟩
    rw [hrow, write_of_same (setAll_of_ne (edits_ne_configSource job.op original) original)]
    exact hs.managed
  | other hrow hrequests =>
    exact ⟨hrow ▸ hs.managed, hrequests ▸ hs.source, hrequests ▸ hs.checked⟩

theorem kept_of_inv (hs : Inv s) : Kept s a := by
  intro t ht
  cases step_effect ht with
  | request i edits hrow hrequests =>
    left
    intro f _
    rw [hrow]
  | check hr =>
    left
    intro f _
    unfold stepRequest
    split
    · rfl
    · rfl
  | @store _ i r hr hchecked hrow hrequests =>
    left
    intro f hf
    rw [hrow, write_of_same (hs.checked i r hr hchecked f hf)]
  | save original hj hphase hrow hrequests => exact .inr ⟨_, hj, hphase⟩
  | other hrow hrequests =>
    left
    intro f _
    rw [hrow]

end Steps

def start (row : Record) : State := { row }

theorem inv_start {row : Record} (h : isFileManagedConfigSource (row .configSource) = true) : Inv (start row) where
  managed := h
  source _ _ hr := by cases hr
  checked _ _ hr := by cases hr

theorem managed_fields_kept {row : Record}
    (hrow : isFileManagedConfigSource (row .configSource) = true) {actions : List Action}
    (hg : Meets step Guarded (start row) actions) : Meets step Kept (start row) actions := by
  have himp : ∀ s a, Inv s → Guarded s a → Kept s a := fun _ _ hs _ => kept_of_inv hs
  have hkeep : ∀ s a t, Inv s → Guarded s a → step s a = some t → Inv t :=
    fun _ _ _ hs hg h => inv_step hs hg h
  exact meets_imp himp hkeep (inv_start hrow) hg

def fileManaged : Record := fun _ => .text "wireops_file"

def orderly : List Action :=
  [.request 0 [(.other "name", .text "blue")], .lock 0 (.migrate "new" "app" "compose.yml" none),
    .bypass 0, .check 0, .load 0, .save 0, .store 0, .clear 0, .unlock 0]

theorem orderly_kept : (run step (start fileManaged) orderly).isSome = true ∧
    Meets step Kept (start fileManaged) orderly :=
  ⟨by decide, managed_fields_kept (by decide) (by decide)⟩

/-- The hook of a request runs while the migration has its bypass open. -/
def intruded : List Action :=
  [.request 0 [(.workerTags, .texts ["gpu"])], .lock 0 (.migrate "new" "app" "compose.yml" none),
    .bypass 0, .check 0, .load 0, .save 0, .clear 0, .unlock 0, .store 0]

theorem intruded_not_kept : (run step (start fileManaged) intruded).isSome = true ∧
    ¬ Meets step Kept (start fileManaged) intruded := by
  decide

end Wireops.Sync.Bypass
