import Wireops.Lib.Steps
import Wireops.Lib.Strings
import Wireops.Lib.Table
import Wireops.Sync.Reconcile

namespace Wireops.Sync.Projects

open Option Function List Lib.Steps Lib.Strings Lib.Table
open Sync.Reconcile (maxRetries)

def keptInName (c : Char) : Bool :=
  ('a' ≤ c && c ≤ 'z') || ('0' ≤ c && c ≤ '9') || c = '_' || c = '-'

def sanitizeProjectName (name : String) : String :=
  let lower := (trimSpace name.toList).map toLower
  let written := lower.map (fun c => if keptInName c then c else '-')
  let sanitized := written.dropWhile (fun c => c = '-' || c = '_')
  if sanitized = [] then "stack" else String.ofList sanitized

theorem sanitizeProjectName_ne_empty (name : String) : sanitizeProjectName name ≠ "" := by
  unfold sanitizeProjectName
  dsimp only
  split
  · decide
  · next hne =>
    intro h
    have hlist := congrArg String.toList h
    rw [String.toList_ofList] at hlist
    exact hne hlist

/-- The columns of a stack's record that say where its containers are. `deployed` is
the project name that its deployed revision declares. -/
structure Row where
  worker : String
  name : String
  composeProjectName : String := ""
  deployed : Option String := none

def Row.projectName (row : Row) : String :=
  if row.composeProjectName = "" then sanitizeProjectName row.name else row.composeProjectName

def deployedProjectName (row : Row) : String :=
  if row.composeProjectName ≠ "" then row.composeProjectName
  else match row.deployed with
    | some previous => if previous ≠ "" then previous else row.projectName
    | none => row.projectName

def persistProjectIdentity (project : String) (row : Row) : Row :=
  { row with
    composeProjectName := if project = "" then row.composeProjectName else project
    deployed := some project }

structure Deployment where
  stack : String
  worker : String
  project : String
  deriving DecidableEq, Repr

/-- A deploy command on its way. With a previous name it migrates the project. -/
structure Command extends Deployment where
  previous : String := ""
  deriving DecidableEq, Repr

inductive Kind where
  | reconcile
  | reconcileLocal
  | rollback
  | forceRedeploy
  | transfer (target : String)
  deriving DecidableEq, Repr

def Kind.target : Kind → Option String
  | .transfer target => some target
  | _ => none

/-- `named` and `tornDown` are phases of a transfer. A sync is `ready` when it has
locked its projects, a transfer when it has probed its target. -/
inductive Phase where
  | loaded | named | checked | ready | deploying | deployed | failed | tornDown
  deriving DecidableEq

def Phase.late : Phase → Bool
  | .loaded | .named | .checked => false
  | _ => true

structure Op where
  kind : Kind
  row : Row
  phase : Phase := .loaded
  attempt : Nat := 1

namespace Op

def worker (op : Op) : String := op.kind.target.getD op.row.worker

variable (op : Op)

/-- The name that is checked, and the name that the command's compose file declares. -/
def checkName : String :=
  if op.kind.target.isSome then deployedProjectName op.row else op.row.projectName

def project : String :=
  if op.kind.target.isSome then op.row.deployed.getD "" else op.row.projectName

def previous : String :=
  if op.kind.target.isSome then ""
  else (op.row.deployed.filter (· ≠ op.row.projectName)).getD ""

def command (id : String) (op : Op) : Command :=
  { stack := id, worker := op.worker, project := op.project, previous := op.previous }

def locks : List (String × String) :=
  let names := (op.project :: [op.previous].filter (· ≠ "")).map (op.worker, ·)
  match op.kind, op.phase with
  | .reconcile, .ready | .reconcile, .deploying => names
  | .rollback, .ready | .rollback, .deploying | .rollback, .deployed | .rollback, .failed => names
  | .forceRedeploy, .ready | .forceRedeploy, .deploying | .forceRedeploy, .deployed
  | .forceRedeploy, .failed => names
  | _, _ => []

def fail : Op :=
  if op.kind = .reconcile ∧ op.attempt < maxRetries then
    { op with phase := .ready, attempt := op.attempt + 1 }
  else { op with phase := .failed }

def heading : Option (String × String) :=
  match op.phase with
  | .loaded | .named => none
  | _ => some (op.worker, op.checkName)

end Op

/-- `outstanding` are the deploy commands no worker has executed yet, `standing`
the deployments whose containers are there. `collisions` is history: the deploys
dispatched beside another stack's deployment. -/
structure State where
  ids : List String := []
  rows : String → Option Row := fun _ => none
  ops : String → Option Op := fun _ => none
  outstanding : List Command := []
  standing : List Deployment := []
  collisions : List (Deployment × Deployment) := []

inductive Action where
  | create (id worker name : String)
  | start (id : String) (kind : Kind)
  | persist (id : String) (ok : Bool)
  | check (id : String)
  | lock (id : String)
  | probe (id : String) (answered : Bool)
  | deploy (id : String) (sent : Bool)
  | work (cmd : Command) (up : Bool)
  | reply (id : String) (ok : Bool)
  | tearDown (id : String) (done : Bool)
  | save (id : String) (ok : Bool)
  | giveUp (id : String) (converged ok : Bool)
  | abort (id : String)
  deriving DecidableEq, Repr

variable (s : State) (id : String) (row : Row)

def State.noOther (p : Row → Bool) : Bool :=
  s.ids.all (fun other => other = id || (s.rows other).all (fun row => !p row))

def ensureProjectNameUnique (id worker project : String) : Bool :=
  s.noOther id (fun row => row.worker = worker && row.projectName = project)

/-- The unique index over worker and recorded name, where one is recorded. -/
def indexFree : Bool :=
  row.composeProjectName = "" ||
    s.noOther id (fun other => other.worker = row.worker && other.composeProjectName = row.composeProjectName)

def saves (ok : Bool) : Bool := ok && indexFree s id row

def State.unlocked (names : List (String × String)) : Bool :=
  s.ids.all (fun other => other = id || (s.ops other).all (fun op => names.all (· ∉ op.locks)))

def others (d : Deployment) : List Deployment :=
  (s.standing ++ s.outstanding.map (·.toDeployment)).filter
    (fun b => b.stack ≠ d.stack && b.worker = d.worker && b.project = d.project)

def State.setOp (op : Op) : State := { s with ops := update s.ops id (some op) }

def State.endOp : State := { s with ops := update s.ops id none }

def State.down (worker project : String) : State :=
  { s with standing := s.standing.filter (fun d => !(d.worker = worker && d.project = project)) }

def State.dispatch (cmd : Command) : State :=
  { s with
    outstanding := cmd :: s.outstanding
    collisions := (others s cmd.toDeployment).map (cmd.toDeployment, ·) ++ s.collisions }

/-- What `TransferStack` asks of the record before it goes on. -/
def admits (kind : Kind) : Bool :=
  match kind with
  | .transfer target =>
    row.worker ≠ "" && row.worker ≠ target &&
      (row.composeProjectName ≠ "" || deployedProjectName row = sanitizeProjectName row.name)
  | _ => true

def recordName : Row := { row with composeProjectName := deployedProjectName row }

def State.saveRow (ok : Bool) : State :=
  if saves s id row ok then { s.endOp id with rows := update s.rows id (some row) } else s.endOp id

def step : Action → Option State
  | .create id worker name =>
    if s.rows id = none then
      some { s with ids := id :: s.ids, rows := update s.rows id (some { worker, name }) }
    else none
  | .start id kind =>
    match s.ops id, s.rows id with
    | none, some row => if admits row kind then some (s.setOp id { kind, row }) else none
    | _, _ => none
  | .persist id ok => do
    let op ← s.ops id
    if op.kind.target.isSome ∧ op.phase = .loaded then
      if op.row.composeProjectName ≠ "" then some (s.setOp id { op with phase := .named })
      else
        let row := recordName op.row
        if saves s id row ok then
          some { s.setOp id { op with row, phase := .named } with rows := update s.rows id (some row) }
        else some (s.endOp id)
    else none
  | .check id => do
    let op ← s.ops id
    if op.phase = (if op.kind.target.isSome then .named else .loaded) then
      some (if ensureProjectNameUnique s id op.worker op.checkName then s.setOp id { op with phase := .checked }
        else s.endOp id)
    else none
  | .lock id => do
    let op ← s.ops id
    let locked : Op := { op with phase := .ready }
    if op.kind.target = none ∧ op.phase = .checked ∧ s.unlocked id locked.locks then
      some (s.setOp id locked)
    else none
  | .probe id answered => do
    let op ← s.ops id
    if op.kind.target.isSome ∧ op.phase = .checked ∧ op.row.deployed.isSome then
      let sameName := !s.noOther id (fun row => row.name = op.row.name && row.worker = op.worker)
      let found := answered && s.standing.any (fun d => d.worker = op.worker && d.project = op.project)
      some (if sameName || found then s.endOp id else s.setOp id { op with phase := .ready })
    else none
  | .deploy id sent => do
    let op ← s.ops id
    if op.phase = .ready then
      some (if sent then (s.setOp id { op with phase := .deploying }).dispatch (op.command id)
        else s.setOp id op.fail)
    else none
  | .work cmd up =>
    if cmd ∈ s.outstanding then
      let migrated := s.standing.filter (fun d => d ≠ { cmd.toDeployment with project := cmd.previous })
      some { s with
        outstanding := s.outstanding.erase cmd
        standing := if up then cmd.toDeployment :: migrated else s.standing }
    else none
  | .reply id ok => do
    let op ← s.ops id
    if op.phase = .deploying ∧ (ok → (op.command id).toDeployment ∈ s.standing) then
      some (s.setOp id (if ok then { op with phase := .deployed } else op.fail))
    else none
  | .tearDown id done => do
    let op ← s.ops id
    if op.kind.target.isSome then
      match op.phase with
      | .failed => some ((if done then s.down op.worker op.project else s).endOp id)
      | .deployed =>
        some ((if done then s.down op.row.worker op.project else s).setOp id { op with phase := .tornDown })
      | _ => none
    else none
  | .save id ok => do
    let op ← s.ops id
    match op.kind.target, op.phase with
    | none, .deployed => some (s.saveRow id (persistProjectIdentity op.project op.row) ok)
    | some target, .tornDown => some (s.saveRow id { op.row with worker := target } ok)
    | _, _ => none
  | .giveUp id converged ok => do
    let op ← s.ops id
    if op.kind.target = none ∧ op.phase = .failed then
      some (if converged ∧ op.kind = .reconcile then
          s.saveRow id (persistProjectIdentity op.project op.row) ok
        else s.endOp id)
    else none
  | .abort id => do
    let op ← s.ops id
    match op.phase with
    | .loaded | .named | .checked | .ready => some (s.endOp id)
    | _ => none

/-- No deploy was dispatched beside a deployment of another stack. -/
def Separate : Prop := s.collisions = []

/-- The deploy is, or may come, under the project on the worker. -/
def State.Holds (d : Deployment) : Prop := d ∈ s.standing ∨ ∃ c ∈ s.outstanding, c.toDeployment = d

def Deployment.place (d : Deployment) : String × String := (d.worker, d.project)

def Row.place : String × String := (row.worker, row.projectName)

/-- The deployed revision has the recorded name. -/
structure Row.Consistent (row : Row) : Prop where
  declared : row.deployed ≠ some ""
  recorded : row.composeProjectName ≠ "" → ∀ name ∈ row.deployed, name = row.composeProjectName

section Conditions

variable (s : State)

/-- The condition on a run. While an operation is under way that has made its check
for a worker and a project, no other makes its check for them; a transfer has torn
down what stands on the worker it leaves, or on the one it failed on, when no deploy
of the stack is left there to be executed; and the save that ends a transfer
succeeds. -/
def Careful : Action → Prop
  | .check id => ∀ op ∈ s.ops id, ∀ other ∈ s.ids, other ≠ id →
      ∀ op' ∈ s.ops other, op'.heading ≠ some (op.worker, op.checkName)
  | .tearDown id done => ∀ op ∈ s.ops id,
      let worker := if op.phase = .failed then op.worker else op.row.worker
      (done = true ∨ ∀ d ∈ s.standing, d.stack = id → d.place ≠ (worker, op.project)) ∧
        ∀ c ∈ s.outstanding, c.stack = id → c.place ≠ (worker, op.project)
  | .save id ok => ∀ op ∈ s.ops id, ∀ target ∈ op.kind.target, saves s id { op.row with worker := target } ok
  | _ => True

instance (s : State) (a : Action) : Decidable (Careful s a) := by
  unfold Careful
  split <;> infer_instance

/-- A state in which no operation is under way, and every deployment is where its
stack's record says. -/
structure Settled : Prop where
  idle : ∀ id, s.ops id = none
  listed : ∀ id row, s.rows id = some row → id ∈ s.ids
  consistent : ∀ id row, s.rows id = some row → row.Consistent
  recorded : ∀ d, s.Holds d → ∃ row, s.rows d.stack = some row ∧ row.place = d.place
  separate : Separate s

end Conditions

theorem settled_empty : Settled {} where
  idle _ := rfl
  listed _ _ h := by cases h
  consistent _ _ h := by cases h
  recorded _ h := by
    obtain h | ⟨_, h, _⟩ := h
    · cases h
    · cases h
  separate := rfl

section Operations

variable {op : Op}

def Op.claims (op : Op) : Bool :=
  op.kind.target.isSome &&
    match op.phase with
    | .deploying | .deployed | .failed | .tornDown => true
    | _ => false

/-- What an operation has made sure of by its phase. -/
structure Op.Shaped (op : Op) : Prop where
  moves : ∀ target ∈ op.kind.target, op.row.worker ≠ target
  agreed : op.kind.target.isSome → op.row.composeProjectName = "" →
    deployedProjectName op.row = sanitizeProjectName op.row.name
  named : op.kind.target.isSome → op.phase ≠ .loaded → op.row.composeProjectName ≠ ""
  revision : op.kind.target.isSome → op.phase.late → op.row.deployed.isSome

theorem checkName_eq (hshaped : op.Shaped) (h : op.phase ≠ .loaded) : op.checkName = op.row.projectName := by
  unfold Op.checkName
  split
  · next ht =>
    have hne := hshaped.named ht h
    rw [deployedProjectName, if_pos hne, Row.projectName, if_neg hne]
  · rfl

theorem ne_loaded_of_late (h : op.phase.late = true) : op.phase ≠ .loaded := by
  intro hl
  rw [hl] at h
  cases h

theorem project_eq (hshaped : op.Shaped) (hrow : op.row.Consistent) (h : op.phase.late = true) :
    op.project = op.row.projectName := by
  unfold Op.project
  split
  · next ht =>
    have hne := hshaped.named ht (ne_loaded_of_late h)
    obtain ⟨name, hname⟩ := isSome_iff_exists.mp (hshaped.revision ht h)
    rw [hname, getD_some, Row.projectName, if_neg hne]
    exact hrow.recorded hne name hname
  · rfl

theorem heading_of_late (hshaped : op.Shaped) (h : op.phase.late = true) :
    op.heading = some (op.worker, op.row.projectName) := by
  rw [← checkName_eq hshaped (ne_loaded_of_late h)]
  unfold Op.heading
  generalize op.phase = phase at h
  cases phase <;> first | rfl | cases h

theorem command_place (id : String) (hshaped : op.Shaped) (hrow : op.row.Consistent)
    (h : op.phase.late = true) : some (op.command id).place = op.heading := by
  rw [heading_of_late hshaped h, ← project_eq hshaped hrow h]
  rfl

theorem projectName_ne_empty (row : Row) : row.projectName ≠ "" := by
  unfold Row.projectName
  split
  · exact sanitizeProjectName_ne_empty row.name
  · next hne => exact hne

theorem worker_ne_of_transfer (hshaped : op.Shaped) (ht : op.kind.target.isSome = true) :
    op.worker ≠ op.row.worker := by
  obtain ⟨target, htarget⟩ := isSome_iff_exists.mp ht
  rw [Op.worker, htarget]
  exact (hshaped.moves target htarget).symm

theorem claims_of_sync (h : op.kind.target = none) : op.claims = false := by
  rw [Op.claims, h]
  rfl

theorem claims_of_early (h : op.phase.late = false) : op.claims = false := by
  unfold Op.claims
  generalize op.phase = phase at h
  cases phase <;> first | exact Bool.and_false _ | cases h

theorem not_claims {P : Prop} (h : op.claims = false) (hc : op.claims = true) : P :=
  absurd (h.symm.trans hc) Bool.false_ne_true

variable {phase : Phase} {attempt : Nat}

theorem Op.Shaped.goTo (h : op.Shaped) (hnamed : op.kind.target.isSome → op.row.composeProjectName ≠ "")
    (hrevision : phase.late = true → op.kind.target.isSome → op.row.deployed.isSome) :
    Op.Shaped { op with phase, attempt } where
  __ := h
  named ht _ := hnamed ht
  revision ht hl := hrevision hl ht

theorem Op.Shaped.goOn (h : op.Shaped) (hl : op.phase.late = true) : Op.Shaped { op with phase, attempt } :=
  h.goTo (fun ht => h.named ht (ne_loaded_of_late hl)) (fun _ ht => h.revision ht hl)

theorem heading_goOn (hshaped : op.Shaped) (hl : op.phase.late = true)
    (hl' : phase.late = true) : Op.heading { op with phase, attempt } = op.heading :=
  (heading_of_late (hshaped.goOn hl) hl').trans (heading_of_late hshaped hl).symm

theorem claims_of_sent (ht : op.kind.target.isSome = true) (hl : op.phase.late = true) (hne : op.phase ≠ .ready) :
    op.claims = true := by
  refine Bool.and_eq_true_iff.mpr ⟨ht, ?_⟩
  generalize op.phase = phase at hl hne
  cases phase <;> first | rfl | exact absurd rfl hne | cases hl

theorem fail_cases (op : Op) : (op.kind = .reconcile ∧ ∃ attempt, op.fail = { op with phase := .ready, attempt }) ∨
    op.fail = { op with phase := .failed } := by
  unfold Op.fail
  split
  · next hretry => exact .inl ⟨hretry.1, _, rfl⟩
  · exact .inr rfl

theorem recordName_consistent (hrow : op.row.Consistent) (hempty : op.row.composeProjectName = "") :
    (recordName op.row).Consistent := by
  refine ⟨hrow.declared, fun _ name hname => ?_⟩
  have hne : name ≠ "" := by
    rintro rfl
    exact hrow.declared hname
  have hdeployed : op.row.deployed = some name := hname
  show name = deployedProjectName op.row
  simp [deployedProjectName, hempty, hdeployed, hne]

theorem recordName_place (hshaped : op.Shaped) (ht : op.kind.target.isSome)
    (hempty : op.row.composeProjectName = "") : (recordName op.row).place = op.row.place := by
  have hname := hshaped.agreed ht hempty
  have hne : (recordName op.row).composeProjectName ≠ "" := by
    show deployedProjectName op.row ≠ ""
    rw [hname]
    exact sanitizeProjectName_ne_empty _
  refine Prod.ext rfl ?_
  show (recordName op.row).projectName = op.row.projectName
  rw [Row.projectName, if_neg hne, Row.projectName, if_pos hempty]
  exact hname

theorem persistProjectIdentity_spec {row : Row} {project : String} (h : project = row.projectName) :
    (persistProjectIdentity project row).Consistent ∧ (persistProjectIdentity project row).place = row.place := by
  have hne : project ≠ "" := h ▸ projectName_ne_empty row
  have hrecorded : (persistProjectIdentity project row).composeProjectName = project := if_neg hne
  constructor
  · refine ⟨fun hd => hne (Option.some.inj hd), fun _ name hname => ?_⟩
    rw [hrecorded]
    exact (Option.some.inj hname).symm
  · refine Prod.ext rfl ?_
    show (persistProjectIdentity project row).projectName = row.projectName
    rw [Row.projectName, hrecorded, if_neg hne, h]

end Operations

section Invariant

variable {s t : State} {id : String} {op : Op}

/-- Every deployment is where its stack's record says, or where a transfer has
taken it; two operations never head for the same project; and what is under the
project of an operation is its own. -/
structure Inv (s : State) : Prop where
  listed : ∀ id row, s.rows id = some row → id ∈ s.ids
  consistent : ∀ id row, s.rows id = some row → row.Consistent
  current : ∀ id op, s.ops id = some op → s.rows id = some op.row
  shaped : ∀ id op, s.ops id = some op → op.Shaped
  apart : ∀ id id' op op' place, s.ops id = some op → s.ops id' = some op' →
    op.heading = some place → op'.heading = some place → id = id'
  covered : ∀ d, s.Holds d → (∃ row, s.rows d.stack = some row ∧ row.place = d.place) ∨
    ∃ op, s.ops d.stack = some op ∧ op.claims = true ∧ op.heading = some d.place
  alone : ∀ id op d, s.ops id = some op → s.Holds d → op.heading = some d.place → d.stack = id
  gone : ∀ id op d, s.ops id = some op → op.phase = .tornDown → s.Holds d → d.stack = id → d.worker ≠ op.row.worker
  separate : Separate s

theorem Settled.elim {P : Prop} (h : Settled s) (hop : s.ops id = some op) : P := by
  rw [h.idle] at hop
  cases hop

theorem Settled.inv (h : Settled s) : Inv s where
  __ := h
  current _ _ := h.elim
  shaped _ _ := h.elim
  apart _ _ _ _ _ := h.elim
  covered d hd := .inl (h.recorded d hd)
  alone _ _ _ := h.elim
  gone _ _ _ := h.elim

structure Free (s : State) (id : String) (place : String × String) : Prop where
  unheaded : ∀ other op, s.ops other = some op → op.heading = some place → other = id
  empty : ∀ d, s.Holds d → d.place = place → d.stack = id

theorem Inv.free (h : Inv s) (hop : s.ops id = some op) {place : String × String}
    (hheading : op.heading = some place) : Free s id place :=
  ⟨fun other _ hop' hheading' => h.apart other id _ _ place hop' hop hheading' hheading,
    fun d hd hplace => h.alone id op d hop hd (hplace ▸ hheading)⟩

/-- What the operation of a stack may be followed by. -/
structure Follows (s : State) (id : String) (row : Row) (op : Op) : Prop where
  current : op.row = row
  shaped : op.Shaped
  free : ∀ place, op.heading = some place → Free s id place
  gone : op.phase = .tornDown → ∀ d, s.Holds d → d.stack = id → d.worker ≠ row.worker

theorem Inv.move (h : Inv s) (hid : id ∈ s.ids) {row : Row} {next : Option Op} (hrow : row.Consistent)
    (hnext : ∀ op ∈ next, Follows s id row op) (hcovered : ∀ d, s.Holds d → d.stack = id →
      row.place = d.place ∨ ∃ op ∈ next, op.claims = true ∧ op.heading = some d.place) :
    Inv { s with rows := update s.rows id (some row), ops := update s.ops id next } where
  listed := forall_update_some h.listed hid
  consistent := forall_update_some h.consistent hrow
  current other op' hop' := by
    obtain ⟨rfl, hnew⟩ | ⟨hne, hop'⟩ := update_cases hop'
    · rw [(hnext _ hnew).current]
      exact update_self ..
    · exact (update_of_ne hne ..).trans (h.current _ _ hop')
  shaped := forall_update h.shaped (fun op hop => (hnext op hop).shaped)
  apart id₁ id₂ op₁ op₂ place hop₁ hop₂ hheading₁ hheading₂ := by
    obtain ⟨rfl, hnew₁⟩ | ⟨-, hold₁⟩ := update_cases hop₁
    · obtain ⟨rfl, -⟩ | ⟨-, hold₂⟩ := update_cases hop₂
      · rfl
      · exact (((hnext _ hnew₁).free place hheading₁).unheaded _ _ hold₂ hheading₂).symm
    · obtain ⟨rfl, hnew₂⟩ | ⟨-, hold₂⟩ := update_cases hop₂
      · exact ((hnext _ hnew₂).free place hheading₂).unheaded _ _ hold₁ hheading₁
      · exact h.apart _ _ _ _ place hold₁ hold₂ hheading₁ hheading₂
  covered d hd := by
    by_cases hid : d.stack = id
    · subst hid
      obtain hplace | ⟨op', hop', hclaims⟩ := hcovered d hd rfl
      · exact .inl ⟨row, update_self .., hplace⟩
      · exact .inr ⟨op', (update_self ..).trans hop', hclaims⟩
    · obtain ⟨row', hrow', hplace⟩ | ⟨op', hop', hclaims⟩ := h.covered d hd
      · exact .inl ⟨row', (update_of_ne hid ..).trans hrow', hplace⟩
      · exact .inr ⟨op', (update_of_ne hid ..).trans hop', hclaims⟩
  alone other op' d hop' hd hheading := by
    obtain ⟨rfl, hnew⟩ | ⟨-, hop'⟩ := update_cases hop'
    · exact ((hnext _ hnew).free _ hheading).empty d hd rfl
    · exact h.alone _ _ d hop' hd hheading
  gone other op' d hop' htorn hd hstack := by
    obtain ⟨rfl, hnew⟩ | ⟨-, hop'⟩ := update_cases hop'
    · rw [(hnext _ hnew).current]
      exact (hnext _ hnew).gone htorn d hd hstack
    · exact h.gone _ _ d hop' htorn hd hstack
  separate := h.separate

theorem Inv.replace (h : Inv s) {row : Row} {next : Option Op} (hrow : s.rows id = some row)
    (hnext : ∀ op ∈ next, Follows s id row op) (hcovered : ∀ d, s.Holds d → d.stack = id →
      row.place = d.place ∨ ∃ op ∈ next, op.claims = true ∧ op.heading = some d.place) :
    Inv { s with ops := update s.ops id next } := by
  have hmove := h.move (h.listed _ _ hrow) (h.consistent _ _ hrow) hnext hcovered
  rwa [← hrow, update_eq_self] at hmove

variable {d : Deployment}

section

variable (h : Inv s) (hop : s.ops id = some op)

include h hop

theorem Inv.covered_by (hd : s.Holds d)
    (hstack : d.stack = id) : op.row.place = d.place ∨ (op.claims = true ∧ op.heading = some d.place) := by
  subst hstack
  obtain ⟨row, hrow, hplace⟩ | ⟨op', hop', hclaims⟩ := h.covered d hd
  · cases (h.current _ _ hop).symm.trans hrow
    exact .inl hplace
  · cases hop.symm.trans hop'
    exact .inr hclaims

theorem Inv.setOp {op' : Op} (hrow : op'.row = op.row)
    (hshaped : op'.Shaped) (hfree : ∀ place, op'.heading = some place → Free s id place)
    (hclaims : op.claims = true → op'.claims = true ∧ op'.heading = op.heading)
    (hgone : op'.phase = .tornDown → ∀ d, s.Holds d → d.stack = id → d.worker ≠ op.row.worker := by rintro ⟨⟩) :
    Inv (s.setOp id op') := by
  refine h.replace (h.current _ _ hop) ?_ (fun d hd hstack => ?_)
  · rintro _ ⟨⟩
    exact ⟨hrow, hshaped, hfree, hgone⟩
  · refine (h.covered_by hop hd hstack).imp_right (fun ⟨hc, hheading⟩ => ⟨op', rfl, ?_⟩)
    obtain ⟨hc', heq⟩ := hclaims hc
    exact ⟨hc', heq.trans hheading⟩

theorem Inv.endOp (hclaims : op.claims = true → ∀ d, s.Holds d → d.stack = id → op.heading ≠ some d.place) :
    Inv (s.endOp id) := by
  refine h.replace (h.current _ _ hop) (by rintro _ ⟨⟩) (fun d hd hstack => ?_)
  exact .inl ((h.covered_by hop hd hstack).resolve_right (fun hc => hclaims hc.1 d hd hstack hc.2))

theorem Inv.endUnclaimed (hclaims : op.claims = false) : Inv (s.endOp id) :=
  h.endOp hop (not_claims hclaims)

theorem Inv.saveRow {row : Row} (ok : Bool) (hrow : row.Consistent)
    (hsaved : saves s id row ok = true → ∀ d, s.Holds d → d.stack = id → row.place = d.place)
    (hunsaved : saves s id row ok = false → op.claims = false) : Inv (s.saveRow id row ok) := by
  unfold State.saveRow
  split
  · next hok =>
    exact h.move (h.listed _ _ (h.current _ _ hop)) hrow (by rintro _ ⟨⟩)
      (fun d hd hstack => .inl (hsaved hok d hd hstack))
  · next hok => exact h.endUnclaimed hop (hunsaved (eq_false_of_ne_true hok))

end

theorem Inv.shrink (h : Inv s) {outstanding : List Command} {standing : List Deployment}
    (hholds : ∀ d, State.Holds { s with outstanding, standing } d → s.Holds d) :
    Inv { s with outstanding, standing } where
  __ := h
  covered d hd := h.covered d (hholds d hd)
  alone id op d hop hd := h.alone id op d hop (hholds d hd)
  gone id op d hop htorn hd := h.gone id op d hop htorn (hholds d hd)

variable {worker : String} {cmd : Command} {ok : Bool}

theorem holds_down {project : String} : (s.down worker project).Holds d ↔
      (d ∈ s.standing ∧ d.place ≠ (worker, project)) ∨ ∃ c ∈ s.outstanding, c.toDeployment = d := by
  simp [State.Holds, State.down, Deployment.place, imp_iff_not_or]

theorem Inv.down (h : Inv s) (worker project : String) : Inv (s.down worker project) :=
  h.shrink (fun _ hd => (holds_down.mp hd).imp_left And.left)

theorem holds_dispatch : (s.dispatch cmd).Holds d ↔ d = cmd.toDeployment ∨ s.Holds d := by
  constructor
  · rintro (hd | ⟨c, hc, rfl⟩)
    · exact .inr (.inl hd)
    · obtain rfl | hc := mem_cons.mp hc
      · exact .inl rfl
      · exact .inr (.inr ⟨c, hc, rfl⟩)
  · rintro (rfl | hd | ⟨c, hc, hd⟩)
    · exact .inr ⟨cmd, mem_cons_self, rfl⟩
    · exact .inl hd
    · exact .inr ⟨c, mem_cons_of_mem _ hc, hd⟩

theorem mem_others {b d : Deployment} : b ∈ others s d ↔ s.Holds b ∧ b.stack ≠ d.stack ∧ b.place = d.place := by
  simp [others, State.Holds, Deployment.place, and_assoc, or_and_right]

theorem Inv.dispatch (h : Inv s) (hop : s.ops id = some op) (hstack : cmd.stack = id)
    (hheading : op.heading = some cmd.place) (htorn : op.phase ≠ .tornDown)
    (hcovered : op.row.place = cmd.place ∨ op.claims = true) : Inv (s.dispatch cmd) where
  __ := h
  covered d hd := by
    obtain rfl | hd := holds_dispatch.mp hd
    · rw [hstack]
      exact hcovered.imp (fun hplace => ⟨op.row, h.current _ _ hop, hplace⟩)
        (fun hclaims => ⟨op, hop, hclaims, hheading⟩)
    · exact h.covered d hd
  alone other op' d hop' hd hheading' := by
    obtain rfl | hd := holds_dispatch.mp hd
    · exact hstack.trans (h.apart _ _ _ _ _ hop hop' hheading hheading')
    · exact h.alone _ _ d hop' hd hheading'
  gone other op' d hop' htorn' hd hstack' := by
    obtain rfl | hd := holds_dispatch.mp hd
    · rw [← hstack', hstack] at hop'
      cases hop.symm.trans hop'
      exact absurd htorn' htorn
    · exact h.gone _ _ d hop' htorn' hd hstack'
  separate := by
    have hnone : others s cmd.toDeployment = [] := by
      refine eq_nil_iff_forall_not_mem.mpr (fun b hb => ?_)
      obtain ⟨hb, hne, hplace⟩ := mem_others.mp hb
      exact hne ((h.alone _ _ b hop hb (hplace ▸ hheading)).trans hstack.symm)
    unfold Separate State.dispatch
    rw [hnone]
    exact h.separate

theorem Inv.create (h : Inv s) {name : String} (hnone : s.rows id = none) :
    Inv { s with ids := id :: s.ids, rows := update s.rows id (some { worker, name }) } where
  __ := h
  listed := forall_update_some (fun other row hrow => mem_cons_of_mem _ (h.listed other row hrow)) mem_cons_self
  consistent := forall_update_some h.consistent ⟨by rintro ⟨⟩, fun _ _ hd => by cases hd⟩
  current other op hop := update_kept hnone (h.current other op hop)
  covered d hd := (h.covered d hd).imp_left (fun ⟨row, hrow, hplace⟩ => ⟨row, update_kept hnone hrow, hplace⟩)

theorem shaped_start {kind : Kind} {row : Row} (hadmits : admits row kind = true) : Op.Shaped { kind, row } where
  moves target htarget := by
    cases kind with
    | transfer =>
      cases htarget
      simp only [admits, Bool.and_eq_true, decide_eq_true_eq] at hadmits
      exact hadmits.1.2
    | _ => cases htarget
  agreed hsome hempty := by
    cases kind with
    | transfer =>
      simp only [admits, Bool.and_eq_true, Bool.or_eq_true, decide_eq_true_eq] at hadmits
      exact hadmits.2.resolve_left (fun hne => hne hempty)
    | _ => cases hsome
  named _ h := absurd rfl h
  revision _ h := by cases h

theorem Inv.start (h : Inv s) {kind : Kind} {row : Row} (hidle : s.ops id = none) (hrow : s.rows id = some row)
    (hadmits : admits row kind = true) : Inv (s.setOp id { kind, row }) := by
  refine h.replace hrow ?_ (fun d hd hstack => ?_)
  · rintro _ ⟨⟩
    exact ⟨rfl, shaped_start hadmits, by rintro _ ⟨⟩, by rintro ⟨⟩⟩
  · subst hstack
    obtain ⟨row', hrow', hplace⟩ | ⟨op, hop, -⟩ := h.covered d hd
    · cases hrow.symm.trans hrow'
      exact .inl hplace
    · cases hidle.symm.trans hop

theorem Inv.advance (h : Inv s) (hop : s.ops id = some op) {op' : Op} (hrow : op'.row = op.row)
    (hshaped : op'.Shaped) (hheading : op'.heading = op.heading) (hclaims : op.claims = true → op'.claims = true)
    (hgone : op'.phase = .tornDown → ∀ d, s.Holds d → d.stack = id → d.worker ≠ op.row.worker := by rintro ⟨⟩) :
    Inv (s.setOp id op') :=
  h.setOp hop hrow hshaped (fun _ hplace => h.free hop (hheading ▸ hplace)) (fun hc => ⟨hclaims hc, hheading⟩) hgone

theorem Inv.persist (h : Inv s) (hstep : step s (.persist id ok) = some t) : Inv t := by
  obtain ⟨op, hop, hstep⟩ := bind_eq_some_iff.mp hstep
  obtain ⟨⟨ht, hphase⟩, hstep⟩ := ite_none_right_eq_some.mp hstep
  have hshaped := h.shaped _ _ hop
  have hrow := h.consistent _ _ (h.current _ _ hop)
  have hclaims : op.claims = false := claims_of_early (by rw [hphase]; rfl)
  split at hstep
  · next hne =>
    cases hstep
    exact h.setOp hop rfl (hshaped.goTo (fun _ => hne) (by rintro ⟨⟩)) (by rintro _ ⟨⟩) (not_claims hclaims)
  · next hempty =>
    rw [not_not] at hempty
    have hplace := recordName_place hshaped ht hempty
    dsimp only at hstep
    split at hstep
    · cases hstep
      refine h.move (h.listed _ _ (h.current _ _ hop)) (recordName_consistent hrow hempty) ?_ (fun d hd hstack => ?_)
      · rintro _ ⟨⟩
        have hne : (recordName op.row).composeProjectName ≠ "" := by
          show deployedProjectName op.row ≠ ""
          rw [hshaped.agreed ht hempty]
          exact sanitizeProjectName_ne_empty _
        exact ⟨rfl, ⟨hshaped.moves, fun _ he => absurd he hne, fun _ _ => hne, by rintro _ ⟨⟩⟩,
          by rintro _ ⟨⟩, by rintro ⟨⟩⟩
      · exact .inl (hplace.trans ((h.covered_by hop hd hstack).resolve_right (fun hc => not_claims hclaims hc.1)))
    · cases hstep
      exact h.endUnclaimed hop hclaims

theorem free_of_check (h : Inv s) (hop : s.ops id = some op) (hcareful : Careful s (.check id))
    (hunique : ensureProjectNameUnique s id op.worker op.checkName = true) : Free s id (op.worker, op.checkName) := by
  have hunheaded : ∀ other op', s.ops other = some op' → op'.heading = some (op.worker, op.checkName) →
      other = id := by
    intro other op' hop' hheading
    by_contra hne
    exact hcareful op hop other (h.listed _ _ (h.current _ _ hop')) hne op' hop' hheading
  refine ⟨hunheaded, fun d hd hplace => ?_⟩
  obtain ⟨row, hrow, hrowplace⟩ | ⟨op', hop', -, hheading⟩ := h.covered d hd
  · by_contra hne
    have hall := all_eq_true.mp hunique d.stack (h.listed _ _ hrow)
    obtain ⟨hworker, hname⟩ := Prod.mk.inj (hrowplace.trans hplace)
    simp [hne, hrow, hworker, hname] at hall
  · exact hunheaded _ _ hop' (hplace ▸ hheading)

theorem Inv.check (h : Inv s) (hcareful : Careful s (.check id)) (hstep : step s (.check id) = some t) : Inv t := by
  obtain ⟨op, hop, hstep⟩ := bind_eq_some_iff.mp hstep
  obtain ⟨hphase, hstep⟩ := ite_none_right_eq_some.mp hstep
  cases hstep
  have hshaped := h.shaped _ _ hop
  have hclaims : op.claims = false := by
    refine claims_of_early ?_
    rw [hphase]
    split <;> rfl
  split
  · next hunique =>
    refine h.setOp hop rfl (hshaped.goTo (fun ht => ?_) (by rintro ⟨⟩)) (fun place hplace => ?_) (not_claims hclaims)
    · refine hshaped.named ht ?_
      rw [hphase, if_pos ht]
      decide
    · have hfree := free_of_check h hop hcareful hunique
      cases hplace
      exact hfree
  · exact h.endUnclaimed hop hclaims

theorem heading_of_checked (h : op.phase = .checked) : op.heading = some (op.worker, op.checkName) := by
  rw [Op.heading, h]

section

variable (h : Inv s)

include h

theorem Inv.lock (hstep : step s (.lock id) = some t) : Inv t := by
  obtain ⟨op, hop, hstep⟩ := bind_eq_some_iff.mp hstep
  obtain ⟨⟨ht, hphase, -⟩, hstep⟩ := ite_none_right_eq_some.mp hstep
  cases hstep
  have hnot (hsome : op.kind.target.isSome = true) : False := by
    rw [ht] at hsome
    cases hsome
  exact h.advance hop rfl ((h.shaped _ _ hop).goTo (fun hs => (hnot hs).elim) (fun _ hs => (hnot hs).elim))
    (heading_of_checked hphase).symm (not_claims (claims_of_sync ht))

theorem Inv.probe {answered : Bool} (hstep : step s (.probe id answered) = some t) : Inv t := by
  obtain ⟨op, hop, hstep⟩ := bind_eq_some_iff.mp hstep
  obtain ⟨⟨ht, hphase, hrevision⟩, hstep⟩ := ite_none_right_eq_some.mp hstep
  cases hstep
  have hshaped := h.shaped _ _ hop
  have hclaims : op.claims = false := claims_of_early (by rw [hphase]; rfl)
  split
  · exact h.endUnclaimed hop hclaims
  · refine h.advance hop rfl (hshaped.goTo (fun hs => hshaped.named hs ?_) (fun _ _ => hrevision))
      (heading_of_checked hphase).symm (not_claims hclaims)
    rw [hphase]
    decide

theorem Inv.goOn (hop : s.ops id = some op) {phase : Phase} {attempt : Nat} (hl : op.phase.late = true)
    (hl' : phase.late = true) (hsent : op.kind.target.isSome = true → phase ≠ .ready)
    (hgone : phase = .tornDown → ∀ d, s.Holds d → d.stack = id → d.worker ≠ op.row.worker := by rintro ⟨⟩) :
    Inv (s.setOp id { op with phase, attempt }) := by
  have hshaped := h.shaped _ _ hop
  refine h.advance hop rfl (hshaped.goOn hl) (heading_goOn hshaped hl hl') (fun hc => ?_) hgone
  have ht := (Bool.and_eq_true_iff.mp hc).1
  exact claims_of_sent ht hl' (hsent ht)

theorem Inv.fail (hop : s.ops id = some op) (hl : op.phase.late = true) : Inv (s.setOp id op.fail) := by
  obtain ⟨hkind, attempt, hfail⟩ | hfail := fail_cases op
  · rw [hfail]
    refine h.goOn hop hl rfl (fun ht => ?_)
    rw [hkind] at ht
    cases ht
  · rw [hfail]
    exact h.goOn hop hl rfl (fun _ => by decide)

theorem Inv.deploy {sent : Bool} (hstep : step s (.deploy id sent) = some t) : Inv t := by
  obtain ⟨op, hop, hstep⟩ := bind_eq_some_iff.mp hstep
  obtain ⟨hphase, hstep⟩ := ite_none_right_eq_some.mp hstep
  cases hstep
  have hl : op.phase.late = true := by rw [hphase]; rfl
  have hshaped := h.shaped _ _ hop
  split
  · have hcommand := command_place id hshaped (h.consistent _ _ (h.current _ _ hop)) hl
    have hset : Inv (s.setOp id { op with phase := .deploying }) :=
      h.goOn hop hl rfl (fun _ => by decide)
    refine hset.dispatch (update_self ..) rfl ((heading_goOn hshaped hl rfl).trans hcommand.symm) (by rintro ⟨⟩) ?_
    cases htarget : op.kind.target with
    | none =>
      rw [heading_of_late hshaped hl, Op.worker, htarget] at hcommand
      exact .inl (Option.some.inj hcommand).symm
    | some target =>
      have ht : op.kind.target.isSome = true := by rw [htarget]; rfl
      exact .inr (claims_of_sent ht rfl (by rintro ⟨⟩))
  · exact h.fail hop hl

theorem Inv.reply (hstep : step s (.reply id ok) = some t) : Inv t := by
  obtain ⟨op, hop, hstep⟩ := bind_eq_some_iff.mp hstep
  obtain ⟨⟨hphase, -⟩, hstep⟩ := ite_none_right_eq_some.mp hstep
  cases hstep
  have hl : op.phase.late = true := by rw [hphase]; rfl
  split
  · exact h.goOn hop hl rfl (fun _ => by decide)
  · exact h.fail hop hl

theorem Inv.work {up : Bool} (hstep : step s (.work cmd up) = some t) : Inv t := by
  obtain ⟨hmem, hstep⟩ := ite_none_right_eq_some.mp hstep
  cases hstep
  refine h.shrink (fun d hd => ?_)
  obtain hd | ⟨c, hc, hd⟩ := hd
  · dsimp only at hd
    split at hd
    · obtain rfl | hd := mem_cons.mp hd
      · exact .inr ⟨cmd, hmem, rfl⟩
      · exact .inl (mem_filter.mp hd).1
    · exact .inl hd
  · exact .inr ⟨c, mem_of_mem_erase hc, hd⟩

end

theorem left_elsewhere {done : Bool}
    (hdone : done = true ∨ ∀ d ∈ s.standing, d.stack = id → d.place ≠ (worker, op.project))
    (houtstanding : ∀ c ∈ s.outstanding, c.stack = id → c.place ≠ (worker, op.project))
    (hd : (if done then s.down worker op.project else s).Holds d) (hstack : d.stack = id) :
    d.place ≠ (worker, op.project) := by
  have hcommand : (∃ c ∈ s.outstanding, c.toDeployment = d) → d.place ≠ (worker, op.project) := by
    rintro ⟨c, hc, rfl⟩
    exact houtstanding c hc hstack
  cases done with
  | true =>
    obtain ⟨-, hne⟩ | hc := holds_down.mp hd
    · exact hne
    · exact hcommand hc
  | false =>
    obtain hd | hc := hd
    · exact hdone.resolve_left (by decide) d hd hstack
    · exact hcommand hc

theorem Inv.tearDown (h : Inv s) {done : Bool} (hcareful : Careful s (.tearDown id done))
    (hstep : step s (.tearDown id done) = some t) : Inv t := by
  obtain ⟨op, hop, hstep⟩ := bind_eq_some_iff.mp hstep
  obtain ⟨ht, hstep⟩ := ite_none_right_eq_some.mp hstep
  obtain ⟨hdone, houtstanding⟩ := hcareful op hop
  have hshaped := h.shaped _ _ hop
  have hrow := h.consistent _ _ (h.current _ _ hop)
  have hdown (worker : String) : Inv (if done then s.down worker op.project else s) := by
    split
    · exact h.down _ _
    · exact h
  have hops (worker : String) : (if done then s.down worker op.project else s).ops id = some op := by
    split <;> exact hop
  cases hphase : op.phase with
  | failed =>
    rw [hphase] at hstep hdone houtstanding
    cases hstep
    have hl : op.phase.late = true := by rw [hphase]; rfl
    refine (hdown op.worker).endOp (hops op.worker) (fun _ d hd hstack hheading => ?_)
    rw [heading_of_late hshaped hl, ← project_eq hshaped hrow hl] at hheading
    exact left_elsewhere hdone houtstanding hd hstack (Option.some.inj hheading).symm
  | deployed =>
    rw [hphase] at hstep hdone houtstanding
    cases hstep
    have hl : op.phase.late = true := by rw [hphase]; rfl
    have hinv := hdown op.row.worker
    refine hinv.goOn (hops op.row.worker) hl rfl (fun _ => by decide) (fun _ d hd hstack => ?_)
    obtain hplace | ⟨-, hheading⟩ := hinv.covered_by (hops op.row.worker) hd hstack
    · rw [Row.place, ← project_eq hshaped hrow hl] at hplace
      exact absurd hplace.symm (left_elsewhere hdone houtstanding hd hstack)
    · rw [heading_of_late hshaped hl] at hheading
      have hworker : op.worker = d.worker := congrArg Prod.fst (Option.some.inj hheading)
      exact hworker ▸ worker_ne_of_transfer hshaped ht
  | _ =>
    rw [hphase] at hstep
    cases hstep

theorem Inv.record (h : Inv s) (hop : s.ops id = some op) (ht : op.kind.target = none) (ok : Bool) :
    Inv (s.saveRow id (persistProjectIdentity op.project op.row) ok) := by
  have hproject : op.project = op.row.projectName := by
    rw [Op.project, ht]
    rfl
  obtain ⟨hrow, hplace⟩ := persistProjectIdentity_spec hproject
  refine h.saveRow hop ok hrow (fun _ d hd hstack => hplace.trans ?_) (fun _ => claims_of_sync ht)
  exact (h.covered_by hop hd hstack).resolve_right (fun hc => not_claims (claims_of_sync ht) hc.1)

theorem Inv.save (h : Inv s) (hcareful : Careful s (.save id ok))
    (hstep : step s (.save id ok) = some t) : Inv t := by
  obtain ⟨op, hop, hstep⟩ := bind_eq_some_iff.mp hstep
  split at hstep
  · next ht _ =>
    cases hstep
    exact h.record hop ht ok
  · next target ht hphase =>
    cases hstep
    have hshaped := h.shaped _ _ hop
    have hrow := h.consistent _ _ (h.current _ _ hop)
    have hsaves := hcareful op hop target ht
    refine h.saveRow hop ok ⟨hrow.declared, hrow.recorded⟩ (fun _ d hd hstack => ?_) (fun hno => ?_)
    · obtain hplace | ⟨-, hheading⟩ := h.covered_by hop hd hstack
      · exact absurd (congrArg Prod.fst hplace).symm (h.gone _ _ d hop hphase hd hstack)
      · rw [heading_of_late hshaped (by rw [hphase]; rfl), Op.worker, ht] at hheading
        exact Option.some.inj hheading
    · exact absurd (hno.symm.trans hsaves) Bool.false_ne_true
  · cases hstep

theorem Inv.giveUp (h : Inv s) {converged : Bool} (hstep : step s (.giveUp id converged ok) = some t) : Inv t := by
  obtain ⟨op, hop, hstep⟩ := bind_eq_some_iff.mp hstep
  obtain ⟨⟨ht, -⟩, hstep⟩ := ite_none_right_eq_some.mp hstep
  cases hstep
  split
  · exact h.record hop ht ok
  · exact h.endUnclaimed hop (claims_of_sync ht)

theorem Inv.abort (h : Inv s) (hstep : step s (.abort id) = some t) : Inv t := by
  obtain ⟨op, hop, hstep⟩ := bind_eq_some_iff.mp hstep
  cases hphase : op.phase with
  | loaded | named | checked | ready =>
    rw [hphase] at hstep
    cases hstep
    exact h.endUnclaimed hop (by simp [Op.claims, hphase])
  | _ =>
    rw [hphase] at hstep
    cases hstep

theorem Inv.step (h : Inv s) {a : Action} (hcareful : Careful s a) (hstep : step s a = some t) : Inv t := by
  cases a with
  | create id worker name =>
    obtain ⟨hnone, hstep⟩ := ite_none_right_eq_some.mp hstep
    cases hstep
    exact h.create hnone
  | start id kind =>
    rw [Projects.step] at hstep
    split at hstep
    · next row hidle hrow =>
      obtain ⟨hadmits, hstep⟩ := ite_none_right_eq_some.mp hstep
      cases hstep
      exact h.start hidle hrow hadmits
    · cases hstep
  | persist id ok => exact h.persist hstep
  | check id => exact h.check hcareful hstep
  | lock id => exact h.lock hstep
  | probe id answered => exact h.probe hstep
  | deploy id sent => exact h.deploy hstep
  | work cmd up => exact h.work hstep
  | reply id ok => exact h.reply hstep
  | tearDown id done => exact h.tearDown hcareful hstep
  | save id ok => exact h.save hcareful hstep
  | giveUp id converged ok => exact h.giveUp hstep
  | abort id => exact h.abort hstep

end Invariant

theorem separate_of_careful {s t : State} {as : List Action} (hs : Settled s)
    (hcareful : Meets step Careful s as) (hrun : run step s as = some t) : Separate t :=
  (run_invariant (fun _ _ _ h hc hstep => h.step hc hstep) hs.inv hcareful hrun).separate

def deployed (id worker name project : String) : List Action :=
  [Action.create id worker name, Action.start id .reconcile, Action.check id, Action.lock id, Action.deploy id true,
    Action.work ⟨⟨id, worker, project⟩, ""⟩ true, Action.reply id true, Action.save id true]

def moved : List Action :=
  [Action.start "a" (.transfer "w2"), Action.persist "a" true, Action.check "a", Action.probe "a" true,
    Action.deploy "a" true, Action.work ⟨⟨"a", "w2", "api"⟩, ""⟩ true, Action.reply "a" true,
    Action.tearDown "a" true, Action.save "a" true]

/-- A stack is moved, and another takes its name on the worker that it has left. -/
theorem moved_separate :
    ∃ t, run step {} (deployed "a" "w1" "API" "api" ++ moved ++ deployed "b" "w1" "api" "api") = some t ∧
      t.standing = [⟨"b", "w1", "api"⟩, ⟨"a", "w2", "api"⟩] ∧ Separate t :=
  ⟨_, rfl, rfl, @separate_of_careful {} _ (deployed "a" "w1" "API" "api" ++ moved ++ deployed "b" "w1" "api" "api")
    settled_empty (by decide) rfl⟩

def crossed : List Action :=
  [Action.start "a" (.transfer "w3"), Action.persist "a" true, Action.check "a",
    Action.start "b" (.transfer "w3"), Action.persist "b" true, Action.check "b",
    Action.probe "a" true, Action.probe "b" true, Action.deploy "a" true,
    Action.work ⟨⟨"a", "w3", "api"⟩, ""⟩ true, Action.reply "a" true]

/-- Two stacks of one name are moved to one worker. Each makes its check before the
record of the other is saved. -/
theorem transfers_collide :
    ∃ s ∈ run step {} (deployed "a" "w1" "api" "api" ++ deployed "b" "w2" "api" "api" ++ crossed),
      ⟨"a", "w3", "api"⟩ ∈ s.standing ∧ ∃ t ∈ step s (.deploy "b" true), ¬ Separate t := by
  have hend : ∃ s ∈ run step {} (deployed "a" "w1" "api" "api" ++ deployed "b" "w2" "api" "api" ++ crossed),
      ⟨"a", "w3", "api"⟩ ∈ s.standing ∧ ∃ t ∈ step s (.deploy "b" true), t.collisions ≠ [] :=
    run_reaches (by decide)
  exact hend

end Wireops.Sync.Projects
