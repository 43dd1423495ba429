import Wireops.Lib.Calls
import Wireops.Lib.Flow

/-!
# Moving a stack to another Compose project

A worker looks at what the stack owns, removes its containers (and its volumes,
where asked) and starts the new project. Whatever Docker and Compose answer,
only what is the stack's own is touched, and a move that breaks off after
something was touched ends with the previous project being started again. -/

namespace Wireops.Worker.Migration

open Option List Lib.Calls Lib.Flow

/-- An error of the Docker API: `errdefs.IsNotFound`, or any other. -/
inductive DockerError where
  | notFound
  | other (message : String)

/-- What `err != nil && !errdefs.IsNotFound(err)` lets through. -/
def refused {α : Type} : Except DockerError α → Option String
  | .error (.other message) => some message
  | _ => none

/-- A container of a list: its ID and the label `com.docker.compose.project`. -/
structure Summary where
  id : String
  project : String

structure Mount where
  volume : Bool
  name : String
  destination : String

/-- An inspected container: the label `dev.wireops.stack_id`, empty where the
container has none, and its mounts. -/
structure Inspected where
  owner : String
  mounts : List Mount

structure RunOptions where
  workDir : String
  composeFile : String
  forcePull : Bool
  removeOrphans : Bool
  dockerConfigDir : String

structure ForceUpOptions extends RunOptions where
  recreateContainers : Bool
  recreateVolumes : Bool
  recreateNetworks : Bool

/-- The calls of a migration. `up` and `back` are `runProjectMigrationUp` and
`runProjectMigrationBack`. -/
inductive Call where
  | connect
  | list (stackID : String)
  | inspect (container : String)
  | stop (id : String)
  | remove (id : String)
  | removeVolume (name : String)
  | up (opts : ForceUpOptions)
  | back (opts : RunOptions)

def Answer : Call → Type
  | .connect => Option String
  | .list _ => Except String (List Summary)
  | .inspect _ => Except DockerError Inspected
  | .stop _ | .remove _ | .removeVolume _ => Except DockerError Unit
  | .up _ | .back _ => String × Option String

/-- The Docker of a worker's host. A container has its labels from its creation on,
and the label filter of a list keeps to them. -/
structure Docker where
  answer : Outside Answer
  stackLabel : String → Option String
  listed : ∀ past stackID summaries, answer past (.list stackID) = .ok summaries →
    ∀ s ∈ summaries, stackLabel s.id = some stackID

def mutates : Event Answer → Bool
  | ⟨.stop _, _⟩ | ⟨.remove _, _⟩ | ⟨.removeVolume _, _⟩ => true
  | _ => false

def failed : Event Answer → Bool
  | ⟨.connect, error⟩ => Option.isSome error
  | ⟨.list _, .ok _⟩ => false
  | ⟨.list _, .error _⟩ => true
  | ⟨.inspect _, answer⟩ | ⟨.stop _, answer⟩ | ⟨.remove _, answer⟩ | ⟨.removeVolume _, answer⟩ =>
    (refused answer).isSome
  | ⟨.up _, answer⟩ | ⟨.back _, answer⟩ => (Prod.snd answer).isSome

/-- An entry of a compose file's top-level `volumes`. Where `external` is not a
Boolean, it is `none`. -/
structure Volume where
  name : String
  external : Option Bool

/-- What the YAML package reads from a compose file: the project name, the container
name of each service (empty where it has none) and the volumes. A part that does not
decode is `none`. -/
structure Document where
  name : Option String
  containerNames : Option (List String)
  volumes : Option (List Volume)

/-- The migration of a command. `previousCompose` is what its base64 text decodes to. -/
structure ProjectMigrationSpec where
  previousProjectName : String
  targetProjectName : String
  previousCompose : Option Document

/-- The work directory: whether the previous revision could be written to it, and
the target revision read from it. -/
structure WorkDir where
  writable : Bool
  target : Option Document

inductive Refusal where
  | containerNames
  | inspectName (name : String) (error : DockerError)
  | foreignName (name : String)
  | list (error : String)
  | volumes
  | project (id project : String)
  | inspect (id : String) (error : DockerError)
  | anonymous (id name destination : String)

inductive Stuck where
  | stop (id message : String)
  | remove (id message : String)

inductive Cause where
  | containers (failures : List Stuck)
  | parseVolumes
  | volume (name message : String)
  | up (message : String)

inductive Cleanup where
  | list (message : String)
  | containers (failures : List Stuck)

inductive Failure where
  | noStack
  | identities
  | previousEncoding
  | noName
  | previousMismatch (declared expected : String)
  | staging
  | readTarget
  | targetMismatch (declared expected : String)
  | client (message : String)
  | preflight (refusal : Refusal)
  | rolledBack (cause : Cause)
  | rollbackFailed (cause : Cause) (cleanup : Option Cleanup) (rollback : Option String)

variable (content : Document)

def extractProjectName : Except Failure String :=
  match content.name with
  | none => .error .noName
  | some name => if name = "" then .error .noName else .ok name

def previousFile : String := "previous-compose.yml"

def decodePreviousCompose (dir : WorkDir) (spec : ProjectMigrationSpec) : Except Failure Document := do
  let some content := spec.previousCompose | .error .previousEncoding
  let previousName ← extractProjectName content
  if previousName ≠ spec.previousProjectName then
    .error (.previousMismatch previousName spec.previousProjectName)
  else if dir.writable then .ok content else .error .staging

def sortStrings (names : List String) : List String :=
  names.mergeSort (fun a b => decide (a ≤ b))

def explicitContainerNames : Option (List String) :=
  content.containerNames.map (fun names => sortStrings (names.filter (fun name => name ≠ "")))

def namedVolumeNames : Option (List String) :=
  content.volumes.map (fun volumes => (volumes.map Volume.name).filter (fun name => name ≠ ""))

/-- The decoding fails as a whole where one `external` is no Boolean. -/
def removableNamedVolumeNames : Option (List String) :=
  match content.volumes with
  | none => none
  | some volumes =>
    if volumes.any (fun v => v.external = none) then none
    else some (sortStrings
      ((volumes.filter (fun v => v.name ≠ "" ∧ v.external = some false)).map Volume.name))

section Calls

variable (d : Docker) (opts : ForceUpOptions)

def listStackContainers (stackID : String) : Prog Answer (Except String (List Summary)) :=
  call d.answer (.list stackID)

def checkNames (stackID : String) : List String → Prog Answer (Option Refusal)
  | [] => pure none
  | name :: names => do
    match ← call d.answer (.inspect name) with
    | .error .notFound => checkNames stackID names
    | .error error => pure (some (.inspectName name error))
    | .ok inspected =>
      if inspected.owner ≠ stackID then pure (some (.foreignName name))
      else checkNames stackID names

variable (previousProject targetProject : String) (namedVolumes : List String) (recreateVolumes : Bool) in
/-- The second loop of the preflight: the projects the containers are of and, where
volumes are kept, that each volume they use has a name. -/
def checkOwned : List Summary → Prog Answer (Option Refusal)
  | [] => pure none
  | s :: owned =>
    if s.project ≠ previousProject ∧ s.project ≠ targetProject then
      pure (some (.project s.id s.project))
    else if recreateVolumes then checkOwned owned
    else do
      match ← call d.answer (.inspect s.id) with
      | .error error => pure (some (.inspect s.id error))
      | .ok inspected =>
        match inspected.mounts.find? (fun p => p.volume ∧ p.name ∉ namedVolumes) with
        | some point => pure (some (.anonymous s.id point.name point.destination))
        | none => checkOwned owned

def preflightProjectMigration (stackID previousProject targetProject : String)
    (targetCompose previousCompose : Document) (recreateVolumes : Bool) :
    Prog Answer (Except Refusal (List Summary)) :=
  match explicitContainerNames targetCompose with
  | none => pure (.error .containerNames)
  | some containerNames => do
    match ← checkNames d stackID containerNames with
    | some refusal => pure (.error refusal)
    | none =>
      match ← listStackContainers d stackID with
      | .error error => pure (.error (.list error))
      | .ok owned =>
        match namedVolumeNames previousCompose with
        | none => pure (.error .volumes)
        | some namedVolumes => do
          match ← checkOwned d previousProject targetProject namedVolumes recreateVolumes owned with
          | some refusal => pure (.error refusal)
          | none => pure (.ok owned)

/-- A container that cannot be stopped is not removed; the others are tried all the same. -/
def removeStackContainers : List Summary → Prog Answer (List Stuck)
  | [] => pure []
  | s :: containers => do
    match refused (← call d.answer (.stop s.id)) with
    | some message => do
      let failures ← removeStackContainers containers
      pure (.stop s.id message :: failures)
    | none =>
      match refused (← call d.answer (.remove s.id)) with
      | some message => do
        let failures ← removeStackContainers containers
        pure (.remove s.id message :: failures)
      | none => removeStackContainers containers

def removeVolumes : List String → Prog Answer (Option Cause)
  | [] => pure none
  | name :: names => do
    match refused (← call d.answer (.removeVolume name)) with
    | some message => pure (some (.volume name message))
    | none => removeVolumes names

def removeNamedVolumes (previousCompose : Document) : Prog Answer (Option Cause) :=
  match removableNamedVolumeNames previousCompose with
  | none => pure (some .parseVolumes)
  | some names => removeVolumes d names

def rollbackOptions : RunOptions where
  workDir := opts.workDir
  composeFile := previousFile
  forcePull := false
  removeOrphans := false
  dockerConfigDir := opts.dockerConfigDir

def cleanUp (stackID : String) : Prog Answer (Option Cleanup) := do
  match ← listStackContainers d stackID with
  | .error message => pure (some (.list message))
  | .ok containers => do
    match ← removeStackContainers d containers with
    | [] => pure none
    | failures => pure (some (.containers failures))

def restorePrevious (stackID : String) (cause : Cause) (output : String) :
    Prog Answer (String × Option Failure) := do
  let cleanupErr ← cleanUp d stackID
  let (rollbackOutput, rollbackErr) ← call d.answer (.back (rollbackOptions opts))
  if rollbackErr.isSome ∨ cleanupErr.isSome then
    pure (output ++ rollbackOutput, some (.rollbackFailed cause cleanupErr rollbackErr))
  else pure (output ++ rollbackOutput, some (.rolledBack cause))

structure Plan where
  previousCompose : Document
  owned : List Summary

def revisions (dir : WorkDir) (spec : Option ProjectMigrationSpec) (stackID : String) :
    Except Failure (ProjectMigrationSpec × Document × Document) :=
  if stackID = "" then .error .noStack
  else match spec with
  | none => .error .identities
  | some spec =>
    if spec.previousProjectName = "" ∨ spec.targetProjectName = "" ∨
        spec.previousProjectName = spec.targetProjectName then .error .identities
    else do
      let previousCompose ← decodePreviousCompose dir spec
      let some targetCompose := dir.target | .error .readTarget
      let targetName ← extractProjectName targetCompose
      if targetName ≠ spec.targetProjectName then
        .error (.targetMismatch targetName spec.targetProjectName)
      else .ok (spec, previousCompose, targetCompose)

def prepare (dir : WorkDir) (opts : ForceUpOptions) (spec : Option ProjectMigrationSpec)
    (stackID : String) : Prog Answer (Except Failure Plan) :=
  match revisions dir spec stackID with
  | .error failure => pure (.error failure)
  | .ok (spec, previousCompose, targetCompose) => do
    match ← call d.answer .connect with
    | some message => pure (.error (.client message))
    | none => do
      match ← preflightProjectMigration d stackID spec.previousProjectName spec.targetProjectName
          targetCompose previousCompose opts.recreateVolumes with
      | .error refusal => pure (.error (.preflight refusal))
      | .ok owned => pure (.ok ⟨previousCompose, owned⟩)

def replace (stackID : String) (plan : Plan) : Prog Answer (String × Option Failure) := do
  match ← removeStackContainers d plan.owned with
  | failure :: failures => restorePrevious d opts stackID (.containers (failure :: failures)) ""
  | [] =>
    match ← (if opts.recreateVolumes then removeNamedVolumes d plan.previousCompose
        else pure none) with
    | some cause => restorePrevious d opts stackID cause ""
    | none =>
      let (output, upErr) ← call d.answer (.up { opts with recreateNetworks := false })
      match upErr with
      | none => pure (output, none)
      | some message => restorePrevious d opts stackID (.up message) output

end Calls

abbrev Trace := List (Event Answer)

def OwnVolume (previousCompose : Document) (name : String) : Prop :=
  ∃ volumes, previousCompose.volumes = some volumes ∧ ∃ v ∈ volumes, v.name = name ∧ v.external = some false

/-- What a migration may touch: containers with the label of its stack and, where
volumes are recreated, the stack's own. -/
def Permitted (d : Docker) (opts : ForceUpOptions) (stackID : String)
    (spec : Option ProjectMigrationSpec) : Call → Prop
  | .stop id | .remove id => d.stackLabel id = some stackID
  | .removeVolume name => opts.recreateVolumes ∧
    ∃ previousCompose, spec.bind ProjectMigrationSpec.previousCompose = some previousCompose ∧
      OwnVolume previousCompose name
  | _ => True

/-- The command and the work directory name the two revisions of the stack. -/
structure Stated (dir : WorkDir) (spec : Option ProjectMigrationSpec) (stackID : String)
    (s : ProjectMigrationSpec) (previousCompose targetCompose : Document) : Prop where
  stack : stackID ≠ ""
  spec : spec = some s
  identities : s.previousProjectName ≠ "" ∧ s.targetProjectName ≠ "" ∧ s.previousProjectName ≠ s.targetProjectName
  previous : s.previousCompose = some previousCompose ∧
    previousCompose.name = some s.previousProjectName ∧ dir.writable = true
  target : dir.target = some targetCompose ∧ targetCompose.name = some s.targetProjectName

/-- Nobody has the container name, or the stack itself has. -/
def Free (stackID name : String) (e : Event Answer) : Prop :=
  ∃ answer : Except DockerError Inspected, e = ⟨.inspect name, answer⟩ ∧
    (answer = .error .notFound ∨ ∃ inspected, answer = .ok inspected ∧ inspected.owner = stackID)

def Named (namedVolumes : List String) (s : Summary) (e : Event Answer) : Prop :=
  ∃ inspected : Inspected, e = ⟨.inspect s.id, .ok inspected⟩ ∧
    ∀ point ∈ inspected.mounts, point.volume = true → point.name ∈ namedVolumes

/-- The containers are of the two projects and, where volumes are kept, each volume
they use has a name. -/
structure Fit (previousProject targetProject : String) (namedVolumes : List String)
    (recreateVolumes : Bool) (owned : List Summary) (mounts : Trace) : Prop where
  projects : ∀ s ∈ owned, s.project = previousProject ∨ s.project = targetProject
  named : if recreateVolumes then mounts = [] else Forall₂ (Named namedVolumes) owned mounts

/-- The calls of a preflight in which none failed and no check refused. -/
inductive Passed (stackID previousProject targetProject : String)
    (targetCompose previousCompose : Document) (recreateVolumes : Bool) (owned : List Summary) :
    Trace → Prop where
  | intro {containerNames namedVolumes : List String} {names mounts : Trace}
    (hnames : explicitContainerNames targetCompose = some containerNames)
    (hvolumes : namedVolumeNames previousCompose = some namedVolumes)
    (free : Forall₂ (Free stackID) containerNames names)
    (fit : Fit previousProject targetProject namedVolumes recreateVolumes owned mounts) :
    Passed stackID previousProject targetProject targetCompose previousCompose recreateVolumes owned
      (names ++ ⟨.list stackID, .ok owned⟩ :: mounts)

/-- The revisions are stated, Docker is reached, and the preflight has passed. -/
inductive Vetted (dir : WorkDir) (opts : ForceUpOptions) (spec : Option ProjectMigrationSpec)
    (stackID : String) : Trace → Prop where
  | intro {s : ProjectMigrationSpec} {previousCompose targetCompose : Document} {owned : List Summary}
    {checks : Trace} (rest : Trace)
    (stated : Stated dir spec stackID s previousCompose targetCompose)
    (passed : Passed stackID s.previousProjectName s.targetProjectName targetCompose previousCompose
      opts.recreateVolumes owned checks) : Vetted dir opts spec stackID (⟨.connect, none⟩ :: (checks ++ rest))

variable {d : Docker} {dir : WorkDir} {opts : ForceUpOptions} {stackID : String}
  {spec : Option ProjectMigrationSpec}

variable {e : Event Answer} {previousProject targetProject : String} {recreateVolumes : Bool}
  {s : ProjectMigrationSpec} {previousCompose targetCompose : Document} {containers : List Summary}
  {failures : List Stuck} {calls rest trace : Trace}

def Owned (d : Docker) (stackID : String) (containers : List Summary) : Prop :=
  ∀ s ∈ containers, d.stackLabel s.id = some stackID

/-- The calls stop and remove the containers of a list and no others, and each call
that failed is in the list of failures. -/
structure Removed (containers : List Summary) (failures : List Stuck)
    (trace : Trace) : Prop where
  only : ∀ e ∈ trace, ∃ s ∈ containers, e.1 = .stop s.id ∨ e.1 = .remove s.id
  clean : failures = [] → ∀ e ∈ trace, failed e = false

theorem Removed.cons {s : Summary} {failures' : List Stuck} (h : Removed containers failures rest)
    (honly : ∀ e ∈ calls, e.1 = .stop s.id ∨ e.1 = .remove s.id)
    (hclean : failures' = [] → failures = [] ∧ ∀ e ∈ calls, failed e = false) :
    Removed (s :: containers) failures' (calls ++ rest) where
  only := by
    intro e he
    rcases mem_append.mp he with he | he
    · exact ⟨s, mem_cons_self, honly e he⟩
    · obtain ⟨s', hs', he⟩ := h.only e he
      exact ⟨s', mem_cons_of_mem s hs', he⟩
  clean := by
    intro hf
    obtain ⟨hnil, hcalls⟩ := hclean hf
    exact forall_mem_append.mpr ⟨hcalls, h.clean hnil⟩

/-- The calls remove volumes of a kind, and none failed unless that is reported. -/
structure Cleared (own : String → Prop) (cause : Option Cause) (trace : Trace) : Prop where
  only : ∀ e ∈ trace, ∃ name, own name ∧ e.1 = .removeVolume name
  clean : cause = none → ∀ e ∈ trace, failed e = false

/-- How the part that touches something ends: with no call failed, or with an
error after the previous project was started again. -/
structure Settled (P : Call → Prop) (rollback : RunOptions) (result : String × Option Failure)
    (trace : Trace) : Prop where
  permitted : ∀ e ∈ trace, P e.1
  clean : result.2 = none → ∀ e ∈ trace, failed e = false
  restored : result.2 ≠ none → ∃ answer, trace.getLast? = some ⟨.back rollback, answer⟩

theorem Removed.permitted (h : Removed containers failures trace)
    (howned : Owned d stackID containers) : ∀ e ∈ trace, Permitted d opts stackID spec e.1 := by
  intro e he
  obtain ⟨s, hs, hstop | hremove⟩ := h.only e he
  · rw [hstop]
    exact howned s hs
  · rw [hremove]
    exact howned s hs

theorem Cleared.permitted {cause : Option Cause} (h : Cleared (OwnVolume previousCompose) cause trace)
    (hrecreate : opts.recreateVolumes = true)
    (hspec : spec.bind ProjectMigrationSpec.previousCompose = some previousCompose) :
    ∀ e ∈ trace, Permitted d opts stackID spec e.1 := by
  intro e he
  obtain ⟨name, hown, hcall⟩ := h.only e he
  rw [hcall]
  exact ⟨hrecreate, previousCompose, hspec, hown⟩

/-- What a migration owes its host, however it ends. -/
structure Orderly (d : Docker) (dir : WorkDir) (opts : ForceUpOptions)
    (spec : Option ProjectMigrationSpec) (stackID : String) (result : String × Option Failure)
    (trace : Trace) : Prop where
  /-- Only what is the stack's own is touched. -/
  permitted : ∀ e ∈ trace, Permitted d opts stackID spec e.1
  /-- Where a call of the preflight fails or a check refuses, nothing is, and the
  migration is an error. -/
  untouched : ¬ Vetted dir opts spec stackID trace → result.2 ≠ none ∧ ∀ e ∈ trace, mutates e = false
  /-- Where something fails once a container or volume was touched, the migration is
  an error and ends with a run of the previous revision. -/
  restored : ∀ before e after, trace = before ++ e :: after → mutates e = true →
    (result.2 ≠ none ∨ ∃ f ∈ e :: after, failed f = true) →
    result.2 ≠ none ∧ ∃ answer, trace.getLast? = some ⟨.back (rollbackOptions opts), answer⟩

end Wireops.Worker.Migration
