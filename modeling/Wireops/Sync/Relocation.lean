import Wireops.Policy.Easing
import Wireops.Policy.Load

namespace Wireops.Sync.Relocation

open Lib.Strings Lib.Flow Policy.Compose Policy.Easing Policy.Load

inductive Content where
  | empty
  | compose (config : List (Text × Value))

structure Stack where
  worker : String
  composeProjectName : String := ""
  deployedVersion : Nat
  hasRepository : Bool := true

/-- What the rest of the server answers to a transfer: the lock, the lookups,
the saves, the revision files and the probe of the target. -/
structure Answers where
  locked : Bool := true
  found : Bool := true
  secretBackends : Bool := true
  projectName : Option String := some ""
  desiredName : String := ""
  identitySaved : Bool := true
  projectNameUnique : Bool := true
  readFile : Nat → Option Content
  envVars : Bool := true
  repoFound : Bool := true
  workDir : Bool := true
  sops : Bool := true
  registryAuth : Bool := true
  envFile : Bool := true
  sourceFound : Bool := true
  targetFound : Bool := true
  statusSaved : Bool := true
  logCreated : Bool := true
  /-- Stacks of the same name on the target, if they could be counted. -/
  sameName : Option Nat := some 0
  /-- Containers of the project on the target, if the probe was answered. -/
  probed : Option Nat := some 0

inductive Refusal where
  | alreadySyncing | notFound | secretBackends | noWorker | sameWorker | projectName | mustMigrate
  | identityUnsaved | nameConflict | noRevision | unreadable | emptyFile | envVars | repository
  | workDir | sops | registryAuth | envFile | sourceMissing | targetMissing | statusUnsaved | logFailed
  | stackExists | containersExist

structure Deploy where
  workerID : String
  config : List (Text × Value)

def ensure (ok : Bool) (why : Refusal) : Except Refusal Unit := if ok then .ok () else .error why

variable (o : Answers)

/-- A stack whose project name is not recorded yet must already have the name
it would be given now. -/
def settleIdentity (s : Stack) : Except Refusal Unit :=
  match o.projectName with
  | none => .error .projectName
  | some name =>
    if s.composeProjectName ≠ "" then .ok ()
    else do
      ensure (name = o.desiredName) .mustMigrate
      ensure o.identitySaved .identityUnsaved

def readRevision (s : Stack) : Except Refusal (List (Text × Value)) :=
  if s.deployedVersion = 0 then .error .noRevision
  else
    match o.readFile s.deployedVersion with
    | none => .error .unreadable
    | some .empty => .error .emptyFile
    | some (.compose config) => .ok config

def loadEnv (s : Stack) : Except Refusal Unit := do
  ensure o.envVars .envVars
  if s.hasRepository then
    ensure o.repoFound .repository
    ensure o.workDir .workDir
    ensure o.sops .sops

/-- A lookup or a probe that fails does not stop the transfer. -/
def preflight : Except Refusal Unit := do
  ensure (o.sameName.getD 0 = 0) .stackExists
  ensure (o.probed.getD 0 = 0) .containersExist

/-- `TransferStack` up to the deploy on the target. -/
def transferStack (s : Stack) (target : String) : Except Refusal Deploy := do
  ensure o.locked .alreadySyncing
  ensure o.found .notFound
  ensure o.secretBackends .secretBackends
  ensure (s.worker ≠ "") .noWorker
  ensure (s.worker ≠ target) .sameWorker
  settleIdentity o s
  ensure o.projectNameUnique .nameConflict
  let config ← readRevision o s
  loadEnv o s
  ensure o.registryAuth .registryAuth
  ensure o.envFile .envFile
  ensure o.sourceFound .sourceMissing
  ensure o.targetFound .targetMissing
  ensure o.statusSaved .statusUnsaved
  ensure o.logCreated .logFailed
  preflight o
  .ok ⟨target, config⟩

variable {o : Answers} {s : Stack} {target : String} {d : Deploy}

theorem ensure_ok {ok : Bool} {why : Refusal} {u : Unit} (h : ensure ok why = .ok u) : ok = true := by
  unfold ensure at h
  split at h
  · assumption
  · cases h

theorem readRevision_ok {config : List (Text × Value)} (h : readRevision o s = .ok config) :
    o.readFile s.deployedVersion = some (.compose config) := by
  obtain ⟨_, h⟩ := guard_ok h
  split at h
  · cases h
  · cases h
  · next hread =>
    cases h
    exact hread

/-- What a transfer that gets to its deploy has checked, and what it deploys:
the file of the deployed revision, as it is. -/
theorem transferStack_ok (h : transferStack o s target = .ok d) :
    s.worker ≠ "" ∧ s.worker ≠ target ∧ d.workerID = target ∧
      o.readFile s.deployedVersion = some (.compose d.config) := by
  obtain ⟨_, _, h⟩ := bind_eq_ok_iff.mp h
  obtain ⟨_, _, h⟩ := bind_eq_ok_iff.mp h
  obtain ⟨_, _, h⟩ := bind_eq_ok_iff.mp h
  obtain ⟨_, hworker, h⟩ := bind_eq_ok_iff.mp h
  obtain ⟨_, hother, h⟩ := bind_eq_ok_iff.mp h
  obtain ⟨_, _, h⟩ := bind_eq_ok_iff.mp h
  obtain ⟨_, _, h⟩ := bind_eq_ok_iff.mp h
  obtain ⟨config, hread, h⟩ := bind_eq_ok_iff.mp h
  have hd : d = ⟨target, config⟩ := by
    iterate 8 obtain ⟨_, _, h⟩ := bind_eq_ok_iff.mp h
    cases h
    rfl
  subst hd
  exact ⟨of_decide_eq_true (ensure_ok hworker), of_decide_eq_true (ensure_ok hother), rfl, readRevision_ok hread⟩

theorem transferStack_free (config : List (Text × Value)) {source : String} (hs : source ≠ "")
    (ht : source ≠ target) : transferStack { readFile := fun _ => some (.compose config) }
      { worker := source, deployedVersion := 1 } target = .ok ⟨target, config⟩ := by
  unfold transferStack
  rw [decide_eq_true hs, decide_eq_true ht]
  rfl

/-- The deployed revision was rendered under the policy, for whichever worker
and whenever that was. -/
def RenderedUnder (p : WorkerPolicy) (o : Answers) (s : Stack) : Prop :=
  ∀ config, o.readFile s.deployedVersion = some (.compose config) → accepts p config

theorem transferred_config_accepted_iff (p : WorkerPolicy) (now : Policies) (source target : String) :
    (∀ o s d, s.worker = source → RenderedUnder p o s → transferStack o s target = .ok d →
      d.workerID = target ∧ accepts (load now target) d.config) ↔
      (source ≠ "" → source ≠ target → Eases (inForce p) (inForce (load now target))) := by
  constructor
  · intro h hs ht
    refine accepts_iff_eases.mp (fun config hacc => ?_)
    refine (h _ _ _ rfl ?_ (transferStack_free config hs ht)).2
    rintro _ ⟨rfl⟩
    exact hacc
  · rintro h o s d rfl hrendered htransfer
    obtain ⟨hs, ht, hworker, hread⟩ := transferStack_ok htransfer
    exact ⟨hworker, accepts_iff_eases.mpr (h hs ht) _ (hrendered _ hread)⟩

def policies : Policies where
  workers id :=
    if id = "w2" then some (savePolicy { flags := { blockPrivileged := some true } }) else some {}

def privilegedStack : List (Text × Value) :=
  [("services".toList, .obj [("web".toList, .obj
    [("image".toList, .str "nginx:1.27".toList), ("privileged".toList, .bool true)])])]

theorem privileged_stack_transferred : accepts (load policies "w1") privilegedStack ∧
      transferStack { readFile := fun _ => some (.compose privilegedStack) }
        { worker := "w1", deployedVersion := 1 } "w2" = .ok ⟨"w2", privilegedStack⟩ ∧
      ¬ accepts (load policies "w2") privilegedStack := by
  refine ⟨rfl, rfl, ?_⟩
  intro h
  cases h

end Wireops.Sync.Relocation
