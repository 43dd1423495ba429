import Mathlib.Data.List.Nodup
import Wireops.Lib.Strings

namespace Wireops.Sync.PostCheck

open List Lib.Strings

/-- A YAML scalar as `composeReplicaCount` tells it. -/
inductive Scalar where
  | int (n : Int)
  | float (x : Rat)
  | other

def composeReplicaCount : Scalar → Option Int
  | .int n => some n
  | .float x => if x.den = 1 then some x.num else none
  | .other => none

/-- A service of the rendered file: its label `customization.init`, empty if it has none,
its `scale` and its `deploy.replicas`. -/
structure Service where
  initLabel : Text := []
  scale : Scalar := .other
  deployReplicas : Scalar := .other

def Service.isInit (s : Service) : Bool := s.initLabel.map Char.toLower ∈ ["true", "1", "yes"].map String.toList

def Service.replicas (s : Service) : Int :=
  (composeReplicaCount s.scale <|> composeReplicaCount s.deployReplicas).getD 1

/-- The services of a revision that can be decoded; the health of another is unknown. -/
structure File where
  services : List (Text × Service)
  nodup : (services.map (·.1)).Nodup

inductive ContainerState where
  | running | exited | dead | created | restarting | paused | other
  deriving DecidableEq

inductive Healthcheck where
  | unhealthy | starting | other
  deriving DecidableEq

structure ServiceStatus where
  serviceName : Text
  status : ContainerState
  health : Healthcheck := .other
  restartCount : Nat := 0
  startedAt : Option Int := none
  exitCode : Int := 0

inductive ServiceHealthState where
  | healthy | starting | unhealthy | restartLooping | missing
  deriving DecidableEq

variable (now : Int)

def isRestartLooping (s : ServiceStatus) : Bool :=
  3 ≤ s.restartCount && s.startedAt.all (fun started => now - started < 120000000000)

/-- What one instance adds to the flags of `ClassifyServiceInstances`. -/
def instanceState (isInit requireAll : Bool) (s : ServiceStatus) : ServiceHealthState :=
  if isRestartLooping now s then .restartLooping
  else if isInit then
    match s.status with
    | .running => .healthy
    | .exited => if s.exitCode = 0 then .healthy else .unhealthy
    | .created | .restarting | .paused => .starting
    | _ => .unhealthy
  else if !requireAll && s.status = .running && s.health ≠ .unhealthy then .healthy
  else if s.status = .exited || s.status = .dead || s.health = .unhealthy then .unhealthy
  else if s.status ≠ .running || s.health = .starting then .starting
  else .healthy

def strictState (flag : ServiceHealthState → Bool) : ServiceHealthState :=
  if flag .restartLooping then .restartLooping else if flag .unhealthy then .unhealthy
  else if flag .starting then .starting else if flag .healthy then .healthy else .missing

def lenientState (isInit : Bool) (flag : ServiceHealthState → Bool) : ServiceHealthState :=
  if flag .healthy then .healthy else if flag .restartLooping then .restartLooping
  else if flag .unhealthy then .unhealthy else if isInit then .starting else .missing

def classifyServiceInstances (isInit requireAll : Bool) (instances : List ServiceStatus) : ServiceHealthState :=
  let flag state := instances.any (fun s => instanceState now isInit requireAll s = state)
  if instances = [] then if isInit then .healthy else .missing
  else if requireAll then strictState flag else lenientState isInit flag

def byService (statuses : List ServiceStatus) (name : Text) : List ServiceStatus :=
  statuses.filter (fun s => s.serviceName = name)

inductive PostCheckStatus where
  | active | degraded | error
  deriving DecidableEq

def initServiceNames (f : File) : List Text := (f.services.filter (·.2.isInit)).map (·.1)

def evaluatePostCheck (expected init : List Text) (statuses : List ServiceStatus) : PostCheckStatus :=
  let ok := expected.filter (fun name =>
    classifyServiceInstances now (name ∈ init) false (byService statuses name) = .healthy)
  if ok.length = expected.length then .active else if ok.length = 0 then .error else .degraded

/-- An attempt of `postDeployCheck`. The first that gives `active` decides, or else the last. -/
def postDeployCheck (f : File) (statuses : List ServiceStatus) : PostCheckStatus :=
  let expected := f.services.map (·.1)
  if expected = [] then .active else evaluatePostCheck now expected (initServiceNames f) statuses

inductive StackState where
  | healthy | degraded | unhealthy | starting
  deriving DecidableEq

def observed (statuses : List ServiceStatus) (s : Text × Service) : ServiceHealthState :=
  let instances := byService statuses s.1
  let state := classifyServiceInstances now s.2.isInit true instances
  if !s.2.isInit && state = .healthy && instances.length < s.2.replicas then .missing else state

def stackHealth (f : File) (statuses : List ServiceStatus) : StackState :=
  let states := (f.services.filter (·.2.replicas ≠ 0)).map (observed now statuses)
  if states.any (fun s => s ≠ .healthy ∧ s ≠ .starting) then
    if .healthy ∈ states then .degraded else .unhealthy
  else if .starting ∈ states then .starting
  else .healthy

variable {now : Int} {f : File} {statuses : List ServiceStatus}

theorem instanceState_lenient {isInit : Bool} {s : ServiceStatus} (h : instanceState now isInit true s = .healthy) :
    instanceState now isInit false s = .healthy := by
  unfold instanceState at h ⊢
  split_ifs at h ⊢ <;> simp_all

theorem flag_of_strictState {flag : ServiceHealthState → Bool} (h : strictState flag = .healthy) :
    flag .healthy = true := by
  unfold strictState at h
  split_ifs at h
  assumption

theorem classify_lenient {isInit : Bool} {instances : List ServiceStatus}
    (h : classifyServiceInstances now isInit true instances = .healthy) :
    classifyServiceInstances now isInit false instances = .healthy := by
  unfold classifyServiceInstances at h ⊢
  split at h
  · next hnil => simpa [hnil] using h
  · next hne =>
    rw [if_pos rfl] at h
    obtain ⟨s, hs, hstate⟩ := any_eq_true.mp (flag_of_strictState h)
    have hany : instances.any (fun s => instanceState now isInit false s = .healthy) = true :=
      any_eq_true.mpr ⟨s, hs, decide_eq_true (instanceState_lenient (of_decide_eq_true hstate))⟩
    simp [hne, lenientState, hany]

variable {s : Text × Service}

theorem classify_of_observed (h : observed now statuses s = .healthy) :
    classifyServiceInstances now s.2.isInit true (byService statuses s.1) = .healthy := by
  unfold observed at h
  dsimp only at h
  split_ifs at h
  assumption

theorem observed_of_stackHealth (h : stackHealth now f statuses = .healthy) (hs : s ∈ f.services)
    (hr : s.2.replicas ≠ 0) : observed now statuses s = .healthy := by
  have hmem : observed now statuses s ∈ (f.services.filter (·.2.replicas ≠ 0)).map (observed now statuses) :=
    mem_map_of_mem (mem_filter.mpr ⟨hs, decide_eq_true hr⟩)
  unfold stackHealth at h
  dsimp only at h
  split_ifs at h with hbad hhealthy hstarting
  by_contra hne
  refine hbad (any_eq_true.mpr ⟨_, hmem, decide_eq_true ⟨hne, fun heq => hstarting (heq ▸ hmem)⟩⟩)

theorem mem_initServiceNames (hs : s ∈ f.services) : s.1 ∈ initServiceNames f ↔ s.2.isInit = true := by
  simp only [initServiceNames, mem_map, mem_filter]
  refine ⟨fun ⟨t, ⟨ht, hinit⟩, heq⟩ => ?_, fun hinit => ⟨s, ⟨hs, hinit⟩, rfl⟩⟩
  rwa [← inj_on_of_nodup_map f.nodup ht hs heq]

theorem postDeployCheck_active : postDeployCheck now f statuses = .active ↔ ∀ s ∈ f.services,
    classifyServiceInstances now s.2.isInit false (byService statuses s.1) = .healthy := by
  have hok : ((f.services.map (·.1)).filter (fun name => classifyServiceInstances now (name ∈ initServiceNames f) false
      (byService statuses name) = .healthy)).length = (f.services.map (·.1)).length ↔
      ∀ s ∈ f.services, classifyServiceInstances now s.2.isInit false (byService statuses s.1) = .healthy := by
    rw [length_filter_eq_length_iff, forall_mem_map]
    exact forall₂_congr (fun s hs => by simp [mem_initServiceNames hs])
  unfold postDeployCheck evaluatePostCheck
  dsimp only
  rw [← hok]
  split_ifs with hnil hall hzero
  · simp [hnil]
  · simp [hall]
  · exact iff_of_false nofun hall
  · exact iff_of_false nofun hall

theorem postDeployCheck_active_iff (h : stackHealth now f statuses = .healthy) :
    postDeployCheck now f statuses = .active ↔ ∀ s ∈ f.services, s.2.replicas = 0 →
      classifyServiceInstances now s.2.isInit false (byService statuses s.1) = .healthy := by
  rw [postDeployCheck_active]
  refine forall₂_congr (fun s hs => ⟨fun hh _ => hh, fun hh => ?_⟩)
  by_cases hr : s.2.replicas = 0
  · exact hh hr
  · exact classify_lenient (classify_of_observed (observed_of_stackHealth h hs hr))

def running (name : Text) : ServiceStatus := { serviceName := name, status := .running }

theorem running_web_active : postDeployCheck 0 ⟨[("web".toList, {})], by decide⟩ [running "web".toList] = .active :=
  (@postDeployCheck_active_iff 0 ⟨[("web".toList, {})], by decide⟩ [running "web".toList] (by decide)).mpr (by decide)

/-- A service that is scaled to zero counts as missing after a deploy. -/
theorem scaled_to_zero_degraded : ∃ f : File, stackHealth 0 f [running "web".toList] = .healthy ∧
    postDeployCheck 0 f [running "web".toList] = .degraded :=
  ⟨⟨[("web".toList, {}), ("worker".toList, { scale := .int 0 })], by decide⟩, by decide, by decide⟩

end Wireops.Sync.PostCheck
