import Wireops.Policy.Coverage

namespace Wireops.Policy.Violations

open Lib.Flow Lib.Strings Policy.Coverage
open Policy.Compose hiding Violation

-- How `%q` quotes a text.
variable (quote : Text → Text)

def text : Compose.Violation → Text
  | .latestImage image => "image ".toList ++ quote image ++
      " uses :latest or has no tag, which is blocked by the worker policy".toList
  | .image image => "image ".toList ++ quote image ++ " is not in the worker's allowed image list".toList
  | .hostVolume path => "volume mount path ".toList ++ quote path ++
      " is a host bind-mount and the worker policy blocks host volumes".toList
  | .volume path => "volume mount path ".toList ++ quote path ++ " is not in the worker's allowed volume list".toList
  | .network name => "network ".toList ++ quote name ++ " is not in the worker's allowed network list".toList
  | .privileged service => "service ".toList ++ quote service ++
      " runs with privileged: true, which is blocked by the worker policy".toList
  | .hostNetwork service => "service ".toList ++ quote service ++
      " uses network_mode: host, which is blocked by the worker policy".toList
  | .hostPID service => "service ".toList ++ quote service ++
      " uses pid: host, which is blocked by the worker policy".toList
  | .hostIPC service => "service ".toList ++ quote service ++
      " uses ipc: host, which is blocked by the worker policy".toList
  | .dockerSocket mount => "mount ".toList ++ quote mount ++
      " exposes the Docker socket, which is blocked by the worker policy".toList
  | .capAdd capability => "capability ".toList ++ quote capability ++
      " is not in the worker's allowed cap_add list".toList
  | .device path => "device ".toList ++ quote path ++ " is not in the worker's allowed device list".toList
  | .securityOpt entry => "security_opt ".toList ++ quote entry ++
      " is not in the worker's allowed security_opt list".toList

def message (label : String) (e : Compose.Violation) : Text := label.toList ++ ": ".toList ++ text quote e

def wrap (label : String) (r : Except Compose.Violation Unit) : Except Text Unit :=
  r.mapError (message quote label)

def validateComposeConfig (p : WorkerPolicy) (config : List (Text × Value)) : Except Text Unit :=
  if p.disabled then .ok ()
  else
    let refs := extractComposeRefs config
    do
      wrap quote "image policy violation" (validateImages p (values refs.images))
      wrap quote "volume policy violation" (validateVolumes p (values refs.volumes))
      wrap quote "network policy violation" (validateEach (validateNetwork p) (values refs.networks))
      wrap quote "privileged mode policy violation" (validatePrivileged p refs.privilegedServices)
      wrap quote "host network policy violation" (validateHostNetwork p refs.hostNetworkServices)
      wrap quote "host pid policy violation" (validateHostPID p refs.hostPIDServices)
      wrap quote "host ipc policy violation" (validateHostIPC p refs.hostIPCServices)
      wrap quote "docker socket policy violation" (validateDockerSocket p (values refs.mounts))
      wrap quote "cap_add policy violation" (validateCapAdd p (values refs.capAdds))
      wrap quote "device policy violation" (validateDevices p (values refs.devices))
      wrap quote "security_opt policy violation" (validateSecurityOpt p (values refs.securityOpts))

inductive Check where
  | images | volumes | networks | privileged | hostNetwork | hostPID | hostIPC | dockerSocket
  | capAdd | devices | securityOpt

structure Violation where
  check : Check
  service : Text
  subject : Text
  message : Text

def add (check : Check) (ref : OwnedRef) (r : Except Compose.Violation Unit) (label : String) : List Violation :=
  match r with
  | .ok _ => []
  | .error e => [⟨check, ref.service, ref.value, message quote label e⟩]

def composeViolations (p : WorkerPolicy) (config : List (Text × Value)) : List Violation :=
  if p.disabled then []
  else
    let refs := extractComposeRefs config
    refs.images.flatMap (fun img =>
      add quote .images img (validateImages p [img.value]) "image policy violation") ++
    refs.volumes.flatMap (fun vol =>
      add quote .volumes vol (validateVolumes p [vol.value]) "volume policy violation") ++
    refs.networks.flatMap (fun net =>
      add quote .networks net (validateNetwork p net.value) "network policy violation") ++
    refs.privilegedServices.flatMap (fun svc =>
      add quote .privileged ⟨svc, svc⟩ (validatePrivileged p [svc]) "privileged mode policy violation") ++
    refs.hostNetworkServices.flatMap (fun svc =>
      add quote .hostNetwork ⟨svc, svc⟩ (validateHostNetwork p [svc]) "host network policy violation") ++
    refs.hostPIDServices.flatMap (fun svc =>
      add quote .hostPID ⟨svc, svc⟩ (validateHostPID p [svc]) "host pid policy violation") ++
    refs.hostIPCServices.flatMap (fun svc =>
      add quote .hostIPC ⟨svc, svc⟩ (validateHostIPC p [svc]) "host ipc policy violation") ++
    refs.mounts.flatMap (fun mount =>
      add quote .dockerSocket mount (validateDockerSocket p [mount.value])
        "docker socket policy violation") ++
    refs.capAdds.flatMap (fun c =>
      add quote .capAdd c (validateCapAdd p [c.value]) "cap_add policy violation") ++
    refs.devices.flatMap (fun d =>
      add quote .devices d (validateDevices p [d.value]) "device policy violation") ++
    refs.securityOpts.flatMap (fun o =>
      add quote .securityOpt o (validateSecurityOpt p [o.value]) "security_opt policy violation")

def outcome (vs : List Violation) : Except Text Unit := failFirst (vs.map (·.message))

section Loops

variable {quote} {check : Check} {label : String} {validate : Text → Except Compose.Violation Unit}

theorem outcome_append (vs ws : List Violation) : outcome (vs ++ ws) = outcome vs >>= fun _ => outcome ws := by
  simp [outcome, failFirst_append]

theorem outcome_add (ref : OwnedRef) (r : Except Compose.Violation Unit) :
    outcome (add quote check ref r label) = wrap quote label r := by
  cases r <;> rfl

theorem validateEach_singleton (v : Text) : validateEach validate [v] = validate v := by
  simp only [validateEach]
  cases validate v <;> rfl

theorem wrap_bind (r s : Except Compose.Violation Unit) :
    wrap quote label (do r; s) = (do wrap quote label r; wrap quote label s) := by
  cases r <;> rfl

theorem wrap_validateEach (refs : List OwnedRef) : wrap quote label (validateEach validate (values refs)) =
      outcome (refs.flatMap (fun r => add quote check r (validate r.value) label)) := by
  induction refs with
  | nil => rfl
  | cons r refs ih =>
    rw [List.flatMap_cons, outcome_append, outcome_add, ← ih]
    exact wrap_bind (validate r.value) _

theorem wrap_validateEach_singleton (refs : List OwnedRef) : wrap quote label (validateEach validate (values refs)) =
      outcome (refs.flatMap (fun r => add quote check r (validateEach validate [r.value]) label)) := by
  simp only [validateEach_singleton]
  exact wrap_validateEach refs

theorem wrap_validateFlag (blocked : Bool) (violation : Text → Compose.Violation) (svcs : List Text) :
    wrap quote label (validateFlag blocked violation svcs) = outcome (svcs.flatMap (fun svc =>
        add quote check ⟨svc, svc⟩ (validateFlag blocked violation [svc]) label)) := by
  induction svcs with
  | nil => rfl
  | cons svc svcs ih =>
    rw [List.flatMap_cons, outcome_append, outcome_add, ← ih]
    cases blocked with
    | true => rfl
    | false => cases svcs <;> rfl

end Loops

theorem validateComposeConfig_eq (p : WorkerPolicy) (config : List (Text × Value)) :
    validateComposeConfig quote p config = outcome (composeViolations quote p config) := by
  unfold validateComposeConfig composeViolations
  by_cases hp : p.disabled = true
  · rw [if_pos hp, if_pos hp]
    rfl
  · rw [if_neg hp, if_neg hp]
    simp only [validateImages, validateVolumes, validatePrivileged, validateHostNetwork,
      validateHostPID, validateHostIPC, validateDockerSocket, validateCapAdd, validateDevices,
      validateSecurityOpt, validateListed, outcome_append, bind_assoc, ← wrap_validateEach,
      ← wrap_validateEach_singleton, ← wrap_validateFlag]

/-- What lint lists is what a deploy rejects, and the deploy names the first of it. -/
theorem violations_agree (p : WorkerPolicy) (config : List (Text × Value)) :
    (validateComposeConfig quote p config = .ok () ↔ composeViolations quote p config = []) ∧
      ∀ e, validateComposeConfig quote p config = .error e →
        ∃ v, (composeViolations quote p config).head? = some v ∧ v.message = e := by
  rw [validateComposeConfig_eq, outcome, failFirst_ok_iff, List.map_eq_nil_iff]
  refine ⟨Iff.rfl, fun e he => ?_⟩
  rw [failFirst_error_iff, List.head?_map, Option.map_eq_some_iff] at he
  exact he

theorem validateComposeConfig_ok_iff {p : WorkerPolicy} {config : List (Text × Value)} :
    validateComposeConfig quote p config = .ok () ↔ accepts p config := by
  have hwrap (label : String) (r : Except Compose.Violation Unit) : wrap quote label r = .ok () ↔ r = .ok () := by
    cases r <;> simp [wrap, Except.mapError]
  have hbind (a b : Except Text Unit) : (do a; b) = .ok () ↔ a = .ok () ∧ b = .ok () := by
    cases a <;> simp [bind, Except.bind]
  unfold validateComposeConfig accepts Compose.validateComposeConfig
  by_cases hp : p.disabled = true
  · rw [if_pos hp, if_pos hp]
    simp
  · rw [if_neg hp, if_neg hp]
    simp only [validateRefs, hbind, hwrap, bind_ok]

def Check.name : Check → String
  | .images => "images"
  | .volumes => "volumes"
  | .networks => "networks"
  | .privileged => "privileged"
  | .hostNetwork => "host_network"
  | .hostPID => "host_pid"
  | .hostIPC => "host_ipc"
  | .dockerSocket => "docker_socket"
  | .capAdd => "cap_add"
  | .devices => "devices"
  | .securityOpt => "security_opt"

def policyCheckPaths : Check → String
  | .images => "image"
  | .volumes => "volumes"
  | .networks => "networks"
  | .privileged => "privileged"
  | .hostNetwork => "network_mode"
  | .hostPID => "pid"
  | .hostIPC => "ipc"
  | .dockerSocket => "volumes"
  | .capAdd => "cap_add"
  | .devices => "devices"
  | .securityOpt => "security_opt"

inductive Severity where
  | error | warning | info

structure Finding where
  rule : Text
  severity : Severity
  service : Text
  path : Text
  message : Text
  hint : Text

def finding (v : Violation) : Finding where
  rule := "policy/".toList ++ v.check.name.toList
  severity := .error
  service := v.service
  path := if v.service = [] then []
    else "services.".toList ++ v.service ++ ".".toList ++ (policyCheckPaths v.check).toList
  message := v.message
  hint := "blocked by this worker's deploy policy — adjust the compose file, or the policy under Settings".toList

def rulePolicyViolations (policy : Option WorkerPolicy) (config : List (Text × Value)) : List Finding :=
  match policy with
  | none => []
  | some p => if p.disabled then [] else (composeViolations quote p config).map finding

theorem rulePolicyViolations_eq_nil_iff (p : WorkerPolicy) (config : List (Text × Value)) :
    rulePolicyViolations quote (some p) config = [] ↔ accepts p config := by
  rw [← validateComposeConfig_ok_iff quote, validateComposeConfig_eq, outcome, failFirst_ok_iff, rulePolicyViolations]
  by_cases hp : p.disabled = true
  · simp [hp, composeViolations]
  · simp [hp]

end Wireops.Policy.Violations
