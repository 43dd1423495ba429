import Mathlib.Data.Char
import Mathlib.Data.List.Lex
import Mathlib.Data.List.Sort
import Wireops.Lib.Strings

namespace Wireops.Policy.Compose

open Lib.Strings

/-- A decoded JSON value; the keys of an object are distinct. -/
inductive Value where
  | null
  | bool (b : Bool)
  | number (digits : Text)
  | str (s : Text)
  | arr (items : List Value)
  | obj (fields : List (Text × Value))

namespace Value

def asBool : Value → Option Bool
  | .bool b => some b
  | _ => none

def asStr : Value → Option Text
  | .str s => some s
  | _ => none

def asArr : Value → Option (List Value)
  | .arr items => some items
  | _ => none

def asObj : Value → Option (List (Text × Value))
  | .obj fields => some fields
  | _ => none

end Value

def field (key : String) (fields : List (Text × Value)) : Option Value := fields.lookup key.toList

def strField (key : String) (fields : List (Text × Value)) : Option Text :=
  ((field key fields).bind Value.asStr).filter (· ≠ [])

def isHostPath (src : Text) : Bool :=
  "/".toList.isPrefixOf src || "./".toList.isPrefixOf src || "../".toList.isPrefixOf src ||
    "~".toList.isPrefixOf src

variable (p : WorkerPolicy) (config : List (Text × Value))

def namedVolumeDevices : List (Text × Text) :=
  match (field "volumes" config).bind Value.asObj with
  | none => []
  | some topVolumes => topVolumes.filterMap (fun (name, defn) => do
      let defn ← defn.asObj
      let opts ← (field "driver_opts" defn).bind Value.asObj
      let device ← strField "device" opts
      some (name, device))

structure OwnedRef where
  service : Text
  value : Text

structure ComposeRefs where
  images : List OwnedRef := []
  volumes : List OwnedRef := []
  networks : List OwnedRef := []
  privilegedServices : List Text := []
  hostNetworkServices : List Text := []
  hostPIDServices : List Text := []
  hostIPCServices : List Text := []
  capAdds : List OwnedRef := []
  securityOpts : List OwnedRef := []
  devices : List OwnedRef := []
  mounts : List OwnedRef := []

def values (refs : List OwnedRef) : List Text := refs.map (·.value)

def sortNames (fields : List (Text × Value)) : List (Text × Value) :=
  fields.insertionSort (fun a b => a.1 ≤ b.1)

def strItems (key : String) (svc : List (Text × Value)) : List Text :=
  match (field key svc).bind Value.asArr with
  | none => []
  | some items => (items.filterMap Value.asStr).filter (· ≠ [])

def deviceSource (dev : Text) : Option Text :=
  some (trimSpace (before ':' dev)) |>.filter (· ≠ [])

def shortSource (vol : Text) : Option Text :=
  let vol := trim (fun c => c = '"' || c = '\'') (trimSpace (trimPrefix "-".toList (trimSpace vol)))
  let src := trimSpace (before ':' vol)
  if vol.contains ':' || isHostPath src then (some src).filter (· ≠ []) else none

def volumeSource : Value → Option Text
  | .str vol => shortSource vol
  | .obj vol => strField "source" vol
  | _ => none

def volumeSources (svc : List (Text × Value)) : List Text :=
  match (field "volumes" svc).bind Value.asArr with
  | none => []
  | some vols => vols.filterMap volumeSource

def networkNames (svc : List (Text × Value)) : List Text :=
  match field "networks" svc with
  | some (.obj nets) => (sortNames nets).map (·.1)
  | some (.arr _) => strItems "networks" svc
  | _ => []

def services (config : List (Text × Value)) : List (Text × List (Text × Value)) :=
  match (field "services" config).bind Value.asObj with
  | none => []
  | some svcs => (sortNames svcs).filterMap (fun (name, svc) => svc.asObj.map (name, ·))

def owned (name : Text) (vs : List Text) : List OwnedRef := vs.map (⟨name, ·⟩)

def serviceRefs (name : Text) (svc : List (Text × Value)) : ComposeRefs where
  images := owned name (strField "image" svc).toList
  privilegedServices := if (field "privileged" svc).bind Value.asBool = some true then [name] else []
  hostNetworkServices :=
    if (field "network_mode" svc).bind Value.asStr = some "host".toList then [name] else []
  hostPIDServices := if (field "pid" svc).bind Value.asStr = some "host".toList then [name] else []
  hostIPCServices := if (field "ipc" svc).bind Value.asStr = some "host".toList then [name] else []
  capAdds := owned name (strItems "cap_add" svc)
  securityOpts := owned name (strItems "security_opt" svc)
  devices := owned name ((strItems "devices" svc).filterMap deviceSource)
  volumes := owned name (volumeSources svc)
  networks := owned name (networkNames svc)

def ComposeRefs.append (a b : ComposeRefs) : ComposeRefs where
  images := a.images ++ b.images
  volumes := a.volumes ++ b.volumes
  networks := a.networks ++ b.networks
  privilegedServices := a.privilegedServices ++ b.privilegedServices
  hostNetworkServices := a.hostNetworkServices ++ b.hostNetworkServices
  hostPIDServices := a.hostPIDServices ++ b.hostPIDServices
  hostIPCServices := a.hostIPCServices ++ b.hostIPCServices
  capAdds := a.capAdds ++ b.capAdds
  securityOpts := a.securityOpts ++ b.securityOpts
  devices := a.devices ++ b.devices
  mounts := a.mounts ++ b.mounts

def resolvedVolumeDevices (volumes : List OwnedRef) : List OwnedRef :=
  (volumes.filter (fun r => !isHostPath r.value)).filterMap (fun r =>
    ((namedVolumeDevices config).lookup r.value).map (⟨r.service, ·⟩))

def extractComposeRefs : ComposeRefs :=
  let refs : ComposeRefs := (services config).foldl
    (fun (refs : ComposeRefs) (name, svc) => refs.append (serviceRefs name svc)) {}
  { refs with
    mounts := refs.volumes ++ refs.devices ++ resolvedVolumeDevices config refs.volumes }

/-- The resolved policy of a worker. An empty list permits everything. Each
check tests `disabled` again after `validateComposeConfig`. -/
structure WorkerPolicy where
  disabled : Bool := false
  allowedVolumes : List Text := []
  allowedNetworks : List Text := []
  allowedImages : List Text := []
  allowedCapAdd : List Text := []
  allowedDevices : List Text := []
  allowedSecurityOpt : List Text := []
  preventLatestImages : Bool := false
  blockHostVolumes : Bool := false
  blockPrivileged : Bool := false
  blockHostNetwork : Bool := false
  blockHostPID : Bool := false
  blockHostIPC : Bool := false
  blockDockerSocket : Bool := false
  allowRenderOverrides : Bool := false

inductive Violation where
  | latestImage (image : Text)
  | image (image : Text)
  | hostVolume (path : Text)
  | volume (path : Text)
  | network (name : Text)
  | privileged (service : Text)
  | hostNetwork (service : Text)
  | hostPID (service : Text)
  | hostIPC (service : Text)
  | dockerSocket (mount : Text)
  | capAdd (capability : Text)
  | device (path : Text)
  | securityOpt (entry : Text)
  deriving DecidableEq

def validateEach (check : Text → Except Violation Unit) : List Text → Except Violation Unit
  | [] => .ok ()
  | v :: vs => do
    check v
    validateEach check vs

def isLatestOrUntagged (image : Text) : Bool :=
  let suffix := afterLast '/' (before '@' image)
  if suffix.contains ':' then
    let tag := afterLast ':' suffix
    tag = [] || tag = "latest".toList
  else true

def matchPattern (pattern image : Text) : Bool := pattern = image || matchGlob pattern image

def imageAllowed (allowed : List Text) (image : Text) : Bool := allowed.any (matchPattern · image)

def validateImage (image : Text) : Except Violation Unit :=
  if p.preventLatestImages && isLatestOrUntagged image then .error (.latestImage image)
  else if p.allowedImages ≠ [] && !imageAllowed p.allowedImages image then .error (.image image)
  else .ok ()

def validateImages : List Text → Except Violation Unit :=
  validateEach (validateImage p)

/-- An entry of the allowlist permits a volume: a bind mount by the directory it
lies in, a named volume by its name. -/
def permitsVolume (host allowed : Text) : Bool :=
  if isHostPath host then within (clean allowed) (clean host) else host = allowed

def validateSingleVolume (vol : Text) : Except Violation Unit :=
  let hostPart := before ':' vol
  if p.blockHostVolumes && isHostPath hostPart then .error (.hostVolume hostPart)
  else if p.allowedVolumes = [] || p.allowedVolumes.any (permitsVolume hostPart) then .ok ()
  else .error (.volume hostPart)

def validateVolumes : List Text → Except Violation Unit :=
  validateEach (validateSingleVolume p)

def validateNetwork (network : Text) : Except Violation Unit :=
  if network = [] || p.allowedNetworks = [] || p.allowedNetworks.contains network then .ok ()
  else .error (.network network)

/-- The checks of a flag reject the first service that was found. -/
def validateFlag (blocked : Bool) (violation : Text → Violation) : List Text → Except Violation Unit
  | [] => .ok ()
  | svc :: _ => if blocked then .error (violation svc) else .ok ()

def validatePrivileged : List Text → Except Violation Unit :=
  validateFlag p.blockPrivileged .privileged

def validateHostNetwork : List Text → Except Violation Unit :=
  validateFlag p.blockHostNetwork .hostNetwork

def validateHostPID : List Text → Except Violation Unit :=
  validateFlag p.blockHostPID .hostPID

def validateHostIPC : List Text → Except Violation Unit :=
  validateFlag p.blockHostIPC .hostIPC

def dockerSocketPaths : List Text := ["/var/run/docker.sock".toList, "/run/docker.sock".toList]

/-- The mount is a socket of the Docker daemon, or a directory above one. -/
def exposesSocket (mount : Text) : Bool :=
  let src := clean (before ':' mount)
  let dir := if src = ['/'] then src else src ++ ['/']
  dockerSocketPaths.any (fun sockPath => src = sockPath || dir.isPrefixOf sockPath)

def validateDockerSocket : List Text → Except Violation Unit :=
  validateEach (fun m =>
    if p.blockDockerSocket && exposesSocket m then .error (.dockerSocket m) else .ok ())

def validateListed (allowed : List Text) (violation : Text → Violation) : List Text → Except Violation Unit :=
  validateEach (fun v => if allowed = [] || allowed.contains v then .ok () else .error (violation v))

def validateCapAdd : List Text → Except Violation Unit :=
  validateListed p.allowedCapAdd .capAdd

def validateDevices : List Text → Except Violation Unit :=
  validateListed p.allowedDevices .device

def validateSecurityOpt : List Text → Except Violation Unit :=
  validateListed p.allowedSecurityOpt .securityOpt

def validateRefs (refs : ComposeRefs) : Except Violation Unit := do
  validateImages p (values refs.images)
  validateVolumes p (values refs.volumes)
  validateEach (validateNetwork p) (values refs.networks)
  validatePrivileged p refs.privilegedServices
  validateHostNetwork p refs.hostNetworkServices
  validateHostPID p refs.hostPIDServices
  validateHostIPC p refs.hostIPCServices
  validateDockerSocket p (values refs.mounts)
  validateCapAdd p (values refs.capAdds)
  validateDevices p (values refs.devices)
  validateSecurityOpt p (values refs.securityOpts)

def validateComposeConfig : Except Violation Unit :=
  if p.disabled then .ok () else validateRefs p (extractComposeRefs config)

def accepts : Prop :=
  validateComposeConfig p config = .ok ()

end Wireops.Policy.Compose
