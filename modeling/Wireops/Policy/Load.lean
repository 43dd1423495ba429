import Wireops.Lib.Steps
import Wireops.Policy.Compose

namespace Wireops.Policy.Load

open Lib.Strings Policy.Compose

structure PolicyJSON where
  enabled : Bool := true
  allowedVolumes : List Text := []
  allowedNetworks : List Text := []
  allowedImages : List Text := []
  allowedCapAdd : List Text := []
  allowedDevices : List Text := []
  allowedSecurityOpt : List Text := []
  preventLatestImages : Bool := false
  blockHostVolumes : Bool := false
  blockPrivileged : Bool := false
  blockHostNetwork : Bool := false
  blockHostPID : Bool := false
  blockHostIPC : Bool := false
  blockDockerSocket : Bool := false
  allowRenderOverrides : Bool := false
  deriving DecidableEq, Repr

/-- The flags a worker overrides; `none` inherits. -/
structure PolicyFlags where
  preventLatestImages : Option Bool := none
  blockHostVolumes : Option Bool := none
  blockPrivileged : Option Bool := none
  blockHostNetwork : Option Bool := none
  blockHostPID : Option Bool := none
  blockHostIPC : Option Bool := none
  blockDockerSocket : Option Bool := none
  allowRenderOverrides : Option Bool := none
  deriving DecidableEq, Repr

/-- The policy fields of a worker's record that nothing has set: a bool is
false, a JSON list null, not empty. The text of `policy_flags` is `none` where
it is empty. -/
structure WorkerRecord where
  policyInherit : Bool := false
  policyVolumes : Option (List Text) := none
  policyNetworks : Option (List Text) := none
  policyImages : Option (List Text) := none
  policyCapAdd : Option (List Text) := none
  policyDevices : Option (List Text) := none
  policySecurityOpt : Option (List Text) := none
  policyFlags : Option PolicyFlags := none

structure WorkerPolicyOverrideJSON where
  inherit : Bool := false
  allowedVolumes : Option (List Text) := none
  allowedNetworks : Option (List Text) := none
  allowedImages : Option (List Text) := none
  allowedCapAdd : Option (List Text) := none
  allowedDevices : Option (List Text) := none
  allowedSecurityOpt : Option (List Text) := none
  flags : PolicyFlags := {}
  deriving DecidableEq, Repr

def loadGlobal : Option PolicyJSON → WorkerPolicy
  | none => {}
  | some rec =>
    { disabled := !rec.enabled
      allowedVolumes := rec.allowedVolumes
      allowedNetworks := rec.allowedNetworks
      allowedImages := rec.allowedImages
      allowedCapAdd := rec.allowedCapAdd
      allowedDevices := rec.allowedDevices
      allowedSecurityOpt := rec.allowedSecurityOpt
      preventLatestImages := rec.preventLatestImages
      blockHostVolumes := rec.blockHostVolumes
      blockPrivileged := rec.blockPrivileged
      blockHostNetwork := rec.blockHostNetwork
      blockHostPID := rec.blockHostPID
      blockHostIPC := rec.blockHostIPC
      blockDockerSocket := rec.blockDockerSocket
      allowRenderOverrides := rec.allowRenderOverrides }

def inheritRaw (w : WorkerRecord) : Option Bool := some w.policyInherit

def resolveList (own : Option (List Text)) (global : List Text) (inherit : Bool) : List Text :=
  match own with
  | some list => list
  | none => if inherit then global else []

def resolveFlag (own : Option Bool) (global inherit : Bool) : Bool :=
  match own with
  | some flag => flag
  | none => if inherit then global else false

def resolve (global : WorkerPolicy) (w : WorkerRecord) : WorkerPolicy :=
  let inherit := (inheritRaw w).getD true
  let flags := w.policyFlags.getD {}
  { disabled := global.disabled
    allowedVolumes := resolveList w.policyVolumes global.allowedVolumes inherit
    allowedNetworks := resolveList w.policyNetworks global.allowedNetworks inherit
    allowedImages := resolveList w.policyImages global.allowedImages inherit
    allowedCapAdd := resolveList w.policyCapAdd global.allowedCapAdd inherit
    allowedDevices := resolveList w.policyDevices global.allowedDevices inherit
    allowedSecurityOpt := resolveList w.policySecurityOpt global.allowedSecurityOpt inherit
    preventLatestImages := resolveFlag flags.preventLatestImages global.preventLatestImages inherit
    blockHostVolumes := resolveFlag flags.blockHostVolumes global.blockHostVolumes inherit
    blockPrivileged := resolveFlag flags.blockPrivileged global.blockPrivileged inherit
    blockHostNetwork := resolveFlag flags.blockHostNetwork global.blockHostNetwork inherit
    blockHostPID := resolveFlag flags.blockHostPID global.blockHostPID inherit
    blockHostIPC := resolveFlag flags.blockHostIPC global.blockHostIPC inherit
    blockDockerSocket := resolveFlag flags.blockDockerSocket global.blockDockerSocket inherit
    allowRenderOverrides :=
      resolveFlag flags.allowRenderOverrides global.allowRenderOverrides inherit }

structure Policies where
  global : Option PolicyJSON := none
  workers : String → Option WorkerRecord := fun _ => none

def load (ps : Policies) (workerID : String) : WorkerPolicy :=
  let global := loadGlobal ps.global
  if workerID = "" then global
  else
    match ps.workers workerID with
    | none => global
    | some w => resolve global w

def savePolicy (body : WorkerPolicyOverrideJSON) : WorkerRecord where
  policyInherit := body.inherit
  policyVolumes := body.allowedVolumes
  policyNetworks := body.allowedNetworks
  policyImages := body.allowedImages
  policyCapAdd := body.allowedCapAdd
  policyDevices := body.allowedDevices
  policySecurityOpt := body.allowedSecurityOpt
  policyFlags := some body.flags

def resetPolicy : WorkerRecord where
  policyInherit := true
  policyVolumes := some []
  policyNetworks := some []
  policyImages := some []
  policyCapAdd := some []
  policyDevices := some []
  policySecurityOpt := some []

end Wireops.Policy.Load
