import Wireops.Lib.Table
import Wireops.Policy.Load

namespace Wireops.Policy.Inherit

open Option Lib.Strings Lib.Steps Policy.Compose Policy.Load

def allowlists (p : WorkerPolicy) : List (List Text) :=
  [p.allowedVolumes, p.allowedNetworks, p.allowedImages, p.allowedCapAdd, p.allowedDevices, p.allowedSecurityOpt]

def flags (p : WorkerPolicy) : List Bool :=
  [p.preventLatestImages, p.blockHostVolumes, p.blockPrivileged, p.blockHostNetwork, p.blockHostPID,
    p.blockHostIPC, p.blockDockerSocket, p.allowRenderOverrides]

inductive Last where
  | enrolled | saved | reset
  deriving DecidableEq

structure Row where
  record : WorkerRecord := {}
  last : Last := .enrolled

structure State where
  global : Option PolicyJSON := none
  workers : String → Option Row := fun _ => none

def State.policies (s : State) : Policies where
  global := s.global
  workers id := (s.workers id).map (·.record)

inductive Action where
  | enroll (workerID : String)
  | save (workerID : String) (body : WorkerPolicyOverrideJSON)
  | reset (workerID : String)
  | saveGlobal (body : PolicyJSON)
  deriving DecidableEq, Repr

def State.setRow (s : State) (workerID : String) (row : Row) : State :=
  { s with workers := Function.update s.workers workerID (some row) }

/-- A worker is enrolled under a new id; the routes find no worker under others. -/
def step (s : State) : Action → Option State
  | .enroll workerID =>
    if workerID = "" ∨ (s.workers workerID).isSome then none else some (s.setRow workerID {})
  | .save workerID body => do
    let _ ← s.workers workerID
    some (s.setRow workerID ⟨savePolicy body, .saved⟩)
  | .reset workerID => do
    let _ ← s.workers workerID
    some (s.setRow workerID ⟨resetPolicy, .reset⟩)
  | .saveGlobal body => some { s with global := some body }

/-- What the record holds while no override is in force. -/
def Bare (row : Row) : Prop :=
  (row.last = .enrolled → row.record = {}) ∧ (row.last = .reset → row.record = resetPolicy)

def Inv (s : State) : Prop := ∀ id row, s.workers id = some row → id ≠ "" ∧ Bare row

theorem inv_setRow {s : State} {workerID : String} {row : Row} (hs : Inv s) (hid : workerID ≠ "")
    (hrow : Bare row) : Inv (s.setRow workerID row) :=
  Lib.Table.forall_update_some hs ⟨hid, hrow⟩

theorem step_inv {s t : State} {a : Action} (hs : Inv s) (h : step s a = some t) : Inv t := by
  cases a with
  | enroll workerID =>
    obtain ⟨hnew, ⟨⟩⟩ := ite_none_left_eq_some.mp h
    exact inv_setRow hs (fun he => hnew (.inl he)) ⟨fun _ => rfl, nofun⟩
  | save workerID body =>
    obtain ⟨row, hrow, h⟩ := bind_eq_some_iff.mp h
    cases h
    exact inv_setRow hs (hs _ _ hrow).1 ⟨nofun, nofun⟩
  | reset workerID =>
    obtain ⟨row, hrow, h⟩ := bind_eq_some_iff.mp h
    cases h
    exact inv_setRow hs (hs _ _ hrow).1 ⟨nofun, fun _ => rfl⟩
  | saveGlobal body =>
    cases h
    exact hs

/-- The policy restricts nothing by a list, and nothing by a flag either if the
worker was only enrolled. -/
def Silent (last : Last) (g : WorkerPolicy) : Prop :=
  (∀ list ∈ allowlists g, list = []) ∧ (last = .enrolled → ∀ flag ∈ flags g, flag = false)

instance (last : Last) (g : WorkerPolicy) : Decidable (Silent last g) :=
  inferInstanceAs (Decidable (_ ∧ (_ → _)))

variable (g : WorkerPolicy)

theorem allowlists_open_iff : List.replicate 6 [] = allowlists g ↔ ∀ list ∈ allowlists g, list = [] := by
  rw [eq_comm, List.eq_replicate_iff]
  exact and_iff_right rfl

theorem flags_open_iff : List.replicate 8 false = flags g ↔ ∀ flag ∈ flags g, flag = false := by
  rw [eq_comm, List.eq_replicate_iff]
  exact and_iff_right rfl

theorem resolve_enrolled_iff : allowlists (resolve g {}) = allowlists g ∧ flags (resolve g {}) = flags g ↔
      Silent .enrolled g := by
  have hlists : allowlists (resolve g {}) = List.replicate 6 [] := rfl
  have hflags : flags (resolve g {}) = List.replicate 8 false := rfl
  rw [hlists, hflags, allowlists_open_iff, flags_open_iff, Silent]
  exact and_congr_right (fun _ => ⟨fun h _ => h, fun h => h rfl⟩)

theorem resolve_reset_iff :
    allowlists (resolve g resetPolicy) = allowlists g ∧ flags (resolve g resetPolicy) = flags g ↔
      Silent .reset g := by
  have hlists : allowlists (resolve g resetPolicy) = List.replicate 6 [] := rfl
  have hflags : flags (resolve g resetPolicy) = flags g := rfl
  rw [hlists, hflags, allowlists_open_iff, Silent]
  exact and_congr_right (fun _ => ⟨fun _ => nofun, fun _ => rfl⟩)

theorem no_override_inherits_iff {g : Option PolicyJSON} {as : List Action} {s : State}
    {workerID : String} {row : Row} (hr : run step { global := g } as = some s)
    (hw : s.workers workerID = some row) (hn : row.last ≠ .saved) :
    (allowlists (load s.policies workerID) = allowlists (loadGlobal s.global) ∧
      flags (load s.policies workerID) = flags (loadGlobal s.global)) ↔ Silent row.last (loadGlobal s.global) := by
  have hinit : Inv { global := g } := by
    intro id row h
    cases h
  have hinv : Inv s := run_invariant_of_step (fun _ _ _ => step_inv) hinit hr
  obtain ⟨hid, henrolled, hreset⟩ := hinv workerID row hw
  have hload : load s.policies workerID = resolve (loadGlobal s.global) row.record := by
    simp only [load, State.policies, if_neg hid, hw, map_some]
  rw [hload]
  cases hlast : row.last with
  | enrolled =>
    rw [henrolled hlast]
    exact resolve_enrolled_iff _
  | saved => exact absurd hlast hn
  | reset =>
    rw [hreset hlast]
    exact resolve_reset_iff _

def restricting : PolicyJSON where
  allowedImages := ["ghcr.io/org/*".toList]
  blockPrivileged := true

def history : List Action :=
  [.enroll "w1", .enroll "w2", .save "w2" { inherit := true }, .reset "w2"]

theorem enrolled_and_reset_open : ∃ s ∈ run step { global := some restricting } history,
      (s.workers "w1").map (·.last) = some .enrolled ∧ (s.workers "w2").map (·.last) = some .reset ∧
      loadGlobal s.global ≠ {} ∧ load s.policies "w1" = {} ∧ load s.policies "w2" = { blockPrivileged := true } := by
  refine ⟨_, rfl, rfl, rfl, ?_, rfl, rfl⟩
  intro h
  cases congrArg WorkerPolicy.blockPrivileged h

theorem reset_inherits_flags : ∃ s ∈ run step { global := some { blockPrivileged := true } } history,
      allowlists (load s.policies "w2") = allowlists (loadGlobal s.global) ∧
        flags (load s.policies "w2") = flags (loadGlobal s.global) := by
  refine ⟨_, rfl, ?_⟩
  exact (@no_override_inherits_iff (some { blockPrivileged := true }) history _ "w2"
    ⟨resetPolicy, .reset⟩ rfl rfl nofun).mpr (by decide)

end Wireops.Policy.Inherit
