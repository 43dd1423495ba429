import Wireops.Policy.Extract
import Wireops.Policy.Coverage

namespace Wireops.Policy.Mounts

open List Lib.Strings Policy.Compose Policy.Coverage

variable {p : WorkerPolicy} {config : List (Text × Value)}

/-- What Compose mounts for a volume: a path of the host, or a volume by its name. -/
inductive Source where
  | path (path : Text)
  | volume (name : Text)

/-- In the short form the first character tells a path. -/
def isFilePath (src : Text) : Bool := src.head?.any (['.', '/', '~'].contains ·)

/-- A short form without a colon is a path in the container. -/
def source : Value → Option Source
  | .str vol =>
    if vol.contains ':' then
      some (if isFilePath (before ':' vol) then .path (before ':' vol) else .volume (before ':' vol))
    else none
  | .obj vol =>
    (strField "source" vol).bind fun src =>
      if strField "type" vol = some "bind".toList then some (.path src)
      else if strField "type" vol = some "volume".toList then some (.volume src)
      else none
  | _ => none

/-- A named volume stands for a path of the host if its driver has it as its device. -/
def hostPath (config : List (Text × Value)) : Source → Option Text
  | .path path => some path
  | .volume name => ((namedVolumeDevices config).lookup name).filter (fun device => device.head? = some '/')

def volumeEntries (config : List (Text × Value)) : List Value :=
  (services config).flatMap (fun s => ((field "volumes" s.2).bind Value.asArr).getD [])

def mountedPaths (config : List (Text × Value)) : List Text :=
  (volumeEntries config).filterMap (fun entry => (source entry).bind (hostPath config))

def permitsPath (p : WorkerPolicy) (path : Text) : Bool :=
  p.disabled || !p.blockHostVolumes &&
    (p.allowedVolumes = [] || p.allowedVolumes.any (fun a => within (clean a) (clean path)))

theorem permitsPath_iff {path : Text} : permitsPath p path = true ↔ p.disabled = true ∨ p.blockHostVolumes = false ∧
      (p.allowedVolumes = [] ∨ ∃ a ∈ p.allowedVolumes, within (clean a) (clean path) = true) := by
  simp [permitsPath]

/-- Every mounted path is one of the volumes that the check looks at, or inside
one; and if there is any, the check sees a host path. -/
structure Visible (config : List (Text × Value)) : Prop where
  host : mountedPaths config ≠ [] → ∃ w ∈ values (extractComposeRefs config).volumes, isHostPath (before ':' w) = true
  inside : ∀ path ∈ mountedPaths config, ∃ w ∈ values (extractComposeRefs config).volumes,
    within (clean (before ':' w)) (clean path) = true

def Restricts (p : WorkerPolicy) : Prop := p.blockHostVolumes = true ∨ p.allowedVolumes ≠ []

theorem Visible.permits (h : Visible config) (hacc : accepts p config) {path : Text}
    (hm : path ∈ mountedPaths config) : permitsPath p path = true := by
  rw [permitsPath_iff]
  obtain hd | hp := accepts_iff.mp hacc
  · exact .inl hd
  · refine .inr ⟨?_, ?_⟩
    · obtain ⟨w, hw, hh⟩ := h.host (ne_nil_of_mem hm)
      exact (validateSingleVolume_ok.mp (hp.volumes w hw)).1 hh
    · obtain ⟨w, hw, hin⟩ := h.inside path hm
      obtain hnil | ⟨a, ha, hperm⟩ := (validateSingleVolume_ok.mp (hp.volumes w hw)).2
      · exact .inl hnil
      · exact .inr ⟨a, ha, within_trans (within_of_permitsVolume hperm) hin⟩

theorem mounted_paths_permitted_iff (config : List (Text × Value)) :
    (∀ p, Restricts p → accepts p config → ∀ path ∈ mountedPaths config, permitsPath p path = true) ↔
      Visible config := by
  constructor
  · intro h
    refine ⟨fun hne => by_contra (fun hno => ?_), fun path hm => ?_⟩
    · -- the policy that blocks host volumes sees none and accepts
      obtain ⟨path, hm⟩ := exists_mem_of_ne_nil _ hne
      have hacc : accepts { blockHostVolumes := true } config := by
        refine accepts_iff.mpr (.inr { passes_open _ with volumes := fun w hw => ?_ })
        exact validateSingleVolume_ok.mpr ⟨fun hh => absurd ⟨w, hw, hh⟩ hno, .inl rfl⟩
      cases h _ (.inl rfl) hacc path hm
    · refine exists_covering (q := fun a => within (clean a) (clean path) = true) (not_within_plain path)
        (fun allowed hne hraw => ?_)
      have hacc : accepts { allowedVolumes := allowed } config := by
        refine accepts_iff.mpr (.inr { passes_open _ with volumes := fun w hw => ?_ })
        exact validateSingleVolume_ok.mpr ⟨fun _ => rfl, .inr (hraw w hw)⟩
      obtain hd | ⟨_, hallow⟩ := permitsPath_iff.mp (h _ (.inr hne) hacc path hm)
      · cases hd
      · exact hallow.resolve_left hne
  · exact fun h p _ hacc path hm => h.permits hacc hm

def boundVolume : List (Text × Value) :=
  [("services".toList, .obj [("web".toList, .obj
      [("image".toList, .str "nginx:1.27".toList),
        ("volumes".toList, .arr [.str "data:/data".toList])])]),
    ("volumes".toList, .obj [("data".toList, .obj [("driver_opts".toList, .obj
      [("type".toList, .str "none".toList), ("o".toList, .str "bind".toList),
        ("device".toList, .str "/etc".toList)])])])]

theorem bound_volume_accepted : accepts { blockHostVolumes := true } boundVolume ∧
    mountedPaths boundVolume = ["/etc".toList] ∧ permitsPath { blockHostVolumes := true } "/etc".toList = false := by
  refine ⟨rfl, ?_, rfl⟩
  decide

end Wireops.Policy.Mounts
