import Wireops.Lib.Paths
import Wireops.Policy.Coverage
import Wireops.Policy.Extract

namespace Wireops.Policy.Names

open Bool List Lib.Strings Lib.Paths Policy.Compose Policy.Coverage

variable {p : WorkerPolicy} {config : List (Text × Value)}

def realName (kind : String) (config : List (Text × Value)) (key : Text) : Text :=
  ((do
    let entries ← (field kind config).bind Value.asObj
    let entry ← (entries.lookup key).bind Value.asObj
    strField "name" entry) : Option Text).getD key

def realNetwork : List (Text × Value) → Text → Text := realName "networks"

def realVolume : List (Text × Value) → Text → Text := realName "volumes"

def networkRefs (config : List (Text × Value)) : List Text :=
  (values (extractComposeRefs config).networks).filter (· ≠ [])

def volumeRefs (config : List (Text × Value)) : List Text :=
  (values (extractComposeRefs config).volumes).filter (fun v => !isHostPath v)

def checkedNames (config : List (Text × Value)) : List Text :=
  ((values (extractComposeRefs config).volumes).map (before ':')).filter (fun v => !isHostPath v)

structure Named (config : List (Text × Value)) : Prop where
  networks : ∀ n ∈ networkRefs config, realNetwork config n ∈ networkRefs config
  volumes : ∀ v ∈ volumeRefs config, realVolume config v ∈ checkedNames config

structure RealListed (p : WorkerPolicy) (config : List (Text × Value)) : Prop where
  networks : p.allowedNetworks ≠ [] → ∀ n ∈ networkRefs config, realNetwork config n ∈ p.allowedNetworks
  volumes : p.allowedVolumes ≠ [] → ∀ v ∈ volumeRefs config, realVolume config v ∈ p.allowedVolumes

theorem networkRefs_listed (hp : Passes p (extractComposeRefs config)) (hne : p.allowedNetworks ≠ [])
    {n : Text} (hn : n ∈ networkRefs config) : n ∈ p.allowedNetworks := by
  obtain ⟨hn, hnil⟩ := mem_filter.mp hn
  exact ((hp.networks n hn).resolve_left (of_decide_eq_true hnil)).resolve_left hne

theorem checkedNames_listed (hp : Passes p (extractComposeRefs config)) (hne : p.allowedVolumes ≠ [])
    {v : Text} (hv : v ∈ checkedNames config) : v ∈ p.allowedVolumes := by
  obtain ⟨hv, hnamed⟩ := mem_filter.mp hv
  obtain ⟨w, hw, rfl⟩ := mem_map.mp hv
  obtain ⟨a, ha, hperm⟩ := (validateSingleVolume_ok.mp (hp.volumes w hw)).2.resolve_left hne
  rw [permitsVolume, if_neg (by simpa using hnamed)] at hperm
  rw [of_decide_eq_true hperm]
  exact ha

theorem Named.realListed (h : Named config) (hp : Passes p (extractComposeRefs config)) : RealListed p config where
  networks hne n hn := networkRefs_listed hp hne (h.networks n hn)
  volumes hne v hv := checkedNames_listed hp hne (h.volumes v hv)

/-- The entry that permits the volume and is not the name, if there is one: a
host path is also permitted with a slash at its end. -/
def otherEntry (name host : Text) : Text :=
  if isHostPath host && host = name then host ++ ['/'] else host

theorem permitsVolume_otherEntry (name host : Text) : permitsVolume host (otherEntry name host) = true := by
  unfold otherEntry
  split
  · next h =>
    rw [and_eq_true] at h
    have hne : host ≠ [] := by
      rintro rfl
      cases h.1
    rw [permitsVolume, if_pos h.1, clean_append_slash hne]
    exact within_refl _
  · exact permitsVolume_refl host

theorem otherEntry_eq {name host : Text} (h : otherEntry name host = name) :
    host = name ∧ isHostPath host = false := by
  unfold otherEntry at h
  split at h
  · next hhost =>
    rw [and_eq_true, decide_eq_true_eq] at hhost
    have hlen := congrArg List.length (h.trans hhost.2.symm)
    rw [length_append] at hlen
    exact absurd hlen (by simp)
  · next hhost =>
    refine ⟨h, eq_false_iff.mpr (fun hpath => hhost ?_)⟩
    rw [and_eq_true, decide_eq_true_eq]
    exact ⟨hpath, h⟩

theorem accepted_real_names_listed_iff (config : List (Text × Value)) :
    (∀ p, p.disabled = false → accepts p config → RealListed p config) ↔ Named config := by
  constructor
  · intro h
    refine ⟨fun n hn => ?_, fun v hv => ?_⟩
    · let name := realNetwork config n
      have hacc : accepts { allowedNetworks := (name ++ ['x']) :: networkRefs config } config := by
        refine accepts_iff.mpr (.inr { passes_open _ with networks := fun m hm => ?_ })
        by_cases hnil : m = []
        · exact .inl hnil
        · refine .inr (.inr (mem_cons_of_mem _ (mem_filter.mpr ⟨hm, ?_⟩)))
          exact decide_eq_true hnil
      exact mem_of_listed (.inr ((h _ rfl hacc).networks (cons_ne_nil _ _) n hn))
    · let name := realVolume config v
      let hosts := (values (extractComposeRefs config).volumes).map (before ':')
      have hacc : accepts { allowedVolumes := (name ++ ['x']) :: hosts.map (otherEntry name) }
          config := by
        refine accepts_iff.mpr (.inr { passes_open _ with volumes := fun w hw => ?_ })
        refine validateSingleVolume_ok.mpr ⟨fun _ => rfl, .inr ⟨otherEntry name (before ':' w), ?_, ?_⟩⟩
        · exact mem_cons_of_mem _ (mem_map_of_mem (mem_map_of_mem hw))
        · exact permitsVolume_otherEntry name _
      have hlisted := (h _ rfl hacc).volumes (cons_ne_nil _ _) v hv
      obtain ⟨host, hhost, heq⟩ := mem_map.mp (mem_of_listed (.inr hlisted))
      obtain ⟨rfl, hnamed⟩ := otherEntry_eq heq
      exact mem_filter.mpr ⟨hhost, by rw [hnamed]; rfl⟩
  · intro h p hd hacc
    exact h.realListed ((accepts_iff.mp hacc).resolve_left (by rw [hd]; decide))

def external (key : String) : List (Text × Value) :=
  [("services".toList, .obj [("web".toList, .obj
      [("image".toList, .str "nginx:1.27".toList),
        ("networks".toList, .obj [(key.toList, .null)])])]),
    ("networks".toList, .obj [(key.toList, .obj
      [("external".toList, .bool true), ("name".toList, .str "admin".toList)])])]

theorem renamed_network_accepted : ¬ accepts { allowedNetworks := ["front".toList] } (external "admin") ∧
      accepts { allowedNetworks := ["front".toList] } (external "front") ∧
      networkRefs (external "front") = ["front".toList] ∧
      realNetwork (external "front") "front".toList = "admin".toList := by
  refine ⟨?_, rfl, by decide, by decide⟩
  intro h
  cases h

end Wireops.Policy.Names
