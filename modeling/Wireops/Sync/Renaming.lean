import Wireops.Lib.Strings

namespace Wireops.Sync.Renaming

open Lib.Strings

structure Resource where
  name : Option Text
  external : Bool := false
  deriving DecidableEq

structure Config where
  name : Text
  networks : Text → Option Resource
  volumes : Text → Option Resource

def autoName (project key : Text) : Text := project ++ '_' :: key

def rewrite (oldName newName key : Text) (r : Resource) : Resource :=
  if r.name = some (autoName oldName key) then { r with name := some (autoName newName key) } else r

def rewriteAutoNamedResources (config : Config) (oldName newName : Text) : Config :=
  if oldName = [] ∨ oldName = newName then config
  else { config with
    networks := fun key => (config.networks key).map (rewrite oldName newName key)
    volumes := fun key => (config.volumes key).map (rewrite oldName newName key) }

def physicalName (previous : Option Resource) : Option Text := (previous.bind (·.name)).filter (· ≠ [])

def preserve (previous : Option Resource) (target key : Text) (r : Resource) : Resource :=
  match physicalName previous with
  | some previousName => if r.name = some (autoName target key) then { r with name := some previousName } else r
  | none => r

def preserveAutoNamedVolumes (config previous : Config) (target : Text) : Config :=
  if target = [] then config
  else { config with volumes := fun key => (config.volumes key).map (preserve (previous.volumes key) target key) }

/-- The renaming in `GenerateRevision`; a migration has the deployed revision. -/
def rename (config : Config) (newName : Text) (previous : Option Config) : Config :=
  let config := rewriteAutoNamedResources { config with name := newName } config.name newName
  previous.elim config (preserveAutoNamedVolumes config · newName)

/-- An external resource that has the implicit name of its key, under the old project or
for a volume under the new one, has the name that the renaming gives it already. -/
structure Unmatched (config : Config) (new : Text) (previous : Option Config) : Prop where
  networks : ∀ key r, config.networks key = some r → r.external = true →
    r.name = some (autoName config.name key) → config.name = new
  volumes : ∀ key r, config.volumes key = some r → r.external = true →
    r.name = some (autoName config.name key) ∨ r.name = some (autoName new key) →
      r.name = some ((physicalName (previous.bind (·.volumes key))).getD (autoName new key))

/-- What the renaming is for. A volume is new if the deployed revision names none by its key. -/
structure Renamed (config : Config) (new : Text) (previous : Option Config) (out : Config) : Prop where
  external : ∀ key r, r.external = true →
    (config.networks key = some r → out.networks key = some r) ∧
      (config.volumes key = some r → out.volumes key = some r)
  network : ∀ key r, config.networks key = some r → r.name = some (autoName config.name key) →
    (out.networks key).bind (·.name) = some (autoName new key)
  fresh : ∀ key r, config.volumes key = some r → r.name = some (autoName config.name key) →
    (∀ p ∈ previous, (p.volumes key).bind (·.name) = none) → (out.volumes key).bind (·.name) = some (autoName new key)
  kept : ∀ p ∈ previous, ∀ key r deployed, config.volumes key = some r → r.name = some (autoName config.name key) →
    (p.volumes key).bind (·.name) = some (autoName deployed key) →
      (out.volumes key).bind (·.name) = some (autoName deployed key)

variable {config : Config} {new : Text} {previous : Option Config}

theorem rewrite_self (old key : Text) : rewrite old old key = id := by
  funext r
  cases r
  unfold rewrite
  split <;> simp_all

theorem rename_eq (previous : Option Config) (hold : config.name ≠ []) (hnew : new ≠ []) : rename config new previous =
    { name := new, networks := fun key => (config.networks key).map (rewrite config.name new key),
      volumes := fun key => (config.volumes key).map (fun r =>
        preserve (previous.bind (·.volumes key)) new key (rewrite config.name new key r)) } := by
  have hnone (key : Text) (r : Resource) : preserve none new key r = r := rfl
  by_cases heq : config.name = new <;> cases previous <;>
    simp [rename, rewriteAutoNamedResources, preserveAutoNamedVolumes, hnone, hold, hnew, heq, rewrite_self,
      Function.comp_def]

theorem rewrite_eq_self_iff {old key : Text} {r : Resource} :
    rewrite old new key r = r ↔ (r.name = some (autoName old key) → old = new) := by
  cases r
  unfold rewrite
  split
  · next hname => simp_all [autoName, eq_comm]
  · next hname => exact iff_of_true rfl (fun h => absurd h hname)

section

variable {deployed : Option Resource} {old key : Text} {r : Resource}

theorem preserve_eq : preserve deployed new key r = if r.name = some (autoName new key) then
    { r with name := some ((physicalName deployed).getD (autoName new key)) } else r := by
  cases r
  unfold preserve
  split <;> simp_all

theorem preserve_rewrite_eq_self_iff : preserve deployed new key (rewrite old new key r) = r ↔
    (r.name = some (autoName old key) ∨ r.name = some (autoName new key) →
      r.name = some ((physicalName deployed).getD (autoName new key))) := by
  cases r
  rw [preserve_eq, rewrite]
  split <;> simp_all [eq_comm]

end

theorem rename_renamed_iff (previous : Option Config) (hold : config.name ≠ []) (hnew : new ≠ []) :
    Renamed config new previous (rename config new previous) ↔ Unmatched config new previous := by
  rw [rename_eq previous hold hnew]
  constructor
  · intro h
    refine ⟨fun key r hkey hr => ?_, fun key r hkey hr => ?_⟩
    · have hkept := (h.external key r hr).1 hkey
      simpa only [hkey, Option.map_some, Option.some.injEq, rewrite_eq_self_iff] using hkept
    · have hkept := (h.external key r hr).2 hkey
      simpa only [hkey, Option.map_some, Option.some.injEq, preserve_rewrite_eq_self_iff] using hkept
  · intro h
    refine ⟨fun key r hr => ⟨fun hkey => ?_, fun hkey => ?_⟩, fun key r hkey hname => ?_,
      fun key r hkey hname hprev => ?_, fun p hp key r deployed hkey hname hdeployed => ?_⟩
    · simp [hkey, rewrite_eq_self_iff.mpr (h.networks key r hkey hr)]
    · simp [hkey, preserve_rewrite_eq_self_iff.mpr (h.volumes key r hkey hr)]
    · simp [hkey, rewrite, hname]
    · have hnone : physicalName (previous.bind (·.volumes key)) = none := by
        cases previous with
        | none => rfl
        | some p => rw [physicalName, Option.bind_some, hprev p rfl, Option.filter_none]
      simp [hkey, rewrite, hname, preserve_eq, hnone]
    · cases hp
      have hkept : physicalName (p.volumes key) = some (autoName deployed key) := by
        rw [physicalName, hdeployed]
        simp [autoName]
      simp [hkey, rewrite, hname, preserve_eq, hkept]

def web : Config where
  name := "web".toList
  networks _ := none
  volumes key := if key = "data".toList then some { name := some "web_data".toList } else none

theorem web_renamed : Renamed web "shop".toList (some web) (rename web "shop".toList (some web)) := by
  refine (rename_renamed_iff _ (by decide) (by decide)).mpr ⟨nofun, fun key r hr hext => ?_⟩
  simp only [web, Option.ite_none_right_eq_some, Option.some.injEq] at hr
  simp [← hr.2] at hext

/-- An external volume that is named like an implicit one gets another name. -/
theorem external_volume_renamed : ¬ ∀ config new previous, config.name ≠ [] → new ≠ [] →
    Renamed config new previous (rename config new previous) := by
  intro h
  have hkept := (h { web with volumes := fun _ => some ⟨some "web_data".toList, true⟩ } "shop".toList none
    (by decide) (by decide)).external "data".toList ⟨some "web_data".toList, true⟩ rfl
  exact absurd (hkept.2 rfl) (by decide)

end Wireops.Sync.Renaming
