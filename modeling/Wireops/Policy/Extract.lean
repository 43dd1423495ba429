import Wireops.Policy.Compose

namespace Wireops.Policy.Extract

open List Lib.Strings Policy.Compose

variable {config : List (Text × Value)}

theorem values_append (a b : List OwnedRef) : values (a ++ b) = values a ++ values b := map_append

theorem values_owned (name : Text) (vs : List Text) : values (owned name vs) = vs := by
  rw [values, owned, map_map]
  exact map_id _

theorem foldl_serviceRefs {α : Type} (f : ComposeRefs → List α)
    (hf : ∀ a b : ComposeRefs, f (a.append b) = f a ++ f b) (refs : ComposeRefs)
    (svcs : List (Text × List (Text × Value))) :
    f (svcs.foldl (fun refs s => refs.append (serviceRefs s.1 s.2)) refs) =
      f refs ++ svcs.flatMap (fun s => f (serviceRefs s.1 s.2)) := by
  induction svcs generalizing refs with
  | nil => exact (append_nil _).symm
  | cons s svcs ih => rw [foldl_cons, ih, hf, append_assoc, flatMap_cons]

theorem extracted (f : ComposeRefs → List OwnedRef) (g : List (Text × Value) → List Text)
    (hnil : f {} = [] := by rfl) (happend : ∀ a b : ComposeRefs, f (a.append b) = f a ++ f b := by intros; rfl)
    (hmounts : ∀ (r : ComposeRefs) mounts, f { r with mounts } = f r := by intros; rfl)
    (hservice : ∀ name svc, f (serviceRefs name svc) = owned name (g svc) := by intros; rfl) :
    values (f (extractComposeRefs config)) = (services config).flatMap (fun s => g s.2) := by
  have hfold := foldl_serviceRefs (fun r => values (f r))
    (fun a b => by rw [happend, values_append]) {} (services config)
  simp only [hnil, hservice, values_owned] at hfold
  unfold extractComposeRefs
  rw [hmounts]
  exact hfold

theorem extracted_images : values (extractComposeRefs config).images =
    (services config).flatMap (fun s => (strField "image" s.2).toList) :=
  extracted (·.images) _

theorem extracted_volumes : values (extractComposeRefs config).volumes =
    (services config).flatMap (fun s => volumeSources s.2) :=
  extracted (·.volumes) _

theorem extracted_capAdds : values (extractComposeRefs config).capAdds =
    (services config).flatMap (fun s => strItems "cap_add" s.2) :=
  extracted (·.capAdds) _

theorem extracted_securityOpts : values (extractComposeRefs config).securityOpts =
    (services config).flatMap (fun s => strItems "security_opt" s.2) :=
  extracted (·.securityOpts) _

theorem extracted_devices : values (extractComposeRefs config).devices =
    (services config).flatMap (fun s => (strItems "devices" s.2).filterMap deviceSource) :=
  extracted (·.devices) _

theorem extracted_mounts : values (extractComposeRefs config).mounts =
    values (extractComposeRefs config).volumes ++ values (extractComposeRefs config).devices ++
      values (resolvedVolumeDevices config (extractComposeRefs config).volumes) := by
  rw [← values_append, ← values_append]
  rfl

end Wireops.Policy.Extract
