import Wireops.Policy.Coverage
import Wireops.Policy.Extract

namespace Wireops.Policy.Tightening

open Option List Lib.Strings Policy.Compose Policy.Coverage Policy.Extract

variable {p q : WorkerPolicy} {config config' : List (Text × Value)} {v w : Value}
  {f g : List (Text × Value)} {key : String}

/-- Something is added at one place of a value: a key, an item of a list, or what
an empty entry then holds. -/
inductive Adds : Value → Value → Prop where
  | fill (v : Value) : Adds .null v
  | key {a b : List (Text × Value)} {k : Text} (v : Value) (hk : k ∉ (a ++ b).map (·.1)) :
    Adds (.obj (a ++ b)) (.obj (a ++ (k, v) :: b))
  | item {a b : List Value} (v : Value) : Adds (.arr (a ++ b)) (.arr (a ++ v :: b))
  | inKey {a b : List (Text × Value)} {k : Text} {v w : Value} (h : Adds v w) :
    Adds (.obj (a ++ (k, v) :: b)) (.obj (a ++ (k, w) :: b))
  | inItem {a b : List Value} {v w : Value} (h : Adds v w) : Adds (.arr (a ++ v :: b)) (.arr (a ++ w :: b))

/-- A service, an entry of a service, or a key of the config itself is added. -/
inductive Grows : List (Text × Value) → List (Text × Value) → Prop where
  | key {a b : List (Text × Value)} {k : Text} (v : Value) (hk : k ∉ (a ++ b).map (·.1)) :
    Grows (a ++ b) (a ++ (k, v) :: b)
  | inServices {a b : List (Text × Value)} {v w : Value} (h : Adds v w) :
    Grows (a ++ ("services".toList, v) :: b) (a ++ ("services".toList, w) :: b)

def Kept (v w : Value) : Prop := v = w ∨ Adds v w

structure FieldsKept (f g : List (Text × Value)) : Prop where
  lookup : ∀ k v, f.lookup k = some v → ∃ w, g.lookup k = some w ∧ Kept v w
  mem : ∀ k v, (k, v) ∈ f → ∃ w, (k, w) ∈ g ∧ Kept v w

section Values

theorem FieldsKept.refl (f : List (Text × Value)) : FieldsKept f f where
  lookup _ v h := ⟨v, h, .inl rfl⟩
  mem _ v h := ⟨v, h, .inl rfl⟩

variable {a b : List (Text × Value)}

theorem lookup_key {k k' : Text} {u : Value} (v : Value)
    (hk : k ∉ (a ++ b).map (·.1)) (h : (a ++ b).lookup k' = some u) : (a ++ (k, v) :: b).lookup k' = some u := by
  have hne : k' ≠ k := by
    rintro rfl
    apply hk
    obtain ⟨l, _, hl, -⟩ := lookup_eq_some_iff.mp h
    rw [hl]
    simp
  rw [lookup_append] at h ⊢
  rw [lookup_cons, beq_false_of_ne hne]
  exact h

theorem fieldsKept_key {k : Text} (v : Value)
    (hk : k ∉ (a ++ b).map (·.1)) : FieldsKept (a ++ b) (a ++ (k, v) :: b) where
  lookup _ u h := ⟨u, lookup_key v hk h, .inl rfl⟩
  mem k' u h := by
    refine ⟨u, ?_, .inl rfl⟩
    simp only [mem_append, mem_cons] at h ⊢
    tauto

theorem fieldsKept_inKey {k : Text} (h : Adds v w) : FieldsKept (a ++ (k, v) :: b) (a ++ (k, w) :: b) where
  lookup k' u hu := by
    rw [lookup_append, lookup_cons] at hu
    simp only [lookup_append, lookup_cons]
    cases ha : a.lookup k' with
    | some x =>
      rw [ha] at hu
      exact ⟨u, hu, .inl rfl⟩
    | none =>
      rw [ha] at hu
      cases hb : k' == k with
      | true =>
        rw [hb] at hu
        cases hu
        exact ⟨w, rfl, .inr h⟩
      | false =>
        rw [hb] at hu
        exact ⟨u, hu, .inl rfl⟩
  mem k' u hu := by
    rcases mem_append.mp hu with hu | hu
    · exact ⟨u, mem_append_left _ hu, .inl rfl⟩
    · rcases mem_cons.mp hu with hu | hu
      · cases hu
        exact ⟨w, by simp, .inr h⟩
      · exact ⟨u, by simp [hu], .inl rfl⟩

theorem Kept.asObj (h : Kept v w) (hf : v.asObj = some f) : ∃ g, w.asObj = some g ∧ FieldsKept f g := by
  rcases h with rfl | h
  · exact ⟨f, hf, FieldsKept.refl f⟩
  · cases h with
    | key u hk =>
      cases hf
      exact ⟨_, rfl, fieldsKept_key u hk⟩
    | inKey h =>
      cases hf
      exact ⟨_, rfl, fieldsKept_inKey h⟩
    | fill | item | inItem => cases hf

theorem Kept.asArr {items : List Value} (h : Kept v w) (hv : v.asArr = some items) :
    ∃ items', w.asArr = some items' ∧ ∀ x ∈ items, ∃ y ∈ items', Kept x y := by
  rcases h with rfl | h
  · exact ⟨items, hv, fun x hx => ⟨x, hx, .inl rfl⟩⟩
  · cases h with
    | @item a b u =>
      cases hv
      refine ⟨a ++ u :: b, rfl, fun x hx => ⟨x, ?_, .inl rfl⟩⟩
      simp only [mem_append, mem_cons] at hx ⊢
      tauto
    | @inItem a b u u' h =>
      cases hv
      refine ⟨a ++ u' :: b, rfl, fun x hx => ?_⟩
      simp only [mem_append, mem_cons] at hx ⊢
      rcases hx with hx | rfl | hx
      · exact ⟨x, .inl hx, .inl rfl⟩
      · exact ⟨u', .inr (.inl rfl), .inr h⟩
      · exact ⟨x, .inr (.inr hx), .inl rfl⟩
    | fill | key | inKey => cases hv

theorem Kept.asStr {s : Text} (h : Kept v w) (hv : v.asStr = some s) : w.asStr = some s := by
  rcases h with rfl | h
  · exact hv
  · cases h <;> cases hv

theorem Kept.asBool {b : Bool} (h : Kept v w) (hv : v.asBool = some b) : w.asBool = some b := by
  rcases h with rfl | h
  · exact hv
  · cases h <;> cases hv

end Values

section Services

variable (h : FieldsKept f g)

include h

theorem FieldsKept.str {s : Text} (hs : (field key f).bind Value.asStr = some s) :
    (field key g).bind Value.asStr = some s := by
  obtain ⟨v, hv, hs⟩ := bind_eq_some_iff.mp hs
  obtain ⟨w, hw, hk⟩ := h.lookup _ v hv
  exact bind_eq_some_iff.mpr ⟨w, hw, hk.asStr hs⟩

theorem FieldsKept.bool {b : Bool} (hb : (field key f).bind Value.asBool = some b) :
    (field key g).bind Value.asBool = some b := by
  obtain ⟨v, hv, hb⟩ := bind_eq_some_iff.mp hb
  obtain ⟨w, hw, hk⟩ := h.lookup _ v hv
  exact bind_eq_some_iff.mpr ⟨w, hw, hk.asBool hb⟩

theorem FieldsKept.arr {items : List Value} (hi : (field key f).bind Value.asArr = some items) :
    ∃ items', (field key g).bind Value.asArr = some items' ∧ ∀ x ∈ items, ∃ y ∈ items', Kept x y := by
  obtain ⟨v, hv, hi⟩ := bind_eq_some_iff.mp hi
  obtain ⟨w, hw, hk⟩ := h.lookup _ v hv
  obtain ⟨items', hi', hall⟩ := hk.asArr hi
  exact ⟨items', bind_eq_some_iff.mpr ⟨w, hw, hi'⟩, hall⟩

theorem FieldsKept.strField {s : Text} (hs : strField key f = some s) : strField key g = some s := by
  obtain ⟨hs, hne⟩ := filter_eq_some_iff.mp hs
  exact filter_eq_some_iff.mpr ⟨h.str hs, hne⟩

theorem FieldsKept.strItems : strItems key f ⊆ strItems key g := by
  intro s hs
  unfold Compose.strItems at hs ⊢
  cases hi : (field key f).bind Value.asArr with
  | none => simp [hi] at hs
  | some items =>
    obtain ⟨items', hi', hall⟩ := h.arr hi
    simp only [hi, hi', mem_filter, mem_filterMap] at hs ⊢
    obtain ⟨⟨x, hx, hs⟩, hne⟩ := hs
    obtain ⟨y, hy, hk⟩ := hall x hx
    exact ⟨⟨y, hy, hk.asStr hs⟩, hne⟩

omit h in
theorem Kept.volumeSource {s : Text} (h : Kept v w) (hs : volumeSource v = some s) : volumeSource w = some s := by
  cases v with
  | str vol =>
    rcases h with rfl | h
    · exact hs
    · cases h
  | obj vol =>
    obtain ⟨vol', hw, hk⟩ := h.asObj rfl
    cases w with
    | obj vol'' =>
      cases hw
      exact hk.strField hs
    | null | bool | number | str | arr => cases hw
  | null | bool | number | arr => cases hs

theorem FieldsKept.volumeSources : volumeSources f ⊆ volumeSources g := by
  intro s hs
  unfold Compose.volumeSources at hs ⊢
  cases hi : (field "volumes" f).bind Value.asArr with
  | none => simp [hi] at hs
  | some items =>
    obtain ⟨items', hi', hall⟩ := h.arr hi
    simp only [hi, hi', mem_filterMap] at hs ⊢
    obtain ⟨x, hx, hs⟩ := hs
    obtain ⟨y, hy, hk⟩ := hall x hx
    exact ⟨y, hy, hk.volumeSource hs⟩

omit h in
theorem mem_sortNames {e : Text × Value} {fields : List (Text × Value)} : e ∈ sortNames fields ↔ e ∈ fields :=
  (perm_insertionSort _ fields).mem_iff

theorem FieldsKept.networkNames : networkNames f ⊆ networkNames g := by
  intro n hn
  unfold Compose.networkNames at hn
  split at hn
  · next nets hnets =>
    obtain ⟨w, hw, hk⟩ := h.lookup _ _ hnets
    obtain ⟨nets', hw', hnets'⟩ := hk.asObj rfl
    cases w with
    | obj _ =>
      cases hw'
      have hg : field "networks" g = some (.obj nets') := hw
      obtain ⟨e, he, rfl⟩ := mem_map.mp hn
      obtain ⟨u, hu, -⟩ := hnets'.mem e.1 e.2 (mem_sortNames.mp he)
      rw [Compose.networkNames, hg]
      exact mem_map.mpr ⟨(e.1, u), mem_sortNames.mpr hu, rfl⟩
    | null | bool | number | str | arr => cases hw'
  · next items hitems =>
    obtain ⟨w, hw, hk⟩ := h.lookup _ _ hitems
    obtain ⟨items', hw', -⟩ := hk.asArr rfl
    cases w with
    | arr items'' =>
      have hg : field "networks" g = some (.arr items'') := hw
      rw [Compose.networkNames, hg]
      exact h.strItems hn
    | null | bool | number | str | obj => cases hw'
  · cases hn

end Services

section Configs

theorem extracted_flag (get : ComposeRefs → List Text) (asks : List (Text × Value) → Prop)
    [DecidablePred asks] (hnil : get {} = [] := by rfl)
    (happend : ∀ a b : ComposeRefs, get (a.append b) = get a ++ get b := by intros; rfl)
    (hmounts : ∀ (r : ComposeRefs) mounts, get { r with mounts } = get r := by intros; rfl)
    (hservice : ∀ name svc, get (serviceRefs name svc) = if asks svc then [name] else [] := by intros; rfl) :
    get (extractComposeRefs config) ≠ [] ↔ ∃ s ∈ services config, asks s.2 := by
  have hfold := foldl_serviceRefs get happend {} (services config)
  rw [hnil, nil_append] at hfold
  have hget : get (extractComposeRefs config) =
      (services config).flatMap (fun s => get (serviceRefs s.1 s.2)) := (hmounts _ _).trans hfold
  rw [hget, Ne, flatMap_eq_nil_iff]
  simp [hservice]

section

variable (h : Grows config config')

include h

theorem Grows.fieldsKept : FieldsKept config config' := by
  cases h with
  | key v hk => exact fieldsKept_key v hk
  | inServices h => exact fieldsKept_inKey h

theorem Grows.mem_services {name : Text} (hs : (name, f) ∈ services config) :
    ∃ g, (name, g) ∈ services config' ∧ FieldsKept f g := by
  unfold Compose.services at hs ⊢
  cases hf : (field "services" config).bind Value.asObj with
  | none => simp [hf] at hs
  | some svcs =>
    obtain ⟨v, hv, hsvcs⟩ := bind_eq_some_iff.mp hf
    obtain ⟨w, hw, hk⟩ := h.fieldsKept.lookup _ v hv
    obtain ⟨svcs', hsvcs', hk⟩ := hk.asObj hsvcs
    have hf' : (field "services" config').bind Value.asObj = some svcs' :=
      bind_eq_some_iff.mpr ⟨w, hw, hsvcs'⟩
    simp only [hf, hf', mem_filterMap, map_eq_some_iff, mem_sortNames] at hs ⊢
    obtain ⟨e, he, svc, hsvc, heq⟩ := hs
    cases heq
    obtain ⟨u, hu, hku⟩ := hk.mem e.1 e.2 he
    obtain ⟨g, hg, hkg⟩ := hku.asObj hsvc
    exact ⟨g, ⟨(e.1, u), hu, g, hg, rfl⟩, hkg⟩

theorem Grows.volumes (hv : field "volumes" config = some v) :
    field "volumes" config' = some v := by
  have hne : "volumes".toList ≠ "services".toList := by decide
  cases h with
  | key u hk => exact lookup_key u hk hv
  | inServices h => simpa [field, lookup_append, lookup_cons, beq_false_of_ne hne] using hv

theorem Grows.namedVolumeDevices {name d : Text}
    (hd : (namedVolumeDevices config).lookup name = some d) : (namedVolumeDevices config').lookup name = some d := by
  unfold Compose.namedVolumeDevices at hd ⊢
  cases hv : field "volumes" config with
  | none => simp [hv] at hd
  | some v =>
    rw [h.volumes hv]
    rw [hv] at hd
    exact hd

end

theorem mem_resolvedVolumeDevices {refs : List OwnedRef} {d : Text} :
    d ∈ values (resolvedVolumeDevices config refs) ↔ ∃ name ∈ values refs, isHostPath name = false ∧
      (namedVolumeDevices config).lookup name = some d := by
  unfold values resolvedVolumeDevices
  simp only [List.mem_map, mem_filterMap, mem_filter, map_eq_some_iff]
  constructor
  · rintro ⟨_, ⟨r, ⟨hr, hhost⟩, d, hd, rfl⟩, rfl⟩
    exact ⟨r.value, ⟨r, hr, rfl⟩, by simpa using hhost, hd⟩
  · rintro ⟨_, ⟨r, hr, rfl⟩, hhost, hd⟩
    exact ⟨⟨r.service, d⟩, ⟨r, ⟨hr, by simp [hhost]⟩, d, hd, rfl⟩, rfl⟩

theorem Grows.flatMap (h : Grows config config') (get : List (Text × Value) → List Text)
    (hget : ∀ f g, FieldsKept f g → get f ⊆ get g) :
    (services config).flatMap (fun s => get s.2) ⊆ (services config').flatMap (fun s => get s.2) := by
  intro v hv
  obtain ⟨s, hs, hv⟩ := mem_flatMap.mp hv
  obtain ⟨g, hg, hk⟩ := h.mem_services hs
  exact mem_flatMap.mpr ⟨(s.1, g), hg, hget _ _ hk hv⟩

theorem Grows.asks {asks : List (Text × Value) → Prop} (h : Grows config config')
    (hasks : ∀ f g, FieldsKept f g → asks f → asks g) (hs : ∃ s ∈ services config, asks s.2) :
    ∃ s ∈ services config', asks s.2 := by
  obtain ⟨s, hs, ha⟩ := hs
  obtain ⟨g, hg, hk⟩ := h.mem_services hs
  exact ⟨(s.1, g), hg, hasks _ _ hk ha⟩

theorem extracted_networks : values (extractComposeRefs config).networks =
    (services config).flatMap (fun s => networkNames s.2) :=
  extracted (·.networks) _

theorem extracted_privileged : (extractComposeRefs config).privilegedServices ≠ [] ↔
    ∃ s ∈ services config, (field "privileged" s.2).bind Value.asBool = some true :=
  extracted_flag (·.privilegedServices) _

theorem extracted_hostNetwork : (extractComposeRefs config).hostNetworkServices ≠ [] ↔
    ∃ s ∈ services config, (field "network_mode" s.2).bind Value.asStr = some "host".toList :=
  extracted_flag (·.hostNetworkServices) _

theorem extracted_hostPID : (extractComposeRefs config).hostPIDServices ≠ [] ↔
    ∃ s ∈ services config, (field "pid" s.2).bind Value.asStr = some "host".toList :=
  extracted_flag (·.hostPIDServices) _

theorem extracted_hostIPC : (extractComposeRefs config).hostIPCServices ≠ [] ↔
    ∃ s ∈ services config, (field "ipc" s.2).bind Value.asStr = some "host".toList :=
  extracted_flag (·.hostIPCServices) _

section Covered

variable (h : Grows config config')

include h

theorem Grows.images : values (extractComposeRefs config).images ⊆ values (extractComposeRefs config').images := by
  rw [extracted_images, extracted_images]
  apply h.flatMap (fun f => (Compose.strField "image" f).toList)
  intro f g hk i hi
  rw [mem_toList] at hi ⊢
  exact hk.strField hi

theorem Grows.volumeValues :
    values (extractComposeRefs config).volumes ⊆ values (extractComposeRefs config').volumes := by
  rw [extracted_volumes, extracted_volumes]
  exact h.flatMap _ (fun _ _ hk => hk.volumeSources)

theorem Grows.devices : values (extractComposeRefs config).devices ⊆ values (extractComposeRefs config').devices := by
  rw [extracted_devices, extracted_devices]
  apply h.flatMap (fun f => (Compose.strItems "devices" f).filterMap deviceSource)
  intro f g hk d hd
  obtain ⟨dev, hdev, hd⟩ := mem_filterMap.mp hd
  exact mem_filterMap.mpr ⟨dev, hk.strItems hdev, hd⟩

theorem Grows.networks :
    values (extractComposeRefs config).networks ⊆ values (extractComposeRefs config').networks := by
  rw [extracted_networks, extracted_networks]
  exact h.flatMap _ (fun _ _ hk => hk.networkNames)

theorem Grows.capAdds : values (extractComposeRefs config).capAdds ⊆ values (extractComposeRefs config').capAdds := by
  rw [extracted_capAdds, extracted_capAdds]
  exact h.flatMap _ (fun _ _ hk => hk.strItems)

theorem Grows.securityOpts : values (extractComposeRefs config).securityOpts ⊆
    values (extractComposeRefs config').securityOpts := by
  rw [extracted_securityOpts, extracted_securityOpts]
  exact h.flatMap _ (fun _ _ hk => hk.strItems)

theorem Grows.mounts : values (extractComposeRefs config).mounts ⊆ values (extractComposeRefs config').mounts := by
  intro m hm
  rw [extracted_mounts, mem_append, mem_append] at hm ⊢
  rcases hm with (hm | hm) | hm
  · exact .inl (.inl (h.volumeValues hm))
  · exact .inl (.inr (h.devices hm))
  · obtain ⟨name, hname, hhost, hd⟩ := mem_resolvedVolumeDevices.mp hm
    exact .inr (mem_resolvedVolumeDevices.mpr
      ⟨name, h.volumeValues hname, hhost, h.namedVolumeDevices hd⟩)

theorem Grows.covers : Covers (extractComposeRefs config') (extractComposeRefs config) where
  images _ hi := h.images hi
  hostVolumes := by
    rintro ⟨v, hv, hh⟩
    exact ⟨v, h.volumeValues hv, hh⟩
  volumes v hv := ⟨v, h.volumeValues hv, permitsVolume_refl _⟩
  networks _ hn := .inr (h.networks hn)
  privileged := by
    rw [extracted_privileged, extracted_privileged]
    exact h.asks (fun _ _ hk => hk.bool)
  hostNetwork := by
    rw [extracted_hostNetwork, extracted_hostNetwork]
    exact h.asks (fun _ _ hk => hk.str)
  hostPID := by
    rw [extracted_hostPID, extracted_hostPID]
    exact h.asks (fun _ _ hk => hk.str)
  hostIPC := by
    rw [extracted_hostIPC, extracted_hostIPC]
    exact h.asks (fun _ _ hk => hk.str)
  socket := by
    rintro ⟨m, hm, he⟩
    exact ⟨m, h.mounts hm, he⟩
  capAdds _ hc := h.capAdds hc
  devices _ hd := h.devices hd
  securityOpts _ ho := h.securityOpts ho

end Covered

end Configs

/-- The list is the same, or a non-empty part of a non-empty list. -/
def Narrows (allowed allowed' : List Text) : Prop :=
  allowed' = allowed ∨ allowed ≠ [] ∧ allowed' ≠ [] ∧ allowed' ⊆ allowed

/-- The second policy blocks all that the first one blocks, and allows no more. -/
structure Tightens (p q : WorkerPolicy) : Prop where
  disabled : q.disabled = p.disabled
  allowedVolumes : Narrows p.allowedVolumes q.allowedVolumes
  allowedNetworks : Narrows p.allowedNetworks q.allowedNetworks
  allowedImages : Narrows p.allowedImages q.allowedImages
  allowedCapAdd : Narrows p.allowedCapAdd q.allowedCapAdd
  allowedDevices : Narrows p.allowedDevices q.allowedDevices
  allowedSecurityOpt : Narrows p.allowedSecurityOpt q.allowedSecurityOpt
  preventLatestImages : p.preventLatestImages ≤ q.preventLatestImages
  blockHostVolumes : p.blockHostVolumes ≤ q.blockHostVolumes
  blockPrivileged : p.blockPrivileged ≤ q.blockPrivileged
  blockHostNetwork : p.blockHostNetwork ≤ q.blockHostNetwork
  blockHostPID : p.blockHostPID ≤ q.blockHostPID
  blockHostIPC : p.blockHostIPC ≤ q.blockHostIPC
  blockDockerSocket : p.blockDockerSocket ≤ q.blockDockerSocket

section Policies

variable {allowed allowed' : List Text}

theorem Narrows.permitted (permits : Text → Prop) (h : Narrows allowed allowed')
    (hp : allowed' = [] ∨ ∃ a ∈ allowed', permits a) : allowed = [] ∨ ∃ a ∈ allowed, permits a := by
  rcases h with rfl | ⟨-, hne, hsub⟩
  · exact hp
  · rcases hp with hnil | ⟨a, ha, hpa⟩
    · exact absurd hnil hne
    · exact .inr ⟨a, hsub ha, hpa⟩

theorem Narrows.listed {v : Text} (h : Narrows allowed allowed') (hv : allowed' = [] ∨ v ∈ allowed') :
    allowed = [] ∨ v ∈ allowed := by
  simpa using h.permitted (· = v) (by simpa using hv)

theorem off_of_le {a b : Bool} (h : a ≤ b) (hb : b = false) : a = false := by
  subst hb
  cases a with
  | false => rfl
  | true => exact absurd h (by decide)

theorem validateImage_ok {i : Text} : validateImage p i = .ok () ↔
    (isLatestOrUntagged i = true → p.preventLatestImages = false) ∧
      (p.allowedImages = [] ∨ ∃ a ∈ p.allowedImages, matchPattern a i = true) := by
  have hlisted : validateImage { allowedImages := p.allowedImages } i = .ok () ↔ _ :=
    validateImage_listed
  rw [← hlisted]
  unfold validateImage
  cases p.preventLatestImages <;> cases isLatestOrUntagged i <;> simp

theorem Tightens.passes {r : ComposeRefs} (h : Tightens p q) (hq : Passes q r) : Passes p r where
  images i hi := by
    obtain ⟨hlatest, hallowed⟩ := validateImage_ok.mp (hq.images i hi)
    exact validateImage_ok.mpr
      ⟨fun hl => off_of_le h.preventLatestImages (hlatest hl), h.allowedImages.permitted _ hallowed⟩
  volumes v hv := by
    obtain ⟨hhost, hallowed⟩ := validateSingleVolume_ok.mp (hq.volumes v hv)
    exact validateSingleVolume_ok.mpr
      ⟨fun hh => off_of_le h.blockHostVolumes (hhost hh), h.allowedVolumes.permitted _ hallowed⟩
  networks n hn := by
    rcases hq.networks n hn with hnil | hn
    · exact .inl hnil
    · exact .inr (h.allowedNetworks.listed hn)
  privileged hne := off_of_le h.blockPrivileged (hq.privileged hne)
  hostNetwork hne := off_of_le h.blockHostNetwork (hq.hostNetwork hne)
  hostPID hne := off_of_le h.blockHostPID (hq.hostPID hne)
  hostIPC hne := off_of_le h.blockHostIPC (hq.hostIPC hne)
  socket m hm he := off_of_le h.blockDockerSocket (hq.socket m hm he)
  capAdds c hc := h.allowedCapAdd.listed (hq.capAdds c hc)
  devices d hd := h.allowedDevices.listed (hq.devices d hd)
  securityOpts o ho := h.allowedSecurityOpt.listed (hq.securityOpts o ho)

end Policies

theorem covers_of_grown (h : Relation.ReflTransGen Grows config config') (hp : Passes p
    (extractComposeRefs config')) : Passes p (extractComposeRefs config) := by
  induction h with
  | refl => exact hp
  | tail _ hstep ih => exact ih (hstep.covers.passes hp)

/-- A config that an enabled policy rejects stays rejected, whatever is added to it
and however the policy is tightened. -/
theorem rejected_stays_rejected (hp : p.disabled = false) (hno : ¬ accepts p config)
    (hq : Tightens p q) (hc : Relation.ReflTransGen Grows config config') : ¬ accepts q config' := by
  intro hyes
  apply hno
  have hq' : q.disabled = false := hq.disabled.trans hp
  unfold accepts Compose.validateComposeConfig at hyes ⊢
  rw [hq', if_neg Bool.false_ne_true, validateRefs_ok] at hyes
  rw [hp, if_neg Bool.false_ne_true, validateRefs_ok]
  exact hq.passes (covers_of_grown hc hyes)

def web (volumes : List Value) (others : List (Text × Value)) : List (Text × Value) :=
  [("services".toList, .obj (("web".toList, .obj [("volumes".toList, .arr volumes)]) :: others))]

def data : Value := .str "/data:/data".toList

theorem grown_web_rejected : ¬ accepts { allowedVolumes := ["/srv".toList, "/opt".toList] } (web [data] []) ∧
      ¬ accepts { allowedVolumes := ["/srv".toList], blockPrivileged := true }
        (web [data, .str "/srv/a:/a".toList] [("db".toList, .obj [])]) := by
  have hno : ¬ accepts { allowedVolumes := ["/srv".toList, "/opt".toList] } (web [data] []) := by
    intro h
    cases h
  have hitem : Grows (web [data] []) (web [data, .str "/srv/a:/a".toList] []) :=
    .inServices (a := []) (.inKey (a := []) (.inKey (a := []) (.item (a := [data]) _)))
  have hservice : Grows (web [data, .str "/srv/a:/a".toList] [])
      (web [data, .str "/srv/a:/a".toList] [("db".toList, .obj [])]) :=
    .inServices (a := []) (.key (a := [_]) (b := []) _ (by decide))
  refine ⟨hno, rejected_stays_rejected rfl hno ?_ (.tail (.single hitem) hservice)⟩
  constructor
  case allowedVolumes => exact .inr ⟨by simp, by simp, by simp⟩
  case blockPrivileged => decide
  all_goals first | exact .inl rfl | rfl

end Wireops.Policy.Tightening
