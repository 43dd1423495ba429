import Wireops.Policy.Coverage
import Wireops.Policy.Extract

namespace Wireops.Policy.Easing

open Option List Lib.Strings Policy.Compose Policy.Coverage Policy.Extract

variable {p q : WorkerPolicy} {config : List (Text × Value)} {v : Text}

def inForce (p : WorkerPolicy) : WorkerPolicy := if p.disabled then {} else p

theorem accepts_iff_inForce : accepts p config ↔ Passes (inForce p) (extractComposeRefs config) := by
  rw [accepts_iff, inForce]
  split
  · next hd => exact iff_of_true (.inl hd) (passes_open _)
  · next hd => exact ⟨fun h => h.resolve_left hd, .inr⟩

def Listed (allowed : List Text) (v : Text) : Prop := allowed = [] ∨ v ∈ allowed

/-- The two checks that a mount has to pass beside its own list. -/
def SocketOk (p : WorkerPolicy) (m : Text) : Prop := exposesSocket m = true → p.blockDockerSocket = false

def VolumeOk (p : WorkerPolicy) (v : Text) : Prop := validateSingleVolume p v = .ok () ∧ SocketOk p v

def DeviceOk (p : WorkerPolicy) (d : Text) : Prop := Listed p.allowedDevices d ∧ SocketOk p d

/-- What the first policy permits of any kind, the second permits too. -/
structure Eases (p q : WorkerPolicy) : Prop where
  images : ∀ i, i ≠ [] → validateImage p i = .ok () → validateImage q i = .ok ()
  volumes : ∀ v, v ≠ [] → VolumeOk p v → VolumeOk q v
  /-- A named volume can be bound to the socket. -/
  bound : (∃ v, v ≠ [] ∧ isHostPath v = false ∧ VolumeOk p v) → p.blockDockerSocket = false →
    q.blockDockerSocket = false
  devices : ∀ dev d, deviceSource dev = some d → DeviceOk p d → DeviceOk q d
  networks : ∀ n, n ≠ [] → Listed p.allowedNetworks n → Listed q.allowedNetworks n
  privileged : p.blockPrivileged = false → q.blockPrivileged = false
  hostNetwork : p.blockHostNetwork = false → q.blockHostNetwork = false
  hostPID : p.blockHostPID = false → q.blockHostPID = false
  hostIPC : p.blockHostIPC = false → q.blockHostIPC = false
  capAdds : ∀ c, c ≠ [] → Listed p.allowedCapAdd c → Listed q.allowedCapAdd c
  securityOpts : ∀ o, o ≠ [] → Listed p.allowedSecurityOpt o → Listed q.allowedSecurityOpt o

theorem strField_ne_nil {key : String} {fields : List (Text × Value)} (h : strField key fields = some v) : v ≠ [] :=
  of_decide_eq_true (filter_eq_some_iff.mp h).2

theorem volumeSource_ne_nil {vol : Value} (h : volumeSource vol = some v) : v ≠ [] := by
  cases vol with
  | str s =>
    unfold volumeSource shortSource at h
    dsimp only at h
    split at h
    · exact of_decide_eq_true (filter_eq_some_iff.mp h).2
    · cases h
  | obj fields => exact strField_ne_nil h
  | _ => cases h

theorem strItems_ne_nil {key : String} {svc : List (Text × Value)} (h : v ∈ strItems key svc) : v ≠ [] := by
  unfold strItems at h
  split at h
  · cases h
  · exact of_decide_eq_true (mem_filter.mp h).2

theorem images_ne_nil (h : v ∈ values (extractComposeRefs config).images) : v ≠ [] := by
  rw [extracted_images] at h
  obtain ⟨s, _, hv⟩ := mem_flatMap.mp h
  exact strField_ne_nil (mem_toList.mp hv)

theorem volumes_ne_nil (h : v ∈ values (extractComposeRefs config).volumes) : v ≠ [] := by
  rw [extracted_volumes] at h
  obtain ⟨s, _, hv⟩ := mem_flatMap.mp h
  unfold volumeSources at hv
  split at hv
  · cases hv
  · obtain ⟨vol, _, hvol⟩ := mem_filterMap.mp hv
    exact volumeSource_ne_nil hvol

theorem capAdds_ne_nil (h : v ∈ values (extractComposeRefs config).capAdds) : v ≠ [] := by
  rw [extracted_capAdds] at h
  obtain ⟨s, _, hv⟩ := mem_flatMap.mp h
  exact strItems_ne_nil hv

theorem securityOpts_ne_nil (h : v ∈ values (extractComposeRefs config).securityOpts) : v ≠ [] := by
  rw [extracted_securityOpts] at h
  obtain ⟨s, _, hv⟩ := mem_flatMap.mp h
  exact strItems_ne_nil hv

theorem devices_source (h : v ∈ values (extractComposeRefs config).devices) : ∃ dev, deviceSource dev = some v := by
  rw [extracted_devices] at h
  obtain ⟨s, _, hv⟩ := mem_flatMap.mp h
  obtain ⟨dev, _, hdev⟩ := mem_filterMap.mp hv
  exact ⟨dev, hdev⟩

theorem resolved_volume (h : v ∈ values (resolvedVolumeDevices config (extractComposeRefs config).volumes)) :
    ∃ name ∈ values (extractComposeRefs config).volumes, isHostPath name = false := by
  obtain ⟨r, hr, _⟩ := mem_map.mp h
  obtain ⟨ref, href, _⟩ := mem_filterMap.mp hr
  obtain ⟨href, hname⟩ := mem_filter.mp href
  exact ⟨ref.value, mem_map_of_mem href, by simpa using hname⟩

section Passes

variable (hp : Passes p (extractComposeRefs config))

include hp

theorem passes_volumeOk (h : v ∈ values (extractComposeRefs config).volumes) : VolumeOk p v := by
  refine ⟨hp.volumes v h, hp.socket v ?_⟩
  rw [extracted_mounts]
  exact mem_append_left _ (mem_append_left _ h)

theorem passes_deviceOk (h : v ∈ values (extractComposeRefs config).devices) : DeviceOk p v := by
  refine ⟨hp.devices v h, hp.socket v ?_⟩
  rw [extracted_mounts]
  exact mem_append_left _ (mem_append_right _ h)

theorem Eases.socket (h : Eases p q) {m : Text} (hm : m ∈ values (extractComposeRefs config).mounts) :
    SocketOk q m := by
  intro hexposes
  have hblock := hp.socket m hm hexposes
  rw [extracted_mounts, mem_append, mem_append] at hm
  obtain (hv | hd) | hr := hm
  · exact (h.volumes m (volumes_ne_nil hv) (passes_volumeOk hp hv)).2 hexposes
  · obtain ⟨dev, hdev⟩ := devices_source hd
    exact (h.devices dev m hdev (passes_deviceOk hp hd)).2 hexposes
  · obtain ⟨name, hname, hhost⟩ := resolved_volume hr
    exact h.bound ⟨name, volumes_ne_nil hname, hhost, passes_volumeOk hp hname⟩ hblock

theorem Eases.passes (h : Eases p q) : Passes q (extractComposeRefs config) where
  images i hi := h.images i (images_ne_nil hi) (hp.images i hi)
  volumes v hv := (h.volumes v (volumes_ne_nil hv) (passes_volumeOk hp hv)).1
  networks n hn := by
    by_cases hnil : n = []
    · exact .inl hnil
    · exact .inr (h.networks n hnil ((hp.networks n hn).resolve_left hnil))
  privileged hne := h.privileged (hp.privileged hne)
  hostNetwork hne := h.hostNetwork (hp.hostNetwork hne)
  hostPID hne := h.hostPID (hp.hostPID hne)
  hostIPC hne := h.hostIPC (hp.hostIPC hne)
  socket m hm := h.socket hp hm
  capAdds c hc := h.capAdds c (capAdds_ne_nil hc) (hp.capAdds c hc)
  devices d hd := by
    obtain ⟨dev, hdev⟩ := devices_source hd
    exact (h.devices dev d hdev (passes_deviceOk hp hd)).1
  securityOpts o ho := h.securityOpts o (securityOpts_ne_nil ho) (hp.securityOpts o ho)

end Passes

def solo (svc : List (Text × Value)) : List (Text × Value) :=
  [("services".toList, .obj [("web".toList, .obj svc)])]

theorem passes_nil (p : WorkerPolicy) : Passes p {} where
  images := nofun
  volumes := nofun
  networks := nofun
  privileged := absurd rfl
  hostNetwork := absurd rfl
  hostPID := absurd rfl
  hostIPC := absurd rfl
  socket := nofun
  capAdds := nofun
  devices := nofun
  securityOpts := nofun

theorem filter_ne_nil (hv : v ≠ []) : (some v).filter (· ≠ []) = some v := by
  rw [filter_some, if_pos (decide_eq_true hv)]

def soloVolume (v : Text) (bound : List (Text × Value)) : List (Text × Value) :=
  solo [("volumes".toList, .arr [.obj [("source".toList, .str v)]])] ++ [("volumes".toList, .obj bound)]

theorem extract_soloVolume (hv : v ≠ []) (bound : List (Text × Value)) : extractComposeRefs (soloVolume v bound) =
      { volumes := [⟨"web".toList, v⟩]
        mounts := ⟨"web".toList, v⟩ ::
          resolvedVolumeDevices (soloVolume v bound) [⟨"web".toList, v⟩] } := by
  let svc : List (Text × Value) := [("volumes".toList, .arr [.obj [("source".toList, .str v)]])]
  have hsource : volumeSource (.obj [("source".toList, .str v)]) = some v := filter_ne_nil hv
  have hvolumes : volumeSources svc = [v] := filterMap_cons_some hsource
  have hrefs : extractComposeRefs (soloVolume v bound) =
      { volumes := owned "web".toList (volumeSources svc)
        mounts := owned "web".toList (volumeSources svc) ++ [] ++
          resolvedVolumeDevices (soloVolume v bound) (owned "web".toList (volumeSources svc)) } := rfl
  rw [hrefs, hvolumes]
  rfl

theorem resolved_unbound : resolvedVolumeDevices (soloVolume v []) [⟨"web".toList, v⟩] = [] := by
  have hnamed : namedVolumeDevices (soloVolume v []) = [] := rfl
  unfold resolvedVolumeDevices
  rw [hnamed]
  exact filterMap_none _

def boundTo (v : Text) (device : Text) : List (Text × Value) :=
  [(v, .obj [("driver_opts".toList, .obj [("device".toList, .str device)])])]

theorem resolved_bound (hv : isHostPath v = false) :
    resolvedVolumeDevices (soloVolume v (boundTo v "/run/docker.sock".toList)) [⟨"web".toList, v⟩] =
      [⟨"web".toList, "/run/docker.sock".toList⟩] := by
  have hnamed : namedVolumeDevices (soloVolume v (boundTo v "/run/docker.sock".toList)) =
      [(v, "/run/docker.sock".toList)] := rfl
  unfold resolvedVolumeDevices
  rw [hnamed, filter_singleton]
  simp [hv]

section Necessary

variable (h : ∀ config, Passes p (extractComposeRefs config) → Passes q (extractComposeRefs config))

include h

theorem images_eased (i : Text) (hi : i ≠ []) (hok : validateImage p i = .ok ()) : validateImage q i = .ok () := by
  have hrefs : extractComposeRefs (solo [("image".toList, .str i)]) =
      { images := owned "web".toList ((some i).filter (· ≠ [])).toList } := rfl
  have hp := h (solo [("image".toList, .str i)])
  rw [hrefs, filter_ne_nil hi] at hp
  refine (hp { passes_nil p with images := ?_ }).images i mem_cons_self
  exact forall_mem_singleton.mpr hok

theorem networks_eased (n : Text) (hn : n ≠ []) (hok : Listed p.allowedNetworks n) : Listed q.allowedNetworks n := by
  have hrefs : extractComposeRefs (solo [("networks".toList, .obj [(n, .null)])]) =
      { networks := [⟨"web".toList, n⟩] } := rfl
  have hp := h (solo [("networks".toList, .obj [(n, .null)])])
  rw [hrefs] at hp
  refine ((hp { passes_nil p with networks := ?_ }).networks n mem_cons_self).resolve_left hn
  exact forall_mem_singleton.mpr (.inr hok)

theorem privileged_eased (hok : p.blockPrivileged = false) : q.blockPrivileged = false := by
  have hp : Passes p (extractComposeRefs (solo [("privileged".toList, .bool true)])) :=
    { passes_nil p with privileged := fun _ => hok }
  exact (h _ hp).privileged (cons_ne_nil _ _)

theorem hostNetwork_eased (hok : p.blockHostNetwork = false) : q.blockHostNetwork = false := by
  have hp : Passes p (extractComposeRefs (solo [("network_mode".toList, .str "host".toList)])) :=
    { passes_nil p with hostNetwork := fun _ => hok }
  exact (h _ hp).hostNetwork (cons_ne_nil _ _)

theorem hostPID_eased (hok : p.blockHostPID = false) : q.blockHostPID = false := by
  have hp : Passes p (extractComposeRefs (solo [("pid".toList, .str "host".toList)])) :=
    { passes_nil p with hostPID := fun _ => hok }
  exact (h _ hp).hostPID (cons_ne_nil _ _)

theorem hostIPC_eased (hok : p.blockHostIPC = false) : q.blockHostIPC = false := by
  have hp : Passes p (extractComposeRefs (solo [("ipc".toList, .str "host".toList)])) :=
    { passes_nil p with hostIPC := fun _ => hok }
  exact (h _ hp).hostIPC (cons_ne_nil _ _)

theorem capAdds_eased (c : Text) (hc : c ≠ []) (hok : Listed p.allowedCapAdd c) : Listed q.allowedCapAdd c := by
  have hrefs : extractComposeRefs (solo [("cap_add".toList, .arr [.str c])]) =
      { capAdds := owned "web".toList ([c].filter (· ≠ [])) } := rfl
  have hp := h (solo [("cap_add".toList, .arr [.str c])])
  rw [hrefs, filter_singleton, decide_eq_true hc] at hp
  refine (hp { passes_nil p with capAdds := ?_ }).capAdds c mem_cons_self
  exact forall_mem_singleton.mpr hok

theorem securityOpts_eased (o : Text) (ho : o ≠ []) (hok : Listed p.allowedSecurityOpt o) :
    Listed q.allowedSecurityOpt o := by
  have hrefs : extractComposeRefs (solo [("security_opt".toList, .arr [.str o])]) =
      { securityOpts := owned "web".toList ([o].filter (· ≠ [])) } := rfl
  have hp := h (solo [("security_opt".toList, .arr [.str o])])
  rw [hrefs, filter_singleton, decide_eq_true ho] at hp
  refine (hp { passes_nil p with securityOpts := ?_ }).securityOpts o mem_cons_self
  exact forall_mem_singleton.mpr hok

theorem devices_eased (dev d : Text) (hd : deviceSource dev = some d) (hok : DeviceOk p d) : DeviceOk q d := by
  have hne : dev ≠ [] := by
    rintro rfl
    cases hd
  have hrefs : extractComposeRefs (solo [("devices".toList, .arr [.str dev])]) =
      { devices := owned "web".toList (([dev].filter (· ≠ [])).filterMap deviceSource)
        mounts := [] ++ owned "web".toList (([dev].filter (· ≠ [])).filterMap deviceSource) ++ [] } := rfl
  have hp := h (solo [("devices".toList, .arr [.str dev])])
  rw [hrefs, filter_singleton, decide_eq_true hne] at hp
  rw [cond_true, filterMap_cons_some hd] at hp
  have hq := hp { passes_nil p with
    devices := forall_mem_singleton.mpr hok.1
    socket := forall_mem_singleton.mpr hok.2 }
  exact ⟨hq.devices d mem_cons_self, hq.socket d mem_cons_self⟩

theorem volumes_eased (v : Text) (hv : v ≠ []) (hok : VolumeOk p v) : VolumeOk q v := by
  have hp := h (soloVolume v [])
  rw [extract_soloVolume hv, resolved_unbound] at hp
  have hq := hp { passes_nil p with
    volumes := forall_mem_singleton.mpr hok.1
    socket := forall_mem_singleton.mpr hok.2 }
  exact ⟨hq.volumes v mem_cons_self, hq.socket v mem_cons_self⟩

theorem bound_eased (hv : ∃ v, v ≠ [] ∧ isHostPath v = false ∧ VolumeOk p v)
    (hblock : p.blockDockerSocket = false) : q.blockDockerSocket = false := by
  obtain ⟨v, hne, hname, hok⟩ := hv
  have hp := h (soloVolume v (boundTo v "/run/docker.sock".toList))
  rw [extract_soloVolume hne, resolved_bound hname] at hp
  have hq := hp { passes_nil p with
    volumes := forall_mem_singleton.mpr hok.1
    socket := fun _ _ _ => hblock }
  exact hq.socket _ (mem_cons_of_mem _ mem_cons_self) (by decide)

end Necessary

/-- All configs carry over from one policy to the other exactly if all single
values do. -/
theorem passes_iff_eases :
    (∀ config, Passes p (extractComposeRefs config) → Passes q (extractComposeRefs config)) ↔ Eases p q := by
  constructor
  · intro h
    exact ⟨images_eased h, volumes_eased h, bound_eased h, devices_eased h, networks_eased h,
      privileged_eased h, hostNetwork_eased h, hostPID_eased h, hostIPC_eased h, capAdds_eased h,
      securityOpts_eased h⟩
  · exact fun h config hp => h.passes hp

theorem accepts_iff_eases : (∀ config, accepts p config → accepts q config) ↔ Eases (inForce p) (inForce q) := by
  simp only [accepts_iff_inForce]
  exact passes_iff_eases

end Wireops.Policy.Easing
