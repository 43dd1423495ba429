import Wireops.Policy.Containment
import Wireops.Policy.Extract

namespace Wireops.Policy.Devices

open List Lib.Strings Lib.Paths Policy.Compose Policy.Coverage
open Policy.Containment Policy.Extract

variable {p : WorkerPolicy} {config : List (Text × Value)} {src : Text}

def deviceItems (svc : List (Text × Value)) : List Value :=
  ((field "devices" svc).bind Value.asArr).getD []

def longSource : Value → Option Text
  | .obj dev => strField "source" dev
  | _ => none

def hostSource : Value → Option Text
  | .str dev => deviceSource dev
  | dev => longSource dev

def longSources (config : List (Text × Value)) : List Text :=
  (services config).flatMap (fun s => (deviceItems s.2).filterMap longSource)

def deviceSources (config : List (Text × Value)) : List Text :=
  (services config).flatMap (fun s => (deviceItems s.2).filterMap hostSource)

def ReachesSocket (src : Text) : Prop := ∃ sock ∈ dockerSocketPaths, AtOrBelow src sock

theorem socket_clean : ∀ sock ∈ dockerSocketPaths, clean sock = sock ∧ rooted sock = true ∧
    elements sock ≠ [] ∧ ['.', '.'] ∉ elements sock := by
  decide

theorem clean_eq_root_iff {path : Text} : clean path = ['/'] ↔ rooted path = true ∧ elements path = [] := by
  constructor
  · intro h
    have hwithin : within (clean path) (clean ['/']) = true := by
      rw [h]
      exact within_refl _
    obtain ⟨hroot, heq | ⟨hne, hpre⟩⟩ := within_clean_iff.mp hwithin
    · exact ⟨hroot, heq⟩
    · exact absurd (prefix_nil.mp hpre) hne
  · rintro ⟨hroot, hnil⟩
    rw [clean_eq_render, hroot, hnil]
    rfl

theorem exposesSocket_iff {m : Text} : exposesSocket m = true ↔ ReachesSocket (before ':' m) := by
  unfold exposesSocket ReachesSocket
  rw [any_eq_true]
  refine exists_congr (fun sock => and_congr_right (fun hsock => ?_))
  obtain ⟨hclean, hroot, hne, hup⟩ := socket_clean sock hsock
  rw [Bool.or_eq_true, decide_eq_true_eq, isPrefixOf_iff_prefix]
  by_cases hsrc : clean (before ':' m) = ['/']
  · obtain ⟨hr, hnil⟩ := clean_eq_root_iff.mp hsrc
    rw [if_pos hsrc, hsrc]
    refine iff_of_true (.inr ?_) ⟨hr.trans hroot.symm, elements sock, ?_, hup⟩
    · rw [← hclean, clean_eq_render, hroot]
      exact ⟨_, rfl⟩
    · rw [hnil, nil_append]
  · have hwithin : clean (before ':' m) = sock ∨ clean (before ':' m) ++ ['/'] <+: sock ↔
        within (clean (before ':' m)) (clean sock) = true := by
      rw [within_iff, hclean, eq_comm]
    rw [if_neg hsrc, hwithin, within_clean_iff_atOrBelow]
    constructor
    · rintro (⟨hbelow, _⟩ | ⟨_, _, up, hpath⟩)
      · exact hbelow
      · refine absurd ?_ hup
        rw [hpath]
        exact mem_append_right _ mem_cons_self
    · intro hbelow
      refine .inl ⟨hbelow, fun hbare => hsrc ?_⟩
      exact clean_eq_root_iff.mpr ⟨hbelow.1.trans hroot, hbare.1⟩

theorem deviceSource_notMem {dev : Text} (h : deviceSource dev = some src) : ':' ∉ src := by
  obtain ⟨h, _⟩ := Option.filter_eq_some_iff.mp h
  cases h
  exact fun hm => notMem_before ':' dev (mem_of_mem_trim hm)

theorem mem_shortSources_iff {svc : List (Text × Value)} : src ∈ (strItems "devices" svc).filterMap deviceSource ↔
      ∃ dev, .str dev ∈ deviceItems svc ∧ deviceSource dev = some src := by
  unfold strItems deviceItems
  cases (field "devices" svc).bind Value.asArr with
  | none => simp
  | some items =>
    simp only [mem_filterMap, mem_filter, Option.getD_some, decide_eq_true_eq]
    constructor
    · rintro ⟨dev, ⟨⟨d, hd, hstr⟩, _⟩, hsrc⟩
      cases d with
      | str s =>
        cases hstr
        exact ⟨dev, hd, hsrc⟩
      | _ => cases hstr
    · rintro ⟨dev, hd, hsrc⟩
      refine ⟨dev, ⟨⟨_, hd, rfl⟩, ?_⟩, hsrc⟩
      rintro rfl
      cases hsrc

theorem mem_deviceSources_iff : src ∈ deviceSources config ↔
    src ∈ values (extractComposeRefs config).devices ∨ src ∈ longSources config := by
  rw [extracted_devices, deviceSources, longSources]
  simp only [mem_flatMap, mem_shortSources_iff, ← exists_or, ← and_or_left]
  refine exists_congr (fun s => and_congr_right (fun _ => ?_))
  simp only [mem_filterMap]
  constructor
  · rintro ⟨d, hd, hsrc⟩
    cases d with
    | str dev => exact .inl ⟨dev, hd, hsrc⟩
    | _ => exact .inr ⟨_, hd, hsrc⟩
  · rintro (⟨dev, hd, hsrc⟩ | ⟨d, hd, hsrc⟩)
    · exact ⟨.str dev, hd, hsrc⟩
    · refine ⟨d, hd, ?_⟩
      cases d with
      | str dev => cases hsrc
      | _ => exact hsrc

theorem exposesSocket_of_device (hd : src ∈ values (extractComposeRefs config).devices)
    (h : ReachesSocket src) : exposesSocket src = true := by
  rw [extracted_devices] at hd
  obtain ⟨s, _, hsrc⟩ := mem_flatMap.mp hd
  obtain ⟨dev, _, hdev⟩ := mem_shortSources_iff.mp hsrc
  rw [exposesSocket_iff, before_eq_self (deviceSource_notMem hdev)]
  exact h

structure Seen (config : List (Text × Value)) : Prop where
  listed : ∀ src ∈ longSources config, src ∈ values (extractComposeRefs config).devices
  socket : (∃ src ∈ longSources config, ReachesSocket src) →
    ∃ m ∈ values (extractComposeRefs config).mounts, exposesSocket m = true

def PermitsDevice (p : WorkerPolicy) (src : Text) : Prop :=
  (p.allowedDevices ≠ [] → src ∈ p.allowedDevices) ∧ (p.blockDockerSocket = true → ¬ ReachesSocket src)

theorem Seen.permits (h : Seen config) (hp : Passes p (extractComposeRefs config))
    (hm : src ∈ deviceSources config) : PermitsDevice p src := by
  refine ⟨fun hne => ?_, fun hblock hreach => ?_⟩
  · have hlisted : src ∈ values (extractComposeRefs config).devices :=
      (mem_deviceSources_iff.mp hm).elim id (h.listed src)
    exact (hp.devices src hlisted).resolve_left hne
  · have hseen : ∃ m ∈ values (extractComposeRefs config).mounts, exposesSocket m = true := by
      obtain hshort | hlong := mem_deviceSources_iff.mp hm
      · refine ⟨src, ?_, exposesSocket_of_device hshort hreach⟩
        rw [extracted_mounts]
        exact mem_append_left _ (mem_append_right _ hshort)
      · exact h.socket ⟨src, hlong, hreach⟩
    obtain ⟨m, hm, hexposes⟩ := hseen
    cases hblock.symm.trans (hp.socket m hm hexposes)

theorem accepted_devices_permitted_iff (config : List (Text × Value)) :
    (∀ p, p.disabled = false → accepts p config → ∀ src ∈ deviceSources config, PermitsDevice p src) ↔
      Seen config := by
  constructor
  · intro h
    refine ⟨fun src hlong => ?_, fun hex => by_contra (fun hno => ?_)⟩
    · let listed := values (extractComposeRefs config).devices
      have hacc : accepts { allowedDevices := (src ++ ['x']) :: listed } config := by
        refine accepts_iff.mpr (.inr { passes_open _ with devices := fun d hd => .inr ?_ })
        exact mem_cons_of_mem _ hd
      have hsrc := h _ rfl hacc src (mem_deviceSources_iff.mpr (.inr hlong))
      exact mem_of_listed (.inr (hsrc.1 (cons_ne_nil _ _)))
    · -- the policy that blocks the socket sees no mount of it and accepts
      obtain ⟨src, hlong, hreach⟩ := hex
      have hacc : accepts { blockDockerSocket := true } config :=
        accepts_iff.mpr (.inr
          { passes_open _ with socket := fun m hm hexposes => absurd ⟨m, hm, hexposes⟩ hno })
      exact (h _ rfl hacc src (mem_deviceSources_iff.mpr (.inr hlong))).2 rfl hreach
  · intro h p hd hacc src hm
    exact h.permits ((accepts_iff.mp hacc).resolve_left (by rw [hd]; decide)) hm

def longDevices : List (Text × Value) :=
  [("services".toList, .obj [("web".toList, .obj
    [("image".toList, .str "nginx:1.27".toList),
      ("devices".toList, .arr
        [.obj [("source".toList, .str "/dev/sda".toList), ("target".toList, .str "/dev/sda".toList)],
          .obj [("source".toList, .str "/run/docker.sock".toList),
            ("target".toList, .str "/run/docker.sock".toList)]])])])]

theorem long_devices_accepted :
    accepts { allowedDevices := ["/dev/ttyUSB0".toList], blockDockerSocket := true } longDevices ∧
      deviceSources longDevices = ["/dev/sda".toList, "/run/docker.sock".toList] ∧
      ReachesSocket "/run/docker.sock".toList := by
  refine ⟨rfl, by decide, "/run/docker.sock".toList, by decide, rfl, [], rfl, not_mem_nil⟩

end Wireops.Policy.Devices
