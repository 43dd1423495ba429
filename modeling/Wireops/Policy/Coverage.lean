import Wireops.Lib.Flow
import Wireops.Policy.Compose

namespace Wireops.Policy.Coverage

open List Lib.Flow Lib.Strings Policy.Compose

variable {p : WorkerPolicy} {r r' : ComposeRefs} {vs : List Text} {violation : Text → Violation}
  {v : Text}

theorem validateEach_ok {check : Text → Except Violation Unit} :
    validateEach check vs = .ok () ↔ ∀ v ∈ vs, check v = .ok () := by
  induction vs with
  | nil =>
    refine Iff.intro (fun _ v hv => ?_) (fun _ => rfl)
    cases hv
  | cons v vs ih =>
    rw [forall_mem_cons, ← ih, validateEach]
    cases check v with
    | error e => exact ⟨nofun, fun h => nomatch h.1⟩
    | ok u => exact ⟨fun h => ⟨rfl, h⟩, fun h => h.2⟩

theorem validateFlag_ok {blocked : Bool} {svcs : List Text} :
    validateFlag blocked violation svcs = .ok () ↔ (svcs ≠ [] → blocked = false) := by
  cases svcs with
  | nil => exact ⟨fun _ h => absurd rfl h, fun _ => rfl⟩
  | cons svc svcs =>
    cases blocked with
    | true => exact ⟨nofun, fun h => nomatch h nofun⟩
    | false => exact ⟨fun _ _ => rfl, fun _ => rfl⟩

theorem validateListed_ok {allowed : List Text} :
    validateListed allowed violation vs = .ok () ↔ ∀ v ∈ vs, allowed = [] ∨ v ∈ allowed := by
  rw [validateListed, validateEach_ok]
  refine forall₂_congr (fun v _ => ?_)
  rw [ite_eq_left_iff, Bool.or_eq_true, decide_eq_true_eq, contains_iff_mem]
  exact ⟨fun h => by_contra (fun hno => nomatch h hno), fun h hno => absurd h hno⟩

structure Passes (p : WorkerPolicy) (r : ComposeRefs) : Prop where
  images : ∀ i ∈ values r.images, validateImage p i = .ok ()
  volumes : ∀ v ∈ values r.volumes, validateSingleVolume p v = .ok ()
  networks : ∀ n ∈ values r.networks, n = [] ∨ p.allowedNetworks = [] ∨ n ∈ p.allowedNetworks
  privileged : r.privilegedServices ≠ [] → p.blockPrivileged = false
  hostNetwork : r.hostNetworkServices ≠ [] → p.blockHostNetwork = false
  hostPID : r.hostPIDServices ≠ [] → p.blockHostPID = false
  hostIPC : r.hostIPCServices ≠ [] → p.blockHostIPC = false
  socket : ∀ m ∈ values r.mounts, exposesSocket m = true → p.blockDockerSocket = false
  capAdds : ∀ c ∈ values r.capAdds, p.allowedCapAdd = [] ∨ c ∈ p.allowedCapAdd
  devices : ∀ d ∈ values r.devices, p.allowedDevices = [] ∨ d ∈ p.allowedDevices
  securityOpts : ∀ o ∈ values r.securityOpts, p.allowedSecurityOpt = [] ∨ o ∈ p.allowedSecurityOpt

theorem bind_ok {a b : Except Violation Unit} : (do a; b) = .ok () ↔ a = .ok () ∧ b = .ok () := by
  rw [bind_eq_ok_iff]
  constructor
  · rintro ⟨u, ha, hb⟩
    exact ⟨ha, hb⟩
  · rintro ⟨ha, hb⟩
    exact ⟨(), ha, hb⟩

theorem validateNetwork_ok {n : Text} :
    validateNetwork p n = .ok () ↔ n = [] ∨ p.allowedNetworks = [] ∨ n ∈ p.allowedNetworks := by
  rw [validateNetwork, ite_eq_left_iff, Bool.or_eq_true, Bool.or_eq_true, decide_eq_true_eq,
    decide_eq_true_eq, contains_iff_mem, or_assoc]
  exact ⟨fun h => by_contra (fun hno => nomatch h hno), fun h hno => absurd h hno⟩

theorem validateDockerSocket_ok {ms : List Text} : validateDockerSocket p ms = .ok () ↔
    ∀ m ∈ ms, exposesSocket m = true → p.blockDockerSocket = false := by
  rw [validateDockerSocket, validateEach_ok]
  refine forall₂_congr (fun m _ => ?_)
  cases p.blockDockerSocket <;> cases exposesSocket m <;> simp

theorem validateRefs_ok : validateRefs p r = .ok () ↔ Passes p r := by
  unfold validateRefs
  simp only [bind_ok, validateImages, validateVolumes, validatePrivileged, validateHostNetwork,
    validateHostPID, validateHostIPC, validateCapAdd, validateDevices, validateSecurityOpt,
    validateEach_ok, validateNetwork_ok, validateFlag_ok, validateDockerSocket_ok, validateListed_ok]
  constructor
  · rintro ⟨h₁, h₂, h₃, h₄, h₅, h₆, h₇, h₈, h₉, h₁₀, h₁₁⟩
    exact ⟨h₁, h₂, h₃, h₄, h₅, h₆, h₇, h₈, h₉, h₁₀, h₁₁⟩
  · intro h
    exact ⟨h.images, h.volumes, h.networks, h.privileged, h.hostNetwork, h.hostPID, h.hostIPC,
      h.socket, h.capAdds, h.devices, h.securityOpts⟩

/-- Every value of the second config is one that the first asks for too: the
same name, a path inside one of its bind mounts, or the same privilege. -/
structure Covers (r r' : ComposeRefs) : Prop where
  images : ∀ i ∈ values r'.images, i ∈ values r.images
  hostVolumes : (∃ v ∈ values r'.volumes, isHostPath (before ':' v) = true) →
    ∃ w ∈ values r.volumes, isHostPath (before ':' w) = true
  volumes : ∀ v ∈ values r'.volumes, ∃ w ∈ values r.volumes,
    permitsVolume (before ':' v) (before ':' w) = true
  networks : ∀ n ∈ values r'.networks, n = [] ∨ n ∈ values r.networks
  privileged : r'.privilegedServices ≠ [] → r.privilegedServices ≠ []
  hostNetwork : r'.hostNetworkServices ≠ [] → r.hostNetworkServices ≠ []
  hostPID : r'.hostPIDServices ≠ [] → r.hostPIDServices ≠ []
  hostIPC : r'.hostIPCServices ≠ [] → r.hostIPCServices ≠ []
  socket : (∃ m ∈ values r'.mounts, exposesSocket m = true) → ∃ m ∈ values r.mounts, exposesSocket m = true
  capAdds : ∀ c ∈ values r'.capAdds, c ∈ values r.capAdds
  devices : ∀ d ∈ values r'.devices, d ∈ values r.devices
  securityOpts : ∀ o ∈ values r'.securityOpts, o ∈ values r.securityOpts

theorem validateSingleVolume_ok : validateSingleVolume p v = .ok () ↔
    (isHostPath (before ':' v) = true → p.blockHostVolumes = false) ∧
      (p.allowedVolumes = [] ∨ ∃ a ∈ p.allowedVolumes, permitsVolume (before ':' v) a = true) := by
  unfold validateSingleVolume
  dsimp only
  split
  · next hb =>
    rw [Bool.and_eq_true] at hb
    exact ⟨nofun, fun h => nomatch hb.1.symm.trans (h.1 hb.2)⟩
  · next hb =>
    rw [Bool.and_eq_true, not_and] at hb
    have hflag (hh : isHostPath (before ':' v) = true) : p.blockHostVolumes = false :=
      eq_false_of_ne_true (fun hflag => hb hflag hh)
    split
    · next ha =>
      rw [Bool.or_eq_true, decide_eq_true_eq, any_eq_true] at ha
      exact ⟨fun _ => ⟨hflag, ha⟩, fun _ => rfl⟩
    · next ha =>
      rw [Bool.or_eq_true, decide_eq_true_eq, any_eq_true] at ha
      exact ⟨nofun, fun h => absurd h.2 ha⟩

theorem permitsVolume_refl (v : Text) : permitsVolume v v = true := by
  unfold permitsVolume
  split
  · exact within_refl _
  · exact decide_eq_true rfl

theorem permitsVolume_trans {a w : Text} (hw : permitsVolume w a = true)
    (hv : permitsVolume v w = true) : permitsVolume v a = true := by
  by_cases hh : isHostPath v = true
  · rw [permitsVolume, if_pos hh] at hv ⊢
    unfold permitsVolume at hw
    split at hw
    · exact within_trans hw hv
    · rw [← of_decide_eq_true hw]
      exact hv
  · rw [permitsVolume, if_neg hh] at hv
    rw [of_decide_eq_true hv]
    exact hw

theorem Covers.passes (h : Covers r r') (hp : Passes p r) : Passes p r' where
  images i hi := hp.images i (h.images i hi)
  volumes v hv := by
    obtain ⟨w, hw, hperm⟩ := h.volumes v hv
    obtain ⟨_, hallow⟩ := validateSingleVolume_ok.mp (hp.volumes w hw)
    refine validateSingleVolume_ok.mpr ⟨fun hh => ?_, ?_⟩
    · obtain ⟨u, hu, huh⟩ := h.hostVolumes ⟨v, hv, hh⟩
      exact (validateSingleVolume_ok.mp (hp.volumes u hu)).1 huh
    · obtain hnil | ⟨a, ha, hpa⟩ := hallow
      · exact .inl hnil
      · exact .inr ⟨a, ha, permitsVolume_trans hpa hperm⟩
  networks n hn := by
    obtain hnil | hn := h.networks n hn
    · exact .inl hnil
    · exact hp.networks n hn
  privileged hne := hp.privileged (h.privileged hne)
  hostNetwork hne := hp.hostNetwork (h.hostNetwork hne)
  hostPID hne := hp.hostPID (h.hostPID hne)
  hostIPC hne := hp.hostIPC (h.hostIPC hne)
  socket m hm he := by
    obtain ⟨m', hm', he'⟩ := h.socket ⟨m, hm, he⟩
    exact hp.socket m' hm' he'
  capAdds c hc := hp.capAdds c (h.capAdds c hc)
  devices d hd := hp.devices d (h.devices d hd)
  securityOpts o ho := hp.securityOpts o (h.securityOpts o ho)

theorem passes_open (r : ComposeRefs) : Passes {} r where
  images _ _ := rfl
  volumes _ _ := validateSingleVolume_ok.mpr ⟨fun _ => rfl, .inl rfl⟩
  networks _ _ := .inr (.inl rfl)
  privileged _ := rfl
  hostNetwork _ := rfl
  hostPID _ := rfl
  hostIPC _ := rfl
  socket _ _ _ := rfl
  capAdds _ _ := .inl rfl
  devices _ _ := .inl rfl
  securityOpts _ _ := .inl rfl

theorem mem_of_listed (h : (v ++ ['x']) :: vs = [] ∨ v ∈ (v ++ ['x']) :: vs) : v ∈ vs := by
  obtain h | h := h
  · cases h
  · obtain h | h := mem_cons.mp h
    · have hlen := congrArg List.length h
      rw [length_append] at hlen
      exact absurd hlen (by simp)
    · exact h

def onlyImage (i w : Text) : Text := if i.head? = some '[' then escape w else bracket w

theorem matchPattern_onlyImage (i w : Text) : matchPattern (onlyImage i w) w = true := by
  rw [matchPattern, Bool.or_eq_true]
  unfold onlyImage
  split
  · exact .inr (matchGlob_escape.mpr rfl)
  · exact .inr (matchGlob_bracket.mpr rfl)

theorem eq_of_matchPattern_onlyImage {i w : Text} (h : matchPattern (onlyImage i w) i = true) : i = w := by
  rw [matchPattern, Bool.or_eq_true, decide_eq_true_eq] at h
  unfold onlyImage at h
  split at h
  · next hi =>
    obtain h | h := h
    · cases w with
      | nil => exact h.symm
      | cons c w =>
        rw [← h] at hi
        cases hi
    · exact matchGlob_escape.mp h
  · next hi =>
    obtain h | h := h
    · cases w with
      | nil => exact h.symm
      | cons c w =>
        rw [← h] at hi
        exact absurd rfl hi
    · exact matchGlob_bracket.mp h

theorem validateImage_listed {allowed : List Text} {i : Text} :
    validateImage { allowedImages := allowed } i = .ok () ↔
      allowed = [] ∨ ∃ a ∈ allowed, matchPattern a i = true := by
  unfold validateImage
  rw [if_neg (by simp), ite_eq_right_iff, Bool.and_eq_true, decide_eq_true_eq, Bool.not_eq_true',
    imageAllowed, any_eq_false]
  constructor
  · intro h
    by_contra hno
    rw [not_or] at hno
    refine nomatch h ⟨hno.1, fun a ha hm => hno.2 ⟨a, ha, hm⟩⟩
  · rintro (h | ⟨a, ha, hm⟩) ⟨hne, hall⟩
    · exact absurd h hne
    · exact absurd hm (hall a ha)

theorem within_of_permitsVolume {a : Text} (h : permitsVolume v a = true) : within (clean a) (clean v) = true := by
  unfold permitsVolume at h
  split at h
  · exact h
  · rw [of_decide_eq_true h]
    exact within_refl _

theorem not_within_plain (path : Text) : ¬ within (clean (plain (clean path).length)) (clean path) = true := by
  intro h
  have hle := length_le_of_within h
  rw [clean_plain, plain_length] at hle
  omega

theorem exists_covering {q : Text → Prop} {other : Text} (hother : ¬ q other)
    (h : ∀ allowed, allowed ≠ [] → (∀ w ∈ vs, ∃ a ∈ allowed, permitsVolume (before ':' w) a = true) →
      ∃ a ∈ allowed, q a) : ∃ w ∈ vs, q (before ':' w) := by
  have hraw : ∀ w ∈ vs, ∃ a ∈ other :: vs.map (before ':'), permitsVolume (before ':' w) a = true := by
    intro w hw
    exact ⟨before ':' w, mem_cons_of_mem _ (mem_map_of_mem hw), permitsVolume_refl _⟩
  obtain ⟨a, ha, hq⟩ := h _ (cons_ne_nil _ _) hraw
  obtain rfl | ha := mem_cons.mp ha
  · exact absurd hq hother
  · obtain ⟨w, hw, rfl⟩ := mem_map.mp ha
    exact ⟨w, hw, hq⟩

section Necessary

variable (h : ∀ p : WorkerPolicy, p.disabled = false → Passes p r → Passes p r')

include h

theorem images_covered : ∀ i ∈ values r'.images, i ∈ values r.images := by
  intro i hi
  let allowed := ((i ++ ['x']) :: values r.images).map (onlyImage i)
  have hraw : ∀ w ∈ values r.images, validateImage { allowedImages := allowed } w = .ok () := by
    intro w hw
    refine validateImage_listed.mpr (.inr ⟨onlyImage i w, ?_, matchPattern_onlyImage i w⟩)
    exact mem_map_of_mem (mem_cons_of_mem _ hw)
  have hp := h { allowedImages := allowed } rfl { passes_open r with images := hraw }
  obtain hnil | ⟨a, ha, hm⟩ := validateImage_listed.mp (hp.images i hi)
  · exact absurd hnil (cons_ne_nil _ _)
  · obtain ⟨w, hw, rfl⟩ := mem_map.mp ha
    have hiw := eq_of_matchPattern_onlyImage hm
    subst hiw
    exact mem_of_listed (.inr hw)

theorem volumes_covered : ∀ v ∈ values r'.volumes, ∃ w ∈ values r.volumes,
    permitsVolume (before ':' v) (before ':' w) = true := by
  intro v hv
  have hother := mt within_of_permitsVolume (not_within_plain (before ':' v))
  refine exists_covering (q := (permitsVolume (before ':' v) · = true)) hother (fun allowed hne hraw => ?_)
  have hp := h { allowedVolumes := allowed } rfl { passes_open r with
    volumes := fun w hw => validateSingleVolume_ok.mpr ⟨fun _ => rfl, .inr (hraw w hw)⟩ }
  exact (validateSingleVolume_ok.mp (hp.volumes v hv)).2.resolve_left hne

theorem hostVolumes_covered (hv : ∃ v ∈ values r'.volumes, isHostPath (before ':' v) = true) :
    ∃ w ∈ values r.volumes, isHostPath (before ':' w) = true := by
  by_contra hno
  obtain ⟨v, hv, hh⟩ := hv
  have hraw : ∀ w ∈ values r.volumes,
      validateSingleVolume { blockHostVolumes := true } w = .ok () := by
    intro w hw
    exact validateSingleVolume_ok.mpr ⟨fun hw' => absurd ⟨w, hw, hw'⟩ hno, .inl rfl⟩
  have hp := h { blockHostVolumes := true } rfl { passes_open r with volumes := hraw }
  cases (validateSingleVolume_ok.mp (hp.volumes v hv)).1 hh

theorem socket_covered (hm : ∃ m ∈ values r'.mounts, exposesSocket m = true) :
    ∃ m ∈ values r.mounts, exposesSocket m = true := by
  by_contra hno
  obtain ⟨m, hm, he⟩ := hm
  have hp := h { blockDockerSocket := true } rfl
    { passes_open r with socket := fun w hw hw' => absurd ⟨w, hw, hw'⟩ hno }
  cases hp.socket m hm he

theorem networks_covered : ∀ n ∈ values r'.networks, n = [] ∨ n ∈ values r.networks := by
  intro n hn
  have hp := h { allowedNetworks := (n ++ ['x']) :: values r.networks } rfl
    { passes_open r with networks := fun w hw => .inr (.inr (mem_cons_of_mem _ hw)) }
  obtain hnil | hn := hp.networks n hn
  · exact .inl hnil
  · exact .inr (mem_of_listed hn)

end Necessary

/-- A policy-free account of when all policies carry over from one config to
another. -/
theorem passes_iff_covers : (∀ p : WorkerPolicy, p.disabled = false → Passes p r → Passes p r') ↔ Covers r r' := by
  constructor
  · intro h
    refine ⟨images_covered h, hostVolumes_covered h, volumes_covered h, networks_covered h,
      fun hne hnil => ?_, fun hne hnil => ?_, fun hne hnil => ?_, fun hne hnil => ?_,
      socket_covered h, fun c hc => ?_, fun d hd => ?_, fun o ho => ?_⟩
    · exact nomatch (h { blockPrivileged := true } rfl
        { passes_open r with privileged := absurd hnil }).privileged hne
    · exact nomatch (h { blockHostNetwork := true } rfl
        { passes_open r with hostNetwork := absurd hnil }).hostNetwork hne
    · exact nomatch (h { blockHostPID := true } rfl
        { passes_open r with hostPID := absurd hnil }).hostPID hne
    · exact nomatch (h { blockHostIPC := true } rfl
        { passes_open r with hostIPC := absurd hnil }).hostIPC hne
    · refine mem_of_listed ((h { allowedCapAdd := (c ++ ['x']) :: values r.capAdds } rfl
        { passes_open r with capAdds := ?_ }).capAdds c hc)
      exact fun w hw => .inr (mem_cons_of_mem _ hw)
    · refine mem_of_listed ((h { allowedDevices := (d ++ ['x']) :: values r.devices } rfl
        { passes_open r with devices := ?_ }).devices d hd)
      exact fun w hw => .inr (mem_cons_of_mem _ hw)
    · refine mem_of_listed ((h { allowedSecurityOpt := (o ++ ['x']) :: values r.securityOpts } rfl
        { passes_open r with securityOpts := ?_ }).securityOpts o ho)
      exact fun w hw => .inr (mem_cons_of_mem _ hw)
  · exact fun h p _ hp => h.passes hp

theorem accepts_iff {config : List (Text × Value)} :
    accepts p config ↔ p.disabled = true ∨ Passes p (extractComposeRefs config) := by
  unfold accepts validateComposeConfig
  split
  · next hd => exact ⟨fun _ => .inl hd, fun _ => rfl⟩
  · next hd =>
    rw [validateRefs_ok]
    exact ⟨.inr, fun h => h.resolve_left hd⟩

theorem accepts_iff_covers {config config' : List (Text × Value)} : (∀ p, accepts p config → accepts p config') ↔
      Covers (extractComposeRefs config) (extractComposeRefs config') := by
  rw [← passes_iff_covers]
  constructor
  · intro h p hd hp
    have hacc := accepts_iff.mp (h p (accepts_iff.mpr (.inr hp)))
    exact hacc.resolve_left (by rw [hd]; decide)
  · intro h p hacc
    cases hd : p.disabled with
    | true => exact accepts_iff.mpr (.inl hd)
    | false =>
      have hp := (accepts_iff.mp hacc).resolve_left (by rw [hd]; decide)
      exact accepts_iff.mpr (.inr (h p hd hp))

end Wireops.Policy.Coverage
