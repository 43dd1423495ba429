import Wireops.Policy.Coverage
import Wireops.Policy.Extract

namespace Wireops.Jobs.Dispatch

open Option List Lib.Strings Policy.Compose Policy.Coverage Policy.Extract

variable {p : WorkerPolicy}

structure Definition where
  image : Text
  volumes : List Text := []
  network : Text := []

structure RunJobCommand where
  image : Text
  volumes : List Text
  network : Text

/-- What ends a run before its command is dispatched. -/
inductive Refusal where
  | metadata
  | policyLoad
  | violation (v : Violation)
  | registryAuth

/-- What the rest of the server answers: the record is patched, the worker's
policy loaded, the credentials resolved. -/
structure Answers where
  patched : Bool := true
  policy : Option WorkerPolicy := some {}
  registryAuth : Bool := true

/-- The checks of a disabled policy all pass. -/
def unlessDisabled (p : WorkerPolicy) (check : Except Violation Unit) : Except Violation Unit :=
  if p.disabled then .ok () else check

def validateJob (p : WorkerPolicy) (d : Definition) : Except Violation Unit := do
  unlessDisabled p (validateImages p [d.image])
  unlessDisabled p (validateVolumes p d.volumes)
  unlessDisabled p (validateNetwork p d.network)

variable (o : Answers) (d : Definition)

def dispatchToWorker : Except Refusal RunJobCommand :=
  if !o.patched then .error .metadata
  else match o.policy with
    | none => .error .policyLoad
    | some p => match validateJob p d with
      | .error v => .error (.violation v)
      | .ok () =>
        if o.registryAuth then .ok ⟨d.image, d.volumes, d.network⟩ else .error .registryAuth

def Dispatched : Prop := ∃ cmd, dispatchToWorker o d = .ok cmd

def jobRefs : ComposeRefs where
  images := owned "job".toList [d.image]
  volumes := owned "job".toList d.volumes
  networks := owned "job".toList [d.network]

theorem unlessDisabled_ok {check : Except Violation Unit} :
    unlessDisabled p check = .ok () ↔ p.disabled = true ∨ check = .ok () := by
  unfold unlessDisabled
  split
  · next hd => exact ⟨fun _ => .inl hd, fun _ => rfl⟩
  · next hd => exact ⟨.inr, fun h => h.resolve_left hd⟩

theorem validateJob_ok {d : Definition} : validateJob p d = .ok () ↔ p.disabled = true ∨ Passes p (jobRefs d) := by
  simp only [validateJob, bind_ok, unlessDisabled_ok, validateImages, validateVolumes,
    validateEach_ok, validateNetwork_ok, mem_singleton, forall_eq]
  rw [← or_and_left, ← or_and_left]
  refine or_congr_right ⟨fun h => ?_, fun h => ?_⟩
  · obtain ⟨himage, hvolumes, hnetwork⟩ := h
    refine ⟨?_, ?_, ?_, absurd rfl, absurd rfl, absurd rfl, absurd rfl, forall_mem_nil _,
      forall_mem_nil _, forall_mem_nil _, forall_mem_nil _⟩
    · rw [jobRefs, values_owned]
      exact fun i hi => mem_singleton.mp hi ▸ himage
    · rw [jobRefs, values_owned]
      exact hvolumes
    · rw [jobRefs, values_owned]
      exact fun n hn => mem_singleton.mp hn ▸ hnetwork
  · have himages := h.images
    have hvolumes := h.volumes
    have hnetworks := h.networks
    rw [jobRefs, values_owned] at himages hvolumes hnetworks
    exact ⟨himages _ (mem_singleton_self _), hvolumes, hnetworks _ (mem_singleton_self _)⟩

theorem dispatched_iff {o : Answers} {d : Definition} (hp : o.policy = some p) :
    Dispatched o d ↔ o.patched = true ∧ validateJob p d = .ok () ∧ o.registryAuth = true := by
  unfold Dispatched dispatchToWorker
  rw [hp]
  dsimp only
  constructor
  · rintro ⟨cmd, h⟩
    split at h
    · cases h
    · next hpatched =>
      split at h
      · cases h
      · next hok =>
        split at h
        · next hauth => exact ⟨by simpa using hpatched, hok, hauth⟩
        · cases h
  · rintro ⟨hpatched, hok, hauth⟩
    rw [hpatched, hok, hauth]
    exact ⟨_, rfl⟩

def composeOf : List (Text × Value) :=
  [("services".toList, .obj [("job".toList, .obj
    [("image".toList, .str d.image), ("volumes".toList, .arr (d.volumes.map .str)),
      ("network_mode".toList, .str d.network)])])]

def sources : List Text := d.volumes.filterMap shortSource

theorem extractComposeRefs_composeOf : extractComposeRefs (composeOf d) =
    { images := owned "job".toList ((some d.image).filter (· ≠ [])).toList
      volumes := owned "job".toList (sources d)
      hostNetworkServices := if some d.network = some "host".toList then ["job".toList] else []
      mounts := owned "job".toList (sources d) } := by
  have hvolumes : volumeSources [("image".toList, .str d.image),
      ("volumes".toList, .arr (d.volumes.map .str)), ("network_mode".toList, .str d.network)] =
      sources d := by
    have hshort : volumeSource ∘ Value.str = shortSource := by
      funext v
      rw [Function.comp_apply, volumeSource]
    change (d.volumes.map Value.str).filterMap volumeSource = _
    rw [filterMap_map, hshort, sources]
  have hservices : services (composeOf d) = [("job".toList, [("image".toList, .str d.image),
      ("volumes".toList, .arr (d.volumes.map .str)), ("network_mode".toList, .str d.network)])] :=
    rfl
  rw [extractComposeRefs, hservices]
  have hresolved (volumes : List OwnedRef) : resolvedVolumeDevices (composeOf d) volumes = [] := by
    have hnone : namedVolumeDevices (composeOf d) = [] := rfl
    rw [resolvedVolumeDevices, hnone, filterMap_eq_nil_iff]
    exact fun _ _ => rfl
  simp only [foldl_cons, foldl_nil, ComposeRefs.append, serviceRefs, hvolumes, nil_append, hresolved, append_nil]
  change ComposeRefs.mk _ _ _ _ _ _ _ _ _ _ (owned "job".toList (sources d) ++ []) = _
  rw [append_nil]
  rfl

/-- The job asks for neither the host network nor the Docker socket, and its
volumes name their sources as a compose file would read them. -/
structure Harmless (d : Definition) : Prop where
  network : d.network ≠ "host".toList
  socket : ∀ src ∈ sources d, exposesSocket src = false
  host : (∃ src ∈ sources d, isHostPath src = true) → ∃ vol ∈ d.volumes, isHostPath (before ':' vol) = true
  inside : ∀ src ∈ sources d, ∃ vol ∈ d.volumes, permitsVolume src (before ':' vol) = true

theorem before_source {d : Definition} {src : Text} (h : src ∈ sources d) : before ':' src = src := by
  obtain ⟨vol, _, hsrc⟩ := mem_filterMap.mp h
  refine before_eq_self ?_
  obtain ⟨_, hsrc⟩ := ite_none_right_eq_some.mp hsrc
  rw [filter_eq_some_iff] at hsrc
  rw [← Option.some.inj hsrc.1]
  exact fun hcolon => notMem_before ':' _ (mem_of_mem_trim hcolon)

theorem covers_composeOf_iff : Covers (jobRefs d) (extractComposeRefs (composeOf d)) ↔ Harmless d := by
  rw [extractComposeRefs_composeOf]
  have hvols : values (jobRefs d).volumes = d.volumes := values_owned ..
  have himgs : values (jobRefs d).images = [d.image] := values_owned ..
  constructor
  · intro h
    have hhost := h.hostVolumes
    have hinside := h.volumes
    have hsocket := h.socket
    rw [hvols, values_owned] at hhost hinside
    rw [values_owned] at hsocket
    refine ⟨fun hnet => ?_, fun src hsrc => ?_, ?_, fun src hsrc => ?_⟩
    · refine h.hostNetwork ?_ rfl
      rw [if_pos (congrArg some hnet)]
      exact cons_ne_nil _ _
    · refine Bool.eq_false_iff.mpr (fun hexposes => ?_)
      obtain ⟨m, hm, _⟩ := hsocket ⟨src, hsrc, hexposes⟩
      cases hm
    · rintro ⟨src, hsrc, hh⟩
      exact hhost ⟨src, hsrc, by rwa [before_source hsrc]⟩
    · obtain ⟨vol, hvol, hperm⟩ := hinside src hsrc
      rw [before_source hsrc] at hperm
      exact ⟨vol, hvol, hperm⟩
  · intro h
    refine ⟨?_, ?_, ?_, nofun, absurd rfl, ?_, absurd rfl, absurd rfl, ?_, nofun, nofun, nofun⟩
    · rw [himgs, values_owned]
      intro i hi
      rw [mem_toList, filter_eq_some_iff] at hi
      exact mem_singleton.mpr (Option.some.inj hi.1).symm
    · rw [hvols, values_owned]
      rintro ⟨src, hsrc, hh⟩
      rw [before_source hsrc] at hh
      exact h.host ⟨src, hsrc, hh⟩
    · rw [hvols, values_owned]
      intro src hsrc
      rw [before_source hsrc]
      exact h.inside src hsrc
    · intro hne
      rw [if_neg (fun heq => h.network (Option.some.inj heq))] at hne
      exact absurd rfl hne
    · rw [values_owned]
      rintro ⟨src, hsrc, hexposes⟩
      rw [h.socket src hsrc] at hexposes
      cases hexposes

theorem dispatched_job_accepted_iff :
    (∀ o p, o.policy = some p → Dispatched o d → accepts p (composeOf d)) ↔ Harmless d := by
  rw [← covers_composeOf_iff, ← passes_iff_covers]
  constructor
  · intro h p hd hp
    have hdis : Dispatched { policy := some p } d :=
      (dispatched_iff rfl).mpr ⟨rfl, validateJob_ok.mpr (.inr hp), rfl⟩
    exact (accepts_iff.mp (h { policy := some p } p rfl hdis)).resolve_left (by rw [hd]; decide)
  · intro h o p ho hdis
    obtain ⟨_, hok, _⟩ := (dispatched_iff ho).mp hdis
    cases hd : p.disabled with
    | true => exact accepts_iff.mpr (.inl hd)
    | false =>
      have hp := (validateJob_ok.mp hok).resolve_left (by rw [hd]; decide)
      exact accepts_iff.mpr (.inr (h p hd hp))

def privileged : Definition where
  image := "docker:27-cli".toList
  volumes := ["/var/run/docker.sock:/var/run/docker.sock".toList]
  network := "host".toList

def blocking : WorkerPolicy := { blockHostNetwork := true, blockDockerSocket := true }

theorem privileged_job_dispatched : Dispatched { policy := some blocking } privileged ∧
    ¬ accepts blocking (composeOf privileged) := by
  refine ⟨⟨_, rfl⟩, ?_⟩
  intro h
  cases h

end Wireops.Jobs.Dispatch
