import Wireops.Depgraph

namespace Wireops.Sync.Metadata

open Function Option List Lib.Strings Policy.Compose

abbrev Block := Text → Option Value

structure Blocks where
  labels : Block
  annotations : Block

structure Render where
  stackID : Text
  stackName : Text
  repoName : Text
  repoURL : Text
  branch : Text
  composeFile : Text
  workerFingerprint : Text
  commitSHA : Text
  generatedAt : Text
  currentVersion : Int
  checksum : Text
  forceIncrement : Bool

structure Revision where
  version : Int
  checksum : Text
  services : List (Text × Blocks)

def namespaced (name : String) : Text := "dev.wireops.".toList ++ name.toList

def reserved (key : Text) : Bool := key = "dev.wireops".toList || "dev.wireops.".toList.isPrefixOf key

def stripWireopsMetadata (m : Block) : Block := fun key => if reserved key then none else m key

/-- The assignments of reserved keys, the last one first. -/
def inject (m : Block) (entries : List (String × Text)) : Block :=
  entries.foldr (fun e m => update m (namespaced e.1) (some (.str e.2))) m

variable (r : Render)

def identityLabels : List (String × Text) :=
  [("stack_id", r.stackID), ("managed", "true".toList)]

def identityAnnotations : List (String × Text) :=
  (if r.workerFingerprint = [] then [] else [("worker.fingerprint", r.workerFingerprint)]) ++
    [("repository.file", r.composeFile), ("repository.branch", r.branch), ("repository.url", r.repoURL),
      ("repository", r.repoName), ("stack_name", r.stackName)]

def versionLabels : List (String × Text) := [("repository.commit_sha", r.commitSHA)]

def versionAnnotations (checksum : Text) (version : Int) : List (String × Text) :=
  [("generated_at", r.generatedAt), ("checksum", checksum), ("version", (toString version).toList),
    ("repository.commit_sha", r.commitSHA)]

def block (key : String) (svc : List (Text × Value)) : Block :=
  fun k => (Depgraph.normalizeToMap ((field key svc).getD .null)).lookup k

def injectMetadata (svc : List (Text × Value)) : Blocks where
  labels := inject (stripWireopsMetadata (block "labels" svc)) (identityLabels r)
  annotations := inject (stripWireopsMetadata (block "annotations" svc)) (identityAnnotations r)

def injectVersionMetadata (checksum : Text) (version : Int) (b : Blocks) : Blocks where
  labels := inject b.labels (versionLabels r)
  annotations := inject b.annotations (versionAnnotations r checksum version)

def objects (services : List (Text × Value)) : List (Text × List (Text × Value)) :=
  services.filterMap (fun s => s.2.asObj.map (s.1, ·))

/-- `hash` is the checksum of the normalized YAML and the environment. Where it
is the stored one, the file of the current version stays, and is written only if
it is missing. -/
def generateRevision (hash : List (Text × Blocks) → Text) (services : List (Text × Value)) : Revision :=
  let currentVersion := if r.currentVersion = 0 then 1 else r.currentVersion
  let nextVersion := if r.forceIncrement then currentVersion + 1 else currentVersion
  let base := (objects services).map (Prod.map id (injectMetadata r))
  let checksum := hash base
  let rendered := base.map (Prod.map id (injectVersionMetadata r checksum nextVersion))
  if !r.forceIncrement && r.checksum ≠ checksum && r.checksum ≠ [] then
    ⟨nextVersion + 1, checksum, rendered.map (Prod.map id (injectVersionMetadata r checksum (nextVersion + 1)))⟩
  else ⟨nextVersion, checksum, rendered⟩

/-- What the user's block says of a key. In a list the last entry counts. -/
def effective : Option Value → Text → Option Value
  | some (.obj m), key => m.lookup key
  | some (.arr list), key => ((list.filterMap Value.asStr).reverse.find? (before '=' · = key)).map
      (fun s => .str (s.drop ((before '=' s).length + 1)))
  | _, _ => none

def entry (entries : List (String × Text)) (key : Text) : Option Value :=
  (entries.find? (namespaced ·.1 = key)).map (.str ·.2)

/-- The server decides the reserved keys, the user the others. -/
def shared (server : List (String × Text)) (user : Text → Option Value) : Block :=
  fun key => if reserved key then entry server key else user key

variable {m : Block} {key : Text} {es fs : List (String × Text)}

theorem lookup_foldr (f : Text → Text) (g : Text → Value) (l : List Text) :
    (l.foldr (fun s res => (f s, g s) :: res) []).lookup key = (l.find? (f · = key)).map g := by
  induction l with
  | nil => rfl
  | cons s l ih =>
    rw [foldr_cons, lookup_cons, find?_cons, ih]
    by_cases h : f s = key
    · simp [h]
    · rw [beq_false_of_ne (Ne.symm h), decide_eq_false h]

theorem block_eq (name : String) (svc : List (Text × Value)) : block name svc = effective (field name svc) := by
  funext key
  unfold block
  cases field name svc with
  | none => rfl
  | some v =>
    cases v with
    | arr list =>
      rw [getD_some, Depgraph.normalizeToMap, ← foldr_reverse]
      exact lookup_foldr _ _ _
    | _ => rfl

theorem inject_apply : inject m es key = (entry es key).or (m key) := by
  induction es with
  | nil => rfl
  | cons e es ih =>
    by_cases h : namespaced e.1 = key
    · subst h
      simp [inject, entry]
    · have hstep : inject m (e :: es) key = inject m es key := update_of_ne (Ne.symm h) _ _
      have hentry : entry (e :: es) key = entry es key := by simp [entry, h]
      rw [hstep, hentry, ih]

theorem inject_again (h : es.map Prod.fst = fs.map Prod.fst) : inject (inject m es) fs = inject m fs := by
  funext key
  have hnone (hf : entry fs key = none) : entry es key = none := by
    simp only [entry, map_eq_none_iff, find?_eq_none, decide_eq_true_eq] at hf ⊢
    intro e he
    obtain ⟨e', he', hname⟩ := mem_map.mp (h ▸ mem_map_of_mem he)
    rw [← hname]
    exact hf e' he'
  simp only [inject_apply]
  cases hf : entry fs key with
  | none => rw [hnone hf, none_or]
  | some v => rfl

theorem inject_strip : inject (stripWireopsMetadata m) es = shared es m := by
  funext key
  unfold stripWireopsMetadata shared
  rw [inject_apply]
  split
  · exact or_none
  · next h =>
    have hnone : entry es key = none := by
      simp only [entry, map_eq_none_iff, find?_eq_none, decide_eq_true_eq]
      rintro e - rfl
      exact h (Bool.or_eq_true_iff.mpr (.inr ( isPrefixOf_iff_prefix.mpr (prefix_append ..))))
    rw [hnone, none_or]

theorem inject_shared : inject (shared es m) fs = shared (fs ++ es) m := by
  rw [← inject_strip, ← inject_strip]
  exact (foldr_append ..).symm

/-- What a service carries in the rendered revision. -/
def rendered (r : Render) (checksum : Text) (version : Int) (svc : List (Text × Value)) : Blocks where
  labels := shared (versionLabels r ++ identityLabels r) (effective (field "labels" svc))
  annotations := shared (versionAnnotations r checksum version ++ identityAnnotations r)
    (effective (field "annotations" svc))

theorem injectVersionMetadata_injectMetadata (r : Render) (checksum : Text) (version : Int)
    (svc : List (Text × Value)) :
    injectVersionMetadata r checksum version (injectMetadata r svc) = rendered r checksum version svc := by
  simp only [injectVersionMetadata, injectMetadata, block_eq, inject_strip, inject_shared, rendered]

theorem injectVersionMetadata_again (r : Render) (checksum : Text) (version next : Int) (b : Blocks) :
    injectVersionMetadata r checksum next (injectVersionMetadata r checksum version b) =
      injectVersionMetadata r checksum next b :=
  congrArg₂ Blocks.mk (inject_again rfl) (inject_again rfl)

theorem generateRevision_services (r : Render) (hash : List (Text × Blocks) → Text) (services : List (Text × Value)) :
    (generateRevision r hash services).services = (objects services).map (Prod.map id
      (rendered r (generateRevision r hash services).checksum (generateRevision r hash services).version)) := by
  unfold generateRevision
  dsimp only
  split
  · rw [List.map_map, List.map_map]
    refine map_congr_left (fun s _ => Prod.ext rfl ?_)
    exact (injectVersionMetadata_again ..).trans (injectVersionMetadata_injectMetadata ..)
  · rw [List.map_map]
    exact map_congr_left (fun s _ => Prod.ext rfl (injectVersionMetadata_injectMetadata ..))

end Wireops.Sync.Metadata
