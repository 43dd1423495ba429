import Mathlib.Data.List.Dedup
import Wireops.Policy.Compose

namespace Wireops.Depgraph

open Option List Lib.Strings Policy.Compose

inductive Kind where
  | service
  | network
  | volume
  deriving DecidableEq

inductive EdgeType where
  | dependsOn
  | network
  | volume
  deriving DecidableEq

structure Node where
  id : Text
  kind : Kind
  image : Text := []
  slug : Text := []
  external : Bool := false

structure Edge where
  source : Text
  target : Text
  type : EdgeType
  label : Text := []
  deriving DecidableEq

def nodeID : Kind × Text → Text
  | (.service, name) => "service:".toList ++ name
  | (.network, name) => "network:".toList ++ name
  | (.volume, name) => "volume:".toList ++ name

/-- The graph so far. `known` holds the names of the maps `networkNodes` and `volumeNodes`. -/
structure Graph where
  nodes : List Node := []
  edges : List Edge := []
  known : List (Kind × Text) := []

def Graph.ids (g : Graph) : List Text := g.nodes.map (·.id)

def text (key : String) (fields : List (Text × Value)) : Text := ((field key fields).bind Value.asStr).getD []

def sortedKeys (fields : List (Text × Value)) : List Text := (fields.map (·.1)).dedup.insertionSort (· ≤ ·)

def normalizeToMap : Value → List (Text × Value)
  | .obj m => m
  | .arr list => (list.filterMap Value.asStr).foldl
      (fun res s => (before '=' s, .str (s.drop ((before '=' s).length + 1))) :: res) []
  | _ => []

def customSlug (svc : List (Text × Value)) : Option Text :=
  let check key := strField "customization.image.slug" (normalizeToMap ((field key svc).getD .null))
  check "labels" <|> check "annotations"

def customImageSlug (svc : List (Text × Value)) : Text :=
  (customSlug svc <|> ((field "deploy" svc).bind Value.asObj).bind customSlug).getD []

def isExternal (defn : Option Value) : Bool :=
  match (defn.bind Value.asObj).bind (field "external") with
  | some (.bool ext) => ext
  | some (.obj _) => true
  | _ => false

def dependsOn : Option Value → List (Text × Text)
  | some (.arr list) => ((list.filterMap Value.asStr).filter (· ≠ [])).map (·, [])
  | some (.obj deps) => (sortedKeys deps).map (fun name =>
      (name, text "condition" (((deps.lookup name).bind Value.asObj).getD [])))
  | _ => []

def serviceNetworks : List (Text × Value) → List Text := networkNames

def isBindSource : Text → Bool := isHostPath

def unquote (m : Text) : Text := trim (fun c => c = '"' || c = '\'') (trimSpace m)

def namedVolume : Value → Option Text
  | .str m =>
    let spec := unquote m
    if spec.contains ':' then (some (trimSpace (before ':' spec))).filter (fun src => src ≠ [] && !isBindSource src)
    else none
  | .obj m =>
    if text "type" m = "volume".toList then (some (text "source" m)).filter (fun src => src ≠ [] && !isBindSource src)
    else none
  | _ => none

def namedVolumes : Option Value → List Text
  | some (.arr list) => (list.filterMap namedVolume).dedup.insertionSort (· ≤ ·)
  | _ => []

def resourceNode (k : Kind × Text) (external : Bool) : Node := { id := nodeID k, kind := k.1, external }

def declare (kind : Kind) (g : Graph) (block : Option Value) : Graph :=
  let fields := (block.bind Value.asObj).getD []
  let names := sortedKeys fields
  { g with
    nodes := g.nodes ++ names.map (fun name => resourceNode (kind, name) (isExternal (fields.lookup name)))
    known := g.known ++ names.map (kind, ·) }

def Graph.ensure (g : Graph) (k : Kind × Text) : Graph :=
  if k ∈ g.known then g else { g with nodes := g.nodes ++ [resourceNode k false], known := g.known ++ [k] }

def link (kind : Kind) (type : EdgeType) (service : Text) (g : Graph) (name : Text) : Graph :=
  let g := g.ensure (kind, name)
  { g with edges := g.edges ++ [⟨nodeID (.service, service), nodeID (kind, name), type, []⟩] }

def dependencies (name : Text) (svc : List (Text × Value)) : List Edge :=
  (dependsOn (field "depends_on" svc)).map (fun dep =>
    ⟨nodeID (.service, name), nodeID (.service, dep.1), .dependsOn, dep.2⟩)

def serviceNode (s : Text × List (Text × Value)) : Node where
  id := nodeID (.service, s.1)
  kind := .service
  image := text "image" s.2
  slug := customImageSlug s.2

def addService (g : Graph) (s : Text × List (Text × Value)) : Graph :=
  let g := { g with nodes := g.nodes ++ [serviceNode s], edges := g.edges ++ dependencies s.1 s.2 }
  let g := (serviceNetworks s.2).foldl (link .network .network s.1) g
  (namedVolumes (field "volumes" s.2)).foldl (link .volume .volume s.1) g

def graphServices (raw : List (Text × Value)) : List (Text × List (Text × Value)) :=
  let fields := ((field "services" raw).bind Value.asObj).getD []
  (sortedKeys fields).filterMap (fun name => ((fields.lookup name).bind Value.asObj).map (name, ·))

def buildFromCompose (raw : List (Text × Value)) : Graph :=
  let g := declare .network {} (field "networks" raw)
  let g := declare .volume g (field "volumes" raw)
  (graphServices raw).foldl addService g

structure WellFormed (g : Graph) : Prop where
  nodup : g.ids.Nodup
  ends : ∀ e ∈ g.edges, e.source ∈ g.ids ∧ e.target ∈ g.ids

variable {g : Graph} {done : List Text} {deps : List Edge} {k : Kind × Text} {kind : Kind} {type : EdgeType}

theorem nodeID_injective : Function.Injective nodeID := by
  have hservice (n : Text) : nodeID (.service, n) = 's' :: ("ervice:".toList ++ n) := rfl
  have hnetwork (n : Text) : nodeID (.network, n) = 'n' :: ("etwork:".toList ++ n) := rfl
  have hvolume (n : Text) : nodeID (.volume, n) = 'v' :: ("olume:".toList ++ n) := rfl
  rintro ⟨k, n⟩ ⟨k', n'⟩ h
  cases k <;> cases k' <;>
    simp only [hservice, hnetwork, hvolume, List.cons.injEq, append_cancel_left_eq, Char.reduceEq, false_and] at h
  all_goals rw [h.2]

def depends (edges : List Edge) : List Edge := edges.filter (·.type = .dependsOn)

/-- The graph with the services `done`, whose dependencies are the edges `deps`. -/
structure Inv (done : List Text) (deps : List Edge) (g : Graph) : Prop where
  nodup : g.ids.Nodup
  mem : ∀ k, nodeID k ∈ g.ids ↔ k ∈ g.known ∨ k.1 = .service ∧ k.2 ∈ done
  resource : ∀ k ∈ g.known, k.1 ≠ .service
  ends : ∀ e ∈ g.edges, e.source ∈ g.ids ∧ (e.type ≠ .dependsOn → e.target ∈ g.ids)
  deps : depends g.edges = deps

theorem sortedKeys_nodup (fields : List (Text × Value)) : (sortedKeys fields).Nodup :=
  (perm_insertionSort ..).nodup_iff.mpr (nodup_dedup _)

theorem inv_declared (raw : List (Text × Value)) :
    Inv [] [] (declare .volume (declare .network {} (field "networks" raw)) (field "volumes" raw)) := by
  have hids (g : Graph) (kind : Kind) (block : Option Value) (h : g.ids = g.known.map nodeID) :
      (declare kind g block).ids = (declare kind g block).known.map nodeID := by
    simp [declare, Graph.ids, resourceNode, ← h]
  have hkeys (kind : Kind) (fields : List (Text × Value)) : ((sortedKeys fields).map (kind, ·)).Nodup :=
    (sortedKeys_nodup fields).map (fun _ _ h => (Prod.mk.inj h).2)
  refine ⟨?_, fun k => ?_, ?_, nofun, rfl⟩
  · rw [hids _ _ _ (hids _ _ _ rfl)]
    exact List.Nodup.map nodeID_injective (by simp [declare, nodup_append, hkeys])
  · rw [hids _ _ _ (hids _ _ _ rfl), List.mem_map_of_injective nodeID_injective]
    simp
  · simp [declare, or_imp, forall_and]

section

variable (h : Inv done deps g)

include h

theorem Inv.addNode {n : Node} {known : List (Kind × Text)} {done' : List Text}
    (hid : n.id = nodeID k) (hnew : nodeID k ∉ g.ids) (hresource : ∀ j ∈ known, j.1 ≠ .service)
    (hmem : ∀ j, j ∈ known ∨ j.1 = .service ∧ j.2 ∈ done' ↔ (j ∈ g.known ∨ j.1 = .service ∧ j.2 ∈ done) ∨ j = k) :
    Inv done' deps { g with nodes := g.nodes ++ [n], known } := by
  have hids : Graph.ids { g with nodes := g.nodes ++ [n], known } = g.ids ++ [nodeID k] := by simp [Graph.ids, hid]
  refine ⟨?_, fun j => ?_, hresource, fun e he => ?_, h.deps⟩
  · rw [hids, ← concat_eq_append]
    exact h.nodup.concat hnew
  · rw [hids, hmem, mem_append, h.mem, mem_singleton, nodeID_injective.eq_iff]
  · have hends := h.ends e he
    simp only [hids, mem_append]
    exact ⟨.inl hends.1, fun ht => .inl (hends.2 ht)⟩

theorem Inv.addEdges {edges : List Edge}
    (hends : ∀ e ∈ edges, e.source ∈ g.ids ∧ (e.type ≠ .dependsOn → e.target ∈ g.ids)) :
    Inv done (deps ++ depends edges) { g with edges := g.edges ++ edges } where
  __ := h
  ends := forall_mem_append.mpr ⟨h.ends, hends⟩
  deps := by rw [← h.deps]; exact filter_append ..

theorem Inv.ensure (hk : k.1 ≠ .service) : Inv done deps (g.ensure k) ∧ k ∈ (g.ensure k).known := by
  unfold Graph.ensure
  split
  · next hknown => exact ⟨h, hknown⟩
  · next hnew =>
    refine ⟨h.addNode rfl (by simp [h.mem, hnew, hk]) ?_ (fun j => ?_), by simp⟩
    · exact forall_mem_append.mpr ⟨h.resource, by simpa using hk⟩
    · simp [or_right_comm]

theorem Inv.links {service : Text} (hk : kind ≠ .service) (ht : type ≠ .dependsOn)
    (hs : service ∈ done) (names : List Text) : Inv done deps (names.foldl (link kind type service) g) := by
  induction names generalizing g with
  | nil => exact h
  | cons name names ih =>
    obtain ⟨hg, hknown⟩ := @Inv.ensure _ _ _ (kind, name) h hk
    have hends := @Inv.addEdges _ _ _ hg [⟨nodeID (.service, service), nodeID (kind, name), type, []⟩]
      (by simp [hg.mem, hs, hknown])
    rw [depends, filter_cons_of_neg (by simpa using ht), filter_nil, append_nil] at hends
    exact ih hends

theorem Inv.addService {s : Text × List (Text × Value)} (hnew : s.1 ∉ done) :
    Inv (s.1 :: done) (deps ++ dependencies s.1 s.2) (Depgraph.addService g s) := by
  have hfresh : nodeID (.service, s.1) ∉ g.ids := by
    rw [h.mem]
    exact fun hm => hm.elim (fun hknown => h.resource _ hknown rfl) (fun hdone => hnew hdone.2)
  have hdeps : depends (dependencies s.1 s.2) = dependencies s.1 s.2 :=
    filter_eq_self.mpr (forall_mem_map.mpr (fun _ _ => rfl))
  have hadded : Inv (s.1 :: done) deps { g with nodes := g.nodes ++ [serviceNode s] } :=
    h.addNode rfl hfresh h.resource (fun j => by grind)
  have hedges := @Inv.addEdges _ _ _ hadded (dependencies s.1 s.2)
    (forall_mem_map.mpr (fun _ _ => ⟨(hadded.mem (.service, s.1)).mpr (.inr ⟨rfl, mem_cons_self⟩), absurd rfl⟩))
  rw [hdeps] at hedges
  exact (hedges.links (by decide) (by decide) mem_cons_self _).links (by decide) (by decide) mem_cons_self _

theorem Inv.addServices {svcs : List (Text × List (Text × Value))} (hsvcs : (svcs.map (·.1)).Nodup)
    (hnew : ∀ s ∈ svcs, s.1 ∉ done) : ∃ done', (∀ n, n ∈ done' ↔ n ∈ done ∨ n ∈ svcs.map (·.1)) ∧
      Inv done' (deps ++ svcs.flatMap (fun s => dependencies s.1 s.2)) (svcs.foldl Depgraph.addService g) := by
  induction svcs generalizing g done deps with
  | nil => exact ⟨done, by simp, by simpa using h⟩
  | cons s svcs ih =>
    rw [forall_mem_cons] at hnew
    rw [map_cons, nodup_cons] at hsvcs
    obtain ⟨done', hdone', hinv⟩ := ih (h.addService hnew.1) hsvcs.2 (by grind)
    exact ⟨done', by grind, by simpa [append_assoc] using hinv⟩

end

theorem buildFromCompose_wellFormed_iff (raw : List (Text × Value)) : WellFormed (buildFromCompose raw) ↔
    ∀ s ∈ graphServices raw, ∀ dep ∈ dependsOn (field "depends_on" s.2), dep.1 ∈ (graphServices raw).map (·.1) := by
  have hnames : ((graphServices raw).map (·.1)).Nodup := by
    rw [graphServices, map_filterMap]
    refine (sortedKeys_nodup _).filterMap (fun a a' b h h' => ?_)
    simp only [Option.map_map, mem_def, map_eq_some_iff, Function.comp_apply] at h h'
    grind
  obtain ⟨done, hdone, h⟩ := (inv_declared raw).addServices hnames (by simp)
  simp only [not_mem_nil, false_or] at hdone
  change Inv done _ (buildFromCompose raw) at h
  have hmem (name : Text) : nodeID (.service, name) ∈ (buildFromCompose raw).ids ↔
      name ∈ (graphServices raw).map (·.1) := by
    rw [← hdone]
    exact (h.mem _).trans
      ⟨fun hm => hm.elim (fun hk => absurd rfl (h.resource _ hk)) And.right, fun hm => .inr ⟨rfl, hm⟩⟩
  have hdeps (e : Edge) : e ∈ (buildFromCompose raw).edges ∧ e.type = .dependsOn ↔
      ∃ s ∈ graphServices raw, ∃ dep ∈ dependsOn (field "depends_on" s.2),
        ⟨nodeID (.service, s.1), nodeID (.service, dep.1), .dependsOn, dep.2⟩ = e := by
    simpa [depends, dependencies] using (congrArg (e ∈ ·) h.deps).to_iff
  constructor
  · intro hw s hs dep hdep
    exact (hmem _).mp (hw.ends _ ((hdeps _).mpr ⟨s, hs, dep, hdep, rfl⟩).1).2
  · refine fun hall => ⟨h.nodup, fun e he => ⟨(h.ends e he).1, ?_⟩⟩
    by_cases ht : e.type = .dependsOn
    · obtain ⟨s, hs, dep, hdep, rfl⟩ := (hdeps e).mp ⟨he, ht⟩
      exact (hmem _).mpr (hall s hs dep hdep)
    · exact (h.ends e he).2 ht

theorem undeclared_dependency_dangling : ¬ WellFormed (buildFromCompose [("services".toList, .obj [("web".toList,
    .obj [("depends_on".toList, .arr [.str "db".toList])])])]) := by
  intro h
  have htarget := (h.ends ⟨"service:web".toList, "service:db".toList, .dependsOn, []⟩ (by decide)).2
  revert htarget
  decide

end Wireops.Depgraph
