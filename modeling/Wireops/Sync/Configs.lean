import Wireops.Lib.Flow
import Wireops.Lib.Octets
import Wireops.Lib.Trees

/-!
# The configuration files of a checkout

`Resolve` reads the files that a repository names as configuration. It rejects a link
at the end of a source's path and anywhere below a source that is a directory. The
directory part of the path it takes as it is written, and the kernel follows the links
on it.
-/

namespace Wireops.Sync.Configs

open Option List
open Lib.Descent Lib.Flow Lib.Octets Lib.Paths Lib.Strings
  Lib.Trees

def maxFileBytes : Nat := 1 <<< 20

def maxTotalBytes : Nat := 5 <<< 20

/-- How many links the kernel follows in one lookup. -/
def maxLinks : Nat := 40

/-- The host: its file tree, which files can be read, and the working directory of
the process. -/
structure Host where
  root : Node Bytes
  wf : root.wf = true
  readable : List Text → Bool
  cwd : Text
  rooted_cwd : rooted cwd = true

structure Source where
  name : Text
  path : Text

/-- A resolved file, with the path that it was read from. -/
structure ResolvedFile where
  name : Text
  sourcePath : Text
  relPath : Text := []
  content : Bytes
  checksum : Text
  path : List Text
  deriving DecidableEq

inductive ResolveError where
  | invalidPath (name path : Text)
  | escapes (name rel : Text)
  | stat (name path : Text)
  | notRegular (name path : Text)
  | size (name path : Text) (size : Nat)
  | total (name : Text)
  | read (name path : Text)
  deriving DecidableEq

/-! ## Paths and lookups

A path that the code has made absolute and clean is given by its elements. -/

section Paths

variable (host : Host)

def abs (path : Text) : Text := clean (if rooted path then path else host.cwd ++ '/' :: path)

def relative : List Text → List Text → List Text
  | b :: bs, t :: ts =>
    if b = t then relative bs ts else List.replicate (bs.length + 1) ['.', '.'] ++ t :: ts
  | bs, ts => List.replicate bs.length ['.', '.'] ++ ts

def cleanRelativePath (path : Text) : Option Text :=
  if path = [] then none
  else if ['.', '.'].isPrefixOf (clean path) ∨ rooted (clean path) then none
  else some (clean path)

def containedJoin (workDir rel : Text) : Option (List Text) :=
  let baseAbs := abs host workDir
  let fullAbs := abs host (clean (baseAbs ++ '/' :: rel))
  if (relative (elements baseAbs) (elements fullAbs)).head? = some ['.', '.'] then none
  else some (elements fullAbs)

def sourcePath (workDir : Text) (s : Source) : Except ResolveError (List Text) :=
  match cleanRelativePath s.path with
  | none => .error (.invalidPath s.name s.path)
  | some rel =>
    match containedJoin host workDir rel with
    | none => .error (.escapes s.name rel)
    | some full => .ok full

def lstat (path : List Text) : Option (Node Bytes) :=
  (follow host.root true maxLinks [] path).bind (fun q => host.root.lookup q.1)

def readFile (path : List Text) : Option Bytes :=
  (locate host.root maxLinks path).bind (fun place =>
    match host.root.lookup place with
    | some (.file data) => if host.readable place then some data else none
    | _ => none)

end Paths

section Resolve

variable (host : Host) (checksum : Bytes → Text) (workDir : Text)

def checkSize (name path : Text) (size total : Nat) : Except ResolveError Nat :=
  if size > maxFileBytes then .error (.size name path size)
  else if total + size > maxTotalBytes then .error (.total name)
  else .ok (total + size)

def slash (rel : List Text) : Text := ['/'].intercalate rel

def resolveLeaves (s : Source) (full : List Text) : List (List Text × Node Bytes) → Nat →
    Except ResolveError (List ResolvedFile × Nat)
  | [], total => .ok ([], total)
  | (rel, .file data) :: leaves, total => do
    let sourcePath := s.path ++ '/' :: slash rel
    let total ← checkSize s.name sourcePath data.length total
    match readFile host (full ++ rel) with
    | none => .error (.read s.name (slash rel))
    | some content => do
      let (files, total) ← resolveLeaves s full leaves total
      return ({ name := s.name, sourcePath, relPath := slash rel, content
                checksum := checksum content, path := full ++ rel } :: files, total)
  | (rel, _) :: _, _ => .error (.notRegular s.name (slash rel))

def resolveSource (s : Source) (total : Nat) : Except ResolveError (List ResolvedFile × Nat) := do
  let full ← sourcePath host workDir s
  match lstat host full with
  | none => .error (.stat s.name s.path)
  | some (.dir entries) => resolveLeaves host checksum s full entries.leaves total
  | some (.file data) => do
    let total ← checkSize s.name s.path data.length total
    match readFile host full with
    | none => .error (.read s.name s.path)
    | some content =>
      return ([{ name := s.name, sourcePath := s.path, content
                 checksum := checksum content, path := full }], total)
  | some _ => .error (.notRegular s.name s.path)

def resolveFrom : List Source → Nat → Except ResolveError (List ResolvedFile × Nat)
  | [], total => .ok ([], total)
  | s :: sources, total => do
    let (files, total) ← resolveSource host checksum workDir s total
    let (more, total) ← resolveFrom sources total
    return (files ++ more, total)

def resolve (sources : List Source) : Except ResolveError (List ResolvedFile) :=
  (resolveFrom host checksum workDir sources 0).map Prod.fst

def totalSize : List ResolvedFile → Nat
  | [] => 0
  | f :: files => f.content.length + totalSize files

/-- Where the work directory is, with every link followed. -/
def base : Option (List Text) := locate host.root maxLinks (elements (abs host workDir))

def inside (path : List Text) : Bool :=
  (base host workDir).any (fun b => (locate host.root maxLinks path).any (fun p => b.isPrefixOf p))

/-- The directory part of a source's path leads into the work directory; or the source
is the work directory or one above it, and all its files are in the work directory. -/
def contained (full : List Text) (t : Node Bytes) : Bool :=
  inside host workDir full.dropLast ||
    (base host workDir).any (fun b => (locate host.root maxLinks full).any (fun q =>
      q.isPrefixOf b && t.leaves.all (fun leaf => b.isPrefixOf (q ++ leaf.1))))

/-- The same for a source, if it has a file at all. -/
def sourceContained (s : Source) : Bool :=
  match sourcePath host workDir s with
  | .error _ => true
  | .ok full =>
    match lstat host full with
    | none => true
    | some t => t.leaves.isEmpty || contained host workDir full t

end Resolve

section Lookups

variable {host : Host} {workDir : Text} {s : Source} {full rel : List Text} {t : Node Bytes}

theorem elements_abs_isName (path : Text) : ∀ c ∈ elements (abs host path), isName c = true := by
  have hrooted : ∃ p, rooted p = true ∧ abs host path = clean p := by
    by_cases h : rooted path = true
    · exact ⟨path, h, by rw [abs, if_pos h]⟩
    · have hne : host.cwd ≠ [] := by
        intro hnil
        have hcwd := host.rooted_cwd
        rw [hnil] at hcwd
        cases hcwd
      exact ⟨_, (rooted_append hne _).trans host.rooted_cwd, by rw [abs, if_neg h]⟩
  obtain ⟨p, hp, habs⟩ := hrooted
  rw [habs, elements_clean hp]
  intro c hc
  exact isName_of_isElement (elements_isElement p c hc) (elements_settled hp c hc)

theorem sourcePath_isName (h : sourcePath host workDir s = .ok full) : ∀ c ∈ full, isName c = true := by
  unfold sourcePath at h
  split at h
  · cases h
  split at h
  · cases h
  rename_i hjoin
  cases h
  obtain ⟨_, ⟨rfl⟩⟩ := ite_none_left_eq_some.mp hjoin
  exact elements_abs_isName _

theorem follow_of_lstat (hname : ∀ c ∈ full, isName c = true) (h : lstat host full = some t)
    (hlink : t.isLink = false) : ∃ q left, follow host.root false maxLinks [] full = some (q, left) ∧
      host.root.lookup q = some t ∧ ∃ p, locate host.root maxLinks full.dropLast = some p ∧
        (q = p ∨ ∃ c, q = p ++ [c]) := by
  obtain ⟨⟨q, left⟩, hfollow, hlookup⟩ := bind_eq_some_iff.mp h
  rcases eq_nil_or_concat full with rfl | ⟨init, c, rfl⟩
  · cases hfollow
    exact ⟨[], maxLinks, rfl, hlookup, [], rfl, .inl rfl⟩
  · rw [concat_eq_append] at hfollow hname ⊢
    have hc := hname c (mem_append_right init mem_cons_self)
    obtain ⟨p, es, t', hinit, hp, hfind, rfl⟩ := follow_nofollow_concat hc hfollow
    have ht : t' = t := Option.some.inj ((lookup_concat hp hfind).symm.trans hlookup)
    subst ht
    have hchild : (Node.dir es).lookup [c] = some t' :=
      lookup_cons_eq_some.mpr ⟨es, t', rfl, hfind, rfl⟩
    refine ⟨p ++ [c], left, follow_below host.wf hinit hp hchild hlink, hlookup, p, ?_, .inr ⟨c, rfl⟩⟩
    rw [dropLast_concat, locate, hinit]
    rfl

theorem isLink_of_leaves {data : Bytes} (h : (rel, Node.file data) ∈ t.leaves) : t.isLink = false := by
  cases t with
  | link target => cases mem_singleton.mp h
  | file | dir | other => rfl

theorem locate_leaf {q : List Text} {left : Nat} {data : Bytes}
    (hfull : follow host.root false maxLinks [] full = some (q, left))
    (hlookup : host.root.lookup q = some t) (hleaf : (rel, Node.file data) ∈ t.leaves) :
    locate host.root maxLinks (full ++ rel) = some (q ++ rel) ∧ host.root.lookup (q ++ rel) = some (.file data) := by
  have hrel := Node.lookup_of_leaves (lookup_wf host.wf hlookup) hleaf
  constructor
  · rw [locate, follow_below host.wf hfull hlookup hrel rfl]
    rfl
  · rw [lookup_append, hlookup, bind_some]
    exact hrel

theorem readFile_leaf (hname : ∀ c ∈ full, isName c = true) (h : lstat host full = some t)
    {data content : Bytes} (hleaf : (rel, Node.file data) ∈ t.leaves)
    (hread : readFile host (full ++ rel) = some content) : content = data := by
  obtain ⟨q, left, hfull, hlookup, -⟩ := follow_of_lstat hname h (isLink_of_leaves hleaf)
  obtain ⟨hloc, hfile⟩ := locate_leaf hfull hlookup hleaf
  rw [readFile, hloc, bind_some, hfile] at hread
  exact (Option.some.inj (ite_none_right_eq_some.mp hread).2).symm

end Lookups

section Files

variable {host : Host} {checksum : Bytes → Text} {workDir : Text} {s : Source}
  {full : List Text} {leaves : List (List Text × Node Bytes)} {total : Nat}
  {r : List ResolvedFile × Nat}

/-- The files read are those of the list, at their places below a path. -/
structure Reads (full : List Text) (leaves : List (List Text × Node Bytes))
    (files : List ResolvedFile) : Prop where
  only : ∀ f ∈ files, ∃ rel, (rel, .file f.content) ∈ leaves ∧ f.path = full ++ rel
  all : ∀ leaf ∈ leaves, ∃ f ∈ files, f.path = full ++ leaf.1

/-- No file is too big, and the sizes are added to the total, which is within bounds. -/
structure Sized (total : Nat) (r : List ResolvedFile × Nat) : Prop where
  each : ∀ f ∈ r.1, f.content.length ≤ maxFileBytes
  sum : r.2 = total + totalSize r.1
  bound : total ≤ maxTotalBytes → r.2 ≤ maxTotalBytes

theorem sized_nil (total : Nat) : Sized total ([], total) where
  each _ h := by cases h
  sum := rfl
  bound h := h

theorem totalSize_append (files more : List ResolvedFile) :
    totalSize (files ++ more) = totalSize files + totalSize more := by
  induction files with
  | nil => simp [totalSize]
  | cons f files ih =>
    rw [cons_append, totalSize, totalSize, ih]
    omega

theorem Sized.append {total' : Nat} {files more : List ResolvedFile} {total'' : Nat}
    (h : Sized total (files, total')) (h' : Sized total' (more, total'')) : Sized total (files ++ more, total'') where
  each := forall_mem_append.mpr ⟨h.each, h'.each⟩
  sum := by
    have hsum := h.sum
    have hsum' := h'.sum
    dsimp only at hsum hsum' ⊢
    rw [totalSize_append]
    omega
  bound hb := h'.bound (h.bound hb)

theorem checkSize_ok {name path : Text} {size total' : Nat} (h : checkSize name path size total = .ok total') :
    size ≤ maxFileBytes ∧ total' = total + size ∧ total' ≤ maxTotalBytes := by
  unfold checkSize at h
  split at h
  · cases h
  split at h
  · cases h
  cases h
  exact ⟨by omega, rfl, by omega⟩

theorem sized_singleton {name path : Text} {total' : Nat} {f : ResolvedFile}
    (h : checkSize name path f.content.length total = .ok total') : Sized total ([f], total') := by
  obtain ⟨hsize, hsum, hbound⟩ := checkSize_ok h
  exact ⟨forall_mem_singleton.mpr hsize, by simpa [totalSize] using hsum, fun _ => hbound⟩

/-- The files are those of the list, with their content, at their places below a path. -/
def FilesOf (s : Source) (full : List Text) (leaves : List (List Text × Node Bytes)) (files : List ResolvedFile) :
    Prop :=
  files.map (fun f => (f.path, f.name, f.relPath, Node.file f.content)) =
    leaves.map (fun leaf => (full ++ leaf.1, s.name, slash leaf.1, leaf.2))

theorem resolveLeaves_ok (hread : ∀ rel data content, (rel, Node.file data) ∈ leaves →
      readFile host (full ++ rel) = some content → content = data)
    (h : resolveLeaves host checksum s full leaves total = .ok r) : FilesOf s full leaves r.1 ∧ Sized total r := by
  induction leaves generalizing total r with
  | nil =>
    cases h
    exact ⟨rfl, sized_nil total⟩
  | cons leaf leaves ih =>
    obtain ⟨rel, node⟩ := leaf
    cases node with
    | file data =>
      obtain ⟨total', hsize, h⟩ := bind_eq_ok_iff.mp h
      split at h
      · cases h
      rename_i content hcontent
      obtain ⟨⟨files, total''⟩, hrest, h⟩ := bind_eq_ok_iff.mp h
      cases h
      obtain rfl := hread rel data content mem_cons_self hcontent
      obtain ⟨hfiles, hsized⟩ :=
        ih (fun rel data content hmem => hread rel data content (mem_cons_of_mem _ hmem)) hrest
      exact ⟨congrArg (_ :: ·) hfiles, (sized_singleton hsize).append hsized⟩
    | dir _ => cases h
    | link _ => cases h
    | other => cases h

theorem resolveSource_ok (h : resolveSource host checksum workDir s total = .ok r) :
    ∃ full t, sourcePath host workDir s = .ok full ∧ lstat host full = some t ∧
      FilesOf s full t.leaves r.1 ∧ Sized total r := by
  obtain ⟨full, hfull, h⟩ := bind_eq_ok_iff.mp h
  have hname := sourcePath_isName hfull
  split at h
  · cases h
  · rename_i entries hstat
    obtain ⟨hfiles, hsized⟩ := resolveLeaves_ok
      (fun rel data content hleaf => readFile_leaf hname hstat hleaf) h
    exact ⟨full, .dir entries, hfull, hstat, hfiles, hsized⟩
  · rename_i data hstat
    obtain ⟨total', hsize, h⟩ := bind_eq_ok_iff.mp h
    split at h
    · cases h
    rename_i content hcontent
    cases h
    have hleaf : ([], Node.file data) ∈ (Node.file data).leaves := mem_cons_self
    obtain rfl : content = data :=
      readFile_leaf hname hstat hleaf (by rw [append_nil]; exact hcontent)
    refine ⟨full, .file content, hfull, hstat, ?_, sized_singleton hsize⟩
    simp [FilesOf, Node.leaves, slash]
  · cases h

theorem FilesOf.reads {files : List ResolvedFile} (h : FilesOf s full leaves files) : Reads full leaves files where
  only f hf := by
    have hmem := mem_map_of_mem (f := fun f => (f.path, f.name, f.relPath, Node.file f.content)) hf
    rw [h] at hmem
    obtain ⟨leaf, hleaf, heq⟩ := mem_map.mp hmem
    simp only [Prod.mk.injEq] at heq
    exact ⟨leaf.1, heq.2.2.2 ▸ hleaf, heq.1.symm⟩
  all leaf hleaf := by
    have hmem := mem_map_of_mem (f := fun leaf => (full ++ leaf.1, s.name, slash leaf.1, leaf.2)) hleaf
    rw [← h] at hmem
    obtain ⟨f, hf, heq⟩ := mem_map.mp hmem
    exact ⟨f, hf, congrArg Prod.fst heq⟩

theorem inside_iff {path : List Text} : inside host workDir path = true ↔
    ∃ b ∈ base host workDir, ∃ p ∈ locate host.root maxLinks path, b <+: p := by
  simp [inside, Option.any_eq_true]

theorem contained_iff {t : Node Bytes} : contained host workDir full t = true ↔
    inside host workDir full.dropLast = true ∨ ∃ b ∈ base host workDir, ∃ q ∈ locate host.root maxLinks full,
        q <+: b ∧ ∀ leaf ∈ t.leaves, b <+: q ++ leaf.1 := by
  simp [contained, Option.any_eq_true]

theorem prefix_parent {b p q rel : List Text} (hq : q = p ∨ ∃ c, q = p ++ [c])
    (h : b <+: q ++ rel) : b <+: p ∨ q <+: b := by
  rcases prefix_or_prefix_of_prefix h (prefix_append q rel) with hb | hb
  · rcases hq with rfl | ⟨c, rfl⟩
    · exact .inl hb
    · rcases prefix_concat_iff.mp hb with rfl | hb
      · exact .inr (prefix_refl _)
      · exact .inl hb
  · exact .inr hb

variable {files : List ResolvedFile}

theorem Reads.forall_iff {leaves : List (List Text × Node Bytes)}
    (h : Reads full leaves files) (P : List Text → Prop) :
    (∀ f ∈ files, P f.path) ↔ ∀ leaf ∈ leaves, P (full ++ leaf.1) := by
  constructor
  · intro hfiles leaf hleaf
    obtain ⟨f, hf, hpath⟩ := h.all leaf hleaf
    exact hpath ▸ hfiles f hf
  · intro hleaves f hf
    obtain ⟨rel, hmem, hpath⟩ := h.only f hf
    exact hpath ▸ hleaves _ hmem

theorem located_leaves {t : Node Bytes}
    (hfull : sourcePath host workDir s = .ok full) (hstat : lstat host full = some t)
    (hreads : Reads full t.leaves files) (hne : t.leaves ≠ []) :
    ∃ p q, locate host.root maxLinks full.dropLast = some p ∧
      locate host.root maxLinks full = some q ∧ (q = p ∨ ∃ c, q = p ++ [c]) ∧
      ∀ leaf ∈ t.leaves, locate host.root maxLinks (full ++ leaf.1) = some (q ++ leaf.1) := by
  -- Every leaf was read, so it is a file, and the source is no link.
  have hfile : ∀ leaf ∈ t.leaves, ∃ data, (leaf.1, Node.file data) ∈ t.leaves := by
    intro leaf hleaf
    obtain ⟨f, hf, hpath⟩ := hreads.all leaf hleaf
    obtain ⟨rel, hmem, hpath'⟩ := hreads.only f hf
    rw [append_cancel_left (hpath.symm.trans hpath')]
    exact ⟨f.content, hmem⟩
  obtain ⟨leaf₀, hleaf₀⟩ := exists_mem_of_ne_nil _ hne
  obtain ⟨data₀, hfile₀⟩ := hfile leaf₀ hleaf₀
  obtain ⟨q, left, hfollow, hlookup, p, hp, hq⟩ :=
    follow_of_lstat (sourcePath_isName hfull) hstat (isLink_of_leaves hfile₀)
  refine ⟨p, q, hp, ?_, hq, ?_⟩
  · rw [locate, hfollow]
    rfl
  · intro leaf hleaf
    obtain ⟨data, hmem⟩ := hfile leaf hleaf
    exact (locate_leaf hfollow hlookup hmem).1

/-- All files of a source are inside exactly if the source is contained. -/
theorem inside_files_iff {t : Node Bytes}
    (hfull : sourcePath host workDir s = .ok full) (hstat : lstat host full = some t)
    (hreads : Reads full t.leaves files) : (∀ f ∈ files, inside host workDir f.path = true) ↔
      sourceContained host workDir s = true := by
  have hsource : sourceContained host workDir s = (t.leaves.isEmpty || contained host workDir full t) := by
    rw [sourceContained, hfull]
    dsimp only
    rw [hstat]
  rw [hsource, Bool.or_eq_true, List.isEmpty_iff, contained_iff]
  refine (hreads.forall_iff (fun path => inside host workDir path = true)).trans ?_
  by_cases hnil : t.leaves = []
  · rw [hnil]
    exact iff_of_true (forall_mem_nil _) (.inl rfl)
  obtain ⟨p, q, hp, hlocate, hq, hleaves⟩ := located_leaves hfull hstat hreads hnil
  obtain ⟨leaf₀, hleaf₀⟩ := exists_mem_of_ne_nil _ hnil
  rw [or_iff_right hnil]
  constructor
  · intro hinside
    obtain ⟨b, hb, -⟩ := inside_iff.mp (hinside leaf₀ hleaf₀)
    have hall : ∀ leaf ∈ t.leaves, b <+: q ++ leaf.1 := by
      intro leaf hleaf
      obtain ⟨b', hb', place, hplace, hpre⟩ := inside_iff.mp (hinside leaf hleaf)
      rw [hleaves leaf hleaf] at hplace
      cases hplace
      rwa [Option.some.inj (hb.symm.trans hb')]
    rcases prefix_parent hq (hall leaf₀ hleaf₀) with hbp | hqb
    · exact .inl (inside_iff.mpr ⟨b, hb, p, hp, hbp⟩)
    · exact .inr ⟨b, hb, q, hlocate, hqb, hall⟩
  · rintro (hparent | ⟨b, hb, q', hq', -, hall⟩) leaf hleaf
    · obtain ⟨b, hb, p', hp', hpre⟩ := inside_iff.mp hparent
      rw [hp] at hp'
      cases hp'
      have hpq : p <+: q := by
        rcases hq with rfl | ⟨c, rfl⟩
        · exact prefix_refl q
        · exact prefix_append p [c]
      exact inside_iff.mpr ⟨b, hb, _, hleaves leaf hleaf, hpre.trans (hpq.trans (prefix_append q leaf.1))⟩
    · rw [hlocate] at hq'
      cases hq'
      exact inside_iff.mpr ⟨b, hb, _, hleaves leaf hleaf, hall leaf hleaf⟩

theorem resolveFrom_ok {sources : List Source} (h : resolveFrom host checksum workDir sources total = .ok r) :
    ((∀ f ∈ r.1, inside host workDir f.path = true) ↔
      ∀ s ∈ sources, sourceContained host workDir s = true) ∧ Sized total r := by
  induction sources generalizing total r with
  | nil =>
    cases h
    exact ⟨by simp, sized_nil total⟩
  | cons s sources ih =>
    obtain ⟨⟨files, total'⟩, hsource, h⟩ := bind_eq_ok_iff.mp h
    obtain ⟨⟨more, total''⟩, hrest, h⟩ := bind_eq_ok_iff.mp h
    cases h
    obtain ⟨full, t, hfull, hstat, hfiles, hsized⟩ := resolveSource_ok hsource
    obtain ⟨hmore, hsized'⟩ := ih hrest
    refine ⟨?_, hsized.append hsized'⟩
    rw [forall_mem_append, forall_mem_cons, inside_files_iff hfull hstat hfiles.reads, hmore]

end Files

theorem resolved_inside_iff {host : Host} {checksum : Bytes → Text} {workDir : Text}
    {sources : List Source} {files : List ResolvedFile} (h : resolve host checksum workDir sources = .ok files) :
    ((∀ f ∈ files, inside host workDir f.path = true ∧ f.content.length ≤ maxFileBytes) ∧
      totalSize files ≤ maxTotalBytes) ↔ ∀ s ∈ sources, sourceContained host workDir s = true := by
  unfold resolve at h
  cases hr : resolveFrom host checksum workDir sources 0 with
  | error e =>
    rw [hr] at h
    cases h
  | ok r =>
    rw [hr] at h
    cases h
    obtain ⟨hinside, hsized⟩ := resolveFrom_ok hr
    have htotal : totalSize r.1 ≤ maxTotalBytes := by
      have hbound := hsized.bound (Nat.zero_le _)
      rwa [hsized.sum, Nat.zero_add] at hbound
    rw [and_iff_left htotal, ← hinside]
    constructor
    · intro hall f hf
      exact (hall f hf).1
    · intro hall f hf
      exact ⟨hall f hf, hsized.each f hf⟩

def linkedHost : Host where
  root := .dir (.cons "etc".toList (.dir (.cons "passwd".toList (.file (text "root")) .nil))
    (.cons "w".toList (.dir (.cons "conf".toList (.dir (.cons "a".toList (.file (text "x")) .nil))
      (.cons "d".toList (.link "../etc".toList) .nil))) .nil))
  wf := by decide
  readable _ := true
  cwd := "/".toList
  rooted_cwd := by decide

/-- The link stands in the directory part of the source's path. -/
theorem linked_source_outside : resolve linkedHost (fun _ => []) "/w".toList [⟨"c".toList, "d/passwd".toList⟩] =
      .ok [{ name := "c".toList, sourcePath := "d/passwd".toList, content := text "root"
             checksum := [], path := ["w".toList, "d".toList, "passwd".toList] }] ∧
    inside linkedHost "/w".toList ["w".toList, "d".toList, "passwd".toList] = false := by
  decide

def plainFile : ResolvedFile where
  name := "c".toList
  sourcePath := "conf/a".toList
  relPath := "a".toList
  content := text "x"
  checksum := []
  path := ["w".toList, "conf".toList, "a".toList]

theorem plain_source_inside :
    resolve linkedHost (fun _ => []) "/w".toList [⟨"c".toList, "conf".toList⟩] = .ok [plainFile] ∧
    (∀ f ∈ [plainFile], inside linkedHost "/w".toList f.path = true ∧ f.content.length ≤ maxFileBytes) ∧
    totalSize [plainFile] ≤ maxTotalBytes := by
  have h : resolve linkedHost (fun _ => []) "/w".toList [⟨"c".toList, "conf".toList⟩] = .ok [plainFile] := by decide
  exact ⟨h, (resolved_inside_iff h).mpr (by decide)⟩

end Wireops.Sync.Configs
