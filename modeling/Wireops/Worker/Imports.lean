import Wireops.Lib.Base64
import Wireops.Sync.Configs

/-!
# Files that a worker reads for an import

`ReadFile` gives the server the content of a YAML file of the worker's host. It
looks at the extension of the path asked for, and at the directory of the path
with its links resolved. -/

namespace Wireops.Worker.Imports

open Option List Lib.Base64 Lib.Descent Lib.Paths Lib.Strings Lib.Trees
open Lib.Octets (Bytes)
open Sync.Configs (Host)

/-- The worker's host and settings: `allowedImportDirs` is
`WORKER_ALLOWED_IMPORT_DIRS`, empty when not set. What `EvalSymlinks` gives for
a relative path, which only a configured directory can be, is left open. -/
structure Settings where
  host : Host
  stackDir : Text
  allowedImportDirs : Text
  evalRelative : Text → Option Text

def maxLinks : Nat := 255

/-- `strings.ToLower` of the extension; no other letter has one of these as its lower
case. -/
def isYaml (path : Text) : Bool :=
  let ext := (Lib.Strings.ext path).map Char.toLower
  ext = ".yml".toList || ext = ".yaml".toList

inductive Failure where
  | emptyPath
  | traversal (path : Text)
  | notAbsolute (path : Text)
  | notYaml
  | denied
  | system
  deriving DecidableEq

def validateHostPath (path : Text) : Except Failure Unit :=
  if path = [] then .error .emptyPath
  else if (cut ['.', '.'] (clean path)).isSome then .error (.traversal path)
  else if !rooted (clean path) then .error (.notAbsolute path)
  else .ok ()

section ReadFile

variable (w : Settings)

variable (path : Text)

def evalSymlinks : Option Text :=
  if rooted path then (locate w.host.root maxLinks (elements path)).map (render true)
  else w.evalRelative path

def join (parts : List Text) : Text :=
  let parts := parts.filter (fun part => part ≠ [])
  if parts = [] then [] else clean (['/'].intercalate parts)

def isSubpath (parent child : Text) : Bool :=
  let parent := clean parent
  let child := clean child
  if parent = child then true
  else (if parent.getLast? = some '/' then parent else parent ++ ['/']).isPrefixOf child

def resolveParent (absolute : Bool) : List Text → List Text → Option Text
  | [], _ => none
  | base :: es, suffix =>
    match evalSymlinks w (render absolute es.reverse) with
    | some resolvedDir => some (join (resolvedDir :: base :: suffix))
    | none => resolveParent absolute es (base :: suffix)

def resolvePathSymlinks : Text :=
  let cleaned := clean path
  match evalSymlinks w cleaned with
  | some resolved => resolved
  | none => (resolveParent w (rooted path) (elements path).reverse []).getD cleaned

def importDirs : List Text :=
  ((w.allowedImportDirs.splitOn ',').map trimSpace).filter (fun dir => dir ≠ [])

def sensitiveRoots : List Text :=
  ["/etc", "/root", "/var/run", "/run", "/proc", "/sys", "/boot", "/dev"].map String.toList

def isAllowedPath : Bool :=
  match validateHostPath path with
  | .error _ => false
  | .ok () =>
    let cleaned := clean path
    if !rooted cleaned then false
    else
      let resolved := resolvePathSymlinks w cleaned
      if isSubpath (resolvePathSymlinks w w.stackDir) resolved then true
      else if w.allowedImportDirs ≠ [] then
        (importDirs w).any (fun dir => isSubpath (resolvePathSymlinks w dir) resolved)
      else !sensitiveRoots.any (fun root => isSubpath (resolvePathSymlinks w root) resolved)

def readFile (path : Text) : Except Failure Bytes :=
  match validateHostPath path with
  | .error e => .error e
  | .ok () =>
    let cleanedPath := clean path
    if !isYaml cleanedPath then .error .notYaml
    else
      match evalSymlinks w cleanedPath with
      | none => .error .system
      | some resolvedPath =>
        if !isAllowedPath w resolvedPath then .error .denied
        else
          match Sync.Configs.readFile w.host (elements resolvedPath) with
          | none => .error .system
          | some data => .ok (encode data)

def Inside (dir path : Text) : Prop := rooted dir = true ∧ elements dir <+: elements path

/-- The file lies in the stack directory or in a configured one, or no directory is
configured and it lies in no sensitive one; all of them resolved. -/
def Permitted : Prop :=
  Inside (resolvePathSymlinks w w.stackDir) path ∨ (∃ dir ∈ importDirs w, Inside (resolvePathSymlinks w dir) path) ∨
    importDirs w = [] ∧ ∀ root ∈ sensitiveRoots, ¬ Inside (resolvePathSymlinks w root) path

/-- What is read for a path is a file that the path leads to, and its resolved path is
that of a YAML file in a permitted place. -/
def ReadsProperly : Prop :=
  ∀ output, readFile w path = .ok output → ∃ place data,
    locate w.host.root maxLinks (elements path) = some place ∧
    w.host.root.lookup place = some (.file data) ∧ output = encode data ∧
    isYaml (render true place) = true ∧ Permitted w (render true place)

/-- Every link with the name of a YAML file, which a valid path names and which leads to
a readable file that is allowed, leads to one with such a name. -/
def LinksKeepKind : Prop :=
  ∀ path es c p target place data, validateHostPath path = .ok () → elements path = es ++ [c] →
    isYaml c = true → locate w.host.root maxLinks es = some p → w.host.root.lookup (p ++ [c]) = some (.link target) →
    locate w.host.root maxLinks (es ++ [c]) = some place →
    w.host.root.lookup place = some (.file data) → w.host.readable place = true →
    isAllowedPath w (render true place) = true → isYaml (render true place) = true

end ReadFile

section Proofs

variable {w : Settings} {path place es : List Text}

theorem isYaml_render {c : Text} (h : IsElement c) : isYaml (render true (es ++ [c])) = isYaml c := by
  have hbase : afterLast '/' (render true (es ++ [c])) = afterLast '/' c := by
    rw [afterLast_eq_self h.no_slash]
    change afterLast '/' ('/' :: ['/'].intercalate (es ++ [c])) = c
    by_cases hne : es = []
    · subst hne
      rw [nil_append, intercalate_singleton]
      exact afterLast_append [] h.no_slash
    · rw [intercalate_append hne (cons_ne_nil c []), intercalate_singleton, ← cons_append]
      exact afterLast_append _ h.no_slash
  have hext : Lib.Strings.ext (render true (es ++ [c])) = Lib.Strings.ext c := by
    unfold Lib.Strings.ext
    rw [hbase]
  unfold isYaml
  rw [hext]

theorem isSubpath_iff {parent child : Text} (hc : rooted child = true) :
    isSubpath parent child = true ↔ Inside parent child := by
  have hp := elements_isElement parent
  by_cases hroot : (clean parent).getLast? = some '/'
  · rw [clean_eq_render] at hroot
    obtain ⟨habs, hnil⟩ := getLast_render hp hroot
    refine ⟨fun _ => ⟨habs, hnil ▸ nil_prefix⟩, fun _ => ?_⟩
    have hparent : clean parent = ['/'] := by
      rw [clean_eq_render, habs, hnil]
      rfl
    have hchild : clean child = '/' :: ['/'].intercalate (elements child) := by
      rw [clean_eq_render, hc]
      rfl
    simp only [isSubpath, hparent, hchild]
    split
    · rfl
    · rfl
  · have hwithin : isSubpath parent child = within (clean parent) (clean child) := by
      simp only [isSubpath, within, if_neg hroot]
      split
      · next heq => simp [heq]
      · next hne => simp [Ne.symm hne]
    rw [hwithin, within_clean_iff, hc]
    refine and_congr_right fun habs => ?_
    have hne : elements parent ≠ [] := by
      intro hnil
      apply hroot
      rw [clean_eq_render, habs, hnil]
      rfl
    constructor
    · rintro (heq | ⟨-, hpre⟩)
      · exact heq ▸ prefix_refl _
      · exact hpre
    · exact fun hpre => .inr ⟨hne, hpre⟩

theorem validateHostPath_ok {path : Text} (h : validateHostPath path = .ok ()) : rooted path = true := by
  unfold validateHostPath at h
  split at h
  · cases h
  split at h
  · cases h
  split at h
  · cases h
  · next hroot =>
    have hr : rooted (clean path) = true := by simpa using hroot
    rw [clean_eq_render, rooted_render _ (elements_isElement path)] at hr
    exact hr

theorem elements_place {t : Node Bytes} (h : w.host.root.lookup place = some t) :
    elements (render true place) = place := by
  have hname := lookup_isName w.host.wf h
  exact elements_render (isElement_of_isNames hname) (settled_of_isNames hname)

variable {data : Bytes}

section

variable (h : w.host.root.lookup place = some (.file data))

include h

theorem evalSymlinks_place : evalSymlinks w (render true place) = some (render true place) := by
  have hroot : rooted (render true place) = true := rfl
  rw [evalSymlinks, if_pos hroot, elements_place h, locate_lookup w.host.wf h rfl]
  rfl

theorem resolvePathSymlinks_place : resolvePathSymlinks w (clean (render true place)) = render true place := by
  have hclean : clean (clean (render true place)) = render true place := by
    rw [clean_eq_render (clean _), elements_clean rfl, elements_place h, clean_eq_render]
    rfl
  simp only [resolvePathSymlinks, hclean, evalSymlinks_place h]

theorem permitted_of_allowed (ha : isAllowedPath w (render true place) = true) : Permitted w (render true place) := by
  unfold isAllowedPath at ha
  split at ha
  · cases ha
  · simp only [resolvePathSymlinks_place h] at ha
    split at ha
    · cases ha
    split at ha
    · next hin => exact .inl ((isSubpath_iff rfl).mp hin)
    split at ha
    · obtain ⟨dir, hdir, hin⟩ := any_eq_true.mp ha
      exact .inr (.inl ⟨dir, hdir, (isSubpath_iff rfl).mp hin⟩)
    · next henv =>
      refine .inr (.inr ⟨?_, ?_⟩)
      · rw [importDirs, not_not.mp henv]
        rfl
      · intro root hroot hin
        rw [Bool.not_eq_true', List.any_eq_false] at ha
        exact ha root hroot ((isSubpath_iff rfl).mpr hin)

end

structure Read (w : Settings) (path : Text) (output : Bytes) (place : List Text) (data : Bytes) : Prop where
  valid : validateHostPath path = .ok ()
  kind : isYaml (clean path) = true
  leads : locate w.host.root maxLinks (elements path) = some place
  allowed : isAllowedPath w (render true place) = true
  file : w.host.root.lookup place = some (.file data)
  readable : w.host.readable place = true
  output : output = encode data

theorem readFile_iff {path : Text} {output : Bytes} :
    readFile w path = .ok output ↔ ∃ place data, Read w path output place data := by
  have heval (h : rooted path = true) : evalSymlinks w (clean path) =
      (locate w.host.root maxLinks (elements path)).map (render true) := by
    have hroot : rooted (clean path) = true := by
      rw [clean_eq_render, h]
      rfl
    rw [evalSymlinks, if_pos hroot, elements_clean h]
  constructor
  · intro h
    unfold readFile at h
    split at h
    · cases h
    next hvalid =>
    dsimp only at h
    rw [heval (validateHostPath_ok hvalid)] at h
    split at h
    · cases h
    next hkind =>
    split at h
    · cases h
    next resolvedPath hresolved =>
    obtain ⟨place, hleads, rfl⟩ := map_eq_some_iff.mp hresolved
    split at h
    · cases h
    next hallowed =>
    split at h
    · cases h
    next data hread =>
    cases h
    have hreal := locate_real hleads
    rw [elements_place hreal.choose_spec.1, Sync.Configs.readFile, locate_of_real w.host.wf hreal, bind_some] at hread
    split at hread
    · next hfile =>
      obtain ⟨hreadable, hdata⟩ := ite_none_right_eq_some.mp hread
      cases hdata
      refine ⟨place, data, hvalid, ?_, hleads, ?_, hfile, hreadable, rfl⟩
      · simpa using hkind
      · simpa using hallowed
    · cases hread
  · rintro ⟨place, data, h⟩
    have hplace : Sync.Configs.readFile w.host (elements (render true place)) = some data := by
      rw [elements_place h.file, Sync.Configs.readFile, locate_lookup w.host.wf h.file rfl, bind_some, h.file]
      exact if_pos h.readable
    simp only [readFile, h.valid, heval (validateHostPath_ok h.valid), h.leads, h.kind, h.allowed,
      map_some, hplace, h.output]
    rfl

theorem Read.properly {path : Text} {output : Bytes} (hlinks : LinksKeepKind w)
    (h : Read w path output place data) : isYaml (render true place) = true := by
  have hroot := validateHostPath_ok h.valid
  have hclean : clean path = render true (elements path) := by rw [clean_eq_render, hroot]
  rcases eq_nil_or_concat (elements path) with hnil | ⟨es, c, hes⟩
  · -- the root has no extension
    have hkind := h.kind
    rw [hclean, hnil] at hkind
    exact absurd hkind (by decide)
  · rw [concat_eq_append] at hes
    have hmem : c ∈ elements path := hes ▸ mem_append_right _ mem_cons_self
    have hc := elements_isElement path c hmem
    have hkind : isYaml c = true := by
      rw [← isYaml_render hc, ← hes, ← hclean]
      exact h.kind
    have hleads := h.leads
    rw [hes] at hleads
    obtain ⟨p, t, hp, ht, hplace⟩ := locate_concat (elements_isName hroot c hmem) hleads
    cases t with
    | link target =>
      exact hlinks path es c p target place data h.valid hes hkind hp ht hleads h.file h.readable h.allowed
    | file | dir | other =>
      rw [hplace rfl, isYaml_render hc]
      exact hkind

/-- A worker gives out YAML files of permitted places only exactly if no link makes
another file look like one. -/
theorem properly_iff_links (w : Settings) : (∀ path, ReadsProperly w path) ↔ LinksKeepKind w := by
  constructor
  · intro h path es c p target place data hvalid hes hkind _ _ hleads hfile hreadable hallowed
    have hmem : c ∈ elements path := hes ▸ mem_append_right _ mem_cons_self
    have hread : Read w path (encode data) place data := by
      refine ⟨hvalid, ?_, hes ▸ hleads, hallowed, hfile, hreadable, rfl⟩
      rw [clean_eq_render, validateHostPath_ok hvalid, hes, isYaml_render (elements_isElement path c hmem)]
      exact hkind
    obtain ⟨place', _, hleads', _, _, hyaml, _⟩ := h path _ (readFile_iff.mpr ⟨place, data, hread⟩)
    cases hread.leads.symm.trans hleads'
    exact hyaml
  · intro hlinks path output h
    obtain ⟨place, data, hread⟩ := readFile_iff.mp h
    exact ⟨place, data, hread.leads, hread.file, hread.output, hread.properly hlinks,
      permitted_of_allowed hread.file hread.allowed⟩

end Proofs

def checkout : Host where
  root := .dir (.cons "srv".toList (.dir
    (.cons "compose.yml".toList (.file [1]) (.cons "secrets".toList (.file [2])
      (.cons "values.yml".toList (.link "secrets".toList) .nil)))) .nil)
  wf := by decide
  readable _ := true
  cwd := "/".toList
  rooted_cwd := rfl

def inStackDir : Settings := ⟨checkout, "/srv".toList, [], fun _ => none⟩

theorem linked_secret_read : readFile inStackDir "/srv/values.yml".toList = .ok (encode [2]) ∧
    locate checkout.root maxLinks (elements "/srv/values.yml".toList) = some ["srv".toList, "secrets".toList] ∧
    isYaml "/srv/secrets".toList = false ∧ ¬ ReadsProperly inStackDir "/srv/values.yml".toList := by
  have hread : readFile inStackDir "/srv/values.yml".toList = .ok (encode [2]) := by decide
  have hleads : locate checkout.root maxLinks (elements "/srv/values.yml".toList) =
      some ["srv".toList, "secrets".toList] := by decide
  refine ⟨hread, hleads, by decide, ?_⟩
  intro h
  obtain ⟨place, _, hplace, _, _, hyaml, _⟩ := h _ hread
  cases hleads.symm.trans hplace
  exact absurd hyaml (by decide)

end Wireops.Worker.Imports
