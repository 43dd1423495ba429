import Mathlib.Data.List.Nodup
import Wireops.Lib.Groups
import Wireops.Lib.Writes
import Wireops.Worker.Imports

/-!
# Staging the configs of a job

A definition names files of its repository and where a job's container is to
see them. It is checked when it is read, the scheduler resolves the files in
the checkout, and the worker writes them below a directory of the run. A file
name that is no UTF-8, which the command could not carry, is not considered. -/

namespace Wireops.Jobs.ConfigStaging

open List
open Lib.Base64 Lib.Descent Lib.Flow Lib.Groups Lib.Paths Lib.Strings Lib.Trees Lib.Writes
open Lib.Octets (Bytes)
open Sync.Configs (Host Source ResolvedFile ResolveError cleanRelativePath slash sourcePath lstat
  resolve resolveFrom resolveSource resolveSource_ok)
open Worker.Imports (join)

structure ConfigEntry where
  name : Text := []
  path : Text := []
  target : Text := []
  mode : Text := []

structure Resources where
  cpu : Text
  memory : Text
  timeout : Text

structure Definition where
  name : Text
  description : Text
  cron : Text
  mode : Text := []
  image : Text
  resources : Resources
  configs : List ConfigEntry

inductive Field where
  | name
  | description
  | image
  | cron
  | cpu
  | memory
  | timeout

inductive NameError where
  | empty
  | separators (name : Text)
  | dot (name : Text)
  deriving DecidableEq

inductive TargetError where
  | empty
  | relative (target : Text)
  | unclean (target : Text)

/-- The messages of `Validate`, with the index of the config where there is one. -/
inductive Problem where
  | required (field : Field)
  | mode (got : Text)
  | timeout (got : Text)
  | configName (i : Nat) (e : NameError)
  | nameDuplicated (i : Nat) (name : Text)
  | configPath (i : Nat) (path : Text)
  | configTarget (i : Nat) (e : TargetError)
  | targetDuplicated (i : Nat) (target : Text)
  | configMode (i : Nat) (mode : Text)

def validateConfigName (name : Text) : Except NameError Unit :=
  if name = [] then .error .empty
  else if name.contains '/' || name.contains '\\' then .error (.separators name)
  else if name = ['.'] ∨ name = ['.', '.'] ∨ ['.'].isPrefixOf name then .error (.dot name)
  else .ok ()

def validateContainerMountPath (target : Text) : Except TargetError Unit :=
  if target = [] then .error .empty
  else if !rooted target then .error (.relative target)
  else if clean target ≠ target ∨ clean target = ['/'] then .error (.unclean target)
  else .ok ()

def octalDigit (n : Nat) (c : Char) : Option Nat :=
  if '0' ≤ c ∧ c ≤ '7' then some (n * 8 + (c.toNat - '0'.toNat)) else none

def parseOctal (s : Text) : Option Nat :=
  if s = [] then none else (s.foldlM octalDigit 0).filter (fun n => n < 1 <<< 32)

def require (field : Field) (value : Text) : List Problem := if value = [] then [.required field] else []

def nameProblems (i : Nat) (seen : List Text) (c : ConfigEntry) : List Problem :=
  match validateConfigName c.name with
  | .error e => [.configName i e]
  | .ok () => if c.name ∈ seen then [.nameDuplicated i c.name] else []

def targetProblems (i : Nat) (seen : List Text) (c : ConfigEntry) : List Problem :=
  match validateContainerMountPath c.target with
  | .error e => [.configTarget i e]
  | .ok () => if c.target ∈ seen then [.targetDuplicated i c.target] else []

def validateConfigs : Nat → List Text → List Text → List ConfigEntry → List Problem
  | _, _, _, [] => []
  | i, names, targets, c :: cs =>
    let atName := nameProblems i names c
    let atPath := if (cleanRelativePath c.path).isNone then [.configPath i c.path] else []
    let atTarget := targetProblems i targets c
    let atMode := if c.mode ≠ [] ∧ (parseOctal c.mode).isNone then [.configMode i c.mode] else []
    atName ++ atPath ++ atTarget ++ atMode ++ validateConfigs (i + 1) (if atName = [] then c.name :: names else names)
        (if atTarget = [] then c.target :: targets else targets) cs

/-- `Validate`; which timeouts are durations is left open. -/
def Definition.validate (parseDuration : Text → Bool) (d : Definition) : List Problem :=
  require .name d.name ++ require .description d.description ++ require .image d.image ++ require .cron d.cron ++
  (if d.mode ≠ [] ∧ d.mode ≠ "once".toList ∧ d.mode ≠ "once_all".toList then [.mode d.mode] else []) ++
  require .cpu d.resources.cpu ++ require .memory d.resources.memory ++
  (if d.resources.timeout = [] then [.required .timeout]
    else if parseDuration d.resources.timeout then [] else [.timeout d.resources.timeout]) ++
  validateConfigs 0 [] [] d.configs

structure ConfigFileSpec where
  name : Text
  relPath : Text
  target : Text
  mode : Text
  contentB64 : Bytes

def source (c : ConfigEntry) : Source := ⟨c.name, c.path⟩

/-- The map of the scheduler, in which a later config replaces one of the same name. -/
def targetByName (entries : List ConfigEntry) (name : Text) : ConfigEntry :=
  (entries.reverse.find? (fun c => c.name = name)).getD {}

def specOf (entries : List ConfigEntry) (rf : ResolvedFile) : ConfigFileSpec :=
  let c := targetByName entries rf.name
  ⟨rf.name, rf.relPath, c.target, c.mode, encode rf.content⟩

/-- The scheduler's way from the configs to the command. -/
def resolveJobConfigFiles (host : Host) (checksum : Bytes → Text) (workDir : Text)
    (entries : List ConfigEntry) : Except ResolveError (List ConfigFileSpec) :=
  if entries = [] then .ok []
  else (resolve host checksum workDir (entries.map source)).map (List.map (specOf entries))

abbrev Disk := FileSystem Text (Bytes × Nat)

def configDir (stackDir jobRunID : Text) : Text := join [stackDir, "jobs".toList, jobRunID, "configs".toList]

/-- A run on a worker, whose directory is absolute unless neither a home nor a
working directory can be found. The record id is the run's own, so nothing was
staged for it before. Which files can be created is up to the file system. -/
structure Run where
  stackDir : Text
  rooted_stackDir : rooted stackDir = true
  clean_stackDir : clean stackDir = stackDir
  jobRunID : Text
  jobRunID_ne_nil : jobRunID ≠ []
  jobRunID_alphanum : ∀ c ∈ jobRunID, c.isAlphanum = true
  disk : Disk
  takes : List Text → Bool
  new : ∀ p, elements (configDir stackDir jobRunID) <+: p → disk p = none

def Run.dir (w : Run) : Text := configDir w.stackDir w.jobRunID

inductive StageError where
  | jobRunID (e : NameError)
  | configDir
  | name (name : Text) (e : NameError)
  | relPath (name relPath : Text)
  | decode (name : Text)
  | write (name : Text)
  | groupDir (name : Text)
  | fileDir (name : Text)
  deriving DecidableEq

def configFileMode (mode : Text) : Nat := if mode = [] then 0o444 else (parseOctal mode).getD 0o444

def checkSpecs : List ConfigFileSpec → Except StageError Unit
  | [] => .ok ()
  | f :: files =>
    match validateConfigName f.name with
    | .error e => .error (.name f.name e)
    | .ok () =>
      if f.relPath ≠ [] ∧ (cleanRelativePath f.relPath).isNone then .error (.relPath f.name f.relPath)
      else checkSpecs files

def volume (path target : Text) : Text := path ++ ':' :: (target ++ ':' :: "ro".toList)

section Stage

variable (takes : List Text → Bool)

def stageInto (groupDir : Text) : List ConfigFileSpec → Disk → Except StageError Disk
  | [], fs => .ok fs
  | f :: files, fs =>
    match decode f.contentB64 with
    | none => .error (.decode f.name)
    | some content =>
      let path := elements (join [groupDir, f.relPath])
      match mkdirAll takes path.dropLast fs with
      | none => .error (.fileDir f.name)
      | some fs =>
        match writeFile takes path (content, configFileMode f.mode) fs with
        | none => .error (.write f.name)
        | some fs => stageInto groupDir files fs

def single : List ConfigFileSpec → Option ConfigFileSpec
  | [f] => if f.relPath = [] then some f else none
  | _ => none

def stageGroup (dir name : Text) (specs : List ConfigFileSpec) (fs : Disk) : Except StageError (Text × Disk) :=
  let path := join [dir, name]
  match single specs with
  | some f =>
    match decode f.contentB64 with
    | none => .error (.decode f.name)
    | some content =>
      match writeFile takes (elements path) (content, configFileMode f.mode) fs with
      | none => .error (.write f.name)
      | some fs => .ok (volume path f.target, fs)
  | none =>
    match mkdirAll takes (elements path) fs with
    | none => .error (.groupDir name)
    | some fs =>
      match stageInto takes path specs fs with
      | .error e => .error e
      | .ok fs => .ok (volume path ((specs.head?.map ConfigFileSpec.target).getD []), fs)

def stageGroups (dir : Text) : List (Text × List ConfigFileSpec) → Disk → Except StageError (List Text × Disk)
  | [], fs => .ok ([], fs)
  | (name, specs) :: rest, fs => do
    let (v, fs) ← stageGroup takes dir name specs fs
    let (vs, fs) ← stageGroups dir rest fs
    return (v :: vs, fs)

end Stage

def prepareJobConfigFiles (w : Run) (files : List ConfigFileSpec) : Except StageError (List Text × Disk) :=
  if files = [] then .ok ([], w.disk)
  else match validateConfigName w.jobRunID with
    | .error e => .error (.jobRunID e)
    | .ok () =>
      match mkdirAll w.takes (elements w.dir) w.disk with
      | none => .error .configDir
      | some fs =>
        match checkSpecs files with
        | .error e => .error e
        | .ok () => stageGroups w.takes w.dir (groups ConfigFileSpec.name files) fs

def found (host : Host) (workDir : Text) (s : Source) : List (List Text × Node Bytes) :=
  match sourcePath host workDir s with
  | .error _ => []
  | .ok full => ((lstat host full).map Node.leaves).getD []

def Run.place (w : Run) (c : ConfigEntry) : List Text := elements w.dir ++ [c.name]

section Accepted

variable {c : ConfigEntry} {i : Nat} {seen : List Text}

theorem nameProblems_nil (h : nameProblems i seen c = []) : validateConfigName c.name = .ok () ∧ c.name ∉ seen := by
  cases hname : validateConfigName c.name with
  | error e => simp [nameProblems, hname] at h
  | ok _ => simpa [nameProblems, hname] using h

theorem targetProblems_nil (h : targetProblems i seen c = []) :
    validateContainerMountPath c.target = .ok () ∧ c.target ∉ seen := by
  cases htarget : validateContainerMountPath c.target with
  | error e => simp [targetProblems, htarget] at h
  | ok _ => simpa [targetProblems, htarget] using h

structure Accepted (cs : List ConfigEntry) : Prop where
  name : ∀ c ∈ cs, validateConfigName c.name = .ok ()
  target : ∀ c ∈ cs, validateContainerMountPath c.target = .ok ()
  names : (cs.map ConfigEntry.name).Nodup
  targets : (cs.map ConfigEntry.target).Nodup

theorem validateConfigs_nil {names targets : List Text} {cs : List ConfigEntry}
    (h : validateConfigs i names targets cs = []) :
    Accepted cs ∧ (∀ c ∈ cs, c.name ∉ names ∧ c.target ∉ targets) := by
  induction cs generalizing i names targets with
  | nil => exact ⟨⟨by simp, by simp, nodup_nil, nodup_nil⟩, by simp⟩
  | cons c cs ih =>
    simp only [validateConfigs, append_eq_nil_iff] at h
    obtain ⟨⟨⟨⟨hname, -⟩, htarget⟩, -⟩, hrest⟩ := h
    rw [if_pos hname, if_pos htarget] at hrest
    obtain ⟨hacc, hnew⟩ := ih hrest
    obtain ⟨hname, hnames⟩ := nameProblems_nil hname
    obtain ⟨htarget, htargets⟩ := targetProblems_nil htarget
    simp only [mem_cons, not_or] at hnew
    refine ⟨⟨forall_mem_cons.mpr ⟨hname, hacc.name⟩, forall_mem_cons.mpr ⟨htarget, hacc.target⟩,
      nodup_cons.mpr ⟨?_, hacc.names⟩, nodup_cons.mpr ⟨?_, hacc.targets⟩⟩,
      forall_mem_cons.mpr ⟨⟨hnames, htargets⟩, fun c hc => ⟨(hnew c hc).1.2, (hnew c hc).2.2⟩⟩⟩
    · rw [mem_map]
      rintro ⟨c', hc', heq⟩
      exact (hnew c' hc').1.1 heq
    · rw [mem_map]
      rintro ⟨c', hc', heq⟩
      exact (hnew c' hc').2.1 heq

theorem accepted_of_validate {parseDuration : Text → Bool} {d : Definition}
    (h : d.validate parseDuration = []) : Accepted d.configs :=
  (validateConfigs_nil (append_eq_nil_iff.mp h).2).1

theorem isName_of_validateConfigName {name : Text} (h : validateConfigName name = .ok ()) : isName name = true := by
  unfold validateConfigName at h
  split at h
  · cases h
  rename_i hnil
  split at h
  · cases h
  rename_i hsep
  split at h
  · cases h
  rename_i hdot
  have hslash : '/' ∉ name := fun hmem => hsep (by simp [hmem])
  rw [not_or, not_or] at hdot
  simp [isName, hnil, hdot.1, hdot.2.1, hslash]

theorem validateConfigName_of_alphanum {name : Text} (hne : name ≠ []) (h : ∀ c ∈ name, c.isAlphanum = true) :
    validateConfigName name = .ok () := by
  have hnot : ∀ c, c.isAlphanum = false → c ∉ name := by
    intro c hc hmem
    rw [h c hmem] at hc
    cases hc
  have hdot : ['.'].isPrefixOf name = false := by
    rw [Bool.eq_false_iff]
    intro hpre
    exact hnot '.' (by decide) (( isPrefixOf_iff_prefix.mp hpre).subset mem_cons_self)
  have hne1 : name ≠ ['.'] := by
    rintro rfl
    exact hnot '.' (by decide) mem_cons_self
  have hne2 : name ≠ ['.', '.'] := by
    rintro rfl
    exact hnot '.' (by decide) mem_cons_self
  simp [validateConfigName, hne, hnot '/' (by decide), hnot '\\' (by decide), hdot, hne1, hne2]

theorem rooted_of_validateContainerMountPath {target : Text} (h : validateContainerMountPath target = .ok ()) :
    rooted target = true := by
  unfold validateContainerMountPath at h
  split at h
  · cases h
  obtain ⟨hrooted, h⟩ := guard_ok h
  simpa using hrooted

end Accepted

section Resolved

variable {host : Host} {checksum : Bytes → Text} {workDir : Text} {s : Source} {total : Nat}
  {r : List ResolvedFile × Nat}

def dataOf : Node Bytes → Bytes
  | .file data => data
  | _ => []

def key (f : ResolvedFile) : Text × Text × Bytes := (f.name, f.relPath, f.content)

theorem found_eq {full : List Text} {t : Node Bytes} (hfull : sourcePath host workDir s = .ok full)
    (hstat : lstat host full = some t) : found host workDir s = t.leaves := by
  rw [found, hfull]
  dsimp only
  rw [hstat]
  rfl

theorem resolveSource_keys (h : resolveSource host checksum workDir s total = .ok r) :
    r.1.map key = (found host workDir s).map (fun leaf => (s.name, slash leaf.1, dataOf leaf.2)) := by
  obtain ⟨full, t, hfull, hstat, hfiles, -⟩ := resolveSource_ok h
  have hkeys := congrArg (map (fun e => (e.2.1, e.2.2.1, dataOf e.2.2.2))) hfiles
  rw [map_map, map_map] at hkeys
  rw [found_eq hfull hstat]
  exact hkeys

theorem resolveFrom_keys {sources : List Source} (h : resolveFrom host checksum workDir sources total = .ok r) :
    r.1.map key = sources.flatMap (fun s =>
      (found host workDir s).map (fun leaf => (s.name, slash leaf.1, dataOf leaf.2))) := by
  induction sources generalizing total r with
  | nil =>
    cases h
    rfl
  | cons s sources ih =>
    obtain ⟨⟨files, total'⟩, hsource, h⟩ := bind_eq_ok_iff.mp h
    obtain ⟨⟨more, total''⟩, hrest, h⟩ := bind_eq_ok_iff.mp h
    cases h
    rw [map_append, flatMap_cons, ← resolveSource_keys hsource, ← ih hrest]

theorem resolve_keys {sources : List Source} {files : List ResolvedFile}
    (h : resolve host checksum workDir sources = .ok files) : files.map key = sources.flatMap (fun s =>
      (found host workDir s).map (fun leaf => (s.name, slash leaf.1, dataOf leaf.2))) := by
  unfold resolve at h
  cases hr : resolveFrom host checksum workDir sources 0 with
  | error e =>
    rw [hr] at h
    cases h
  | ok r =>
    rw [hr] at h
    cases h
    exact resolveFrom_keys hr

theorem found_leaves (host : Host) (workDir : Text) (s : Source) :
    found host workDir s = [] ∨ ∃ t : Node Bytes, t.wf = true ∧ found host workDir s = t.leaves := by
  cases hfull : sourcePath host workDir s with
  | error e =>
    left
    rw [found, hfull]
  | ok full =>
    cases hstat : lstat host full with
    | none =>
      left
      rw [found, hfull]
      dsimp only
      rw [hstat]
      rfl
    | some t =>
      obtain ⟨q, -, hlookup⟩ := Option.bind_eq_some_iff.mp hstat
      exact .inr ⟨t, lookup_wf host.wf hlookup, found_eq hfull hstat⟩

theorem found_isName {leaf : List Text × Node Bytes} (h : leaf ∈ found host workDir s) :
    ∀ n ∈ leaf.1, isName n = true := by
  obtain hnil | ⟨t, hwf, hfound⟩ := found_leaves host workDir s
  · rw [hnil] at h
    cases h
  · rw [hfound] at h
    exact leaves_isName hwf h

theorem found_apart : (found host workDir s).Pairwise (fun p q => Apart p.1 q.1) := by
  obtain hnil | ⟨t, hwf, hfound⟩ := found_leaves host workDir s
  · rw [hnil]
    exact List.Pairwise.nil
  · rw [hfound]
    exact Node.leaves_apart hwf

end Resolved

section Paths

variable {w : Run} {c : ConfigEntry} {a : Text} {es : List Text}

theorem elements_slash (h : ∀ n ∈ es, isName n = true) : elements (slash es) = es :=
  elements_intercalate (isElement_of_isNames h) (settled_of_isNames h)

theorem join_slash (ha : rooted a = true) (h : ∀ n ∈ es, isName n = true) :
    join [a, slash es] = render true (elements a ++ es) := by
  have hne := ne_nil_of_rooted ha
  by_cases hnil : es = []
  · subst hnil
    have hjoin : join [a, slash []] = clean a := by simp [join, slash, hne]
    rw [hjoin, clean_eq_render, ha, append_nil]
  · have hslash : slash es ≠ [] := fun hs => hnil (intercalate_eq_nil (isElement_of_isNames h) hs)
    have hjoin : join [a, slash es] = clean (a ++ '/' :: slash es) := by simp [join, hne, hslash]
    rw [hjoin, clean_eq_render, rooted_append hne, ha, slash,
      elements_append_intercalate hne (isElement_of_isNames h) (settled_of_isNames h)]

theorem elements_join_slash (ha : rooted a = true) (h : ∀ n ∈ es, isName n = true) :
    elements (join [a, slash es]) = elements a ++ es := by
  rw [join_slash ha h]
  apply elements_render
  · exact forall_mem_append.mpr ⟨elements_isElement a, isElement_of_isNames h⟩
  · exact forall_mem_append.mpr ⟨elements_settled ha, settled_of_isNames h⟩

theorem slash_singleton (n : Text) : slash [n] = n := intercalate_singleton ..

def Run.below (w : Run) : List Text := ["jobs".toList, w.jobRunID, "configs".toList]

theorem below_isName : ∀ n ∈ w.below, isName n = true := by
  have hid := isName_of_validateConfigName
    (validateConfigName_of_alphanum w.jobRunID_ne_nil w.jobRunID_alphanum)
  simp only [Run.below, forall_mem_cons, hid]
  decide

theorem dir_eq_join : w.dir = join [w.stackDir, slash w.below] := by
  simp [Run.dir, configDir, join, slash, Run.below, ne_nil_of_rooted w.rooted_stackDir, w.jobRunID_ne_nil]

theorem dir_eq_render : w.dir = render true (elements w.stackDir ++ w.below) :=
  dir_eq_join.trans (join_slash w.rooted_stackDir below_isName)

theorem rooted_dir : rooted w.dir = true := by
  rw [dir_eq_render]
  rfl

theorem elements_dir : elements w.dir = elements w.stackDir ++ w.below := by
  rw [dir_eq_join, elements_join_slash w.rooted_stackDir below_isName]

def Run.path (w : Run) (c : ConfigEntry) : Text := join [w.dir, c.name]

theorem path_eq_render (hc : isName c.name = true) : w.path c = render true (w.place c) := by
  have h := @join_slash w.dir [c.name] rooted_dir (by simpa using hc)
  rwa [slash_singleton] at h

theorem elements_path (hc : isName c.name = true) : elements (w.path c) = w.place c := by
  have h := @elements_join_slash w.dir [c.name] rooted_dir (by simpa using hc)
  rwa [slash_singleton] at h

theorem rooted_path (hc : isName c.name = true) : rooted (w.path c) = true := by
  rw [path_eq_render hc]
  rfl

end Paths

section Staging

variable {w : Run} {host : Host} {workDir : Text} {c : ConfigEntry} {entries : List ConfigEntry}
  {files : List ResolvedFile} {leaves : List (List Text × Node Bytes)} {fs fs' : Disk}

def mkSpec (c : ConfigEntry) (leaf : List Text × Node Bytes) : ConfigFileSpec :=
  ⟨c.name, slash leaf.1, c.target, c.mode, encode (dataOf leaf.2)⟩

def item (place : List Text) (c : ConfigEntry) (leaf : List Text × Node Bytes) : List Text × (Bytes × Nat) :=
  (place ++ leaf.1, (dataOf leaf.2, configFileMode c.mode))

theorem targetByName_eq (hnodup : (entries.map ConfigEntry.name).Nodup) (hc : c ∈ entries) :
    targetByName entries c.name = c := by
  have hunique : ∀ c' ∈ entries, c'.name = c.name → c' = c := fun c' hc' =>
    inj_on_of_nodup_map hnodup hc' hc
  have hsome : ∃ c', entries.reverse.find? (fun e => e.name = c.name) = some c' := by
    rw [← Option.isSome_iff_exists, List.find?_isSome]
    exact ⟨c, mem_reverse.mpr hc, decide_eq_true rfl⟩
  obtain ⟨c', hfind⟩ := hsome
  have hmem := mem_reverse.mp (mem_of_find?_eq_some hfind)
  have hname := List.find?_some hfind
  rw [targetByName, hfind, Option.getD_some]
  exact hunique c' hmem (of_decide_eq_true hname)

theorem specs_eq (hacc : Accepted entries) {checksum : Bytes → Text}
    (h : resolve host checksum workDir (entries.map source) = .ok files) : files.map (specOf entries) =
      entries.flatMap (fun c => (found host workDir (source c)).map (mkSpec c)) := by
  -- A spec depends on the key of the file only.
  let spec (k : Text × Text × Bytes) : ConfigFileSpec :=
    let c := targetByName entries k.1
    ⟨k.1, k.2.1, c.target, c.mode, encode k.2.2⟩
  have hspec : files.map (specOf entries) = (files.map key).map spec := by
    rw [map_map]
    rfl
  rw [hspec, resolve_keys h, flatMap_map, map_flatMap]
  apply flatMap_congr
  intro c hc
  rw [map_map]
  apply map_congr_left
  intro leaf _
  have htarget := targetByName_eq hacc.names hc
  simp only [Function.comp_apply, spec, source, htarget, mkSpec]

variable {takes : List Text → Bool} {specs : List ConfigFileSpec}

theorem stageInto_cons {groupDir : Text} {f : ConfigFileSpec}
    {content : Bytes} (hdecode : decode f.contentB64 = some content) :
    stageInto takes groupDir (f :: specs) fs = .ok fs' ↔
      ∃ fs₁, put takes (elements (join [groupDir, f.relPath])) (content, configFileMode f.mode) fs = some fs₁ ∧
        stageInto takes groupDir specs fs₁ = .ok fs' := by
  rw [stageInto, hdecode, put]
  dsimp only
  cases mkdirAll takes (elements (join [groupDir, f.relPath])).dropLast fs with
  | none => simp
  | some fs₁ =>
    dsimp only [Option.bind_some]
    cases writeFile takes (elements (join [groupDir, f.relPath])) (content, configFileMode f.mode) fs₁ <;> simp

theorem stageInto_ok_iff {groupDir : Text} (hroot : rooted groupDir = true)
    (hname : ∀ leaf ∈ leaves, ∀ n ∈ leaf.1, isName n = true) :
    stageInto takes groupDir (leaves.map (mkSpec c)) fs = .ok fs' ↔
      putAll takes (leaves.map (item (elements groupDir) c)) fs = some fs' := by
  induction leaves generalizing fs with
  | nil => simp [stageInto, putAll]
  | cons leaf leaves ih =>
    rw [forall_mem_cons] at hname
    have hpath : elements (join [groupDir, (mkSpec c leaf).relPath]) = elements groupDir ++ leaf.1 :=
      elements_join_slash hroot hname.1
    rw [map_cons, map_cons, stageInto_cons (decode_encode _), putAll_cons, hpath, Option.bind_eq_some_iff]
    apply exists_congr
    intro fs₁
    rw [ih hname.2]
    rfl

theorem single_cases (hne : leaves ≠ []) (hname : ∀ leaf ∈ leaves, ∀ n ∈ leaf.1, isName n = true)
    (hapart : leaves.Pairwise (fun p q => Apart p.1 q.1)) : (∃ node, leaves = [([], node)]) ∨
      (single (leaves.map (mkSpec c)) = none ∧ ∀ leaf ∈ leaves, leaf.1 ≠ []) := by
  obtain ⟨⟨rel, node⟩, leaves, rfl⟩ := exists_cons_of_ne_nil hne
  cases leaves with
  | nil =>
    by_cases hrel : rel = []
    · subst hrel
      exact .inl ⟨node, rfl⟩
    · have hslash : slash rel ≠ [] := fun h =>
        hrel (intercalate_eq_nil (isElement_of_isNames (hname _ mem_cons_self)) h)
      exact .inr ⟨if_neg hslash, forall_mem_singleton.mpr hrel⟩
  | cons second leaves =>
    refine .inr ⟨rfl, ?_⟩
    have hfirst := pairwise_cons.mp hapart
    refine forall_mem_cons.mpr ⟨?_, ?_⟩
    · rintro rfl
      exact (hfirst.1 second mem_cons_self).1 nil_prefix
    · intro leaf hleaf hnil
      exact (hfirst.1 leaf hleaf).2 (hnil ▸ nil_prefix)

def Run.flag (w : Run) (c : ConfigEntry) : Text := volume (w.path c) c.target

def Run.items (w : Run) (host : Host) (workDir : Text) (c : ConfigEntry) : List (List Text × (Bytes × Nat)) :=
  (found host workDir (source c)).map (item (w.place c) c)

theorem item_place (leaf : List Text × Node Bytes) :
    (item (w.place c) c leaf).1 = elements w.dir ++ (c.name :: leaf.1) := by
  simp [item, Run.place]

theorem items_below {f : List Text × (Bytes × Nat)} (hf : f ∈ w.items host workDir c) :
    elements w.dir <+: f.1 ∧ elements w.dir ≠ f.1 := by
  obtain ⟨leaf, -, rfl⟩ := mem_map.mp hf
  rw [item_place]
  refine ⟨prefix_append .., ?_⟩
  simp

theorem stageGroup_single_iff (hc : isName c.name = true) (hmade : Made fs (elements w.dir)) {node : Node Bytes}
    (hleaves : found host workDir (source c) = [([], node)]) {v : Text} :
    stageGroup w.takes w.dir c.name ((found host workDir (source c)).map (mkSpec c)) fs = .ok (v, fs') ↔
      v = w.flag c ∧ putAll w.takes (w.items host workDir c) fs = some fs' := by
  have hpath : elements (join [w.dir, c.name]) = w.place c := elements_path hc
  have hput : putAll w.takes (w.items host workDir c) fs =
      writeFile w.takes (w.place c) (dataOf node, configFileMode c.mode) fs := by
    have hdrop : (w.place c).dropLast = elements w.dir := dropLast_concat
    rw [Run.items, hleaves, map_singleton, putAll_singleton, ← put_of_made (hdrop ▸ hmade)]
    simp [item]
  have hsingle : single (List.map (mkSpec c) [([], node)]) = some (mkSpec c ([], node)) := rfl
  rw [stageGroup, hleaves, hsingle, hput]
  dsimp only [mkSpec]
  rw [decode_encode, hpath]
  dsimp only
  cases writeFile w.takes (w.place c) (dataOf node, configFileMode c.mode) fs with
  | none => simp
  | some fs₁ => simp [Run.flag, Run.path, eq_comm]

theorem stageGroup_below_iff (hc : isName c.name = true) (hne : found host workDir (source c) ≠ [])
    (hsingle : single ((found host workDir (source c)).map (mkSpec c)) = none)
    (hbelow : ∀ leaf ∈ found host workDir (source c), leaf.1 ≠ []) {v : Text} :
    stageGroup w.takes w.dir c.name ((found host workDir (source c)).map (mkSpec c)) fs = .ok (v, fs') ↔
      v = w.flag c ∧ putAll w.takes (w.items host workDir c) fs = some fs' := by
  have hpath : elements (join [w.dir, c.name]) = w.place c := elements_path hc
  have hputs : ∀ fs₁, stageInto w.takes (join [w.dir, c.name])
      ((found host workDir (source c)).map (mkSpec c)) fs₁ = .ok fs' ↔
      putAll w.takes (w.items host workDir c) fs₁ = some fs' := by
    intro fs₁
    have hroot : rooted (join [w.dir, c.name]) = true := rooted_path hc
    rw [stageInto_ok_iff hroot (fun _ => found_isName), hpath]
    rfl
  have habsorb : (mkdirAll w.takes (w.place c) fs).bind (putAll w.takes (w.items host workDir c)) =
      putAll w.takes (w.items host workDir c) fs := by
    apply mkdirAll_bind_putAll
    · simpa [Run.items] using hne
    · intro f hf
      obtain ⟨leaf, hleaf, rfl⟩ := mem_map.mp hf
      refine ⟨prefix_append .., ?_⟩
      simpa [item] using hbelow leaf hleaf
  have hhead : (((found host workDir (source c)).map (mkSpec c)).head?.map ConfigFileSpec.target).getD [] =
      c.target := by
    obtain ⟨leaf, leaves, hleaves⟩ := exists_cons_of_ne_nil hne
    rw [hleaves]
    rfl
  rw [stageGroup, hsingle, hpath, ← habsorb]
  cases mkdirAll w.takes (w.place c) fs with
  | none => simp
  | some fs₁ =>
    rw [Option.bind_some, ← hputs fs₁]
    dsimp only
    rw [hhead]
    cases stageInto w.takes (join [w.dir, c.name]) ((found host workDir (source c)).map (mkSpec c)) fs₁ with
    | error e => simp
    | ok fs₂ => simp [Run.flag, Run.path, eq_comm]

theorem stageGroup_ok_iff (hc : isName c.name = true) (hne : found host workDir (source c) ≠ [])
    (hmade : Made fs (elements w.dir)) {v : Text} :
    stageGroup w.takes w.dir c.name ((found host workDir (source c)).map (mkSpec c)) fs = .ok (v, fs') ↔
      v = w.flag c ∧ putAll w.takes (w.items host workDir c) fs = some fs' := by
  obtain ⟨node, hleaves⟩ | ⟨hsingle, hbelow⟩ := single_cases hne (fun _ => found_isName) found_apart (c := c)
  · exact stageGroup_single_iff hc hmade hleaves
  · exact stageGroup_below_iff hc hne hsingle hbelow

def group (host : Host) (workDir : Text) (c : ConfigEntry) : Text × List ConfigFileSpec :=
  (c.name, (found host workDir (source c)).map (mkSpec c))

theorem stageGroups_ok_iff {cs : List ConfigEntry} (hcs : ∀ c ∈ cs, isName c.name = true)
    (hne : ∀ c ∈ cs, found host workDir (source c) ≠ []) (hmade : Made fs (elements w.dir)) {vs : List Text} :
    stageGroups w.takes w.dir (cs.map (group host workDir)) fs = .ok (vs, fs') ↔
      vs = cs.map w.flag ∧ putAll w.takes (cs.flatMap (w.items host workDir)) fs = some fs' := by
  induction cs generalizing fs vs with
  | nil => simp [stageGroups, putAll, eq_comm]
  | cons c cs ih =>
    rw [forall_mem_cons] at hcs hne
    rw [flatMap_cons, putAll_append, Option.bind_eq_some_iff]
    have hgroup := fun v fs₁ => @stageGroup_ok_iff w host workDir c fs fs₁ hcs.1 hne.1 hmade v
    constructor
    · intro h
      obtain ⟨⟨v, fs₁⟩, hfirst, h⟩ := bind_eq_ok_iff.mp h
      obtain ⟨⟨vs', fs₂⟩, hrest, h⟩ := bind_eq_ok_iff.mp h
      cases h
      obtain ⟨rfl, hput⟩ := (hgroup v fs₁).mp hfirst
      obtain ⟨rfl, hputs⟩ := (ih hcs.2 hne.2 (made_putAll hmade (fun _ => items_below) hput)).mp hrest
      exact ⟨rfl, fs₁, hput, hputs⟩
    · rintro ⟨rfl, fs₁, hput, hputs⟩
      have hrest := (ih hcs.2 hne.2 (made_putAll hmade (fun _ => items_below) hput)).mpr ⟨rfl, hputs⟩
      exact bind_eq_ok_iff.mpr ⟨_, (hgroup _ fs₁).mpr ⟨rfl, hput⟩, bind_eq_ok_iff.mpr ⟨_, hrest, rfl⟩⟩

theorem checkSpecs_ok_iff : checkSpecs specs = .ok () ↔ ∀ f ∈ specs, validateConfigName f.name = .ok () ∧
      (f.relPath = [] ∨ (cleanRelativePath f.relPath).isSome = true) := by
  induction specs with
  | nil => simp [checkSpecs]
  | cons f specs ih =>
    rw [forall_mem_cons, ← ih, checkSpecs]
    cases validateConfigName f.name with
    | error e => simp
    | ok u =>
      have hcond : (f.relPath ≠ [] ∧ (cleanRelativePath f.relPath).isNone = true) ↔
          ¬ (f.relPath = [] ∨ (cleanRelativePath f.relPath).isSome = true) := by
        rw [not_or, Bool.not_eq_true, Option.isSome_eq_false_iff]
      simp only [hcond, ite_not]
      split
      · rename_i h
        simp only [h, and_true, true_and]
      · rename_i h
        simp only [h, and_false, false_and, reduceCtorEq]

theorem cleanRelativePath_slash {rel : List Text} (hname : ∀ n ∈ rel, isName n = true) :
    (slash rel = [] ∨ (cleanRelativePath (slash rel)).isSome = true) ↔ ¬ ['.', '.'] <+: slash rel := by
  have hel := isElement_of_isNames hname
  by_cases hnil : slash rel = []
  · simp [hnil]
  have hrel : rel ≠ [] := by
    rintro rfl
    exact hnil rfl
  have hroot : rooted (slash rel) = false := decide_eq_false (head_intercalate hel)
  have hclean : clean (slash rel) = slash rel := by
    rw [clean_eq_render, hroot, elements_slash hname]
    exact render_false hel hrel
  rw [or_iff_right hnil, cleanRelativePath, if_neg hnil, hclean, hroot]
  by_cases hdots : ['.', '.'] <+: slash rel
  · simp [hdots]
  · simp [hdots]

section Prepare

variable (host workDir entries)

def live : List ConfigEntry := entries.filter (fun c => !(found host workDir (source c)).isEmpty)

def commandSpecs : List ConfigFileSpec := entries.flatMap (fun c => (found host workDir (source c)).map (mkSpec c))

variable {host workDir entries}

theorem mem_live : c ∈ live host workDir entries ↔ c ∈ entries ∧ found host workDir (source c) ≠ [] := by
  simp [live]

theorem live_eq_nil_iff : live host workDir entries = [] ↔ ∀ c ∈ entries, found host workDir (source c) = [] := by
  simp [live, filter_eq_nil_iff]

theorem flatMap_live {B : Type} (f : ConfigEntry → List Text × Node Bytes → B) :
    (live host workDir entries).flatMap (fun c => (found host workDir (source c)).map (f c)) =
      entries.flatMap (fun c => (found host workDir (source c)).map (f c)) := by
  induction entries with
  | nil => rfl
  | cons c entries ih =>
    by_cases hnil : found host workDir (source c) = []
    · have hlive : live host workDir (c :: entries) = live host workDir entries := by simp [live, hnil]
      rw [hlive, ih, flatMap_cons, hnil]
      rfl
    · have hlive : live host workDir (c :: entries) = c :: live host workDir entries := by simp [live, hnil]
      rw [hlive, flatMap_cons, flatMap_cons, ih]

section

variable (hacc : Accepted entries)

include hacc

theorem groups_commandSpecs :
    groups ConfigFileSpec.name (commandSpecs host workDir entries) =
      (live host workDir entries).map (group host workDir) := by
  rw [commandSpecs, ← flatMap_live]
  apply groups_flatMap
  · intro c hc
    simpa using (mem_live.mp hc).2
  · intro c _ f hf
    obtain ⟨leaf, -, rfl⟩ := mem_map.mp hf
    rfl
  · exact hacc.names.sublist (List.Sublist.map _ filter_sublist)

theorem items_apart :
    (entries.flatMap (w.items host workDir)).Pairwise (fun f g => Apart f.1 g.1) := by
  refine pairwise_flatMap.mpr ⟨?_, ?_⟩
  · intro c _
    refine pairwise_map.mpr (found_apart.imp ?_)
    intro p q hpq
    exact ⟨fun h => hpq.1 ((prefix_append_right_inj _).mp h), fun h => hpq.2 ((prefix_append_right_inj _).mp h)⟩
  · refine (pairwise_map.mp hacc.names).imp ?_
    intro c c' hne f hf g hg
    obtain ⟨leaf, -, rfl⟩ := mem_map.mp hf
    obtain ⟨leaf', -, rfl⟩ := mem_map.mp hg
    rw [item_place, item_place]
    constructor
    · intro h
      exact hne (cons_prefix_cons.mp ((prefix_append_right_inj _).mp h)).1
    · intro h
      exact hne (cons_prefix_cons.mp ((prefix_append_right_inj _).mp h)).1.symm

theorem checkSpecs_commandSpecs : checkSpecs (commandSpecs host workDir entries) = .ok () ↔
      ∀ c ∈ entries, ∀ leaf ∈ found host workDir (source c), ¬ ['.', '.'] <+: slash leaf.1 := by
  rw [checkSpecs_ok_iff]
  constructor
  · intro h c hc leaf hleaf
    have hmem : mkSpec c leaf ∈ commandSpecs host workDir entries :=
      mem_flatMap.mpr ⟨c, hc, mem_map_of_mem hleaf⟩
    exact (cleanRelativePath_slash (found_isName hleaf)).mp (h _ hmem).2
  · intro h f hf
    obtain ⟨c, hc, hf⟩ := mem_flatMap.mp hf
    obtain ⟨leaf, hleaf, rfl⟩ := mem_map.mp hf
    exact ⟨hacc.name c hc, (cleanRelativePath_slash (found_isName hleaf)).mpr (h c hc leaf hleaf)⟩

theorem prepareJobConfigFiles_ok_iff {vs : List Text} :
    prepareJobConfigFiles w (commandSpecs host workDir entries) = .ok (vs, fs') ↔
      (∀ c ∈ entries, ∀ leaf ∈ found host workDir (source c), ¬ ['.', '.'] <+: slash leaf.1) ∧
      vs = (live host workDir entries).map w.flag ∧
      putAll w.takes (entries.flatMap (w.items host workDir)) w.disk = some fs' := by
  have hflat : (live host workDir entries).flatMap (w.items host workDir) =
      entries.flatMap (w.items host workDir) := flatMap_live (fun c => item (w.place c) c)
  by_cases hnil : live host workDir entries = []
  · have hfound := live_eq_nil_iff.mp hnil
    have hspecs : commandSpecs host workDir entries = [] := by
      rw [commandSpecs, ← flatMap_live, hnil]
      rfl
    have hdots : ∀ c ∈ entries, ∀ leaf ∈ found host workDir (source c), ¬ ['.', '.'] <+: slash leaf.1 := by
      intro c hc leaf hleaf
      rw [hfound c hc] at hleaf
      cases hleaf
    rw [hspecs, prepareJobConfigFiles, if_pos rfl, ← hflat, hnil, and_iff_right hdots]
    simp [putAll, eq_comm]
  · obtain ⟨c, hc⟩ := exists_mem_of_ne_nil _ hnil
    obtain ⟨hc, hfound⟩ := mem_live.mp hc
    obtain ⟨leaf, hleaf⟩ := exists_mem_of_ne_nil _ hfound
    have hne : commandSpecs host workDir entries ≠ [] :=
      ne_nil_of_mem (mem_flatMap.mpr ⟨c, hc, mem_map_of_mem hleaf⟩)
    have hitems : entries.flatMap (w.items host workDir) ≠ [] :=
      ne_nil_of_mem (mem_flatMap.mpr ⟨c, hc, mem_map_of_mem hleaf⟩)
    have habsorb : (mkdirAll w.takes (elements w.dir) w.disk).bind
        (putAll w.takes (entries.flatMap (w.items host workDir))) =
        putAll w.takes (entries.flatMap (w.items host workDir)) w.disk := by
      apply mkdirAll_bind_putAll hitems
      intro f hf
      obtain ⟨c, -, hf⟩ := mem_flatMap.mp hf
      exact items_below hf
    rw [prepareJobConfigFiles, if_neg hne,
      validateConfigName_of_alphanum w.jobRunID_ne_nil w.jobRunID_alphanum, ← checkSpecs_commandSpecs hacc,
      ← habsorb, groups_commandSpecs hacc]
    cases hmk : mkdirAll w.takes (elements w.dir) w.disk with
    | none => simp
    | some fs =>
      obtain ⟨-, rfl⟩ := mkdirAll_eq_some_iff.mp hmk
      have hstage := @stageGroups_ok_iff w host workDir (dirs (elements w.dir) w.disk) fs'
        (live host workDir entries)
        (fun c hc => isName_of_validateConfigName (hacc.name c (mem_live.mp hc).1))
        (fun c hc => (mem_live.mp hc).2) made_dirs vs
      rw [hflat] at hstage
      rw [Option.bind_some, ← hstage]
      cases checkSpecs (commandSpecs host workDir entries) with
      | error e => simp
      | ok u => simp

end

end Prepare

end Staging

end Wireops.Jobs.ConfigStaging
