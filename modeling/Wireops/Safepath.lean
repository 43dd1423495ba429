import Wireops.Backup.Restores
import Wireops.Jobs.ConfigStaging
import Wireops.Policy.Containment

namespace Wireops.Safepath

open List Lib.Descent Lib.Paths Lib.Strings Lib.Trees
open Backup.Restores (validateBackupKey)
open Jobs.ConfigStaging (validateConfigName configDir isName_of_validateConfigName join_slash elements_join_slash
  slash_singleton)
open Policy.Containment (AtOrBelow)
open Sync.Configs (cleanRelativePath slash)
open Worker.Imports (join isYaml)

inductive PathError where
  | traversal (path : Text)
  | absolute (path : Text)
  | notFilename (path : Text)
  | extension (path : Text)

def validateComposePath (p : Text) : Except PathError Unit :=
  if p = [] ∨ p = ['.'] then .ok ()
  else if (cut ['.', '.'] (clean p)).isSome then .error (.traversal p)
  else if rooted (clean p) then .error (.absolute p)
  else .ok ()

def validateComposeFile (f : Text) : Except PathError Unit :=
  if f = [] then .ok ()
  else if (cut ['.', '.'] (clean f)).isSome then .error (.traversal f)
  else if rooted (clean f) then .error (.absolute f)
  else if (clean f).contains '/' then .error (.notFilename f)
  else if !isYaml (clean f) then .error (.extension f)
  else .ok ()

/-- The directory of a stack in the checkout of its repository. -/
def stackWorkDir (base composePath : Text) : Except PathError Text :=
  match validateComposePath composePath with
  | .error e => .error e
  | .ok () => .ok (if composePath ≠ [] ∧ composePath ≠ ['.'] then join [base, composePath] else base)

/-- What the code builds from a directory and validated strings. The worker
joins a config's relative path as it came, the server the cleaned one; either
goes on from what it has built. -/
inductive Joined : Text → Text → Prop where
  | composePath {base p dir : Text} (h : stackWorkDir base p = .ok dir) : Joined base dir
  | composeFile {base f : Text} (h : validateComposeFile f = .ok ()) : Joined base (join [base, f])
  | backupKey {base key : Text} (h : validateBackupKey key = true) : Joined base (join [base, key])
  | configName {base name : Text} (h : validateConfigName name = .ok ()) : Joined base (join [base, name])
  | relPath {base p : Text} (h : p ≠ [] → (cleanRelativePath p).isSome) : Joined base (join [base, p])
  | cleaned {base p rel : Text} (h : cleanRelativePath p = some rel) : Joined base (join [base, rel])
  | jobConfigs {base run : Text} (h : validateConfigName run = .ok ()) : Joined base (configDir base run)
  | nested {base dir path : Text} (hdir : Joined base dir) (hpath : Joined dir path) : Joined base path

variable {base p : Text}

/-- The path is relative and does not lead up. -/
def Inner (p : Text) : Prop := rooted p = false ∧ Settled (elements p)

theorem rooted_clean (p : Text) : rooted (clean p) = rooted p := rooted_render _ (elements_isElement p)

theorem inner_of_prefix (hroot : rooted (clean p) = false) (hup : ¬ ['.', '.'] <+: clean p) : Inner p := by
  rw [rooted_clean] at hroot
  exact ⟨hroot, settled_of_relative hroot hup⟩

theorem inner_of_cut (hroot : rooted (clean p) = false) (hup : (cut ['.', '.'] (clean p)).isSome = false) :
    Inner p := by
  refine inner_of_prefix hroot ?_
  rintro ⟨rest, hrest⟩
  simp [← hrest, cut] at hup

theorem inner_clean (h : Inner p) : Inner (clean p) := by
  refine ⟨(rooted_clean p).trans h.1, ?_⟩
  rw [clean_eq_render, h.1]
  by_cases hnil : elements p = []
  · simp [hnil, Settled, show elements (render false []) = [] from rfl]
  · rw [render_false (elements_isElement p) hnil, elements_intercalate (elements_isElement p) h.2]
    exact h.2

theorem atOrBelow_join (hbase : rooted base = true) (hp : Inner p) : AtOrBelow base (join [base, p]) := by
  have hne := ne_nil_of_rooted hbase
  by_cases hnil : p = []
  · have hjoin : join [base, p] = clean base := by simp [join, hne, hnil]
    rw [hjoin]
    exact ⟨(rooted_clean base).symm, [], by simp [elements_clean hbase], not_mem_nil⟩
  · have hjoin : join [base, p] = clean (base ++ '/' :: p) := by simp [join, hne, hnil]
    have hroot : rooted (base ++ '/' :: p) = true := (rooted_append hne _).trans hbase
    rw [hjoin]
    refine ⟨by rw [rooted_clean, hroot, hbase], elements p, ?_, fun hup => hp.2 _ hup rfl⟩
    rw [elements_clean hroot, elements_append_relative hbase hp.1 hp.2]

theorem atOrBelow_join_slash {es : List Text} (hbase : rooted base = true) (h : ∀ n ∈ es, isName n = true) :
    AtOrBelow base (join [base, slash es]) := by
  refine ⟨?_, es, elements_join_slash hbase h, fun hup => absurd (h _ hup) (by decide)⟩
  rw [join_slash hbase h, hbase]
  rfl

theorem atOrBelow_trans {a b c : Text} (hab : AtOrBelow a b) (hbc : AtOrBelow b c) : AtOrBelow a c := by
  obtain ⟨hroot, down, hdown, hup⟩ := hab
  obtain ⟨hroot', down', hdown', hup'⟩ := hbc
  exact ⟨hroot.trans hroot', down ++ down', by simp [hdown, hdown'], by simp [hup, hup']⟩

theorem inner_of_composePath (h : validateComposePath p = .ok ()) : Inner p := by
  unfold validateComposePath at h
  split_ifs at h with htrivial hup hroot
  · obtain rfl | rfl := htrivial <;> exact ⟨rfl, nofun⟩
  · exact inner_of_cut (by simpa using hroot) (by simpa using hup)

theorem inner_of_composeFile (h : validateComposeFile p = .ok ()) : Inner p := by
  unfold validateComposeFile at h
  split_ifs at h with hnil hup hroot
  · subst hnil
    exact ⟨rfl, nofun⟩
  · exact inner_of_cut (by simpa using hroot) (by simpa using hup)

theorem inner_of_backupKey (h : validateBackupKey p = true) : Inner p := by
  simp only [validateBackupKey, Bool.and_eq_true, decide_eq_true_eq, Bool.not_eq_true', contains_eq_mem,
    decide_eq_false_iff_not] at h
  obtain ⟨⟨⟨⟨⟨-, hclean⟩, hslash⟩, -⟩, hup⟩, -⟩ := h
  have hroot : rooted (clean p) = false := by
    rw [hclean]
    exact decide_eq_false (fun hhead => hslash (mem_of_mem_head? hhead))
  rw [← hclean] at hup
  exact inner_of_cut hroot (by simpa using hup)

theorem inner_of_cleanRelativePath {rel : Text} (h : cleanRelativePath p = some rel) : Inner p ∧ rel = clean p := by
  unfold cleanRelativePath at h
  split_ifs at h with hnil hbad
  rw [not_or, isPrefixOf_iff_prefix, Bool.not_eq_true] at hbad
  exact ⟨ inner_of_prefix hbad.2 hbad.1, (Option.some.inj h).symm⟩

theorem joined_atOrBelow {path : Text} (h : Joined base path) (hbase : rooted base = true) : AtOrBelow base path := by
  induction h with
  | composePath h =>
    unfold stackWorkDir at h
    split at h
    · cases h
    · next hvalid =>
      cases h
      split
      · exact atOrBelow_join hbase (inner_of_composePath hvalid)
      · exact ⟨rfl, [], (append_nil _).symm, not_mem_nil⟩
  | composeFile h => exact atOrBelow_join hbase (inner_of_composeFile h)
  | backupKey h => exact atOrBelow_join hbase (inner_of_backupKey h)
  | @configName _ name h =>
    rw [← slash_singleton name]
    exact atOrBelow_join_slash hbase (by simpa using isName_of_validateConfigName h)
  | @relPath _ p h =>
    refine atOrBelow_join hbase ?_
    by_cases hnil : p = []
    · subst hnil
      exact ⟨rfl, nofun⟩
    · obtain ⟨rel, hrel⟩ := Option.isSome_iff_exists.mp (h hnil)
      exact (inner_of_cleanRelativePath hrel).1
  | cleaned h =>
    obtain ⟨hinner, rfl⟩ := inner_of_cleanRelativePath h
    exact atOrBelow_join hbase (inner_clean hinner)
  | @jobConfigs base run h =>
    have hname := isName_of_validateConfigName h
    have hdir : configDir base run = join [base, slash ["jobs".toList, run, "configs".toList]] := by
      simp [configDir, join, slash, ne_nil_of_rooted hbase, (isElement_of_isName hname).ne_nil]
    rw [hdir]
    refine atOrBelow_join_slash hbase ?_
    simp only [forall_mem_cons, hname]
    decide
  | nested _ _ ihdir ihpath =>
    have hdir := ihdir hbase
    exact atOrBelow_trans hdir (ihpath (hdir.1 ▸ hbase))

theorem staged_config_atOrBelow : AtOrBelow "/w".toList
    (join [join [configDir "/w".toList "run1".toList, "app".toList], "a/../conf.d/x".toList]) :=
  joined_atOrBelow (.nested (.nested (.jobConfigs (by decide)) (.configName (by decide))) (.relPath (by decide))) rfl

end Wireops.Safepath
