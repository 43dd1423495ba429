import Wireops.Jobs.ConfigStaging

/-!
# The mounts of a job's configs

Docker mounts what the worker has staged by flags whose parts are separated by colons. A
name or a target that the definition may have can contain a colon itself.
-/

namespace Wireops.Jobs.ConfigMounts

open List Jobs.ConfigStaging
open Lib.Base64 Lib.Descent Lib.Groups Lib.Paths Lib.Strings
  Lib.Trees Lib.Writes
open Lib.Octets (Bytes text)
open Sync.Configs (Host ResolvedFile slash resolve)

structure Mount where
  host : Text
  target : Text
  readOnly : Bool

/-- A volume flag, by its parts; an argument with a zero in it cannot be passed at all. -/
def readVolume (flag : Text) : Option Mount :=
  if flag.contains '\x00' then none
  else match flag.splitOn ':' with
  | [host, target] => if host = [] ∨ target = [] then none else some ⟨host, target, false⟩
  | [host, target, mode] =>
    if host = [] ∨ target = [] then none
    else if mode = "ro".toList then some ⟨host, target, true⟩
    else if mode = "rw".toList then some ⟨host, target, false⟩
    else none
  | _ => none

/-- Docker does not mount two things at one target. -/
def mounted (flags : List Text) : Option (List Mount) :=
  (flags.mapM readVolume).filter (fun mounts => (mounts.map Mount.target).Nodup)

/-- At the place, and below it, lie the files that were resolved for the config and no
others. -/
def Holds (fs : Disk) (c : ConfigEntry) (files : List ResolvedFile) (place : List Text) : Prop :=
  ∀ rel x, fs (place ++ rel) = some (.file x) ↔
    ∃ f ∈ files, f.name = c.name ∧ elements f.relPath = rel ∧ x = (f.content, configFileMode c.mode)

/-- Each config is mounted, and nothing else. -/
def Delivered (entries : List ConfigEntry) (files : List ResolvedFile) (volumes : List Text) (fs : Disk) : Prop :=
  ∃ mounts, mounted volumes = some mounts ∧
    List.Forall₂ (fun c m => rooted m.host = true ∧ m.target = c.target ∧ m.readOnly = true ∧
      Holds fs c files (elements m.host)) entries mounts

structure Plain (s : Text) : Prop where
  colon : ':' ∉ s
  zero : '\x00' ∉ s

/-- The flag's parts are plain, the config has a file, no way to a file starts
with two dots, and the files have room. -/
structure Fits (w : Run) (host : Host) (workDir : Text) (c : ConfigEntry) : Prop where
  stackDir : Plain w.stackDir
  name : Plain c.name
  target : Plain c.target
  nonempty : found host workDir (source c) ≠ []
  dots : ∀ leaf ∈ found host workDir (source c), ¬ ['.', '.'] <+: slash leaf.1
  room : ∀ leaf ∈ found host workDir (source c), Room w.takes w.disk (w.place c ++ leaf.1)

section Flags

variable {w : Run} {c : ConfigEntry}

theorem stackDir_eq_render : w.stackDir = render true (elements w.stackDir) := by
  have h := clean_eq_render w.stackDir
  rwa [w.clean_stackDir, w.rooted_stackDir] at h

theorem notMem_below {ch : Char} (hch : ch.isAlphanum = false) : ∀ e ∈ w.below, ch ∉ e := by
  have hconst : ∀ c ∈ "jobs".toList ++ "configs".toList, c.isAlphanum = true := all_eq_true.mp (by decide)
  have hnot : ∀ e : Text, (∀ c ∈ e, c.isAlphanum = true) → ch ∉ e := by
    intro e he hmem
    rw [he ch hmem] at hch
    cases hch
  rw [forall_mem_append] at hconst
  simp only [Run.below, forall_mem_cons]
  exact ⟨hnot _ hconst.1, hnot _ w.jobRunID_alphanum, hnot _ hconst.2, forall_mem_nil _⟩

theorem mem_path {ch : Char} (hch : ch.isAlphanum = false) (hslash : ch ≠ '/') (hc : isName c.name = true) :
    ch ∈ w.path c ↔ ch ∈ w.stackDir ∨ ch ∈ c.name := by
  have hstack : ch ∈ w.stackDir ↔ ∃ e ∈ elements w.stackDir, ch ∈ e := by
    rw [← mem_render hslash, ← stackDir_eq_render]
  have hplace : w.place c = elements w.stackDir ++ (w.below ++ [c.name]) := by
    rw [Run.place, elements_dir, append_assoc]
  rw [path_eq_render hc, mem_render hslash, hstack, hplace]
  constructor
  · rintro ⟨e, he, hmem⟩
    rcases mem_append.mp he with he | he
    · exact .inl ⟨e, he, hmem⟩
    rcases mem_append.mp he with he | he
    · exact absurd hmem (notMem_below hch e he)
    · rw [mem_singleton.mp he] at hmem
      exact .inr hmem
  · rintro (⟨e, he, hmem⟩ | hmem)
    · exact ⟨e, mem_append_left _ he, hmem⟩
    · exact ⟨c.name, by simp, hmem⟩

theorem plain_path (hc : isName c.name = true) : Plain (w.path c) ↔ Plain w.stackDir ∧ Plain c.name := by
  have hcolon := @mem_path w c ':' (by decide) (by decide) hc
  have hzero := @mem_path w c '\x00' (by decide) (by decide) hc
  constructor
  · intro h
    have hcolon := not_or.mp (hcolon.not.mp h.colon)
    have hzero := not_or.mp (hzero.not.mp h.zero)
    exact ⟨⟨hcolon.1, hzero.1⟩, ⟨hcolon.2, hzero.2⟩⟩
  · rintro ⟨hstack, hname⟩
    exact ⟨hcolon.not.mpr (not_or.mpr ⟨hstack.colon, hname.colon⟩),
      hzero.not.mpr (not_or.mpr ⟨hstack.zero, hname.zero⟩)⟩

theorem length_splitOn {sep : Char} {s : Text} (h : sep ∈ s) : 2 ≤ (s.splitOn sep).length := by
  obtain ⟨x, y, rfl⟩ := append_of_mem h
  have hx := length_pos_iff.mpr (splitOn_ne_nil sep x)
  have hy := length_pos_iff.mpr (splitOn_ne_nil sep y)
  rw [splitOn_append_cons_self, length_append]
  omega

theorem splitOn_volume (host target : Text) : (volume host target).splitOn ':' =
    host.splitOn ':' ++ (target.splitOn ':' ++ ["ro".toList]) := by
  rw [volume, splitOn_append_cons_self, splitOn_append_cons_self]
  rfl

variable {host target : Text}

theorem zero_mem_volume : (volume host target).contains '\x00' = true ↔ '\x00' ∈ host ∨ '\x00' ∈ target := by
  simp [volume]

theorem readVolume_plain (hhost : host ≠ []) (htarget : target ≠ [])
    (hh : Plain host) (ht : Plain target) : readVolume (volume host target) = some ⟨host, target, true⟩ := by
  have hzero := zero_mem_volume.not.mpr (not_or.mpr ⟨hh.zero, ht.zero⟩)
  have hsplit : (volume host target).splitOn ':' = [host, target, "ro".toList] := by
    rw [splitOn_volume, splitOn_eq_singleton hh.colon, splitOn_eq_singleton ht.colon]
    rfl
  rw [readVolume, if_neg hzero, hsplit]
  simp [hhost, htarget]

theorem plain_of_readVolume {m : Mount} (h : readVolume (volume host target) = some m) :
    Plain host ∧ Plain target := by
  unfold readVolume at h
  split at h
  · cases h
  rename_i hzero
  obtain ⟨hzh, hzt⟩ := not_or.mp (zero_mem_volume.not.mp hzero)
  have hle : ((volume host target).splitOn ':').length ≤ 3 := by
    split at h <;> simp_all
  rw [splitOn_volume, length_append, length_append, length_singleton] at hle
  have hhost := length_pos_iff.mpr (splitOn_ne_nil ':' host)
  have htarget := length_pos_iff.mpr (splitOn_ne_nil ':' target)
  refine ⟨⟨fun hmem => ?_, hzh⟩, ⟨fun hmem => ?_, hzt⟩⟩
  · have := length_splitOn hmem
    omega
  · have := length_splitOn hmem
    omega

end Flags

section Delivery

variable {w : Run} {host : Host} {checksum : Bytes → Text} {workDir : Text} {c : ConfigEntry}
  {entries : List ConfigEntry} {files : List ResolvedFile} {fs : Disk}

section

variable (hacc : Accepted entries)

include hacc

theorem resolveJobConfigFiles_eq (h : resolve host checksum workDir (entries.map source) = .ok files) :
    resolveJobConfigFiles host checksum workDir entries = .ok (commandSpecs host workDir entries) := by
  unfold resolveJobConfigFiles
  split
  · next hnil =>
    rw [hnil]
    rfl
  · rw [h]
    exact congrArg _ (specs_eq hacc h)

theorem exists_resolved_iff (h : resolve host checksum workDir (entries.map source) = .ok files) (hc : c ∈ entries)
    (P : Text → Bytes → Prop) : (∃ f ∈ files, f.name = c.name ∧ P f.relPath f.content) ↔
      ∃ leaf ∈ found host workDir (source c), P (slash leaf.1) (dataOf leaf.2) := by
  have hkeys := resolve_keys h
  constructor
  · rintro ⟨f, hf, hname, hP⟩
    have hkey : key f ∈ files.map key := mem_map_of_mem hf
    rw [hkeys] at hkey
    obtain ⟨s, hs, hkey⟩ := mem_flatMap.mp hkey
    obtain ⟨c', hc', rfl⟩ := mem_map.mp hs
    obtain ⟨leaf, hleaf, hkey⟩ := mem_map.mp hkey
    obtain ⟨hn, hrel, hdata⟩ : c'.name = f.name ∧ slash leaf.1 = f.relPath ∧ dataOf leaf.2 = f.content := by
      simpa [key, source] using hkey
    obtain rfl := inj_on_of_nodup_map hacc.names hc' hc (hn.trans hname)
    rw [← hrel, ← hdata] at hP
    exact ⟨leaf, hleaf, hP⟩
  · rintro ⟨leaf, hleaf, hP⟩
    have hkey : (c.name, slash leaf.1, dataOf leaf.2) ∈ files.map key := by
      rw [hkeys]
      exact mem_flatMap.mpr ⟨source c, mem_map_of_mem hc, mem_map.mpr ⟨leaf, hleaf, rfl⟩⟩
    obtain ⟨f, hf, hkey⟩ := mem_map.mp hkey
    obtain ⟨hn, hrel, hdata⟩ : f.name = c.name ∧ f.relPath = slash leaf.1 ∧ f.content = dataOf leaf.2 := by
      simpa [key] using hkey
    rw [← hrel, ← hdata] at hP
    exact ⟨f, hf, hn, hP⟩

theorem mem_items_iff (hc : c ∈ entries) {rel : List Text} {x : Bytes × Nat} :
    (w.place c ++ rel, x) ∈ entries.flatMap (w.items host workDir) ↔
      ∃ leaf ∈ found host workDir (source c), leaf.1 = rel ∧ x = (dataOf leaf.2, configFileMode c.mode) := by
  rw [mem_flatMap]
  constructor
  · rintro ⟨c', hc', hmem⟩
    obtain ⟨leaf, hleaf, heq⟩ := mem_map.mp hmem
    obtain ⟨hplace, rfl⟩ := Prod.mk.inj heq
    rw [Run.place, Run.place, append_assoc, append_assoc] at hplace
    obtain ⟨hname, hrel⟩ := List.cons.inj (append_cancel_left hplace)
    obtain rfl := inj_on_of_nodup_map hacc.names hc' hc hname
    exact ⟨leaf, hleaf, hrel, rfl⟩
  · rintro ⟨leaf, hleaf, rfl, rfl⟩
    exact ⟨c, hc, mem_map.mpr ⟨leaf, hleaf, rfl⟩⟩

theorem staged_of_fits (hfits : ∀ c ∈ entries, Fits w host workDir c) :
    ∃ fs, putAll w.takes (entries.flatMap (w.items host workDir)) w.disk = some fs := by
  refine ⟨_, (putAll_eq_some_iff (items_apart hacc)).mpr ⟨?_, rfl⟩⟩
  intro f hf
  obtain ⟨c, hc, hf⟩ := mem_flatMap.mp hf
  obtain ⟨leaf, hleaf, rfl⟩ := mem_map.mp hf
  exact (hfits c hc).room leaf hleaf

theorem holds_of_staged (h : resolve host checksum workDir (entries.map source) = .ok files) (hc : c ∈ entries)
    (hput : putAll w.takes (entries.flatMap (w.items host workDir)) w.disk = some fs) :
    Holds fs c files (w.place c) := by
  intro rel x
  obtain ⟨-, rfl⟩ := (putAll_eq_some_iff (items_apart hacc)).mp hput
  have hnew : w.disk (w.place c ++ rel) = none := by
    apply w.new
    rw [Run.place, append_assoc]
    exact prefix_append ..
  rw [placedAll_file_iff (items_apart hacc), hnew, mem_items_iff hacc hc,
    exists_resolved_iff hacc h hc (fun relPath content => elements relPath = rel ∧
      x = (content, configFileMode c.mode))]
  simp only [reduceCtorEq, false_and, or_false]
  apply exists_congr
  intro leaf
  apply and_congr_right
  intro hleaf
  rw [elements_slash (found_isName hleaf)]

theorem mounted_flags (hfits : ∀ c ∈ entries, Fits w host workDir c) :
    mounted (entries.map w.flag) = some (entries.map (fun c => ⟨w.path c, c.target, true⟩)) := by
  have hread : (entries.map w.flag).mapM readVolume = some (entries.map (fun c => ⟨w.path c, c.target, true⟩)) := by
    rw [mapM_eq_some_iff, forall₂_map_left_iff, forall₂_map_right_iff, forall₂_same]
    intro c hc
    have hname := isName_of_validateConfigName (hacc.name c hc)
    have hfit := hfits c hc
    exact readVolume_plain (ne_nil_of_rooted (rooted_path hname))
      (ne_nil_of_rooted (rooted_of_validateContainerMountPath (hacc.target c hc)))
      ((plain_path hname).mpr ⟨hfit.stackDir, hfit.name⟩) hfit.target
  rw [mounted, hread]
  apply Option.filter_some_pos
  simpa [Function.comp_def] using hacc.targets

end

theorem live_of_delivered (h : Delivered entries files ((live host workDir entries).map w.flag) fs) :
    live host workDir entries = entries ∧ ∀ c ∈ entries, ∃ m, readVolume (w.flag c) = some m := by
  obtain ⟨mounts, hmounted, hall⟩ := h
  have hread : ((live host workDir entries).map w.flag).mapM readVolume = some mounts :=
    (Option.filter_eq_some_iff.mp hmounted).1
  have hlength : (live host workDir entries).length = entries.length := by
    have h₁ := (mapM_eq_some_iff.mp hread).length_eq
    rw [length_map] at h₁
    exact h₁.trans hall.length_eq.symm
  have hlive : live host workDir entries = entries :=
    filter_eq_self.mpr (length_filter_eq_length_iff.mp hlength)
  refine ⟨hlive, fun c hc => ?_⟩
  rw [hlive] at hread
  exact exists_of_mapM hread _ (mem_map_of_mem hc)

end Delivery

theorem delivered_iff (w : Run) {parseDuration : Text → Bool} {d : Definition} {host : Host}
    {checksum : Bytes → Text} {workDir : Text} {files : List ResolvedFile} (hd : d.validate parseDuration = [])
    (hr : resolve host checksum workDir (d.configs.map source) = .ok files) :
    (∃ specs volumes fs, resolveJobConfigFiles host checksum workDir d.configs = .ok specs ∧
      prepareJobConfigFiles w specs = .ok (volumes, fs) ∧ Delivered d.configs files volumes fs) ↔
    ∀ c ∈ d.configs, Fits w host workDir c := by
  have hacc := accepted_of_validate hd
  have hspecs := resolveJobConfigFiles_eq hacc hr
  constructor
  · rintro ⟨specs, volumes, fs, hspecs', hprepare, hdelivered⟩
    obtain rfl := Except.ok.inj (hspecs.symm.trans hspecs')
    obtain ⟨hdots, rfl, hput⟩ := (prepareJobConfigFiles_ok_iff hacc).mp hprepare
    obtain ⟨hlive, hread⟩ := live_of_delivered hdelivered
    have hroom := ((putAll_eq_some_iff (items_apart hacc)).mp hput).1
    intro c hc
    obtain ⟨m, hm⟩ := hread c hc
    have hname := isName_of_validateConfigName (hacc.name c hc)
    obtain ⟨hpath, htarget⟩ := plain_of_readVolume hm
    obtain ⟨hstack, hplain⟩ := (plain_path hname).mp hpath
    refine ⟨hstack, hplain, htarget, ?_, hdots c hc, ?_⟩
    · rw [← hlive] at hc
      exact (mem_live.mp hc).2
    · intro leaf hleaf
      exact hroom _ (mem_flatMap.mpr ⟨c, hc, mem_map_of_mem hleaf⟩)
  · intro hfits
    have hlive : live host workDir d.configs = d.configs := by
      refine filter_eq_self.mpr (fun c hc => ?_)
      simpa using (hfits c hc).nonempty
    obtain ⟨fs, hput⟩ := staged_of_fits hacc hfits
    refine ⟨_, d.configs.map w.flag, fs, hspecs, (prepareJobConfigFiles_ok_iff hacc).mpr
      ⟨fun c hc => (hfits c hc).dots, by rw [hlive], hput⟩, _, mounted_flags hacc hfits, ?_⟩
    rw [forall₂_map_right_iff, forall₂_same]
    intro c hc
    have hname := isName_of_validateConfigName (hacc.name c hc)
    refine ⟨rooted_path hname, rfl, rfl, ?_⟩
    rw [elements_path hname]
    exact holds_of_staged hacc hr hc hput

/-- A checkout at `/w` with a file in `conf`, and in `data` one whose name starts with two
dots. -/
def checkout : Host where
  root := .dir (.cons "w".toList (.dir (.cons "conf".toList (.dir (.cons "a".toList (.file (text "x")) .nil))
    (.cons "data".toList (.dir (.cons "..v1".toList (.file (text "y")) .nil)) .nil))) .nil)
  wf := by decide
  readable _ := true
  cwd := "/w".toList
  rooted_cwd := by decide

def firstRun : Run where
  stackDir := "/srv".toList
  rooted_stackDir := by decide
  clean_stackDir := by decide
  jobRunID := "r1".toList
  jobRunID_ne_nil := by decide
  jobRunID_alphanum := all_eq_true.mp (by decide)
  disk p := if p = [] then some .dir else none
  takes _ := true
  new p hp := by
    refine if_neg ?_
    rintro rfl
    exact absurd (prefix_nil.mp hp) (by decide)

def jobWith (c : ConfigEntry) : Definition where
  name := "job".toList
  description := "a job".toList
  cron := "@daily".toList
  image := "busybox".toList
  resources := ⟨"1".toList, "64m".toList, "5m".toList⟩
  configs := [c]

def colonConfig : ConfigEntry := { name := "a:b".toList, path := "conf/a".toList, target := "/etc/a".toList }

def dotsConfig : ConfigEntry := { name := "d".toList, path := "data".toList, target := "/etc/d".toList }

/-- The config is accepted and resolves, and yet nothing is mounted. -/
def Unmounted (c : ConfigEntry) : Prop :=
  (jobWith c).validate (fun _ => true) = [] ∧
  (∃ files, resolve checkout (fun _ => []) "/w".toList [source c] = .ok files) ∧
  ¬ ∃ specs volumes fs mounts, resolveJobConfigFiles checkout (fun _ => []) "/w".toList [c] = .ok specs ∧
    prepareJobConfigFiles firstRun specs = .ok (volumes, fs) ∧ mounted volumes = some mounts

/-- The colon makes a flag that cannot be read. A way that the server takes, because it
does not lead up, the worker takes for one that does. -/
theorem accepted_not_mounted : Unmounted colonConfig ∧ Unmounted dotsConfig := by
  refine ⟨⟨by decide, ⟨_, rfl⟩, ?_⟩, ⟨by decide, ⟨_, rfl⟩, ?_⟩⟩
  · rintro ⟨specs, volumes, fs, mounts, hspecs, hprepare, hmounted⟩
    have hflags : (prepareJobConfigFiles firstRun
        [⟨"a:b".toList, [], "/etc/a".toList, [], encode (text "x")⟩]).map Prod.fst =
        .ok ["/srv/jobs/r1/configs/a:b:/etc/a:ro".toList] := by decide
    cases hspecs
    have hvolumes := (congrArg (Except.map Prod.fst) hprepare).symm.trans hflags
    cases hvolumes
    have hnone : mounted ["/srv/jobs/r1/configs/a:b:/etc/a:ro".toList] = none := by decide
    cases hmounted
  · rintro ⟨specs, volumes, fs, mounts, hspecs, hprepare, hmounted⟩
    cases hspecs
    cases hprepare

def plainConfig : ConfigEntry := { name := "c".toList, path := "conf".toList, target := "/etc/c".toList }

theorem firstRun_room {p : List Text} (hp : p ≠ []) : Room firstRun.takes firstRun.disk p where
  ne_nil := hp
  above q _ _ := by
    by_cases hq : q = []
    · exact canBeDir_of_dir (if_pos hq)
    · have hnone : firstRun.disk q = none := if_neg hq
      rw [canBeDir, hnone]
      rfl
  self := by
    have hnone : firstRun.disk p = none := if_neg hp
    rw [canBeFile, hnone]
    rfl

theorem plain_delivered : ∃ specs volumes fs,
    resolveJobConfigFiles checkout (fun _ => []) "/w".toList [plainConfig] = .ok specs ∧
    prepareJobConfigFiles firstRun specs = .ok (volumes, fs) ∧
    Delivered [plainConfig] [{ name := "c".toList, sourcePath := "conf/a".toList, relPath := "a".toList
                               content := text "x", checksum := []
                               path := ["w".toList, "conf".toList, "a".toList] }] volumes fs := by
  have hd : (jobWith plainConfig).validate (fun _ => true) = [] := by decide
  refine (delivered_iff firstRun hd (by decide)).mpr (forall_mem_singleton.mpr ?_)
  refine ⟨⟨by decide, by decide⟩, ⟨by decide, by decide⟩, ⟨by decide, by decide⟩, by decide, by decide, ?_⟩
  intro leaf _
  exact firstRun_room (by simp [Run.place])

end Wireops.Jobs.ConfigMounts
