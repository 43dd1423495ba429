import Mathlib.Data.List.Infix

/-!
# Writing files

A file system is given by what lies at each path. Files are written to it one after the
other, each after the directories above it have been made.
-/

namespace Wireops.Lib.Writes

open Option List

inductive Item (D : Type) where
  | dir
  | file (data : D)

abbrev FileSystem (N D : Type) := List N → Option (Item D)

variable {N D : Type} [DecidableEq N]

def dirs (p : List N) (fs : FileSystem N D) : FileSystem N D := fun q => if q <+: p then some .dir else fs q

def placed (p : List N) (x : D) (fs : FileSystem N D) : FileSystem N D :=
  fun q => if q = p then some (.file x) else dirs p fs q

/-! What can be created at all is up to the file system. -/

variable (takes : List N → Bool) (fs : FileSystem N D)

def canBeDir (p : List N) : Bool :=
  match fs p with
  | some .dir => true
  | some (.file _) => false
  | none => takes p

def canBeFile (p : List N) : Bool :=
  match fs p with
  | some .dir => false
  | some (.file _) => true
  | none => takes p

def mkdirAll (p : List N) (fs : FileSystem N D) : Option (FileSystem N D) :=
  if p.inits.all (canBeDir takes fs) then some (dirs p fs) else none

def isDir (p : List N) : Bool :=
  match fs p with
  | some .dir => true
  | _ => false

def writeFile (p : List N) (x : D) (fs : FileSystem N D) : Option (FileSystem N D) :=
  if p ≠ [] && isDir fs p.dropLast && canBeFile takes fs p then
    some (Function.update fs p (some (.file x)))
  else none

def put (p : List N) (x : D) (fs : FileSystem N D) : Option (FileSystem N D) :=
  (mkdirAll takes p.dropLast fs).bind (writeFile takes p x)

def putAll (files : List (List N × D)) (fs : FileSystem N D) : Option (FileSystem N D) :=
  files.foldlM (fun fs f => put takes f.1 f.2 fs) fs

/-- There is room for a file and the directories above it. -/
structure Room (fs : FileSystem N D) (p : List N) : Prop where
  ne_nil : p ≠ []
  above : ∀ q, q <+: p → q ≠ p → canBeDir takes fs q = true
  self : canBeFile takes fs p = true

section Congruence

variable {N D : Type} {takes : List N → Bool} {fs fs' : FileSystem N D} {p : List N}

theorem canBeDir_congr (h : fs p = fs' p) : canBeDir takes fs p = canBeDir takes fs' p := by
  rw [canBeDir, canBeDir, h]

theorem canBeFile_congr (h : fs p = fs' p) : canBeFile takes fs p = canBeFile takes fs' p := by
  rw [canBeFile, canBeFile, h]

theorem canBeDir_of_dir (h : fs p = some .dir) : canBeDir takes fs p = true := by
  rw [canBeDir, h]

theorem prefix_dropLast_iff {q : List N} (hne : p ≠ []) : q <+: p.dropLast ↔ q <+: p ∧ q ≠ p := by
  obtain ⟨init, c, rfl⟩ := (eq_nil_or_concat p).resolve_left hne
  rw [concat_eq_append, dropLast_concat, prefix_concat_iff]
  constructor
  · intro h
    refine ⟨.inr h, ?_⟩
    rintro rfl
    have hlength := h.length_le
    rw [length_append, length_singleton] at hlength
    omega
  · rintro ⟨h | h, hneq⟩
    · exact absurd h hneq
    · exact h

end Congruence

section One

variable {takes : List N → Bool} {fs fs' : FileSystem N D} {p q : List N} {x : D}

theorem dirs_above (h : q <+: p) : dirs p fs q = some .dir := if_pos h

theorem dirs_of_not (h : ¬ q <+: p) : dirs p fs q = fs q := if_neg h

theorem placed_of_ne (h : q ≠ p) : placed p x fs q = dirs p fs q := if_neg h

theorem mkdirAll_eq_some_iff : mkdirAll takes p fs = some fs' ↔
    (∀ q, q <+: p → canBeDir takes fs q = true) ∧ fs' = dirs p fs := by
  rw [mkdirAll, ite_none_right_eq_some, some_inj, List.all_eq_true, eq_comm]
  simp only [mem_inits]

theorem update_dirs (hne : p ≠ []) : Function.update (dirs p.dropLast fs) p (some (.file x)) = placed p x fs := by
  funext q
  rw [Function.update_apply, placed]
  by_cases hqp : q = p
  · rw [if_pos hqp, if_pos hqp]
  · rw [if_neg hqp, if_neg hqp, dirs, dirs]
    simp only [prefix_dropLast_iff hne, ne_eq, hqp, not_false_eq_true, and_true]

theorem put_eq_some_iff : put takes p x fs = some fs' ↔ Room takes fs p ∧ fs' = placed p x fs := by
  by_cases hne : p = []
  · subst hne
    refine iff_of_false (fun h => ?_) (fun h => h.1.ne_nil rfl)
    obtain ⟨fs₁, -, h⟩ := bind_eq_some_iff.mp h
    cases h
  have hdir : isDir (dirs p.dropLast fs) p.dropLast = true := by
    rw [isDir, dirs_above (prefix_refl _)]
  have hself : canBeFile takes (dirs p.dropLast fs) p = canBeFile takes fs p :=
    canBeFile_congr (dirs_of_not (fun h => ((prefix_dropLast_iff hne).mp h).2 rfl))
  have hwrite : writeFile takes p x (dirs p.dropLast fs) = some fs' ↔
      canBeFile takes fs p = true ∧ fs' = placed p x fs := by
    rw [writeFile, hdir, hself, update_dirs hne, ite_none_right_eq_some, some_inj, eq_comm (a := fs')]
    simp only [ne_eq, hne, not_false_eq_true, decide_true, Bool.true_and]
  rw [put, bind_eq_some_iff]
  constructor
  · rintro ⟨fs₁, hmk, h⟩
    obtain ⟨habove, rfl⟩ := mkdirAll_eq_some_iff.mp hmk
    obtain ⟨hfile, hfs⟩ := hwrite.mp h
    exact ⟨⟨hne, fun q hq hqp => habove q ((prefix_dropLast_iff hne).mpr ⟨hq, hqp⟩), hfile⟩, hfs⟩
  · rintro ⟨hroom, hfs⟩
    refine ⟨_, mkdirAll_eq_some_iff.mpr ⟨?_, rfl⟩, hwrite.mpr ⟨hroom.self, hfs⟩⟩
    intro q hq
    obtain ⟨hq, hqp⟩ := (prefix_dropLast_iff hne).mp hq
    exact hroom.above q hq hqp

theorem mkdirAll_bind_put (hq : q <+: p) (hqp : q ≠ p) :
    (mkdirAll takes q fs).bind (put takes p x) = put takes p x fs := by
  have hplaced : placed p x (dirs q fs) = placed p x fs := by
    funext r
    by_cases hrp : r = p
    · rw [placed, placed, if_pos hrp, if_pos hrp]
    rw [placed_of_ne hrp, placed_of_ne hrp]
    by_cases hr : r <+: p
    · rw [dirs_above hr, dirs_above hr]
    · rw [dirs_of_not hr, dirs_of_not hr, dirs_of_not (fun h => hr (h.trans hq))]
  have hself : canBeFile takes (dirs q fs) p = canBeFile takes fs p :=
    canBeFile_congr (dirs_of_not (fun h => hqp (hq.eq_of_length_le h.length_le)))
  apply Option.ext
  intro fs'
  rw [bind_eq_some_iff, put_eq_some_iff]
  constructor
  · rintro ⟨fs₁, hmk, h⟩
    obtain ⟨habove, rfl⟩ := mkdirAll_eq_some_iff.mp hmk
    obtain ⟨hroom, hfs⟩ := put_eq_some_iff.mp h
    refine ⟨⟨hroom.ne_nil, ?_, hself.symm.trans hroom.self⟩, hfs.trans hplaced⟩
    intro r hr hrp
    by_cases hrq : r <+: q
    · exact habove r hrq
    · rw [← canBeDir_congr (dirs_of_not hrq)]
      exact hroom.above r hr hrp
  · rintro ⟨hroom, hfs⟩
    refine ⟨_, mkdirAll_eq_some_iff.mpr ⟨?_, rfl⟩,
      put_eq_some_iff.mpr ⟨⟨hroom.ne_nil, ?_, hself.trans hroom.self⟩, hfs.trans hplaced.symm⟩⟩
    · intro r hr
      refine hroom.above r (hr.trans hq) ?_
      rintro rfl
      exact hqp (hq.eq_of_length_le hr.length_le)
    · intro r hr hrp
      by_cases hrq : r <+: q
      · exact canBeDir_of_dir (dirs_above hrq)
      · rw [canBeDir_congr (dirs_of_not hrq)]
        exact hroom.above r hr hrp

def Apart (p q : List N) : Prop := ¬ p <+: q ∧ ¬ q <+: p

theorem room_placed_iff (hroom : Room takes fs p) (h : Apart p q) :
    Room takes (placed p x fs) q ↔ Room takes fs q := by
  have hself : placed p x fs q = fs q := by
    rw [placed_of_ne, dirs_of_not h.2]
    rintro rfl
    exact h.2 (prefix_refl q)
  have habove : ∀ r, r <+: q → (canBeDir takes (placed p x fs) r = true ↔ canBeDir takes fs r = true) := by
    intro r hr
    have hrp : r ≠ p := by
      rintro rfl
      exact h.1 hr
    by_cases hr' : r <+: p
    · refine iff_of_true (canBeDir_of_dir ?_) (hroom.above r hr' hrp)
      rw [placed_of_ne hrp, dirs_above hr']
    · rw [canBeDir_congr ((placed_of_ne hrp).trans (dirs_of_not hr'))]
  constructor
  · intro hq
    exact ⟨hq.ne_nil, fun r hr hne => (habove r hr).mp (hq.above r hr hne),
      (canBeFile_congr hself).symm.trans hq.self⟩
  · intro hq
    exact ⟨hq.ne_nil, fun r hr hne => (habove r hr).mpr (hq.above r hr hne), (canBeFile_congr hself).trans hq.self⟩

end One

section All

variable {takes : List N → Bool} {fs fs' : FileSystem N D} {p q : List N} {x : D}
  {files : List (List N × D)}

def placedAll (files : List (List N × D)) (fs : FileSystem N D) : FileSystem N D :=
  files.foldl (fun fs f => placed f.1 f.2 fs) fs

theorem putAll_cons (f : List N × D) (files : List (List N × D)) :
    putAll takes (f :: files) fs = (put takes f.1 f.2 fs).bind (putAll takes files) :=
  foldlM_cons ..

theorem putAll_singleton (f : List N × D) : putAll takes [f] fs = put takes f.1 f.2 fs := by
  rw [putAll_cons]
  cases put takes f.1 f.2 fs <;> rfl

theorem putAll_append (files more : List (List N × D)) :
    putAll takes (files ++ more) fs = (putAll takes files fs).bind (putAll takes more) :=
  foldlM_append ..

theorem putAll_eq_some_iff (h : files.Pairwise (fun f g => Apart f.1 g.1)) :
    putAll takes files fs = some fs' ↔ (∀ f ∈ files, Room takes fs f.1) ∧ fs' = placedAll files fs := by
  induction files generalizing fs with
  | nil => simp [putAll, placedAll, eq_comm]
  | cons f files ih =>
    obtain ⟨hf, hfiles⟩ := pairwise_cons.mp h
    have hall : placedAll (f :: files) fs = placedAll files (placed f.1 f.2 fs) := rfl
    rw [putAll_cons, hall, bind_eq_some_iff, forall_mem_cons]
    constructor
    · rintro ⟨fs₁, hput, h⟩
      obtain ⟨hroom, rfl⟩ := put_eq_some_iff.mp hput
      obtain ⟨hrooms, hfs⟩ := (ih hfiles).mp h
      exact ⟨⟨hroom, fun g hg => (room_placed_iff hroom (hf g hg)).mp (hrooms g hg)⟩, hfs⟩
    · rintro ⟨⟨hroom, hrooms⟩, hfs⟩
      refine ⟨_, put_eq_some_iff.mpr ⟨hroom, rfl⟩, (ih hfiles).mpr ⟨?_, hfs⟩⟩
      intro g hg
      exact (room_placed_iff hroom (hf g hg)).mpr (hrooms g hg)

theorem mkdirAll_bind_putAll (hne : files ≠ []) (h : ∀ f ∈ files, q <+: f.1 ∧ q ≠ f.1) :
    (mkdirAll takes q fs).bind (putAll takes files) = putAll takes files fs := by
  obtain ⟨f, files, rfl⟩ := exists_cons_of_ne_nil hne
  obtain ⟨hq, hqf⟩ := h f mem_cons_self
  have hstep : putAll takes (f :: files) = fun fs => (put takes f.1 f.2 fs).bind (putAll takes files) :=
    funext fun fs => putAll_cons f files
  rw [hstep, ← bind_assoc, mkdirAll_bind_put hq hqf]

def Made (fs : FileSystem N D) (p : List N) : Prop := ∀ q, q <+: p → fs q = some .dir

theorem made_dirs : Made (dirs p fs) p := fun _ hq => dirs_above hq

theorem put_of_made (hmade : Made fs p.dropLast) : put takes p x fs = writeFile takes p x fs := by
  have hmk : mkdirAll takes p.dropLast fs = some fs := by
    refine mkdirAll_eq_some_iff.mpr ⟨fun q hq => canBeDir_of_dir (hmade q hq), ?_⟩
    funext q
    by_cases hq : q <+: p.dropLast
    · rw [dirs_above hq, hmade q hq]
    · rw [dirs_of_not hq]
  rw [put, hmk, bind_some]

theorem made_placed (hq : q <+: p) (hqp : q ≠ p) : Made (placed p x fs) q := by
  intro r hr
  have hrp : r ≠ p := by
    rintro rfl
    exact hqp (hq.eq_of_length_le hr.length_le)
  rw [placed_of_ne hrp, dirs_above (hr.trans hq)]

theorem made_putAll (hmade : Made fs q) (hbelow : ∀ f ∈ files, q <+: f.1 ∧ q ≠ f.1)
    (h : putAll takes files fs = some fs') : Made fs' q := by
  induction files generalizing fs with
  | nil =>
    cases h
    exact hmade
  | cons f files ih =>
    rw [forall_mem_cons] at hbelow
    rw [putAll_cons] at h
    obtain ⟨fs₁, hput, h⟩ := bind_eq_some_iff.mp h
    obtain ⟨-, rfl⟩ := put_eq_some_iff.mp hput
    exact ih (made_placed hbelow.1.1 hbelow.1.2) hbelow.2 h

theorem placedAll_file_iff (h : files.Pairwise (fun f g => Apart f.1 g.1)) : placedAll files fs q = some (.file x) ↔
      (q, x) ∈ files ∨ fs q = some (.file x) ∧ ∀ f ∈ files, ¬ q <+: f.1 := by
  induction files generalizing fs with
  | nil => simp [placedAll]
  | cons f files ih =>
    obtain ⟨hf, hfiles⟩ := pairwise_cons.mp h
    have hall : placedAll (f :: files) fs = placedAll files (placed f.1 f.2 fs) := rfl
    rw [hall, ih hfiles, mem_cons, forall_mem_cons]
    by_cases hq : q = f.1
    · -- No file of the rest lies at or below the first.
      obtain ⟨p, y⟩ := f
      subst hq
      have hrest : (q, x) ∉ files := fun hmem => (hf _ hmem).1 (prefix_refl q)
      have hbelow : ∀ g ∈ files, ¬ q <+: g.1 := fun g hg => (hf g hg).1
      have hself : placed q y fs q = some (.file y) := if_pos rfl
      rw [hself, or_iff_right hrest, and_iff_left hbelow, or_iff_left hrest]
      simp [eq_comm]
    · have hne : (q, x) ≠ f := fun heq => hq (congrArg Prod.fst heq)
      rw [placed_of_ne hq]
      by_cases hpre : q <+: f.1
      · simp [dirs_above hpre, hpre, hne]
      · simp [dirs_of_not hpre, hpre, hne]

end All

end Wireops.Lib.Writes
