import Mathlib.Data.List.Forall2

/-!
# Grouping by a key

The values of a list under their keys, with the keys in the order in which they come up
first.
-/

namespace Wireops.Lib.Groups

open List

variable {K A : Type} [DecidableEq K] (key : A → K)

def note (seen : List K) (a : A) : List K := if key a ∈ seen then seen else seen ++ [key a]

def order (as : List A) : List K := as.foldl (note key) []

def groups (as : List A) : List (K × List A) :=
  (order key as).map (fun k => (k, as.filter (fun a => key a = k)))

variable {key}

variable {as : List A}

theorem foldl_note_group {k : K} {seen : List K} (hne : as ≠ [])
    (has : ∀ a ∈ as, key a = k) (hk : k ∉ seen) : as.foldl (note key) seen = seen ++ [k] := by
  have hrest : ∀ as : List A, (∀ a ∈ as, key a = k) → as.foldl (note key) (seen ++ [k]) = seen ++ [k] := by
    intro as has
    induction as with
    | nil => rfl
    | cons a as ih =>
      rw [forall_mem_cons] at has
      rw [foldl_cons, note, if_pos (by simp [has.1]), ih has.2]
  obtain ⟨a, as, rfl⟩ := exists_cons_of_ne_nil hne
  rw [forall_mem_cons] at has
  rw [foldl_cons, note, has.1, if_neg hk, hrest as has.2]

section Blocks

variable {I : Type} {name : I → K} {block : I → List A} {is : List I}

theorem foldl_note_blocks {seen : List K} (hne : ∀ i ∈ is, block i ≠ [])
    (hkey : ∀ i ∈ is, ∀ a ∈ block i, key a = name i) (hnodup : (seen ++ is.map name).Nodup) :
    (is.flatMap block).foldl (note key) seen = seen ++ is.map name := by
  induction is generalizing seen with
  | nil => simp
  | cons i is ih =>
    rw [forall_mem_cons] at hne hkey
    have hk : name i ∉ seen := by
      intro hmem
      exact (nodup_append.mp hnodup).2.2 _ hmem _ mem_cons_self rfl
    have hnodup' : (seen ++ [name i] ++ is.map name).Nodup := by
      rwa [append_assoc]
    rw [flatMap_cons, foldl_append, foldl_note_group hne.1 hkey.1 hk, ih hne.2 hkey.2 hnodup', append_assoc]
    rfl

theorem filter_blocks {i : I} (hi : i ∈ is) (hkey : ∀ i ∈ is, ∀ a ∈ block i, key a = name i)
    (hnodup : (is.map name).Nodup) : (is.flatMap block).filter (fun a => key a = name i) = block i := by
  induction is with
  | nil => cases hi
  | cons j is ih =>
    rw [forall_mem_cons] at hkey
    obtain ⟨hj, hnodup⟩ := nodup_cons.mp hnodup
    rw [flatMap_cons, filter_append]
    rcases mem_cons.mp hi with rfl | hi
    · have hself : (block i).filter (fun a => key a = name i) = block i :=
        filter_eq_self.mpr (fun a ha => decide_eq_true (hkey.1 a ha))
      have hrest : (is.flatMap block).filter (fun a => key a = name i) = [] := by
        apply filter_eq_nil_iff.mpr
        intro a ha
        obtain ⟨j, hmem, ha⟩ := mem_flatMap.mp ha
        rw [hkey.2 j hmem a ha, decide_eq_true_eq]
        intro heq
        exact hj (heq ▸ mem_map_of_mem hmem)
      rw [hself, hrest, append_nil]
    · have hfirst : (block j).filter (fun a => key a = name i) = [] := by
        apply filter_eq_nil_iff.mpr
        intro a ha
        rw [hkey.1 a ha, decide_eq_true_eq]
        intro heq
        exact hj (heq ▸ mem_map_of_mem hi)
      rw [hfirst, nil_append, ih hi hkey.2 hnodup]

theorem groups_flatMap (hne : ∀ i ∈ is, block i ≠ []) (hkey : ∀ i ∈ is, ∀ a ∈ block i, key a = name i)
    (hnodup : (is.map name).Nodup) : groups key (is.flatMap block) = is.map (fun i => (name i, block i)) := by
  have horder : order key (is.flatMap block) = is.map name := foldl_note_blocks hne hkey hnodup
  rw [groups, horder, map_map]
  apply map_congr_left
  intro i hi
  exact Prod.ext rfl (filter_blocks hi hkey hnodup)

end Blocks

theorem mapM_eq_some_iff {B : Type} {f : A → Option B} {bs : List B} :
    as.mapM f = some bs ↔ List.Forall₂ (fun a b => f a = some b) as bs := by
  induction as generalizing bs with
  | nil => simp [eq_comm]
  | cons a as ih =>
    rw [mapM_cons, forall₂_cons_left_iff]
    constructor
    · intro h
      obtain ⟨b, hb, h⟩ := Option.bind_eq_some_iff.mp h
      obtain ⟨bs', hbs, h⟩ := Option.bind_eq_some_iff.mp h
      exact ⟨b, bs', hb, ih.mp hbs, (Option.some.inj h).symm⟩
    · rintro ⟨b, bs', hb, hbs, rfl⟩
      rw [hb, ih.mpr hbs]
      rfl

theorem exists_of_mapM {B : Type} {f : A → Option B} {bs : List B} (h : as.mapM f = some bs) :
    ∀ a ∈ as, ∃ b, f a = some b := by
  have hall := mapM_eq_some_iff.mp h
  clear h
  induction hall with
  | nil => simp
  | cons hab _ ih => exact forall_mem_cons.mpr ⟨⟨_, hab⟩, ih⟩

end Wireops.Lib.Groups
