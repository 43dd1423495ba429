import Wireops.Lib.Split

namespace Wireops.Lib.Replace

open List Lib.Split

variable {α α' β : Type}

section Replacing

variable [DecidableEq β]

/-- Put `new` for each occurrence of a non-empty word, from the left, found by
the keys of the elements. The number is how many elements of the present
occurrence are left to skip. -/
def replaceFrom (key : α → β) (old : List β) (new : List α) : Nat → List α → List α
  | _, [] => []
  | k + 1, _ :: s => replaceFrom key old new k s
  | 0, a :: s =>
    if old.isPrefixOf ((a :: s).map key) then new ++ replaceFrom key old new (old.length - 1) s
    else a :: replaceFrom key old new 0 s

def replaceAll (key : α → β) (old : List β) (new s : List α) : List α := replaceFrom key old new 0 s

theorem map_replaceFrom {key : α → β} {key' : α' → β} {f : α → α'} (hf : ∀ a, key' (f a) = key a)
    (old : List β) (new : List α) (k : Nat) (s : List α) :
    (replaceFrom key old new k s).map f = replaceFrom key' old (new.map f) k (s.map f) := by
  induction s generalizing k with
  | nil => cases k <;> rfl
  | cons a s ih =>
    cases k with
    | succ k => exact ih k
    | zero =>
      have hkeys : ((a :: s).map f).map key' = (a :: s).map key := by
        rw [map_map]
        exact map_congr_left (fun b _ => hf b)
      rw [map_cons] at hkeys ⊢
      rw [replaceFrom, replaceFrom, hkeys]
      split
      · rw [map_append, ih]
      · rw [map_cons, ih]

theorem map_replaceAll {key : α → β} {key' : α' → β} {f : α → α'} (hf : ∀ a, key' (f a) = key a)
    (old : List β) (new s : List α) : (replaceAll key old new s).map f = replaceAll key' old (new.map f) (s.map f) :=
  map_replaceFrom hf old new 0 s

end Replacing

section Marks

abbrev Marked (β : Type) := β × Bool

def original (s : List β) : List (Marked β) := s.map (·, true)

def inserted (s : List β) : List (Marked β) := s.map (·, false)

def runs (s : List (Marked β)) : List (List β) :=
  (s.splitOnP (fun a => !a.2)).map (List.map Prod.fst)

def Free (word : List β) (s : List (Marked β)) : Prop :=
  ∀ y, y <:+: s → (∀ a ∈ y, a.2 = true) → y.map Prod.fst ≠ word

variable {old new word : List β} {s y : List (Marked β)}

theorem map_fst_original (s : List β) : (original s).map Prod.fst = s := by
  rw [original, map_map]
  exact map_id s

theorem map_fst_inserted (s : List β) : (inserted s).map Prod.fst = s := by
  rw [inserted, map_map]
  exact map_id s

theorem marks_inserted (a : Marked β) (h : a ∈ inserted new) : a.2 = false := by
  obtain ⟨b, _, rfl⟩ := mem_map.mp h
  rfl

theorem infix_of_inserted_append (hy : ∀ a ∈ y, a.2 = true) (h : y <:+: inserted new ++ s) : y <:+: s := by
  induction hn : inserted new generalizing new with
  | nil =>
    rw [hn] at h
    exact h
  | cons b rest ih =>
    have hb : b.2 = false := marks_inserted b (hn ▸ mem_cons_self)
    cases new with
    | nil => cases hn
    | cons c new =>
      rw [inserted, map_cons, List.cons.injEq] at hn
      obtain ⟨rfl, hn⟩ := hn
      rw [inserted, map_cons, cons_append, infix_cons_iff] at h
      obtain h | h := h
      · cases y with
        | nil => exact nil_infix
        | cons a y =>
          obtain ⟨rfl, _⟩ := cons_prefix_cons.mp h
          cases hb.symm.trans (hy _ mem_cons_self)
      · exact ih h hn

section Words

variable [DecidableEq β]

theorem prefix_of_replaceFrom (hnew : new ≠ []) (hy : ∀ a ∈ y, a.2 = true)
    (h : y <+: replaceFrom Prod.fst old (inserted new) 0 s) : y <+: s := by
  induction y generalizing s with
  | nil => exact nil_prefix
  | cons a y ih =>
    rw [forall_mem_cons] at hy
    cases s with
    | nil => cases prefix_nil.mp h
    | cons b s =>
      rw [replaceFrom] at h
      split at h
      · obtain ⟨c, new, rfl⟩ := exists_cons_of_ne_nil hnew
        obtain ⟨rfl, _⟩ := cons_prefix_cons.mp h
        cases hy.1
      · obtain ⟨rfl, htail⟩ := cons_prefix_cons.mp h
        exact cons_prefix_cons.mpr ⟨rfl, ih hy.2 htail⟩

theorem infix_of_replaceFrom (hnew : new ≠ []) (hy : ∀ a ∈ y, a.2 = true) {k : Nat}
    (h : y <:+: replaceFrom Prod.fst old (inserted new) k s) : y <:+: s := by
  induction s generalizing k with
  | nil =>
    have hnil : replaceFrom Prod.fst old (inserted new) k [] = [] := by cases k <;> rfl
    rwa [hnil] at h
  | cons b s ih =>
    cases k with
    | succ k => exact (ih h).trans (suffix_cons b s).isInfix
    | zero =>
      rw [replaceFrom] at h
      split at h
      · exact (ih (infix_of_inserted_append hy h)).trans (suffix_cons b s).isInfix
      · next hno =>
        obtain h | h := infix_cons_iff.mp h
        · have hfront : y <+: replaceFrom Prod.fst old (inserted new) 0 (b :: s) := by
            rwa [replaceFrom, if_neg hno]
          exact (prefix_of_replaceFrom hnew hy hfront).isInfix
        · exact (ih h).trans (suffix_cons b s).isInfix

theorem Free.replaceAll (h : Free word s) (hnew : new ≠ []) :
    Free word (replaceAll Prod.fst old (inserted new) s) := by
  intro y hin hy
  exact h y (infix_of_replaceFrom hnew hy hin) hy

theorem free_replaceFrom (hnew : new ≠ []) (hold : old ≠ []) (k : Nat) (s : List (Marked β)) :
    Free old (replaceFrom Prod.fst old (inserted new) k s) := by
  induction s generalizing k with
  | nil =>
    intro y hin _ heq
    have hnil : replaceFrom Prod.fst old (inserted new) k [] = [] := by cases k <;> rfl
    obtain rfl := infix_nil.mp hin
    exact hold heq.symm
  | cons b s ih =>
    cases k with
    | succ k => exact ih k
    | zero =>
      intro y hin hy heq
      rw [replaceFrom] at hin
      split at hin
      · exact ih _ y (infix_of_inserted_append hy hin) hy heq
      · next hno =>
        obtain hpre | hin := infix_cons_iff.mp hin
        · -- the word would stand at the front, where it was not found
          have hfront : y <+: replaceFrom Prod.fst old (inserted new) 0 (b :: s) := by
            rwa [replaceFrom, if_neg hno]
          refine hno ( isPrefixOf_iff_prefix.mpr ?_)
          rw [← heq]
          exact (prefix_of_replaceFrom hnew hy hfront).map _
        · exact ih _ y hin hy heq

theorem free_replaceAll (hnew : new ≠ []) (hold : old ≠ []) (s : List (Marked β)) :
    Free old (replaceAll Prod.fst old (inserted new) s) :=
  free_replaceFrom hnew hold 0 s

end Words

theorem Free.not_infix_run (h : Free word s) {r : List β} (hr : r ∈ runs s) : ¬ word <:+: r := by
  intro hword
  obtain ⟨t, ht, rfl⟩ := mem_map.mp hr
  obtain ⟨hin, hmark⟩ := splitOnP_part ht
  obtain ⟨y, hy, rfl⟩ := infix_map_iff.mp hword
  refine h y (hy.trans hin) (fun a ha => ?_) rfl
  simpa using hmark a (hy.subset ha)

end Marks

end Wireops.Lib.Replace
