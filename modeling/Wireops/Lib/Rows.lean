import Mathlib.Data.List.Nodup

/-!
# Rows of a table

A table's rows have identifiers that are never used twice. A program that loads the
rows, indexes them by a column and writes through the index sees the table as it was:
what it has written is read off those rows and the ones it added.
-/

namespace Wireops.Lib.Rows

open Function List

variable {α κ : Type}

structure Row (α : Type) where
  id : Nat
  val : α
  deriving DecidableEq

structure Table (α : Type) where
  rows : List (Row α)
  nodup : (rows.map Row.id).Nodup

theorem Table.eq_of_id (t : Table α) {r r' : Row α} (hr : r ∈ t.rows) (hr' : r' ∈ t.rows)
    (h : r.id = r'.id) : r = r' :=
  inj_on_of_nodup_map t.nodup hr hr' h

theorem Table.find_id (t : Table α) {r : Row α} (hr : r ∈ t.rows) : t.rows.find? (fun s => s.id = r.id) = some r := by
  cases h : t.rows.find? (fun s => s.id = r.id) with
  | none => exact absurd (List.find?_eq_none.mp h r hr) (by simp)
  | some s =>
    have hid : s.id = r.id := by simpa using List.find?_some h
    rw [t.eq_of_id (mem_of_find?_eq_some h) hr hid]

variable (rows : List (Row α))

def nextId : Nat := rows.foldr (fun r n => max (r.id + 1) n) 0

theorem lt_nextId {rows : List (Row α)} {r : Row α} (h : r ∈ rows) : r.id < nextId rows := by
  induction rows with
  | nil => cases h
  | cons s rows ih =>
    rcases mem_cons.mp h with rfl | h
    · exact Nat.lt_of_lt_of_le (Nat.lt_succ_self _) (Nat.le_max_left _ _)
    · exact Nat.lt_of_lt_of_le (ih h) (Nat.le_max_right _ _)

def insert (v : α) : List (Row α) := rows ++ [⟨nextId rows, v⟩]

def update (id : Nat) (v : α) : List (Row α) :=
  rows.map (fun r => if r.id = id then ⟨id, v⟩ else r)

def delete (id : Nat) : List (Row α) := rows.filter (fun r => r.id ≠ id)

theorem foldl_delete (ids : List Nat) (rows : List (Row α)) :
    ids.foldl delete rows = rows.filter (fun r => r.id ∉ ids) := by
  induction ids generalizing rows with
  | nil => simp
  | cons id ids ih =>
    rw [foldl_cons, ih, delete, filter_filter]
    congr 1
    funext r
    simp [not_or, Bool.and_comm]

section Index

variable [DecidableEq κ] {key : α → κ} {rows : List (Row α)} {k : κ} {r : Row α}

def column (key : α → κ) (rows : List (Row α)) : List κ := rows.map (fun r => key r.val)

/-- The map from the keys to the rows once every row was put into it: of rows
with one key, the last. -/
def last (key : α → κ) (rows : List (Row α)) (k : κ) : Option (Row α) :=
  rows.reverse.find? (fun r => key r.val = k)

theorem mem_of_last (h : last key rows k = some r) : r ∈ rows :=
  mem_reverse.mp (mem_of_find?_eq_some h)

theorem key_of_last (h : last key rows k = some r) : key r.val = k := by
  simpa using List.find?_some h

theorem last_eq_none : last key rows k = none ↔ k ∉ column key rows := by
  simp [last, column, List.find?_eq_none]

theorem exists_last (key : α → κ) (h : r ∈ rows) : ∃ r', last key rows (key r.val) = some r' := by
  cases hl : last key rows (key r.val) with
  | some r' => exact ⟨r', rfl⟩
  | none => exact absurd (mem_map_of_mem h) (last_eq_none.mp hl)

theorem nodup_keys_iff (t : Table α) : (column key t.rows).Nodup ↔
    ∀ r ∈ t.rows, last key t.rows (key r.val) = some r := by
  constructor
  · intro h r hr
    obtain ⟨r', hr'⟩ := exists_last key hr
    rw [hr', inj_on_of_nodup_map h (mem_of_last hr') hr (key_of_last hr')]
  · intro h
    refine (nodup_map_iff_inj_on (t.nodup.of_map _)).mpr ?_
    intro r hr r' hr' hkey
    have hl := h r hr
    rw [hkey, h r' hr'] at hl
    exact (Option.some.inj hl).symm

/-- Write a value under a key, as the index of the rows at the start has it. -/
def upsert (key : α → κ) (t : Table α) (rows : List (Row α)) (k : κ) (v : α) : List (Row α) :=
  match last key t.rows k with
  | some r => update rows r.id v
  | none => insert rows v

/-- The rows once values were written under the keys `ks`, each with its key
normalized: a row at the start went to `f`, and `new` were added. -/
structure Written (key : α → κ) (norm : κ → κ) (t : Table α) (ks : List κ) (rows : List (Row α))
    (f : Row α → Row α) (new : List (Row α)) : Prop where
  rows_eq : rows = t.rows.map f ++ new
  id_eq : ∀ r, (f r).id = r.id
  hit : ∀ r ∈ t.rows, last key t.rows (key r.val) = some r → key r.val ∈ ks → key (f r).val = norm (key r.val)
  miss : ∀ r ∈ t.rows, ¬ (last key t.rows (key r.val) = some r ∧ key r.val ∈ ks) → f r = r
  new_id : ∀ r ∈ new, r.id ∉ t.rows.map Row.id
  new_key : column key new = (ks.filter (fun k => k ∉ column key t.rows)).map norm

variable {norm : κ → κ} {t : Table α} {ks : List κ} {f : Row α → Row α} {new : List (Row α)} {v : α}

theorem written_start : Written key norm t [] t.rows id [] where
  rows_eq := by simp
  id_eq _ := rfl
  hit _ _ _ h := by cases h
  miss _ _ _ := rfl
  new_id _ h := by cases h
  new_key := rfl

theorem Written.update (h : Written key norm t ks rows f new) (hl : last key t.rows k = some r)
    (hv : key v = norm k) : Written key norm t (ks ++ [k]) (update rows r.id v)
      (fun s => if s.id = r.id then ⟨r.id, v⟩ else f s) new where
  rows_eq := by
    have hnew : new.map (fun s => if s.id = r.id then ⟨r.id, v⟩ else s) = new := by
      refine (map_congr_left ?_).trans (map_id new)
      intro s hs
      refine if_neg ?_
      intro hid
      exact h.new_id s hs (hid ▸ mem_map_of_mem (mem_of_last hl))
    rw [Rows.update, h.rows_eq, map_append, hnew, map_map]
    congr 1
    refine map_congr_left ?_
    intro s _
    rw [comp_apply, h.id_eq]
  id_eq s := by
    split
    · exact (‹s.id = r.id›).symm
    · exact h.id_eq s
  hit s hs hlast hk := by
    split
    · rename_i hid
      obtain rfl := t.eq_of_id hs (mem_of_last hl) hid
      rw [hv, key_of_last hl]
    · rename_i hid
      refine h.hit s hs hlast ((mem_append.mp hk).resolve_right ?_)
      intro hk
      rw [mem_singleton.mp hk, hl] at hlast
      exact hid (congrArg Row.id (Option.some.inj hlast)).symm
  miss s hs hmiss := by
    split
    · rename_i hid
      obtain rfl := t.eq_of_id hs (mem_of_last hl) hid
      have hkey := key_of_last hl
      exact absurd ⟨hkey.symm ▸ hl, mem_append_right ks (mem_singleton.mpr hkey)⟩ hmiss
    · refine h.miss s hs ?_
      rintro ⟨hlast, hk⟩
      exact hmiss ⟨hlast, mem_append_left [k] hk⟩
  new_id := h.new_id
  new_key := by
    have hk : k ∈ column key t.rows :=
      key_of_last hl ▸ mem_map_of_mem (mem_of_last hl)
    rw [h.new_key, filter_append, filter_cons_of_neg (by simpa using hk), filter_nil,
      append_nil]

theorem Written.insert (h : Written key norm t ks rows f new) (hl : last key t.rows k = none)
    (hv : key v = norm k) : Written key norm t (ks ++ [k]) (insert rows v) f (new ++ [⟨nextId rows, v⟩]) where
  rows_eq := by rw [Rows.insert, h.rows_eq, append_assoc]
  id_eq := h.id_eq
  hit s hs hlast hk := by
    refine h.hit s hs hlast ((mem_append.mp hk).resolve_right ?_)
    intro hk
    rw [mem_singleton.mp hk, hl] at hlast
    cases hlast
  miss s hs hmiss := by
    refine h.miss s hs ?_
    rintro ⟨hlast, hk⟩
    exact hmiss ⟨hlast, mem_append_left [k] hk⟩
  new_id s hs := by
    rcases mem_append.mp hs with hs | hs
    · exact h.new_id s hs
    · intro hmem
      obtain ⟨r, hr, hid⟩ := mem_map.mp hmem
      have hrow : f r ∈ rows := h.rows_eq ▸ mem_append_left new (mem_map_of_mem hr)
      have hlt := lt_nextId hrow
      rw [h.id_eq, hid, mem_singleton.mp hs] at hlt
      exact absurd hlt (Nat.lt_irrefl _)
  new_key := by
    have hk := last_eq_none.mp hl
    rw [column, map_append, ← column, h.new_key, filter_append,
      filter_cons_of_pos (by simpa using hk), filter_nil, map_append,
      map_singleton, map_singleton, hv]

theorem Written.upsert (h : ∃ f new, Written key norm t ks rows f new) (hv : key v = norm k) :
    ∃ f new, Written key norm t (ks ++ [k]) (upsert key t rows k v) f new := by
  obtain ⟨f, new, h⟩ := h
  unfold Rows.upsert
  split
  · rename_i hl
    exact ⟨_, _, h.update hl hv⟩
  · rename_i hl
    exact ⟨_, _, h.insert hl hv⟩

/-- Where the keys at the start are distinct, a row lies under its key as it was, or
normalized if something was written under it. -/
def landing (norm : κ → κ) (ks : List κ) (k : κ) : κ := if k ∈ ks then norm k else k

theorem Written.column_eq (h : Written key norm t ks rows f new)
    (hnodup : (column key t.rows).Nodup) : column key rows =
      (column key t.rows ++ ks.filter (fun k => k ∉ column key t.rows)).map (landing norm ks) := by
  have hold : (t.rows.map f).map (fun r => key r.val) = (column key t.rows).map (landing norm ks) := by
    rw [column, map_map, map_map]
    refine map_congr_left ?_
    intro r hr
    have hlast := (nodup_keys_iff t).mp hnodup r hr
    simp only [comp_apply, landing]
    split
    · exact h.hit r hr hlast ‹_›
    · rw [h.miss r hr (fun hhit => absurd hhit.2 ‹_›)]
  have hnew : column key new = (ks.filter (fun k => k ∉ column key t.rows)).map (landing norm ks) := by
    rw [h.new_key]
    refine map_congr_left ?_
    intro k hk
    exact (if_pos (mem_filter.mp hk).1).symm
  rw [column, h.rows_eq, map_append, hold, ← column, hnew, map_append]

/-- No key is added twice, and no two keys of the rows or of those written become one. -/
def Apart (key : α → κ) (norm : κ → κ) (t : Table α) (ks : List κ) : Prop :=
  (ks.filter (fun k => k ∉ column key t.rows)).Nodup ∧ ∀ k ∈ column key t.rows ++ ks, ∀ k' ∈ column key t.rows ++ ks,
      landing norm ks k = landing norm ks k' → k = k'

instance (key : α → κ) (norm : κ → κ) (t : Table α) (ks : List κ) : Decidable (Apart key norm t ks) :=
  inferInstanceAs (Decidable (_ ∧ _))

theorem Written.nodup_iff (h : Written key norm t ks rows f new) (hnodup : (column key t.rows).Nodup) :
    (column key rows).Nodup ↔ Apart key norm t ks := by
  have hmem : ∀ k, k ∈ column key t.rows ++ ks.filter (fun k => k ∉ column key t.rows) ↔
      k ∈ column key t.rows ++ ks := by
    intro k
    by_cases hk : k ∈ column key t.rows
    · simp [hk]
    · simp [hk]
  have happend : (column key t.rows ++ ks.filter (fun k => k ∉ column key t.rows)).Nodup ↔
      (ks.filter (fun k => k ∉ column key t.rows)).Nodup := by
    refine ⟨fun h => (nodup_append.mp h).2.1, fun h => nodup_append.mpr ⟨hnodup, h, ?_⟩⟩
    rintro k hk k' hk' rfl
    exact absurd hk (by simpa using (mem_filter.mp hk').2)
  rw [h.column_eq hnodup]
  constructor
  · intro hn
    refine ⟨happend.mp hn.of_map, ?_⟩
    intro k hk k' hk' heq
    exact inj_on_of_nodup_map hn ((hmem k).mpr hk) ((hmem k').mpr hk') heq
  · rintro ⟨hn, hinj⟩
    refine (nodup_map_iff_inj_on (happend.mpr hn)).mpr ?_
    intro k hk k' hk' heq
    exact hinj k ((hmem k).mp hk) k' ((hmem k').mp hk') heq

section Replace

variable [DecidableEq α]

def entries (key : α → κ) (rows : List (Row α)) : List (Row α) :=
  rows.filter (fun r => last key rows (key r.val) = some r)

def dropped (key : α → κ) (t : Table α) (ks : List κ) : List (Row α) :=
  (entries key t.rows).filter (fun r => key r.val ∉ ks)

theorem mem_dropped : r ∈ dropped key t ks ↔ r ∈ t.rows ∧ last key t.rows (key r.val) = some r ∧ key r.val ∉ ks := by
  rw [dropped, mem_filter, entries, mem_filter, decide_eq_true_eq, decide_eq_true_eq, and_assoc]

/-- The rows once those of the index that nothing was written under are deleted. -/
def keep (key : α → κ) (t : Table α) (ks : List κ) (rows : List (Row α)) : List (Row α) :=
  ((dropped key t ks).map Row.id).foldl delete rows

theorem keep_congr {ks' : List κ} (h : ∀ k, k ∈ ks ↔ k ∈ ks') (rows : List (Row α)) :
    keep key t ks rows = keep key t ks' rows := by
  simp only [keep, dropped, h]

section

variable (h : Written key norm t ks rows f new)

include h

theorem Written.keep_eq : keep key t ks rows =
    (t.rows.filter (fun r => r ∉ dropped key t ks)).map f ++ new := by
  have hnew : new.filter (fun r => r.id ∉ (dropped key t ks).map Row.id) = new := by
    refine filter_eq_self.mpr ?_
    intro r hr
    refine decide_eq_true ?_
    intro hmem
    obtain ⟨s, hs, hid⟩ := mem_map.mp hmem
    exact h.new_id r hr (hid ▸ mem_map_of_mem (mem_dropped.mp hs).1)
  rw [keep, foldl_delete, h.rows_eq, filter_append, hnew, filter_map]
  congr 2
  refine filter_congr ?_
  intro r hr
  rw [comp_apply, decide_eq_decide, h.id_eq, not_iff_not]
  constructor
  · intro hmem
    obtain ⟨s, hs, hid⟩ := mem_map.mp hmem
    rwa [← t.eq_of_id (mem_dropped.mp hs).1 hr hid]
  · exact mem_map_of_mem

theorem Written.column_keep (hnorm : ∀ k ∈ ks, norm k = k) :
    column key (keep key t ks rows) = column key (t.rows.filter (fun r => r ∉ dropped key t ks)) ++
      ks.filter (fun k => k ∉ column key t.rows) := by
  have hkey : ∀ r ∈ t.rows, key (f r).val = key r.val := by
    intro r hr
    by_cases hhit : last key t.rows (key r.val) = some r ∧ key r.val ∈ ks
    · rw [h.hit r hr hhit.1 hhit.2, hnorm _ hhit.2]
    · rw [h.miss r hr hhit]
  have hnew : column key new = ks.filter (fun k => k ∉ column key t.rows) := by
    rw [h.new_key]
    refine (map_congr_left ?_).trans (map_id _)
    intro k hk
    exact hnorm k (mem_filter.mp hk).1
  rw [h.keep_eq, column, map_append, ← column, ← column, hnew, column, map_map]
  congr 1
  refine map_congr_left ?_
  intro r hr
  exact hkey r (mem_filter.mp hr).1

/-- What is left is one row for each of the keys, exactly when no row was hidden from
the index at the start. -/
theorem Written.keep_exact_iff
    (hnorm : ∀ k ∈ ks, norm k = k) (hks : ks.Nodup) : ((column key (keep key t ks rows)).Nodup ∧
      ∀ k, k ∈ column key (keep key t ks rows) ↔ k ∈ ks) ↔ (column key t.rows).Nodup := by
  have hstay : ∀ r ∈ t.rows, r ∉ dropped key t ks → r ∈ t.rows.filter (fun r => r ∉ dropped key t ks) :=
    fun r hr hd => mem_filter.mpr ⟨hr, decide_eq_true hd⟩
  rw [h.column_keep hnorm]
  constructor
  · rintro ⟨hn, hmem⟩
    refine (nodup_keys_iff t).mpr ?_
    intro r hr
    by_contra hlast
    have hr' := hstay r hr (fun hd => hlast (mem_dropped.mp hd).2.1)
    have hk : key r.val ∈ ks :=
      (hmem _).mp (mem_append_left _ (mem_map_of_mem hr'))
    -- the row that hides `r` is kept as well
    obtain ⟨s, hs⟩ := exists_last key hr
    have hkey := key_of_last hs
    have hs' := hstay s (mem_of_last hs) (fun hd => (mem_dropped.mp hd).2.2 (hkey ▸ hk))
    have heq := inj_on_of_nodup_map (nodup_append.mp hn).1 hs' hr' hkey
    exact hlast (heq ▸ hs)
  · intro hn
    have hkept : ∀ k, k ∈ column key (t.rows.filter (fun r => r ∉ dropped key t ks)) ↔
        k ∈ column key t.rows ∧ k ∈ ks := by
      intro k
      constructor
      · intro hk
        obtain ⟨r, hr, rfl⟩ := mem_map.mp hk
        obtain ⟨hr, hd⟩ := mem_filter.mp hr
        refine ⟨mem_map_of_mem hr, ?_⟩
        by_contra hk
        exact of_decide_eq_true hd (mem_dropped.mpr ⟨hr, (nodup_keys_iff t).mp hn r hr, hk⟩)
      · rintro ⟨hcol, hk⟩
        obtain ⟨r, hr, rfl⟩ := mem_map.mp hcol
        exact mem_map_of_mem (hstay r hr (fun hd => (mem_dropped.mp hd).2.2 hk))
    refine ⟨nodup_append.mpr ⟨?_, hks.filter _, ?_⟩, ?_⟩
    · exact hn.sublist (filter_sublist.map _)
    · rintro k hk k' hk' rfl
      exact absurd ((hkept k).mp hk).1 (by simpa using (mem_filter.mp hk').2)
    · intro k
      rw [mem_append, hkept, mem_filter, decide_eq_true_eq]
      by_cases hk : k ∈ column key t.rows
      · simp [hk]
      · simp [hk]

end

end Replace

end Index

end Wireops.Lib.Rows
