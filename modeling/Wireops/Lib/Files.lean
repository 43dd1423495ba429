import Mathlib.Logic.Function.Basic

namespace Wireops.Lib.Files

open Option Function List

/-- The data of a file, absent when it cannot be read back. -/
structure File (D : Type) where
  data : Option D
  synced : Bool

/-- A directory of files. `past` is what each name stood for since the directory
was last synced: a crash brings back any of it. -/
structure Disk (N D : Type) where
  files : Nat → File D := fun _ => ⟨none, true⟩
  entries : N → Option Nat := fun _ => none
  past : N → List (Option Nat) := fun _ => []
  next : Nat := 0

/-- What a crash leaves: for each name which of the files it stood for, and the
files whose data was lost unless it was synced. -/
structure Outcome (N : Type) where
  entry : N → Nat := fun _ => 0
  lost : Nat → Bool := fun _ => false

namespace Disk

section Data

variable {N D : Type}

variable (d : Disk N D)

def candidates (n : N) : List (Option Nat) := d.entries n :: d.past n

def read (n : N) : Option D := (d.entries n).bind (fun i => (d.files i).data)

def write (x : D) : Disk N D :=
  { d with files := update d.files d.next ⟨some x, false⟩, next := d.next + 1 }

def syncFile (i : Nat) : Disk N D :=
  { d with files := update d.files i { d.files i with synced := true } }

def syncDir : Disk N D := { d with past := fun _ => [] }

def crash (o : Outcome N) : Disk N D where
  files i := if (d.files i).synced || !o.lost i then { d.files i with synced := true } else ⟨none, true⟩
  entries n := (d.candidates n).getD (o.entry n) (d.entries n)
  past _ := []
  next := d.next

/-- All that a name may stand for after a crash is a file with such data. -/
def Holds (n : N) (P : D → Prop) : Prop :=
  ∀ o ∈ d.candidates n, ∃ i x, o = some i ∧ i < d.next ∧ (d.files i).data = some x ∧ P x

/-- No file a name may stand for after a crash has other data. -/
def Only (n : N) (P : D → Prop) : Prop :=
  ∀ o ∈ d.candidates n, ∀ i ∈ o, i < d.next ∧ ∀ x ∈ (d.files i).data, P x

/-- All that a name may stand for after a crash is synced. -/
def Settled (n : N) : Prop := ∀ o ∈ d.candidates n, ∀ i ∈ o, (d.files i).synced = true

instance (d : Disk N D) (n : N) : Decidable (d.Settled n) :=
  inferInstanceAs (Decidable (∀ o ∈ d.candidates n, ∀ i ∈ o, (d.files i).synced = true))

variable {d : Disk N D} {n : N} {P : D → Prop} {x : D} {i : Nat}

theorem Holds.read (h : d.Holds n P) : ∃ x, d.read n = some x ∧ P x := by
  obtain ⟨i, x, hi, _, hx, hP⟩ := h (d.entries n) mem_cons_self
  refine ⟨x, ?_, hP⟩
  rw [Disk.read, hi, bind_some, hx]

theorem files_write_of_lt (hi : i < d.next) : (d.write x).files i = d.files i :=
  update_of_ne (Nat.ne_of_lt hi) ..

theorem files_write_self : (d.write x).files d.next = ⟨some x, false⟩ := update_self ..

theorem Holds.write (h : d.Holds n P) : (d.write x).Holds n P := by
  intro o ho
  obtain ⟨i, y, hi, hlt, hy, hP⟩ := h o ho
  refine ⟨i, y, hi, Nat.lt_succ_of_lt hlt, ?_, hP⟩
  rw [files_write_of_lt hlt]
  exact hy

theorem Only.write (h : d.Only n P) : (d.write x).Only n P := by
  intro o ho i hi
  obtain ⟨hlt, hP⟩ := h o ho i hi
  rw [files_write_of_lt hlt]
  exact ⟨Nat.lt_succ_of_lt hlt, hP⟩

theorem data_syncFile (j : Nat) : ((d.syncFile i).files j).data = (d.files j).data := by
  by_cases hj : j = i
  · subst hj
    simp only [syncFile, update_self]
  · simp only [syncFile, update_of_ne hj]

theorem Holds.syncFile (h : d.Holds n P) : (d.syncFile i).Holds n P := by
  intro o ho
  obtain ⟨j, x, hj, hlt, hx, hP⟩ := h o ho
  exact ⟨j, x, hj, hlt, (data_syncFile j).trans hx, hP⟩

theorem Only.syncFile (h : d.Only n P) : (d.syncFile i).Only n P := by
  intro o ho j hj
  rw [data_syncFile]
  exact h o ho j hj

theorem Only.syncDir (h : d.Only n P) : d.syncDir.Only n P := by
  intro o ho
  cases ho with
  | head => exact h _ mem_cons_self
  | tail _ ho => cases ho

theorem Holds.syncDir (h : d.Holds n P) : d.syncDir.Holds n P := by
  intro o ho
  cases ho with
  | head => exact h _ mem_cons_self
  | tail _ ho => cases ho

theorem holds_syncDir (hn : d.entries n = some i) (hi : i < d.next) (hx : (d.files i).data = some x) (hP : P x) :
    d.syncDir.Holds n P := by
  intro o ho
  cases ho with
  | head => exact ⟨i, x, hn, hi, hx, hP⟩
  | tail _ ho => cases ho

theorem entries_crash_mem (out : Outcome N) : (d.crash out).entries n ∈ d.candidates n := by
  change (d.candidates n).getD (out.entry n) (d.entries n) ∈ d.candidates n
  rw [getD_eq_getElem?_getD]
  cases hget : (d.candidates n)[out.entry n]? with
  | none => exact mem_cons_self
  | some o => exact mem_of_getElem? hget

theorem Only.crash (h : d.Only n P) (out : Outcome N) : (d.crash out).Only n P := by
  intro o ho i hi
  cases ho with
  | head =>
    obtain ⟨hlt, hP⟩ := h _ (entries_crash_mem out) i hi
    refine ⟨hlt, ?_⟩
    intro x hx
    simp only [Disk.crash] at hx
    split at hx
    · exact hP x hx
    · cases hx
  | tail _ ho => cases ho

theorem Only.read (h : d.Only n P) (hx : d.read n = some x) : P x := by
  obtain ⟨i, hi, hx⟩ := bind_eq_some_iff.mp hx
  exact (h _ mem_cons_self i hi).2 x hx

theorem Holds.crash (h : d.Holds n P) (hsettled : d.Settled n) (out : Outcome N) : (d.crash out).Holds n P := by
  intro o ho
  cases ho with
  | head =>
    have hmem := entries_crash_mem (d := d) (n := n) out
    obtain ⟨i, x, hi, hlt, hx, hP⟩ := h _ hmem
    have hsynced := hsettled _ hmem i hi
    refine ⟨i, x, hi, hlt, ?_, hP⟩
    simp only [Disk.crash, hsynced, Bool.true_or, if_true]
    exact hx
  | tail _ ho => cases ho

theorem exists_lost_of_not_settled (h : ¬ d.Settled n) : ∃ out, (d.crash out).read n = none := by
  simp only [Settled, not_forall] at h
  obtain ⟨o, ho, i, hi, hsynced⟩ := h
  obtain ⟨k, hk, hget⟩ := mem_iff_getElem.mp ho
  refine ⟨⟨fun _ => k, fun _ => true⟩, ?_⟩
  have hentry : (d.crash ⟨fun _ => k, fun _ => true⟩).entries n = some i := by
    change (d.candidates n).getD k (d.entries n) = some i
    rw [getD_eq_getElem?_getD, List.getElem?_eq_getElem hk, getD_some, hget]
    exact hi
  rw [read, hentry, bind_some]
  have hfalse : (d.files i).synced = false := Bool.eq_false_iff.mpr hsynced
  simp only [crash, hfalse, Bool.not_true, Bool.or_self, Bool.false_eq_true, if_false]

end Data

section Names

variable {N D : Type} [DecidableEq N]

def link (d : Disk N D) (n : N) (o : Option Nat) : Disk N D :=
  { d with
    entries := update d.entries n o
    past := update d.past n (d.candidates n) }

variable {d : Disk N D} {n m : N} {P : D → Prop} {x : D} {i : Nat} {o : Option Nat}

theorem entries_link_self : (d.link n o).entries n = o := update_self ..

theorem candidates_link_self : (d.link n o).candidates n = o :: d.candidates n := by
  simp only [candidates, link, update_self]

theorem candidates_link_of_ne (h : m ≠ n) : (d.link n o).candidates m = d.candidates m := by
  simp only [candidates, link, update_of_ne h]

theorem Holds.link_of_ne (h : d.Holds m P) (hne : m ≠ n) : (d.link n o).Holds m P := by
  unfold Holds
  rw [candidates_link_of_ne hne]
  exact h

theorem Holds.link_self (h : d.Holds n P) (hi : i < d.next) (hx : (d.files i).data = some x) (hP : P x) :
    (d.link n (some i)).Holds n P := by
  unfold Holds
  rw [candidates_link_self]
  intro o ho
  cases ho with
  | head => exact ⟨i, x, rfl, hi, hx, hP⟩
  | tail _ ho => exact h o ho

theorem Only.link_of_ne (h : d.Only m P) (hne : m ≠ n) : (d.link n o).Only m P := by
  unfold Only
  rw [candidates_link_of_ne hne]
  exact h

theorem Only.link_self (h : d.Only n P) (ho : ∀ i ∈ o, i < d.next ∧ ∀ x ∈ (d.files i).data, P x) :
    (d.link n o).Only n P := by
  unfold Only
  rw [candidates_link_self]
  intro o' ho'
  cases ho' with
  | head => exact ho
  | tail _ ho' => exact h o' ho'

theorem Only.unlink (h : d.Only m P) : (d.link n none).Only m P := by
  by_cases hne : m = n
  · subst hne
    exact h.link_self (fun i hi => by cases hi)
  · exact h.link_of_ne hne

end Names

end Disk

end Wireops.Lib.Files
