import Mathlib.Data.List.Rotate
import Wireops.Lib.Octets
import Wireops.Server.Tags

/-!
# The worker of a job

A job that runs once runs on one of the workers that its tags match, at a place of their
list that a hash of the job's id gives. The list is in the order of a map.
-/

namespace Wireops.Jobs.Targets

open List Server.Tags
open Lib.Octets (Bytes text)

/-- FNV-1a. -/
def sum32 (data : Bytes) : UInt32 := data.foldl (fun h b => (h ^^^ b.toUInt32) * 16777619) 2166136261

/-- The source has no worker to pick from an empty list, and its caller does not ask. -/
def pickWorker (jobID : Bytes) (workers : List String) : Option String :=
  if workers.length = 1 then workers[0]? else workers[(sum32 jobID).toNat % workers.length]?

variable {jobID : Bytes} {workers tags : List String} {snapshot : TagMap} {connected : String → Bool}

theorem nodup_getWorkersByTags (snapshot : TagMap) (connected : String → Bool) (tags : List String) :
    (getWorkersByTags snapshot connected tags).Nodup := by
  unfold getWorkersByTags
  split
  · exact nodup_nil
  · exact snapshot.nodupKeys.sublist filter_sublist

theorem exists_enumerated (hne : tags ≠ []) (hw : workers.Nodup) :
    ∃ snapshot, getWorkersByTags snapshot (fun _ => true) tags = workers := by
  refine ⟨⟨workers.map (fun w => ⟨w, tags⟩), ?_⟩, ?_⟩
  · simpa [NodupKeys, keys, Function.comp_def] using hw
  · have hall : ∀ e ∈ workers.map (fun w => (⟨w, tags⟩ : (_ : String) × List String)),
        (true && workerHasAllTags e.2 tags) = true := by
      simp [workerHasAllTags]
    rw [getWorkersByTags, if_neg hne, filter_eq_self.mpr hall]
    simp [Function.comp_def]

theorem pickWorker_rotate (hw : workers.Nodup) (h : 1 < workers.length) :
    pickWorker jobID (workers.rotate 1) ≠ pickWorker jobID workers := by
  have hlt := Nat.mod_lt (sum32 jobID).toNat (by omega : 0 < workers.length)
  rw [pickWorker, pickWorker, length_rotate, if_neg h.ne', if_neg h.ne', getElem?_rotate hlt]
  rw [Ne, getElem?_inj (Nat.mod_lt _ (by omega)) hw]
  rw [Nat.add_mod_eq_ite, Nat.mod_mod, Nat.mod_eq_of_lt h]
  split <;> omega

/-- The pick depends on the workers and not on the order they are found in just where there
is nothing to choose. -/
theorem pickWorker_stable_iff (jobID : Bytes) (snapshot : TagMap) (connected : String → Bool) (tags : List String) :
    (∀ snapshot' connected',
      (∀ w, w ∈ getWorkersByTags snapshot' connected' tags ↔ w ∈ getWorkersByTags snapshot connected tags) →
      pickWorker jobID (getWorkersByTags snapshot' connected' tags) =
        pickWorker jobID (getWorkersByTags snapshot connected tags)) ↔
    (getWorkersByTags snapshot connected tags).length ≤ 1 := by
  have hw := nodup_getWorkersByTags snapshot connected tags
  constructor
  · intro hstable
    by_contra hmany
    have hne : tags ≠ [] := by
      rintro rfl
      simp [getWorkersByTags] at hmany
    obtain ⟨snapshot', hrotated⟩ := exists_enumerated hne (nodup_rotate (n := 1) |>.mpr hw)
    have hpick := hstable snapshot' (fun _ => true) (fun _ => hrotated ▸ mem_rotate)
    rw [hrotated] at hpick
    exact pickWorker_rotate hw (not_le.mp hmany) hpick
  · intro hfew snapshot' connected' hsame
    have hperm := (perm_ext_iff_of_nodup (nodup_getWorkersByTags _ _ _) hw).mpr hsame
    cases hlist : getWorkersByTags snapshot connected tags with
    | nil =>
      rw [hlist] at hperm
      rw [hperm.eq_nil]
    | cons w rest =>
      obtain rfl : rest = [] := by simpa [hlist] using hfew
      rw [hlist, perm_singleton] at hperm
      rw [hperm]

def stored (w w' : String) : TagMap := (AList.singleton w ["gpu"]).insert w' ["gpu"]

theorem pickWorker_unstable : getWorkersByTags (stored "w1" "w2") (fun _ => true) ["gpu"] = ["w2", "w1"] ∧
    getWorkersByTags (stored "w2" "w1") (fun _ => true) ["gpu"] = ["w1", "w2"] ∧
    pickWorker (text "job") ["w2", "w1"] ≠ pickWorker (text "job") ["w1", "w2"] := by
  decide +kernel

end Wireops.Jobs.Targets
