import Wireops.Lib.Steps
import Wireops.Lib.Strings

namespace Wireops.Backup.Restores

open Function List Lib.Steps Lib.Strings

variable (s : State) (key : Text) (i : Nat)

def validateBackupKey : Bool :=
  key ≠ [] && clean key = key && !key.contains '/' && !key.contains '\\' &&
    (cut "..".toList key).isNone && (Lib.Strings.ext key).map toLower = ".zip".toList

/-- What the environment answers to a step: an error, or no or yes. -/
inductive Answer where
  | failed
  | no
  | yes
  deriving DecidableEq, Repr

/-- Where a call of `Delete` stands. From `look` on it has the lock. -/
inductive DeletePhase where
  | active
  | pending
  | lock
  | look
  | remove
  | remote (localExists : Bool)
  | removeRemote
  | done (ok : Bool)

structure Delete where
  key : Text
  phase : DeletePhase := .active

/-- Where a call of `Restore` stands. From `sleeping` on it has returned, and
its goroutine goes on. -/
inductive RestorePhase where
  | reserve
  | look
  | remote
  | download
  | commit
  | sleeping
  | running
  | done (ok : Bool)
  deriving DecidableEq

structure Restore where
  key : Text
  phase : RestorePhase := .reserve

/-- `pending` is `pendingRestoreKeys`, `active` the key under
`StoreKeyActiveBackup` and `capacity` says that `capacityMu` is held. -/
structure State where
  localStore : Text → Bool := fun _ => false
  remoteStore : Text → Bool := fun _ => false
  pending : Text → Nat := fun _ => 0
  active : Option Text := none
  capacity : Bool := false
  deletes : List Delete := []
  restores : List Restore := []

def isPendingRestoreKey : Bool := 0 < s.pending key

def reservePendingRestoreKey : State :=
  { s with pending := update s.pending key (s.pending key + 1) }

/-- A count of one is deleted from the map. -/
def releasePendingRestoreKey : State :=
  { s with pending := update s.pending key (s.pending key - 1) }

def State.setDelete (d : Delete) (phase : DeletePhase) : State :=
  { s with deletes := s.deletes.set i { d with phase } }

def State.setRestore (r : Restore) (phase : RestorePhase) : State :=
  { s with restores := s.restores.set i { r with phase } }

def State.unlock (d : Delete) (ok : Bool) : State :=
  { s.setDelete i d (.done ok) with capacity := false }

def State.release (r : Restore) (ok : Bool) : State :=
  releasePendingRestoreKey (s.setRestore i r (.done ok)) r.key

def stepDelete (d : Delete) (answer : Answer) : Option State :=
  match d.phase with
  | .active => some (s.setDelete i d (if s.active = some d.key then .done false else .pending))
  | .pending => some (s.setDelete i d (if isPendingRestoreKey s d.key then .done false else .lock))
  | .lock => if s.capacity then none else some { s.setDelete i d .look with capacity := true }
  | .look =>
    if answer = .failed then some (s.unlock i d false)
    else if s.localStore d.key then some (s.setDelete i d .remove)
    else some (s.setDelete i d (.remote false))
  | .remove =>
    if answer = .failed then some (s.unlock i d false)
    else some { s.setDelete i d (.remote true) with
      localStore := update s.localStore d.key false }
  | .remote localExists =>
    match answer with
    | .failed => some (s.unlock i d false)
    | .no => some (s.unlock i d localExists)
    | .yes => some (s.setDelete i d .removeRemote)
  | .removeRemote =>
    if answer = .failed then some (s.unlock i d false)
    else some { s.unlock i d true with remoteStore := update s.remoteStore d.key false }
  | .done _ => none

def stepRestore (r : Restore) (answer : Answer) : Option State :=
  match r.phase with
  | .reserve => some (reservePendingRestoreKey (s.setRestore i r .look) r.key)
  | .look =>
    if answer = .failed then some (s.release i r false)
    else some (s.setRestore i r (if s.localStore r.key then .commit else .remote))
  | .remote =>
    if answer = .yes then some (s.setRestore i r .download) else some (s.release i r false)
  | .download =>
    if answer = .yes && s.remoteStore r.key then
      some { s.setRestore i r .commit with localStore := update s.localStore r.key true }
    else some (s.release i r false)
  | .commit => some (s.setRestore i r .sleeping)
  | .sleeping =>
    -- another backup or restore is running, or this one starts
    if s.active ≠ none then some (s.release i r false)
    else some { s.setRestore i r .running with active := some r.key }
  | .running =>
    -- the process starts anew on the restored data
    if answer = .yes then some { localStore := s.localStore, remoteStore := s.remoteStore }
    else some { s.release i r false with active := none }
  | .done _ => none

inductive Action where
  | delete (key : Text)
  | restore (key : Text) (confirm canary : Bool)
  | goOnDelete (i : Nat) (answer : Answer)
  | goOnRestore (i : Nat) (answer : Answer)
  deriving DecidableEq, Repr

/-- A call with a key that is refused does nothing. -/
def step : Action → Option State
  | .delete key =>
    if validateBackupKey key then some { s with deletes := s.deletes ++ [{ key }] } else some s
  | .restore key confirm canary =>
    if confirm && validateBackupKey key && canary then
      some { s with restores := s.restores ++ [{ key }] }
    else some s
  | .goOnDelete i answer => s.deletes[i]?.bind (fun d => stepDelete s i d answer)
  | .goOnRestore i answer => s.restores[i]?.bind (fun r => stepRestore s i r answer)

def RestorePhase.waits : RestorePhase → Bool
  | .commit | .sleeping => true
  | _ => false

def RestorePhase.reserved : RestorePhase → Bool
  | .reserve | .done _ => false
  | _ => true

/-- The delete is through with its checks and may still remove the local copy. -/
def DeletePhase.threatens : DeletePhase → Bool
  | .lock | .look | .remove => true
  | _ => false

/-- Every backup that `Restore` was successful for is there until it starts. -/
def Kept : Prop := ∀ r ∈ s.restores, r.phase = .sleeping → s.localStore r.key = true

def Unthreatened : Prop :=
  ∀ d ∈ s.deletes, d.key = key → d.phase.threatens = false

/-- A restore finds its backup, or has it downloaded, only when no delete of the
key is between its checks and the removal. -/
def Careful : Action → Prop
  | .goOnRestore i _ => ∀ r ∈ s.restores[i]?,
      r.phase = .look ∧ s.localStore r.key = true ∨ r.phase = .download → Unthreatened s r.key
  | _ => True

instance (s : State) (key : Text) : Decidable (Unthreatened s key) :=
  inferInstanceAs (Decidable (∀ d ∈ s.deletes, d.key = key → d.phase.threatens = false))

instance (s : State) (a : Action) : Decidable (Careful s a) := by
  unfold Careful
  split <;> infer_instance

/-- The reservations are those of the restores under way; a restore that waits has
its backup, and no delete threatens it. -/
structure Inv (s : State) : Prop where
  counted : ∀ key, s.pending key = s.restores.countP (fun r => r.key = key && r.phase.reserved)
  present : ∀ r ∈ s.restores, r.phase.waits = true → s.localStore r.key = true
  apart : ∀ r ∈ s.restores, r.phase.waits = true → Unthreatened s r.key

section Deletes

variable {s t : State} {i : Nat} {d : Delete} {phase : DeletePhase} {answer : Answer}

theorem Inv.setDelete (hs : Inv s) (hd : s.deletes[i]? = some d)
    (h : phase.threatens = true → d.phase.threatens = true) : Inv (s.setDelete i d phase) where
  __ := hs
  apart r hr hw e he hkey := by
    obtain he | rfl := mem_or_eq_of_mem_set he
    · exact hs.apart r hr hw e he hkey
    · refine eq_false_of_ne_true (fun hthreat => ?_)
      have hno := hs.apart r hr hw d (mem_of_getElem? hd) hkey
      cases hno.symm.trans (h hthreat)

theorem Inv.congr (hs : Inv s) (hlocal : t.localStore = s.localStore := by rfl)
    (hpending : t.pending = s.pending := by rfl) (hdeletes : t.deletes = s.deletes := by rfl)
    (hrestores : t.restores = s.restores := by rfl) : Inv t where
  counted := by
    rw [hpending, hrestores]
    exact hs.counted
  present := by
    rw [hlocal, hrestores]
    exact hs.present
  apart := by
    unfold Unthreatened
    rw [hdeletes, hrestores]
    exact hs.apart

theorem Inv.unlock (hs : Inv s) (hd : s.deletes[i]? = some d) (ok : Bool) : Inv (s.unlock i d ok) := by
  have h : Inv (s.setDelete i d (.done ok)) := hs.setDelete hd (fun h => by cases h)
  exact h.congr

theorem Inv.not_waits (hs : Inv s) {key : Text} (hp : isPendingRestoreKey s key = false) :
    ∀ r ∈ s.restores, r.phase.waits = true → r.key ≠ key := by
  rintro r hr hw rfl
  have hzero : s.pending r.key = 0 := Nat.eq_zero_of_not_pos (of_decide_eq_false hp)
  rw [hs.counted, countP_eq_zero] at hzero
  refine hzero r hr ?_
  have hres : r.phase.reserved = true := by
    cases hphase : r.phase <;> rw [hphase] at hw <;> first | rfl | cases hw
  rw [hres, decide_eq_true rfl]
  rfl

theorem Inv.stepDelete (hs : Inv s) (hd : s.deletes[i]? = some d) (h : stepDelete s i d answer = some t) : Inv t := by
  unfold Restores.stepDelete at h
  split at h
  · next hphase =>
    cases h
    refine hs.setDelete hd (fun hthreat => ?_)
    split at hthreat <;> cases hthreat
  · next hphase =>
    cases h
    split
    · exact hs.setDelete hd (fun h => by cases h)
    · next hpending =>
      -- the delete is a threat from now on, to a key nobody waits for
      refine { hs with apart := fun r hr hw e he hkey => ?_ }
      obtain he | rfl := mem_or_eq_of_mem_set he
      · exact hs.apart r hr hw e he hkey
      · exact absurd hkey.symm (hs.not_waits (eq_false_of_ne_true hpending) r hr hw)
  · next hphase =>
    split at h
    · cases h
    · cases h
      have hlook : Inv (s.setDelete i d .look) := hs.setDelete hd (fun _ => by rw [hphase]; rfl)
      exact hlook.congr
  · next hphase =>
    split at h
    · cases h
      exact hs.unlock hd false
    · split at h
      · cases h
        exact hs.setDelete hd (fun _ => by rw [hphase]; rfl)
      · cases h
        exact hs.setDelete hd (fun h => by cases h)
  · next hphase =>
    split at h
    · cases h
      exact hs.unlock hd false
    · cases h
      have hnext : Inv (s.setDelete i d (.remote true)) := hs.setDelete hd (fun h => by cases h)
      refine { hnext with present := fun r hr hw => ?_ }
      have hne : r.key ≠ d.key := by
        intro hkey
        have hno := hs.apart r hr hw d (mem_of_getElem? hd) hkey.symm
        rw [hphase] at hno
        cases hno
      exact (update_of_ne hne ..).trans (hs.present r hr hw)
  · split at h
    · cases h
      exact hs.unlock hd false
    · cases h
      exact hs.unlock hd _
    · cases h
      exact hs.setDelete hd (fun h => by cases h)
  · split at h
    · cases h
      exact hs.unlock hd false
    · cases h
      exact (hs.unlock hd true).congr
  · cases h

end Deletes

section Restores

variable {s t : State} {i : Nat} {r : Restore} {phase : RestorePhase} {answer : Answer}

theorem countP_setRestore (hr : s.restores[i]? = some r) (p : Restore → Bool) (phase : RestorePhase) :
    (s.restores.set i { r with phase }).countP p + (if p r then 1 else 0) =
      s.restores.countP p + (if p { r with phase } then 1 else 0) := by
  obtain ⟨hi, rfl⟩ := List.getElem?_eq_some_iff.mp hr
  have hpos : (if p s.restores[i] then 1 else 0) ≤ s.restores.countP p := by
    split
    · next h => exact countP_pos_iff.mpr ⟨_, getElem_mem hi, h⟩
    · exact Nat.zero_le _
  rw [countP_set hi]
  omega

section

variable (hs : Inv s) (hr : s.restores[i]? = some r)

include hs hr

/-- A restore goes on, its reservation kept, taken or given back as the phase
says; when it starts to wait, the backup is there and no delete threatens it. -/
theorem Inv.goOn {pending : Text → Nat} {localStore : Text → Bool}
    (hpending : ∀ key, pending key + (if r.key = key && r.phase.reserved then 1 else 0) =
      s.pending key + (if r.key = key && phase.reserved then 1 else 0))
    (hlocal : ∀ key, s.localStore key = true → localStore key = true)
    (hwait : phase.waits = true → localStore r.key = true ∧ Unthreatened s r.key) :
    Inv { s.setRestore i r phase with pending, localStore } where
  counted key := by
    have hcount := countP_setRestore hr (fun r => r.key = key && r.phase.reserved) phase
    have hkey := hpending key
    rw [hs.counted key] at hkey
    exact Nat.add_right_cancel (hkey.trans hcount.symm)
  present e he hw := by
    obtain he | rfl := mem_or_eq_of_mem_set he
    · exact hlocal _ (hs.present e he hw)
    · exact (hwait hw).1
  apart e he hw := by
    obtain he | rfl := mem_or_eq_of_mem_set he
    · exact hs.apart e he hw
    · exact (hwait hw).2

theorem Inv.setRestore (hres : phase.reserved = r.phase.reserved)
    (hwait : phase.waits = true → s.localStore r.key = true ∧ Unthreatened s r.key) : Inv (s.setRestore i r phase) :=
  hs.goOn hr (fun key => by rw [hres]) (fun _ h => h) hwait

theorem Inv.release (hres : r.phase.reserved = true) (ok : Bool) : Inv (s.release i r ok) := by
  refine hs.goOn hr (fun key => ?_) (fun _ h => h) (fun h => by cases h)
  have hdone : (RestorePhase.done ok).reserved = false := rfl
  change update s.pending r.key (s.pending r.key - 1) key + _ = _
  rw [hres, hdone, Bool.and_true, Bool.and_false]
  by_cases hkey : key = r.key
  · subst hkey
    have hpos : 0 < s.pending r.key := by
      rw [hs.counted, countP_pos_iff]
      exact ⟨r, mem_of_getElem? hr, by simp [hres]⟩
    rw [update_self, if_pos (decide_eq_true rfl)]
    simp only [Bool.false_eq_true, if_false]
    omega
  · rw [update_of_ne hkey, if_neg (by simpa using Ne.symm hkey)]
    simp

theorem Inv.reserve (hphase : r.phase = .reserve) :
    Inv (reservePendingRestoreKey (s.setRestore i r .look) r.key) := by
  refine hs.goOn hr (fun key => ?_) (fun _ h => h) (fun h => by cases h)
  have hlook : RestorePhase.look.reserved = true := rfl
  have hnone : r.phase.reserved = false := by rw [hphase]; rfl
  change update s.pending r.key (s.pending r.key + 1) key + _ = _
  rw [hnone, hlook, Bool.and_true, Bool.and_false]
  by_cases hkey : key = r.key
  · subst hkey
    simp
  · rw [update_of_ne hkey]
    simp [Ne.symm hkey]

theorem Inv.stepRestore
    (hc : r.phase = .look ∧ s.localStore r.key = true ∨ r.phase = .download → Unthreatened s r.key)
    (h : stepRestore s i r answer = some t) : Inv t := by
  unfold Restores.stepRestore at h
  split at h
  · next hphase =>
    cases h
    exact hs.reserve hr hphase
  · next hphase =>
    split at h
    · cases h
      exact hs.release hr (by rw [hphase]; rfl) false
    · cases h
      split
      · next hlocal =>
        exact hs.setRestore hr (by rw [hphase]; rfl) (fun _ => ⟨hlocal, hc (.inl ⟨hphase, hlocal⟩)⟩)
      · exact hs.setRestore hr (by rw [hphase]; rfl) (fun h => by cases h)
  · next hphase =>
    split at h
    · cases h
      exact hs.setRestore hr (by rw [hphase]; rfl) (fun h => by cases h)
    · cases h
      exact hs.release hr (by rw [hphase]; rfl) false
  · next hphase =>
    split at h
    · cases h
      refine hs.goOn hr (fun key => by rw [hphase]; rfl) (fun key hlocal => ?_) (fun _ => ?_)
      · by_cases hkey : key = r.key
        · subst hkey
          exact update_self ..
        · exact (update_of_ne hkey ..).trans hlocal
      · exact ⟨update_self .., hc (.inr hphase)⟩
    · cases h
      exact hs.release hr (by rw [hphase]; rfl) false
  · next hphase =>
    cases h
    have hw : r.phase.waits = true := by rw [hphase]; rfl
    have hmem := mem_of_getElem? hr
    exact hs.setRestore hr (by rw [hphase]; rfl) (fun _ => ⟨hs.present r hmem hw, hs.apart r hmem hw⟩)
  · next hphase =>
    split at h
    · cases h
      exact hs.release hr (by rw [hphase]; rfl) false
    · cases h
      have hrun : Inv (s.setRestore i r .running) :=
        hs.setRestore hr (by rw [hphase]; rfl) (fun h => by cases h)
      exact hrun.congr
  · next hphase =>
    split at h
    · cases h
      exact ⟨fun _ => rfl, forall_mem_nil _, forall_mem_nil _⟩
    · cases h
      exact (hs.release hr (by rw [hphase]; rfl) false).congr
  · cases h

end

end Restores

section Runs

variable {s t : State} {a : Action} {as : List Action}

theorem Inv.delete (hs : Inv s) (key : Text) : Inv { s with deletes := s.deletes ++ [{ key }] } where
  __ := hs
  apart r hr hw d hd hkey := by
    obtain hd | hd := mem_append.mp hd
    · exact hs.apart r hr hw d hd hkey
    · rw [mem_singleton.mp hd]
      rfl

theorem Inv.restore (hs : Inv s) (key : Text) : Inv { s with restores := s.restores ++ [{ key }] } where
  counted k := by
    have hnone : (RestorePhase.reserve).reserved = false := rfl
    rw [countP_append, ← hs.counted k]
    simp [hnone]
  present r hr hw := by
    obtain hr | hr := mem_append.mp hr
    · exact hs.present r hr hw
    · rw [mem_singleton.mp hr] at hw
      cases hw
  apart r hr hw := by
    obtain hr | hr := mem_append.mp hr
    · exact hs.apart r hr hw
    · rw [mem_singleton.mp hr] at hw
      cases hw

theorem Inv.step (hs : Inv s) (hc : Careful s a) (h : step s a = some t) : Inv t := by
  cases a with
  | delete key =>
    rw [Restores.step] at h
    split at h
    · cases h
      exact hs.delete key
    · cases h
      exact hs
  | restore key confirm canary =>
    rw [Restores.step] at h
    split at h
    · cases h
      exact hs.restore key
    · cases h
      exact hs
  | goOnDelete i answer =>
    obtain ⟨d, hd, h⟩ := Option.bind_eq_some_iff.mp h
    exact hs.stepDelete hd h
  | goOnRestore i answer =>
    obtain ⟨r, hr, h⟩ := Option.bind_eq_some_iff.mp h
    exact hs.stepRestore hr (hc r hr) h

theorem Inv.init (localStore remoteStore : Text → Bool) : Inv { localStore, remoteStore } :=
  ⟨fun _ => rfl, forall_mem_nil _, forall_mem_nil _⟩

theorem Inv.kept (hs : Inv s) : Kept s := fun r hr hphase => hs.present r hr (by rw [hphase]; rfl)

theorem kept_of_careful (localStore remoteStore : Text → Bool)
    (hg : Meets Restores.step Careful { localStore, remoteStore } as)
    (hr : run Restores.step { localStore, remoteStore } as = some t) : Kept t :=
  (run_invariant (fun _ _ _ hs hc h => hs.step hc h) (Inv.init localStore remoteStore) hg hr).kept

end Runs

def nightly : Text := "nightly.zip".toList

/-- The delete is refused once the restore has its reservation. -/
def guardedRestore : List Action :=
  [.restore nightly true true, .delete nightly, .goOnRestore 0 .yes, .goOnDelete 0 .yes, .goOnRestore 0 .yes,
    .goOnDelete 0 .yes, .goOnRestore 0 .yes]

theorem guarded_restore_kept : Meets step Careful { localStore := (· = nightly) } guardedRestore ∧
      ∃ t, run step { localStore := (· = nightly) } guardedRestore = some t ∧
        t.restores = [⟨nightly, .sleeping⟩] ∧ t.deletes = [⟨nightly, .done false⟩] ∧ Kept t := by
  have hg : Meets step Careful { localStore := (· = nightly) } guardedRestore := by decide
  refine ⟨hg, _, rfl, rfl, rfl, ?_⟩
  exact kept_of_careful (· = nightly) (fun _ => false) hg rfl

/-- The delete checks before the reservation and removes after the restore was
promised. -/
def overtakenRestore : List Action :=
  [.delete nightly, .goOnDelete 0 .yes, .goOnDelete 0 .yes, .restore nightly true true, .goOnRestore 0 .yes,
    .goOnRestore 0 .yes, .goOnRestore 0 .yes, .goOnDelete 0 .yes, .goOnDelete 0 .yes, .goOnDelete 0 .yes]

theorem overtaken_restore_lost : ∃ t, run step { localStore := (· = nightly) } overtakenRestore = some t ∧
      t.restores = [⟨nightly, .sleeping⟩] ∧ ¬ Kept t := by
  refine ⟨_, rfl, rfl, fun h => ?_⟩
  have hlost := h ⟨nightly, .sleeping⟩ mem_cons_self rfl
  revert hlost
  decide

end Wireops.Backup.Restores
