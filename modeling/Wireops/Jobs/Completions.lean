import Wireops.Jobs.Runs

namespace Wireops.Jobs.Completions

open Function Option List Lib.Steps Server.Inbound

/-- One worker with its outbox, the server with its rows and the messages it has
seen, and what is between them. `saving` are the goroutines that store a
completion. The rest is history: the identifiers used, and the messages that
were stored, that failed to be saved and that the worker deleted. -/
structure State where
  server : Runs.State := {}
  seen : String → Option Nat := fun _ => none
  outbox : String → Option JobCompletedMessage := fun _ => none
  sent : List JobCompletedMessage := []
  acks : List String := []
  saving : List JobCompletedMessage := []
  used : List String := []
  stored : List String := []
  failed : List String := []
  deleted : List String := []

/-- `finish` stores the message of a job that has ended, `send` sends it.
`deliver` and `ack` are turns of the server's and the worker's read loop, `save`
the end of one of the server's goroutines. `sent` tells whether the connection
takes the acknowledgement, `removed` whether the file is removed. -/
inductive Action where
  | finish (m : JobCompletedMessage)
  | send (messageID : String)
  | deliver (i : Nat) (sent : Bool)
  | save (i : Nat) (saved : Bool)
  | ack (i : Nat) (removed : Bool)
  | loseMessage (i : Nat)
  | loseAck (i : Nat)
  | restart (unsaved : List String)
  | server (a : Runs.Action)
  deriving DecidableEq, Repr

variable (s : State) (messageID : String) (m : JobCompletedMessage)

def sweepSeen : String → Option Nat := fun id => (s.seen id).filter (seenFresh s.server.now)

def isDuplicateMessage : Bool :=
  !blank messageID && (sweepSeen s messageID).isSome

def markSeen : String → Option Nat :=
  if blank messageID then s.seen
  else if isDuplicateMessage s messageID then sweepSeen s
  else update (sweepSeen s) messageID (some s.server.now)

def sendAck (sent : Bool) : List String :=
  if blank messageID || !sent then s.acks else s.acks ++ [messageID]

/-- The acknowledgement is sent before the completion is stored. -/
def handleCompleted (sent : Bool) : State :=
  { s with
    seen := if m.messageID = "" then s.seen else markSeen s m.messageID
    acks := sendAck s m.messageID sent
    saving :=
      if m.messageID ≠ "" && isDuplicateMessage s m.messageID then s.saving else s.saving ++ [m] }

/-- The save fails when the database does, or when there is no such run. -/
def succeeds (saved : Bool) : Bool :=
  saved && (s.server.runs m.jobRunID).isSome

def handleSaved (saved : Bool) : State :=
  let t := { s with server := (Runs.step s.server (.complete m saved)).getD s.server }
  if succeeds s m saved then { t with stored := m.messageID :: s.stored }
  else { t with failed := m.messageID :: s.failed }

def ackPersistentMessage (removed : Bool) : State :=
  if removed && (s.outbox messageID).isSome then
    { s with outbox := update s.outbox messageID none, deleted := messageID :: s.deleted }
  else s

/-- The steps of the scheduler that have no action of their own here. -/
def apart : Runs.Action → Bool
  | .complete .. | .restart _ => false
  | _ => true

def step (s : State) : Action → Option State
  | .finish m =>
    if blank m.messageID || m.messageID ∈ s.used then none
    else some { s with
      outbox := update s.outbox m.messageID (some m), used := m.messageID :: s.used }
  | .send messageID => (s.outbox messageID).map fun m => { s with sent := s.sent ++ [m] }
  | .deliver i sent => s.sent[i]?.map fun m => handleCompleted { s with sent := s.sent.eraseIdx i } m sent
  | .save i saved => s.saving[i]?.map fun m => handleSaved { s with saving := s.saving.eraseIdx i } m saved
  | .ack i removed => s.acks[i]?.map fun id => ackPersistentMessage { s with acks := s.acks.eraseIdx i } id removed
  | .loseMessage i => s.sent[i]?.map fun _ => { s with sent := s.sent.eraseIdx i }
  | .loseAck i => s.acks[i]?.map fun _ => { s with acks := s.acks.eraseIdx i }
  | .restart unsaved =>
    some { s with
      server := (Runs.step s.server (.restart unsaved)).getD s.server, seen := fun _ => none, saving := [] }
  | .server a =>
    if apart a then (Runs.step s.server a).map fun server => { s with server := server } else none

/-- The worker has deleted no message that was not stored; one whose save has
failed is in its outbox and will be handled when it comes again. -/
structure Reliable (s : State) : Prop where
  deleted : ∀ id ∈ s.deleted, id ∈ s.stored
  failed : ∀ id ∈ s.failed, id ∉ s.stored → (s.outbox id).isSome ∧ isDuplicateMessage s id = false

def isSaving : Bool := s.saving.any (·.messageID = messageID)

/-- Every save succeeds, the worker comes to an acknowledgement after the save of
the message has ended, and the server is not restarted during a save. -/
def Careful : Action → Prop
  | .save i saved => ∀ m ∈ s.saving[i]?, succeeds s m saved = true
  | .ack i _ => ∀ id ∈ s.acks[i]?, isSaving s id = false
  | .restart _ => s.saving = []
  | _ => True

instance (s : State) (a : Action) : Decidable (Careful s a) := by
  unfold Careful
  split <;> infer_instance

def Covered (id : String) : Prop := id ∈ s.stored ∨ isSaving s id = true

structure Inv (s : State) : Prop where
  seen : ∀ id, s.seen id ≠ none → Covered s id
  acks : ∀ id ∈ s.acks, Covered s id
  deleted : ∀ id ∈ s.deleted, id ∈ s.stored
  failed : s.failed = []

section Steps

variable {s t : State} {a : Action} {id : String} {m : JobCompletedMessage} {i : Nat} {saved sent removed : Bool}

theorem isSaving_iff : isSaving s id = true ↔ ∃ m ∈ s.saving, m.messageID = id := by
  simp only [isSaving, List.any_eq_true, decide_eq_true_eq]

theorem Covered.mono (h : Covered s id) (hstored : s.stored ⊆ t.stored) (hsaving : s.saving ⊆ t.saving) :
    Covered t id := by
  obtain h | h := h
  · exact .inl (hstored h)
  · obtain ⟨m, hm, hid⟩ := isSaving_iff.mp h
    exact .inr (isSaving_iff.mpr ⟨m, hsaving hm, hid⟩)

theorem Inv.init : Inv {} where
  seen _ h := absurd rfl h
  acks := forall_mem_nil _
  deleted := forall_mem_nil _
  failed := rfl

theorem Inv.reliable (hi : Inv s) : Reliable s where
  deleted := hi.deleted
  failed := by
    rw [hi.failed]
    exact forall_mem_nil _

theorem Inv.congr (hi : Inv s) (hacks : ∀ id ∈ t.acks, id ∈ s.acks := by exact fun _ h => h)
    (hseen : ∀ id, t.seen id ≠ none → s.seen id ≠ none := by exact fun _ h => h)
    (hstored : t.stored = s.stored := by rfl) (hsaving : t.saving = s.saving := by rfl)
    (hdeleted : t.deleted = s.deleted := by rfl) (hfailed : t.failed = s.failed := by rfl) : Inv t := by
  have hcovered {id : String} (h : Covered s id) : Covered t id :=
    h.mono (by rw [hstored]; exact List.Subset.refl _) (by rw [hsaving]; exact List.Subset.refl _)
  refine ⟨fun id h => hcovered (hi.seen id (hseen id h)), fun id h => hcovered (hi.acks id (hacks id h)), ?_, ?_⟩
  · rw [hdeleted, hstored]
    exact hi.deleted
  · rw [hfailed]
    exact hi.failed

theorem sweepSeen_ne_none (h : sweepSeen s id ≠ none) : s.seen id ≠ none := by
  intro hnone
  rw [sweepSeen, hnone] at h
  exact h rfl

theorem markSeen_ne_none {messageID : String} (h : markSeen s messageID id ≠ none) :
    s.seen id ≠ none ∨ id = messageID := by
  unfold markSeen at h
  split at h
  · exact .inl h
  · split at h
    · exact .inl (sweepSeen_ne_none h)
    · by_cases hid : id = messageID
      · exact .inr hid
      · rw [Function.update_of_ne hid] at h
        exact .inl (sweepSeen_ne_none h)

theorem mem_sendAck {messageID : String} (h : id ∈ sendAck s messageID sent) : id ∈ s.acks ∨ id = messageID := by
  unfold sendAck at h
  split at h
  · exact .inl h
  · exact (mem_append.mp h).imp_right mem_singleton.mp

theorem seen_of_duplicate (h : isDuplicateMessage s id = true) : s.seen id ≠ none := by
  rw [isDuplicateMessage, Bool.and_eq_true] at h
  exact sweepSeen_ne_none (isSome_iff_ne_none.mp h.2)

theorem covered_handleCompleted (hi : Inv s) : Covered (handleCompleted s m sent) m.messageID := by
  by_cases hdup : (m.messageID ≠ "" && isDuplicateMessage s m.messageID) = true
  · have hsaving : (handleCompleted s m sent).saving = s.saving := if_pos hdup
    have hseen := seen_of_duplicate (Bool.and_eq_true .. |>.mp hdup).2
    exact (hi.seen _ hseen).mono (List.Subset.refl _) (by rw [hsaving]; exact List.Subset.refl _)
  · have hsaving : (handleCompleted s m sent).saving = s.saving ++ [m] := if_neg hdup
    refine .inr (isSaving_iff.mpr ⟨m, ?_, rfl⟩)
    rw [hsaving]
    exact mem_append_right _ (mem_singleton_self m)

theorem Inv.handleCompleted (hi : Inv s) : Inv (handleCompleted s m sent) := by
  have hkept {id : String} (h : Covered s id) : Covered (Completions.handleCompleted s m sent) id := by
    refine h.mono (List.Subset.refl _) ?_
    change s.saving ⊆ if _ then s.saving else s.saving ++ [m]
    split
    · exact List.Subset.refl _
    · exact subset_append_left _ _
  refine ⟨?_, ?_, hi.deleted, hi.failed⟩
  · intro id h
    have hseen : s.seen id ≠ none ∨ id = m.messageID := by
      change (if m.messageID = "" then s.seen else markSeen s m.messageID) id ≠ none at h
      split at h
      · exact .inl h
      · exact markSeen_ne_none h
    obtain hseen | rfl := hseen
    · exact hkept (hi.seen id hseen)
    · exact covered_handleCompleted hi
  · intro id h
    obtain hack | rfl := mem_sendAck h
    · exact hkept (hi.acks id hack)
    · exact covered_handleCompleted hi

theorem Covered.erase (h : Covered s id) (hm : s.saving[i]? = some m) {server : Runs.State} :
    Covered { s with server := server, saving := s.saving.eraseIdx i, stored := m.messageID :: s.stored } id := by
  obtain h | h := h
  · exact .inl (mem_cons_of_mem _ h)
  · obtain ⟨m', hm', rfl⟩ := isSaving_iff.mp h
    by_cases heq : m'.messageID = m.messageID
    · exact .inl (by rw [heq]; exact mem_cons_self)
    · obtain ⟨k, hk⟩ := mem_iff_getElem?.mp hm'
      have hne : k ≠ i := by
        rintro rfl
        cases hm.symm.trans hk
        exact heq rfl
      exact .inr (isSaving_iff.mpr ⟨m', mem_eraseIdx_iff_getElem?.mpr ⟨k, hne, hk⟩, rfl⟩)

theorem Inv.save (hi : Inv s) (hm : s.saving[i]? = some m) (hsaved : succeeds s m saved = true) :
    Inv (handleSaved { s with saving := s.saving.eraseIdx i } m saved) := by
  have hsucceeds : succeeds { s with saving := s.saving.eraseIdx i } m saved = true := hsaved
  rw [handleSaved, if_pos hsucceeds]
  exact ⟨fun id h => Covered.erase (hi.seen id h) hm, fun id h => Covered.erase (hi.acks id h) hm,
    fun id h => mem_cons_of_mem _ (hi.deleted id h), hi.failed⟩

theorem Inv.ack (hi : Inv s) (hid : s.acks[i]? = some id) (hdone : isSaving s id = false) :
    Inv (ackPersistentMessage { s with acks := s.acks.eraseIdx i } id removed) := by
  have hstored : id ∈ s.stored := by
    obtain hstored | hsaving := hi.acks id (mem_of_getElem? hid)
    · exact hstored
    · exact absurd (hdone.symm.trans hsaving) Bool.false_ne_true
  have hacks : ∀ id' ∈ s.acks.eraseIdx i, Covered s id' := fun id' h => hi.acks id' (mem_of_mem_eraseIdx h)
  unfold ackPersistentMessage
  split
  · exact ⟨hi.seen, hacks, forall_mem_cons.mpr ⟨hstored, hi.deleted⟩, hi.failed⟩
  · exact ⟨hi.seen, hacks, hi.deleted, hi.failed⟩

theorem Inv.restart (hi : Inv s) (hidle : s.saving = []) (server : Runs.State) :
    Inv { s with server := server, seen := fun _ => none, saving := [] } := by
  refine ⟨fun _ h => absurd rfl h, ?_, hi.deleted, hi.failed⟩
  intro id h
  exact (hi.acks id h).mono (List.Subset.refl _) (by rw [hidle]; exact List.Subset.refl _)

theorem inv_step (hi : Inv s) (hcareful : Careful s a) (h : step s a = some t) : Inv t := by
  cases a with
  | finish m =>
    obtain ⟨_, ht⟩ := ite_none_left_eq_some.mp h
    cases ht
    exact hi.congr
  | send | loseMessage =>
    obtain ⟨m, _, rfl⟩ := map_eq_some_iff.mp h
    exact hi.congr
  | deliver i sent =>
    obtain ⟨m, _, rfl⟩ := map_eq_some_iff.mp h
    have hi' : Inv { s with sent := s.sent.eraseIdx i } :=
      hi.congr
    exact hi'.handleCompleted
  | save i saved =>
    obtain ⟨m, hm, rfl⟩ := map_eq_some_iff.mp h
    exact hi.save hm (hcareful m hm)
  | ack i removed =>
    obtain ⟨id, hid, rfl⟩ := map_eq_some_iff.mp h
    exact hi.ack hid (hcareful id hid)
  | loseAck i =>
    obtain ⟨id, _, rfl⟩ := map_eq_some_iff.mp h
    exact hi.congr (fun _ h => mem_of_mem_eraseIdx h)
  | restart unsaved =>
    cases h
    exact hi.restart hcareful _
  | server a =>
    obtain ⟨_, ht⟩ := ite_none_right_eq_some.mp h
    obtain ⟨server, _, rfl⟩ := map_eq_some_iff.mp ht
    exact hi.congr

/-- The worker deletes what is stored, and nothing is lost, in every history of
careful steps. -/
theorem reliable_of_careful {as : List Action} (hr : run step {} as = some s) (hcareful : Meets step Careful {} as) :
    Reliable s := by
  have hi : Inv s := run_invariant (fun _ _ _ hi hcareful h => inv_step hi hcareful h) Inv.init hcareful hr
  exact hi.reliable

end Steps

def done : JobCompletedMessage where
  messageID := "m"
  jobRunID := "run"
  success := true
  output := []
  durationMs := 7
  queueTimeMs := 0
  executionTimeMs := 7

def completed : List Action :=
  [.server (.create "run" "worker" .running [] 1000), .finish done, .send "m", .deliver 0 true]

def storedInTime : List Action := completed ++ [Action.save 0 true, Action.ack 0 true]

theorem storedInTime_reliable : ∃ s, run step {} storedInTime = some s ∧ Reliable s :=
  ⟨_, rfl, @reliable_of_careful _ storedInTime rfl (by decide)⟩

def unsaved : List Action := completed ++ [Action.save 0 false, Action.ack 0 true]

/-- The message is gone from the outbox and the run is still shown as running. -/
theorem unsaved_not_reliable : ∃ s, run step {} unsaved = some s ∧ s.outbox "m" = none ∧
    (s.server.runs "run").map (·.status) = some .running ∧ ¬ Reliable s := by
  refine ⟨_, rfl, rfl, rfl, ?_⟩
  intro h
  exact absurd (h.deleted "m" mem_cons_self) not_mem_nil

end Wireops.Jobs.Completions
