import Wireops.Worker.Spool

namespace Wireops.Worker.Flush

open Option Function List Lib.Crypto Lib.Steps Lib.Strings Lib.Table
open Worker.Spool (StoredMessage PendingMessage Message newRecord pendingOf older)

/-- A call of `Pending` under way: the names of `ReadDir` still to be read, what
it has found, and the file it is about to quarantine. `before` are the messages
acked when it began. -/
structure Listing where
  before : List Text
  todo : List Text
  found : List PendingMessage := []
  bad : Option Text := none

/-- `Pending` is called by the flush loop and by the counts of the metrics. -/
inductive Caller where
  | flush
  | count (k : Nat)
  deriving DecidableEq, Repr

/-- The file operation of `writeRecordAt` that comes next in an `Enqueue`. -/
inductive Storing where
  | write (record : StoredMessage)
  | rename

/-- Where the flush loop is, with the messages it has still to send. It is `idle`
while its call of `Pending` runs; `mark`, `write` and `rename` are the file
operations of `MarkAttempt`. -/
inductive Loop where
  | idle
  | mark (todo : List PendingMessage)
  | write (id : Text) (record : StoredMessage) (todo : List PendingMessage)
  | rename (id : Text) (todo : List PendingMessage)
  | send (todo : List PendingMessage)
  deriving DecidableEq

/-- The loop has read the record of the message and not yet written it back. -/
def Loop.holds (id : Text) : Loop → Bool
  | .write id' _ _ | .rename id' _ => id' = id
  | _ => false

/-- The files of the pending directory by message, `tmp` those with the suffix
that `writeRecordAt` gives them first. `used` are the ids given out, `acked`
the messages that `Ack` removed, `results` what the calls of `Pending`
returned, with the messages acked before each began. -/
structure State where
  files : Text → Option StoredMessage := fun _ => none
  tmp : Text → Option StoredMessage := fun _ => none
  used : List Text := []
  storing : Text → Option Storing := fun _ => none
  listings : Caller → Option Listing := fun _ => none
  loop : Loop := .idle
  acked : List Text := []
  results : List (List Text × List PendingMessage) := []

/-- One file operation each; `ok` tells whether it succeeds. An id is given to
one message only, as `newMessageID` draws them. -/
inductive Action where
  | enqueue (id : Text) (m : Message) (nonce now : Nat)
  | storeWrite (id : Text) (ok : Bool)
  | storeRename (id : Text) (ok : Bool)
  | ack (id : Text) (ok : Bool)
  | readDir (who : Caller) (names : List Text)
  | readFile (who : Caller)
  | quarantine (who : Caller) (ok : Bool)
  | listed (who : Caller)
  | mark
  | write (ok : Bool)
  | rename (ok : Bool)
  | send (ok : Bool)
  | restart
  deriving DecidableEq, Repr

namespace State

def stored (s : State) : List Text := s.used.filter (fun id => (s.files id).isSome)

def setListing (s : State) (who : Caller) (l : Listing) : State :=
  { s with listings := update s.listings who (some l) }

def moveIn (s : State) (id : Text) : State :=
  { s with files := update s.files id (s.tmp id), tmp := update s.tmp id none }

def setTmp (s : State) (id : Text) (record : StoredMessage) : State :=
  { s with tmp := update s.tmp id (some record) }

end State

def enqueue (c : Aead) (s : State) (id : Text) (m : Message) (nonce now : Nat) : State :=
  { s with
    used := id :: s.used
    storing := update s.storing id (some (.write (newRecord c id m nonce now))) }

variable (s : State) (id : Text)

def doneStoring : State :=
  { s with storing := update s.storing id none }

def storeWrite (record : StoredMessage) (ok : Bool) : State :=
  if ok then { s.setTmp id record with storing := update s.storing id (some .rename) }
  else doneStoring s id

def storeRename (ok : Bool) : State :=
  if ok && (s.tmp id).isSome then doneStoring (s.moveIn id) id else doneStoring s id

def ack (ok : Bool) : State :=
  if ok && (s.files id).isSome then
    { s with files := update s.files id none, acked := id :: s.acked }
  else s

/-- A file that cannot be read or decrypted is to be put in quarantine. -/
def readFile (c : Aead) (s : State) (who : Caller) (l : Listing) (id : Text) (rest : List Text) : State :=
  match (s.files id).bind (pendingOf c) with
  | some p => s.setListing who { l with todo := rest, found := l.found ++ [p] }
  | none => s.setListing who { l with todo := rest, bad := some id }

def quarantine (who : Caller) (l : Listing) (id : Text) (ok : Bool) : State :=
  let s := s.setListing who { l with bad := none }
  if ok then { s with files := update s.files id none } else s

def listed (who : Caller) (l : Listing) : State :=
  let pending := l.found.insertionSort (fun p q => older p q = true)
  { s with
    listings := update s.listings who none
    results := s.results ++ [(l.before, pending)]
    loop := match who with
      | .flush => .mark pending
      | .count _ => s.loop }

def mark : List PendingMessage → State
  | [] => { s with loop := .idle }
  | p :: ps =>
    match s.files p.messageID with
    | some r => { s with loop := .write p.messageID { r with attempts := r.attempts + 1 } (p :: ps) }
    | none => { s with loop := .send (p :: ps) }

def write (record : StoredMessage) (todo : List PendingMessage) (ok : Bool) : State :=
  if ok then { s.setTmp id record with loop := .rename id todo } else { s with loop := .send todo }

def rename (todo : List PendingMessage) (ok : Bool) : State :=
  if ok && (s.tmp id).isSome then { s.moveIn id with loop := .send todo } else { s with loop := .send todo }

/-- A failed send ends the loop. -/
def send (todo : List PendingMessage) (ok : Bool) : State :=
  { s with loop := if ok then .mark todo.tail else .idle }

def mayList : Caller → Bool
  | .flush => s.loop = .idle
  | .count _ => true

def step (c : Aead) (s : State) : Action → Option State
  | .enqueue id m nonce now =>
    if id = [] ∨ id ∈ s.used then none else some (enqueue c s id m nonce now)
  | .storeWrite id ok =>
    match s.storing id with
    | some (.write record) => some (storeWrite s id record ok)
    | _ => none
  | .storeRename id ok =>
    match s.storing id with
    | some .rename => some (storeRename s id ok)
    | _ => none
  | .ack id ok => some (ack s id ok)
  | .readDir who names =>
    if (s.listings who).isNone ∧ mayList s who ∧ names.Perm s.stored then
      some (s.setListing who { before := s.acked, todo := names })
    else none
  | .readFile who =>
    match s.listings who with
    | some ⟨before, id :: rest, found, none⟩ =>
      some (readFile c s who ⟨before, id :: rest, found, none⟩ id rest)
    | _ => none
  | .quarantine who ok =>
    match s.listings who with
    | some ⟨before, todo, found, some id⟩ => some (quarantine s who ⟨before, todo, found, some id⟩ id ok)
    | _ => none
  | .listed who =>
    match s.listings who with
    | some ⟨before, [], found, none⟩ => some (listed s who ⟨before, [], found, none⟩)
    | _ => none
  | .mark =>
    match s.loop with
    | .mark todo => some (mark s todo)
    | _ => none
  | .write ok =>
    match s.loop with
    | .write id record todo => some (write s id record todo ok)
    | _ => none
  | .rename ok =>
    match s.loop with
    | .rename id todo => some (rename s id todo ok)
    | _ => none
  | .send ok =>
    match s.loop with
    | .send todo => some (send s todo ok)
    | _ => none
  | .restart =>
    some { s with storing := fun _ => none, listings := fun _ => none, loop := .idle }

/-- A message that `Ack` removed is not in the spool, and no call of `Pending`
that began after that returned it. -/
structure Gone (s : State) : Prop where
  files : ∀ id ∈ s.acked, s.files id = none
  results : ∀ r ∈ s.results, ∀ p ∈ r.2, p.messageID ∉ r.1

/-- An ack does not come while the flush loop is about to write the record of the
message back. -/
def Apart : Action → Prop
  | .ack id _ => s.loop.holds id = false
  | _ => True

instance (s : State) (a : Action) : Decidable (Apart s a) := by
  unfold Apart
  split <;> infer_instance

/-- Every file has the name of its message. A message that is being stored has no
file yet; one that the loop holds was stored, and was not acked since. -/
structure Inv (s : State) : Prop where
  gone : ∀ id ∈ s.acked, s.files id = none
  results : ∀ r ∈ s.results, ∀ p ∈ r.2, p.messageID ∉ r.1
  fresh : ∀ id, id ∉ s.used → s.files id = none ∧ s.storing id = none ∧ id ∉ s.acked
  files : ∀ id r, s.files id = some r → r.messageID = id
  tmp : ∀ id r, s.tmp id = some r → r.messageID = id
  storing : ∀ id, s.storing id ≠ none → s.files id = none ∧ id ∉ s.acked
  record : ∀ id r, s.storing id = some (.write r) → r.messageID = id
  held : ∀ id, s.loop.holds id = true → id ∈ s.used ∧ s.storing id = none ∧ id ∉ s.acked
  marked : ∀ id r todo, s.loop = .write id r todo → r.messageID = id
  listings : ∀ who l, s.listings who = some l →
    (∀ id ∈ l.before, id ∈ s.acked) ∧ ∀ p ∈ l.found, p.messageID ∉ l.before

section Steps

variable {c : Aead} {s t : State} {id : Text} {who : Caller} {l : Listing} {todo : List PendingMessage}
variable {record : StoredMessage}

theorem Inv.init : Inv {} where
  gone _ h := absurd h not_mem_nil
  results _ h := absurd h not_mem_nil
  fresh _ _ := ⟨rfl, rfl, not_mem_nil⟩
  files _ _ h := by cases h
  tmp _ _ h := by cases h
  storing _ h := absurd rfl h
  record _ _ h := by cases h
  held _ h := by cases h
  marked _ _ _ h := by cases h
  listings _ _ h := by cases h

section

variable (hi : Inv s)

include hi

variable {r : StoredMessage}

theorem Inv.used (h : s.files id = some r) : id ∈ s.used := by
  by_contra hid
  cases h.symm.trans (hi.fresh id hid).1

theorem Inv.not_acked (h : s.files id = some r) : id ∉ s.acked := by
  intro hid
  cases h.symm.trans (hi.gone id hid)

theorem Inv.not_storing (h : s.files id = some r) : s.storing id = none := by
  by_contra hid
  cases h.symm.trans (hi.storing id hid).1

theorem Inv.setStoring {w : Option Storing} (hfresh : id ∉ s.used → w = none)
    (hw : w ≠ none → s.files id = none ∧ id ∉ s.acked) (hrec : ∀ r, w = some (.write r) → r.messageID = id)
    (hheld : s.loop.holds id = true → w = none) : Inv { s with storing := update s.storing id w } :=
  { hi with
    fresh := by
      intro id' hid'
      obtain ⟨hf, hst, ha⟩ := hi.fresh id' hid'
      exact ⟨hf, update_eq_none (fun he => hfresh (he ▸ hid')) hst, ha⟩
    storing := by
      intro id' h
      by_cases hne : id' = id
      · subst hne
        exact hw ((update_self id' w s.storing).symm.trans_ne h)
      · exact hi.storing id' ((update_of_ne hne ..).symm.trans_ne h)
    record := by
      intro id' r h
      obtain ⟨rfl, hr⟩ | ⟨-, h⟩ := update_cases h
      · exact hrec r hr
      · exact hi.record id' r h
    held := by
      intro id' h
      obtain ⟨hu, hst, ha⟩ := hi.held id' h
      exact ⟨hu, update_eq_none (fun he => hheld (he ▸ h)) hst, ha⟩ }

theorem Inv.use (id : Text) : Inv { s with used := id :: s.used } :=
  { hi with
    fresh := fun id' hid' => hi.fresh id' (fun hu => hid' (mem_cons_of_mem _ hu))
    held := by
      intro id' h
      obtain ⟨hu, hrest⟩ := hi.held id' h
      exact ⟨mem_cons_of_mem _ hu, hrest⟩ }

theorem Inv.enqueue (hid : id ∉ s.used) (m : Message) (nonce now : Nat) : Inv (enqueue c s id m nonce now) := by
  obtain ⟨hf, -, ha⟩ := hi.fresh id hid
  refine (hi.use id).setStoring (fun h => absurd mem_cons_self h) (fun _ => ⟨hf, ha⟩) ?_ ?_
  · rintro r ⟨⟩
    rfl
  · exact fun h => absurd (hi.held id h).1 hid

theorem Inv.doneStoring (id : Text) : Inv (doneStoring s id) :=
  hi.setStoring (fun _ => rfl) (fun h => absurd rfl h) (fun _ h => by cases h) (fun _ => rfl)

theorem Inv.setTmp (hr : record.messageID = id) : Inv (s.setTmp id record) :=
  { hi with
    tmp := forall_update_some hi.tmp hr }

theorem Inv.moveIn (hu : id ∈ s.used) (ha : id ∉ s.acked) : Inv (Flush.doneStoring (s.moveIn id) id) :=
  { hi.doneStoring id with
    gone := by
      intro id' hid'
      have hne : id' ≠ id := fun he => ha (he ▸ hid')
      exact (update_of_ne hne ..).trans (hi.gone id' hid')
    fresh := by
      intro id' hid'
      have hne : id' ≠ id := fun he => hid' (he ▸ hu)
      obtain ⟨hf, hst, ha'⟩ := (hi.doneStoring id).fresh id' hid'
      exact ⟨(update_of_ne hne ..).trans hf, hst, ha'⟩
    files := forall_update hi.files (hi.tmp id)
    tmp := by
      intro id' r h
      exact hi.tmp id' r (update_none_cases h).2
    storing := by
      intro id' h
      have hne : id' ≠ id := by
        rintro rfl
        exact h (update_self ..)
      obtain ⟨hf, ha'⟩ := (hi.doneStoring id).storing id' h
      exact ⟨(update_of_ne hne ..).trans hf, ha'⟩ }

theorem Inv.remove (id : Text) : Inv { s with files := update s.files id none } :=
  { hi with
    gone := fun id' hid' => update_none_of_none (hi.gone id' hid')
    fresh := by
      intro id' hid'
      obtain ⟨hf, hrest⟩ := hi.fresh id' hid'
      exact ⟨update_none_of_none hf, hrest⟩
    files := fun id' r h => hi.files id' r (update_none_cases h).2
    storing := by
      intro id' h
      obtain ⟨hf, ha⟩ := hi.storing id' h
      exact ⟨update_none_of_none hf, ha⟩ }

theorem Inv.setLoop {loop : Loop}
    (hheld : ∀ id, loop.holds id = true → id ∈ s.used ∧ s.storing id = none ∧ id ∉ s.acked)
    (hmarked : ∀ id r todo, loop = .write id r todo → r.messageID = id) : Inv { s with loop } :=
  { hi with held := hheld, marked := hmarked }

theorem Inv.setListing (who : Caller) (hb : ∀ id ∈ l.before, id ∈ s.acked)
    (hf : ∀ p ∈ l.found, p.messageID ∉ l.before) : Inv (s.setListing who l) :=
  { hi with
    listings := forall_update_some hi.listings ⟨hb, hf⟩ }

theorem Inv.storeWrite (h : s.storing id = some (.write record)) (ok : Bool) : Inv (storeWrite s id record ok) := by
  unfold Flush.storeWrite
  split
  · have hst : s.storing id ≠ none := by
      rw [h]
      exact some_ne_none _
    have hw := hi.setTmp (hi.record id record h)
    refine hw.setStoring ?_ (fun _ => hi.storing id hst) (fun _ h => by cases h) ?_
    · exact fun hid => absurd (hi.fresh id hid).2.1 hst
    · exact fun hheld => absurd (hi.held id hheld).2.1 hst
  · exact hi.doneStoring id

theorem Inv.storeRename (h : s.storing id = some .rename) (ok : Bool) : Inv (storeRename s id ok) := by
  have hst : s.storing id ≠ none := by
    rw [h]
    exact some_ne_none _
  unfold Flush.storeRename
  split
  · refine hi.moveIn ?_ (hi.storing id hst).2
    by_contra hid
    exact hst (hi.fresh id hid).2.1
  · exact hi.doneStoring id

theorem Inv.ack (hapart : s.loop.holds id = false) (ok : Bool) : Inv (ack s id ok) := by
  unfold Flush.ack
  split
  · next h =>
    obtain ⟨-, hsome⟩ := Bool.and_eq_true_iff.mp h
    obtain ⟨r, hr⟩ := isSome_iff_exists.mp hsome
    have hrm := hi.remove id
    exact { hrm with
      gone := by
        intro id' hid'
        rcases mem_cons.mp hid' with rfl | hid'
        · exact update_self ..
        · exact hrm.gone id' hid'
      fresh := by
        intro id' hid'
        obtain ⟨hf, hst, ha⟩ := hrm.fresh id' hid'
        have hne : id' ≠ id := by
          rintro rfl
          exact hid' (hi.used hr)
        exact ⟨hf, hst, not_mem_cons_of_ne_of_not_mem hne ha⟩
      storing := by
        intro id' h'
        obtain ⟨hf, ha⟩ := hrm.storing id' h'
        have hne : id' ≠ id := by
          rintro rfl
          exact h' (hi.not_storing hr)
        exact ⟨hf, not_mem_cons_of_ne_of_not_mem hne ha⟩
      held := by
        intro id' h'
        obtain ⟨hu, hst, ha⟩ := hi.held id' h'
        have hne : id' ≠ id := by
          rintro rfl
          rw [hapart] at h'
          cases h'
        exact ⟨hu, hst, not_mem_cons_of_ne_of_not_mem hne ha⟩
      listings := by
        intro who l hl
        obtain ⟨hb, hf⟩ := hi.listings who l hl
        exact ⟨fun id' hid' => mem_cons_of_mem _ (hb id' hid'), hf⟩ }
  · exact hi

section

variable (hl : s.listings who = some l)

include hl

theorem Inv.readFile (id : Text) (rest : List Text) :
    Inv (readFile c s who l id rest) := by
  obtain ⟨hb, hf⟩ := hi.listings who l hl
  unfold Flush.readFile
  split
  · next p hp =>
    obtain ⟨r, hr, hp⟩ := bind_eq_some_iff.mp hp
    obtain ⟨envelope, -, rfl⟩ := map_eq_some_iff.mp hp
    refine hi.setListing who hb ?_
    intro p' hp'
    rcases mem_append.mp hp' with hp' | hp'
    · exact hf p' hp'
    · rw [mem_singleton.mp hp', hi.files id r hr]
      -- the file was there, so that its message was not acked
      exact fun hid => hi.not_acked hr (hb id hid)
  · exact hi.setListing who hb hf

theorem Inv.quarantine (id : Text) (ok : Bool) : Inv (quarantine s who l id ok) := by
  obtain ⟨hb, hf⟩ := hi.listings who l hl
  have hset := hi.setListing who (l := { l with bad := none }) hb hf
  cases ok with
  | true => exact hset.remove id
  | false => exact hset

theorem Inv.listed : Inv (listed s who l) := by
  obtain ⟨hb, hf⟩ := hi.listings who l hl
  have hr : ∀ r ∈ s.results ++ [(l.before, l.found.insertionSort (fun p q => older p q = true))],
      ∀ p ∈ r.2, p.messageID ∉ r.1 := by
    intro r hr p hp
    rcases mem_append.mp hr with hr | hr
    · exact hi.results r hr p hp
    · cases mem_singleton.mp hr
      exact hf p (mem_insertionSort _ |>.mp hp)
  have hls : ∀ who' l', update s.listings who none who' = some l' →
      (∀ id ∈ l'.before, id ∈ s.acked) ∧ ∀ p ∈ l'.found, p.messageID ∉ l'.before :=
    fun who' l' h => hi.listings who' l' (update_none_cases h).2
  cases who with
  | flush =>
    exact { hi with
      results := hr
      listings := hls
      held := fun _ h => by cases h
      marked := fun _ _ _ h => by cases h }
  | count k => exact { hi with results := hr, listings := hls }

end

theorem Inv.mark (todo : List PendingMessage) : Inv (mark s todo) := by
  cases todo with
  | nil => exact hi.setLoop (fun _ h => by cases h) (fun _ _ _ h => by cases h)
  | cons p ps =>
    simp only [Flush.mark]
    split
    · next r hr =>
      refine hi.setLoop ?_ ?_
      · intro id h
        cases of_decide_eq_true h
        exact ⟨hi.used hr, hi.not_storing hr, hi.not_acked hr⟩
      · intro id r' todo h
        cases h
        exact hi.files _ r hr
    · exact hi.setLoop (fun _ h => by cases h) (fun _ _ _ h => by cases h)

theorem Inv.sending : Inv { s with loop := .send todo } :=
  hi.setLoop (fun _ h => by cases h) (fun _ _ _ h => by cases h)

theorem Inv.write (h : s.loop = .write id record todo) (ok : Bool) : Inv (write s id record todo ok) := by
  unfold Flush.write
  split
  · have hw := hi.setTmp (hi.marked id record todo h)
    refine hw.setLoop ?_ (fun _ _ _ h => by cases h)
    intro id' h'
    apply hi.held
    rw [h]
    exact h'
  · exact hi.sending

theorem Inv.rename (h : s.loop = .rename id todo) (ok : Bool) : Inv (rename s id todo ok) := by
  obtain ⟨hu, hst, ha⟩ := hi.held id (by rw [h]; exact decide_eq_true rfl)
  unfold Flush.rename
  split
  · have hdone : Flush.doneStoring (s.moveIn id) id = s.moveIn id := by
      have hsame : update s.storing id none = s.storing := by
        rw [← hst, update_eq_self]
      simp only [Flush.doneStoring, State.moveIn, hsame]
    have hmoved := hi.moveIn hu ha
    rw [hdone] at hmoved
    exact hmoved.sending
  · exact hi.sending

end

theorem step_inv (s : State) (a : Action) (t : State) (hi : Inv s) (hapart : Apart s a)
    (h : step c s a = some t) : Inv t := by
  cases a with
  | enqueue id m nonce now =>
    obtain ⟨hid, ht⟩ := ite_none_left_eq_some.mp h
    cases ht
    exact hi.enqueue (fun hu => hid (.inr hu)) m nonce now
  | storeWrite id ok =>
    simp only [step] at h
    split at h
    · next hst =>
      cases h
      exact hi.storeWrite hst ok
    · cases h
  | storeRename id ok =>
    simp only [step] at h
    split at h
    · next hst =>
      cases h
      exact hi.storeRename hst ok
    · cases h
  | ack id ok =>
    cases h
    exact hi.ack hapart ok
  | readDir who names =>
    obtain ⟨-, ht⟩ := ite_none_right_eq_some.mp h
    cases ht
    exact hi.setListing who (fun _ hid => hid) (fun _ hp => absurd hp not_mem_nil)
  | readFile who =>
    simp only [step] at h
    split at h
    · next hl =>
      cases h
      exact hi.readFile hl _ _
    · cases h
  | quarantine who ok =>
    simp only [step] at h
    split at h
    · next hl =>
      cases h
      exact hi.quarantine hl _ ok
    · cases h
  | listed who =>
    simp only [step] at h
    split at h
    · next hl =>
      cases h
      exact hi.listed hl
    · cases h
  | mark =>
    simp only [step] at h
    split at h
    · cases h
      exact hi.mark _
    · cases h
  | write ok =>
    simp only [step] at h
    split at h
    · next hl =>
      cases h
      exact hi.write hl ok
    · cases h
  | rename ok =>
    simp only [step] at h
    split at h
    · next hl =>
      cases h
      exact hi.rename hl ok
    · cases h
  | send ok =>
    simp only [step] at h
    split at h
    · cases h
      refine hi.setLoop ?_ ?_ <;> cases ok <;> intros <;> contradiction
    · cases h
  | restart =>
    cases h
    exact { hi with
      fresh := fun id hid => ⟨(hi.fresh id hid).1, rfl, (hi.fresh id hid).2.2⟩
      storing := fun _ h => absurd rfl h
      record := fun _ _ h => absurd h.symm (some_ne_none _)
      held := fun _ h => absurd h Bool.false_ne_true
      marked := fun _ _ _ h => absurd h Loop.noConfusion
      listings := fun _ _ h => absurd h.symm (some_ne_none _) }

/-- In a run whose acks come apart from the marking of their messages, whatever is
acked is gone. -/
theorem gone_of_apart (c : Aead) (as : List Action) {s : State} (hr : run (step c) {} as = some s)
    (hapart : Meets (step c) Apart {} as) : Gone s := by
  have hi : Inv s := run_invariant step_inv Inv.init hapart hr
  exact ⟨hi.gone, hi.results⟩

end Steps

def stored (id : Text) : List Action :=
  [.enqueue id ⟨"command_result".toList, "ok".toList⟩ 1 1, .storeWrite id true, .storeRename id true]

def flushed : List Action :=
  stored "m".toList ++
    [Action.readDir .flush ["m".toList], Action.readFile .flush, Action.listed .flush,
      Action.mark, Action.write true, Action.rename true, Action.send true, Action.ack "m".toList true,
      Action.mark, Action.readDir .flush [], Action.listed .flush]

theorem flushed_gone : ∃ s ∈ run (step clear) {} flushed, Gone s ∧ s.acked = ["m".toList] := by
  refine ⟨_, rfl, ?_, rfl⟩
  exact gone_of_apart clear flushed rfl (by decide)

/-- The ack comes after the loop has read the record, and before it writes it
back. -/
def crossed : List Action :=
  stored "m".toList ++
    [Action.readDir .flush ["m".toList], Action.readFile .flush, Action.listed .flush,
      Action.mark, Action.ack "m".toList true, Action.write true, Action.rename true, Action.send true,
      Action.mark, Action.readDir .flush ["m".toList], Action.readFile .flush, Action.listed .flush]

theorem acked_message_returns : ∃ s ∈ run (step clear) {} crossed,
    "m".toList ∈ s.acked ∧ (s.files "m".toList).isSome = true ∧
      ∃ r ∈ s.results, ∃ p ∈ r.2, p.messageID = "m".toList ∧ "m".toList ∈ r.1 := by
  refine ⟨_, rfl, ?_⟩
  decide

end Wireops.Worker.Flush
