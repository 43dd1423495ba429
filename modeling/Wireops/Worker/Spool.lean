import Mathlib.Data.Char
import Mathlib.Data.List.Lex
import Mathlib.Data.List.Sort
import Wireops.Lib.Crypto
import Wireops.Lib.Files
import Wireops.Lib.Steps
import Wireops.Lib.Table

namespace Wireops.Worker.Spool

open Option List Lib.Crypto Lib.Files Lib.Steps Lib.Strings Lib.Table

structure StoredMessage where
  messageID : Text
  kind : Text
  createdAt : Nat
  attempts : Nat
  nonce : Nat
  ciphertext : Text
  deriving DecidableEq

structure PendingMessage where
  messageID : Text
  kind : Text
  createdAt : Nat
  attempts : Nat
  envelope : Text
  deriving DecidableEq

structure Message where
  kind : Text
  envelope : Text
  deriving DecidableEq, Repr

variable (c : Aead) (s : State) (messageID : Text)

def newRecord (m : Message) (nonce now : Nat) : StoredMessage where
  messageID := messageID
  kind := m.kind
  createdAt := now
  attempts := 0
  nonce := nonce
  ciphertext := c.encrypt nonce messageID m.envelope

def decryptEnvelope (record : StoredMessage) : Option Text :=
  c.decrypt record.nonce record.messageID record.ciphertext

def pendingOf (record : StoredMessage) : Option PendingMessage :=
  (decryptEnvelope c record).map fun envelope =>
    ⟨record.messageID, record.kind, record.createdAt, record.attempts, envelope⟩

/-- A call of `writeRecordAt`. It is made by `Enqueue` for a message, or by
`MarkAttempt` for none. -/
structure Job where
  path : Text
  record : StoredMessage
  message : Option Message
  deriving DecidableEq

/-- The system call that comes next. -/
inductive Phase where
  | idle
  | write (j : Job)
  | rename (j : Job) (i : Nat)
  | syncFile (j : Job) (i : Nat)
  | syncDir (j : Job)
  deriving DecidableEq

/-- The pending directory, the names it has had, whether it exists, and the
messages whose `Enqueue` has returned and that were not acknowledged. -/
structure State where
  disk : Disk Text StoredMessage := {}
  names : List Text := []
  present : Bool := true
  phase : Phase := .idle
  promised : Text → Option Message := fun _ => none

/-- One call is made at a time. `ok` tells whether a system call succeeds;
`visit` is the visit of one file by `Pending`. -/
inductive Action where
  | enqueue (messageID : Text) (m : Message) (nonce now : Nat)
  | markAttempt (messageID : Text)
  | writeFile (ok : Bool)
  | rename (ok : Bool)
  | syncFile (ok : Bool)
  | syncDir (ok : Bool)
  | ack (messageID : Text) (ok : Bool)
  | visit (messageID : Text) (ok : Bool)
  | purge
  | stop
  | crash (out : Outcome Text)

def readPending : Option PendingMessage :=
  (s.disk.read messageID).bind (pendingOf c)

def older (p q : PendingMessage) : Bool :=
  if p.createdAt = q.createdAt then p.messageID ≤ q.messageID else p.createdAt < q.createdAt

def pending : List PendingMessage :=
  (s.names.filterMap (readPending c s)).insertionSort (fun p q => older p q = true)

def finish : State := { s with phase := .idle }

def keepPromise (j : Job) : Text → Option Message :=
  match j.message with
  | none => s.promised
  | some m => Function.update s.promised j.path (some m)

def writeFile (ok : Bool) : Option State :=
  match s.phase with
  | .write j =>
    if ok && s.present then some { s with disk := s.disk.write j.record, phase := .rename j s.disk.next }
    else some (finish s)
  | _ => none

def rename (s : State) (ok : Bool) : Option State :=
  match s.phase with
  | .rename j i =>
    if ok then
      some { s with disk := s.disk.link j.path (some i), names := s.names.insert j.path, phase := .syncFile j i }
    else some (finish s)
  | _ => none

def syncFile (s : State) (ok : Bool) : Option State :=
  match s.phase with
  | .syncFile j i =>
    if ok then some { s with disk := s.disk.syncFile i, phase := .syncDir j } else some (finish s)
  | _ => none

def syncDir (s : State) (ok : Bool) : Option State :=
  match s.phase with
  | .syncDir j =>
    if ok then some { s with disk := s.disk.syncDir, phase := .idle, promised := keepPromise s j }
    else some (finish s)
  | _ => none

def enqueue (m : Message) (nonce now : Nat) : State :=
  if messageID = [] then s
  else { s with phase := .write ⟨messageID, newRecord c messageID m nonce now, some m⟩ }

def markAttempt : State :=
  match s.disk.read messageID with
  | none => s
  | some record =>
    { s with phase := .write ⟨messageID, { record with attempts := record.attempts + 1 }, none⟩ }

def ack (ok : Bool) : State :=
  if messageID = [] ∨ !ok then s
  else { s with
    disk := s.disk.link messageID none, promised := Function.update s.promised messageID none }

/-- A file that cannot be read or decrypted is moved out of the directory. -/
def visit (ok : Bool) : State :=
  match readPending c s messageID with
  | some _ => s
  | none => if ok then { s with disk := s.disk.link messageID none } else s

def purge : State :=
  { s with
    disk := { s.disk with entries := fun _ => none, past := s.disk.candidates }
    present := false
    promised := fun _ => none }

def step : Action → Option State
  | .enqueue messageID m nonce now =>
    if s.phase = .idle then some (enqueue c s messageID m nonce now) else none
  | .markAttempt messageID => if s.phase = .idle then some (markAttempt s messageID) else none
  | .writeFile ok => writeFile s ok
  | .rename ok => rename s ok
  | .syncFile ok => syncFile s ok
  | .syncDir ok => syncDir s ok
  | .ack messageID ok => if s.phase = .idle then some (ack s messageID ok) else none
  | .visit messageID ok => if s.phase = .idle then some (visit c s messageID ok) else none
  | .purge => if s.phase = .idle then some (purge s) else none
  | .stop => some { s with phase := .idle, present := true }
  | .crash out => some { s with disk := s.disk.crash out, phase := .idle, present := true }

/-- `Pending` returns every message that was promised, with its content. -/
def Delivers : Prop :=
  ∀ id m, s.promised id = some m → ∃ p ∈ pending c s, p.messageID = id ∧ p.kind = m.kind ∧ p.envelope = m.envelope

/-- The files of the messages that were promised are synced, whichever of them a
crash brings back. -/
def Settled (s : State) : Prop := ∀ id ∈ s.names, s.promised id ≠ none → s.disk.Settled id

/-- A crash comes when the promised messages are settled, and an identifier in use
is not given to another message. -/
def Careful : Action → Prop
  | .enqueue messageID m _ _ => ∀ m' ∈ s.promised messageID, m' = m
  | .crash _ => Settled s
  | _ => True

instance (s : State) : Decidable (Settled s) :=
  inferInstanceAs (Decidable (∀ id ∈ s.names, s.promised id ≠ none → s.disk.Settled id))

instance (s : State) (a : Action) : Decidable (Careful s a) := by
  unfold Careful
  split <;> infer_instance

structure Carries (c : Aead) (id : Text) (m : Message) (r : StoredMessage) : Prop where
  messageID : r.messageID = id
  kind : r.kind = m.kind
  envelope : decryptEnvelope c r = some m.envelope

structure JobOk (c : Aead) (s : State) (j : Job) : Prop where
  named : j.record.messageID = j.path
  promised : ∀ m, s.promised j.path = some m → Carries c j.path m j.record
  message : ∀ m, j.message = some m → Carries c j.path m j.record

def Written (j : Job) (i : Nat) : Prop := i < s.disk.next ∧ (s.disk.files i).data = some j.record

def Linked (j : Job) (i : Nat) : Prop :=
  Written s j i ∧ s.disk.entries j.path = some i ∧ j.path ∈ s.names

def PhaseOk : Phase → Prop
  | .idle => True
  | .write j => JobOk c s j
  | .rename j i => JobOk c s j ∧ Written s j i
  | .syncFile j i => JobOk c s j ∧ Linked s j i
  | .syncDir j => JobOk c s j ∧ ∃ i, Linked s j i

structure Inv (c : Aead) (s : State) : Prop where
  names : ∀ id m, s.promised id = some m → id ∈ s.names
  holds : ∀ id m, s.promised id = some m → s.disk.Holds id (Carries c id m)
  named : ∀ id, s.disk.Only id (fun r => r.messageID = id)
  phase : PhaseOk c s s.phase

section Steps

variable {c : Aead} {s t : State} {id : Text} {m : Message} {a : Action} {ok : Bool}

theorem carries_newRecord (nonce now : Nat) : Carries c id m (newRecord c id m nonce now) where
  messageID := rfl
  kind := rfl
  envelope := c.decrypt_encrypt nonce id m.envelope

theorem readPending_of_holds (h : s.disk.Holds id (Carries c id m)) :
    ∃ p, readPending c s id = some p ∧ p.messageID = id ∧ p.kind = m.kind ∧ p.envelope = m.envelope := by
  obtain ⟨r, hr, hcarries⟩ := h.read
  refine ⟨⟨r.messageID, r.kind, r.createdAt, r.attempts, m.envelope⟩, ?_, hcarries.messageID, hcarries.kind, rfl⟩
  rw [readPending, hr, bind_some, pendingOf, hcarries.envelope]
  rfl

theorem Inv.delivers (hi : Inv c s) : Delivers c s := by
  intro id m hm
  obtain ⟨p, hp, hcontent⟩ := readPending_of_holds (hi.holds id m hm)
  refine ⟨p, ?_, hcontent⟩
  rw [pending, mem_insertionSort]
  exact mem_filterMap.mpr ⟨id, hi.names id m hm, hp⟩

theorem Inv.init : Inv c {} where
  names _ _ h := by cases h
  holds _ _ h := by cases h
  named _ o ho i hi := by
    cases ho with
    | head => cases hi
    | tail _ ho => cases ho
  phase := trivial

section

variable (hi : Inv c s)

include hi

theorem Inv.finish : Inv c (finish s) := ⟨hi.names, hi.holds, hi.named, trivial⟩

theorem Inv.enqueue (hcareful : ∀ m' ∈ s.promised id, m' = m)
    (nonce now : Nat) : Inv c (enqueue c s id m nonce now) := by
  unfold Spool.enqueue
  split
  · exact hi
  · refine ⟨hi.names, hi.holds, hi.named, ⟨rfl, ?_, ?_⟩⟩
    · intro m' hm'
      cases hcareful m' hm'
      exact carries_newRecord nonce now
    · intro m' hm'
      cases hm'
      exact carries_newRecord nonce now

theorem Inv.markAttempt : Inv c (markAttempt s id) := by
  unfold Spool.markAttempt
  split
  · exact hi
  · rename_i r hr
    refine ⟨hi.names, hi.holds, hi.named, ⟨?_, ?_, ?_⟩⟩
    · exact (hi.named id).read (x := r) hr
    · intro m hm
      obtain ⟨r', hr', hcarries⟩ := (hi.holds id m hm).read
      cases hr.symm.trans hr'
      exact { hcarries with }
    · intro m hm
      cases hm

theorem Inv.ack (hidle : s.phase = .idle) : Inv c (ack s id ok) := by
  unfold Spool.ack
  split
  · exact hi
  · refine ⟨?_, ?_, fun id' => (hi.named id').unlink, ?_⟩
    · intro id' m h
      obtain ⟨_, h⟩ := update_none_cases h
      exact hi.names id' m h
    · intro id' m h
      obtain ⟨hne, h⟩ := update_none_cases h
      exact (hi.holds id' m h).link_of_ne hne
    · change PhaseOk c _ s.phase
      rw [hidle]
      trivial

theorem Inv.visit (hidle : s.phase = .idle) : Inv c (visit c s id ok) := by
  unfold Spool.visit
  split
  · exact hi
  · rename_i hnone
    split
    · refine ⟨hi.names, ?_, fun id' => (hi.named id').unlink, ?_⟩
      · intro id' m h
        have hne : id' ≠ id := by
          rintro rfl
          obtain ⟨p, hp, _⟩ := readPending_of_holds (hi.holds id' m h)
          cases hnone.symm.trans hp
        exact (hi.holds id' m h).link_of_ne hne
      · change PhaseOk c _ s.phase
        rw [hidle]
        trivial
    · exact hi

theorem Inv.purge (hidle : s.phase = .idle) : Inv c (purge s) where
  names _ _ h := by cases h
  holds _ _ h := by cases h
  named id o ho i hi' := by
    cases ho with
    | head => cases hi'
    | tail _ ho => exact hi.named id o ho i hi'
  phase := by
    change PhaseOk c _ s.phase
    rw [hidle]
    trivial

theorem Inv.writeFile (h : writeFile s ok = some t) : Inv c t := by
  unfold Spool.writeFile at h
  split at h
  · rename_i j hphase
    have hjob := hi.phase
    rw [hphase] at hjob
    split at h
    · cases h
      refine ⟨hi.names, fun id m hm => (hi.holds id m hm).write, fun id => (hi.named id).write, ⟨{ hjob with }, ?_⟩⟩
      exact ⟨Nat.lt_succ_self _, congrArg File.data Disk.files_write_self⟩
    · cases h
      exact hi.finish
  · cases h

theorem Inv.rename (h : rename s ok = some t) : Inv c t := by
  unfold Spool.rename at h
  split at h
  · rename_i j i hphase
    have hok := hi.phase
    rw [hphase] at hok
    obtain ⟨hjob, hwritten⟩ := hok
    split at h
    · cases h
      refine ⟨?_, ?_, ?_, ⟨{ hjob with }, hwritten, Disk.entries_link_self, mem_insert_self⟩⟩
      · intro id m hm
        exact mem_insert_of_mem (hi.names id m hm)
      · intro id m hm
        by_cases hid : id = j.path
        · subst hid
          exact (hi.holds _ m hm).link_self hwritten.1 hwritten.2 (hjob.promised m hm)
        · exact (hi.holds id m hm).link_of_ne hid
      · intro id
        by_cases hid : id = j.path
        · subst hid
          refine (hi.named _).link_self ?_
          intro i' hi'
          cases hi'
          refine ⟨hwritten.1, ?_⟩
          intro r hr
          cases hwritten.2.symm.trans hr
          exact hjob.named
        · exact (hi.named id).link_of_ne hid
    · cases h
      exact hi.finish
  · cases h

theorem Inv.syncFile (h : syncFile s ok = some t) : Inv c t := by
  unfold Spool.syncFile at h
  split at h
  · rename_i j i hphase
    have hok := hi.phase
    rw [hphase] at hok
    obtain ⟨hjob, ⟨hlt, hdata⟩, hentry, hname⟩ := hok
    split at h
    · cases h
      refine ⟨hi.names, fun id m hm => (hi.holds id m hm).syncFile, fun id => (hi.named id).syncFile,
        ⟨{ hjob with }, i, ?_⟩⟩
      exact ⟨⟨hlt, (Disk.data_syncFile i).trans hdata⟩, hentry, hname⟩
    · cases h
      exact hi.finish
  · cases h

end

theorem keepPromise_cases {j : Job} (h : keepPromise s j id = some m) :
    s.promised id = some m ∨ id = j.path ∧ j.message = some m := by
  unfold keepPromise at h
  cases hmessage : j.message with
  | none =>
    rw [hmessage] at h
    exact .inl h
  | some m' =>
    rw [hmessage] at h
    obtain ⟨rfl, hnew⟩ | ⟨_, hold⟩ := update_cases h
    · exact .inr ⟨rfl, hnew⟩
    · exact .inl hold

theorem Inv.syncDir (hi : Inv c s) (h : syncDir s ok = some t) : Inv c t := by
  unfold Spool.syncDir at h
  split at h
  · rename_i j hphase
    have hok := hi.phase
    rw [hphase] at hok
    obtain ⟨hjob, i, ⟨hlt, hdata⟩, hentry, hname⟩ := hok
    split at h
    · cases h
      refine ⟨?_, ?_, fun id => (hi.named id).syncDir, trivial⟩
      · intro id m hm
        obtain hold | ⟨rfl, _⟩ := keepPromise_cases hm
        · exact hi.names id m hold
        · exact hname
      · intro id m hm
        obtain hold | ⟨rfl, hnew⟩ := keepPromise_cases hm
        · exact (hi.holds id m hold).syncDir
        · exact Disk.holds_syncDir hentry hlt hdata (hjob.message m hnew)
    · cases h
      exact hi.finish
  · cases h

theorem Inv.crash (hi : Inv c s) (hsettled : Settled s) (out : Outcome Text) :
    Inv c { s with disk := s.disk.crash out, phase := .idle, present := true } where
  names := hi.names
  holds id m hm := by
    have hpromised : s.promised id ≠ none := by
      rw [hm]
      exact some_ne_none m
    exact (hi.holds id m hm).crash (hsettled id (hi.names id m hm) hpromised) out
  named id := (hi.named id).crash out
  phase := trivial

theorem inv_step (hi : Inv c s) (hcareful : Careful s a) (h : step c s a = some t) : Inv c t := by
  cases a with
  | enqueue id m nonce now =>
    obtain ⟨_, ht⟩ := ite_none_right_eq_some.mp h
    cases ht
    exact hi.enqueue hcareful nonce now
  | markAttempt id =>
    obtain ⟨_, ht⟩ := ite_none_right_eq_some.mp h
    cases ht
    exact hi.markAttempt
  | writeFile ok => exact hi.writeFile h
  | rename ok => exact hi.rename h
  | syncFile ok => exact hi.syncFile h
  | syncDir ok => exact hi.syncDir h
  | ack id ok =>
    obtain ⟨hidle, ht⟩ := ite_none_right_eq_some.mp h
    cases ht
    exact hi.ack hidle
  | visit id ok =>
    obtain ⟨hidle, ht⟩ := ite_none_right_eq_some.mp h
    cases ht
    exact hi.visit hidle
  | purge =>
    obtain ⟨hidle, ht⟩ := ite_none_right_eq_some.mp h
    cases ht
    exact hi.purge hidle
  | stop =>
    cases h
    exact ⟨hi.names, hi.holds, hi.named, trivial⟩
  | crash out =>
    cases h
    exact hi.crash hcareful out

theorem settled_of_delivers (hi : Inv c s) (hall : ∀ out t, step c s (.crash out) = some t → Delivers c t) :
    Settled s := by
  intro id _ hpromised
  by_contra hsettled
  obtain ⟨out, hlost⟩ := Disk.exists_lost_of_not_settled hsettled
  obtain ⟨m, hm⟩ := ne_none_iff_exists'.mp hpromised
  obtain ⟨p, hp, hid, _⟩ := hall out _ rfl id m hm
  rw [pending, mem_insertionSort] at hp
  obtain ⟨id', _, hread⟩ := mem_filterMap.mp hp
  obtain ⟨r, hr, hpending⟩ := bind_eq_some_iff.mp hread
  obtain ⟨envelope, _, rfl⟩ := map_eq_some_iff.mp hpending
  -- the file is the one of the message, as its record names it
  have hname : id' = id := (((hi.named id').crash out).read hr).symm.trans hid
  subst hname
  cases hlost.symm.trans hr

/-- A history whose crashes find the promised messages settled delivers them all,
and no outcome of one more crash loses a message if and only if they are settled
again. -/
theorem delivers_of_careful {as : List Action} (hr : run (step c) {} as = some s)
    (hcareful : Meets (step c) Careful {} as) :
    Delivers c s ∧ ((∀ out t, step c s (.crash out) = some t → Delivers c t) ↔ Settled s) := by
  have hi : Inv c s := run_invariant (fun _ _ _ hi hcareful h => inv_step hi hcareful h) Inv.init hcareful hr
  refine ⟨hi.delivers, settled_of_delivers hi, ?_⟩
  intro hsettled out t h
  cases h
  exact (hi.crash hsettled out).delivers

end Steps

def result : Message := ⟨"command_result".toList, "ok".toList⟩

def sent : List Action :=
  [.enqueue "m".toList result 1 1, .writeFile true, .rename true, .syncFile true, .syncDir true,
    .markAttempt "m".toList, .writeFile true, .rename true, .syncFile true, .crash {}]

theorem sent_delivers : ∃ s, run (step clear) {} sent = some s ∧ Delivers clear s ∧
    ((∀ out t, step clear s (.crash out) = some t → Delivers clear t) ↔ Settled s) :=
  ⟨_, rfl, @delivers_of_careful clear _ sent rfl (by decide)⟩

/-- The crash comes before the file is synced, and leaves the new name without
the data. -/
def torn : List Action :=
  [.enqueue "m".toList result 1 1, .writeFile true, .rename true, .syncFile true, .syncDir true,
    .markAttempt "m".toList, .writeFile true, .rename true, .crash { lost := fun _ => true }]

theorem torn_loses : ∃ s, run (step clear) {} torn = some s ∧ s.promised "m".toList = some result ∧
    pending clear s = [] ∧ ¬ Delivers clear s := by
  refine ⟨_, rfl, rfl, rfl, ?_⟩
  intro h
  obtain ⟨p, hp, _⟩ := h "m".toList result rfl
  cases hp

end Wireops.Worker.Spool
