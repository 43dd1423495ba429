import Wireops.Server.Inbound

namespace Wireops.Server.Duplicates

open Option Function List Protocol Lib.Steps Lib.Table
open Server.Inbound hiding State apply effect

/-- The two messages that a worker keeps in its spool until they are acked. -/
inductive Spooled where
  | jobCompleted (m : JobCompletedMessage)
  | result (r : CommandResult)

namespace Spooled

def messageID : Spooled → String
  | .jobCompleted m => m.messageID
  | .result r => r.messageID

def message : Spooled → Message
  | .jobCompleted m => .jobCompleted m
  | .result r => .result r

def effect (s : Inbound.State) : Spooled → Option Effect
  | .jobCompleted m => if (s.runs m.jobRunID).isSome then some (.finishRun m) else none
  | .result r =>
    match s.dispatch.pending.lookup r.commandID with
    | some _ => completion s r
    | none => (terminalOpenSessionIDFromCommandID r.commandID).map (fun id => .openRejected id r.error)

def apply (s : Inbound.State) (m : Spooled) : Inbound.State :=
  match m.effect s with
  | none => s
  | some e => Inbound.apply s e

end Spooled

/-- Where the branch of the read loop for a copy is: before the check for
duplicates, before `SendAck`, before the message is given on, or at its end. The
flags say whether the other of the two is to come. -/
inductive Phase where
  | read
  | acking (applies : Bool)
  | applying (acks : Bool)
  | handled
  deriving DecidableEq

namespace Phase

def owes : Phase → Bool
  | .acking b => b
  | .applying _ => true
  | _ => false

/-- The message will not be given on any more. -/
def passed : Phase → Bool
  | .acking b => !b
  | .handled => true
  | _ => false

def answered : Phase → Bool
  | .applying b => !b
  | .handled => true
  | _ => false

end Phase

/-- The branch of a completed job acks first, that of a result last. -/
def Spooled.begin : Spooled → Phase
  | .jobCompleted _ => .acking true
  | .result _ => .applying true

structure Copy where
  worker : WorkerID
  msg : Spooled
  phase : Phase := .read

def Copy.name (c : Copy) : String × String := (c.worker.id, c.msg.messageID)

/-- The server and the copies it has read. It keeps, with the time and the copy,
the messages it `saw` for the first time or anew and those it `applied`; the
copies that were `acked`, and those left `unsent` as no connection of the worker
was registered. -/
structure System where
  server : Inbound.State := {}
  copies : Nat → Option Copy := fun _ => none
  saw : List ((String × String) × (Nat × Nat)) := []
  applied : List ((String × String) × (Nat × Nat)) := []
  acked : List Nat := []
  unsent : List Nat := []

def System.setCopy (s : System) (k : Nat) (c : Copy) : System :=
  { s with copies := update s.copies k (some c) }

def start (server : Inbound.State) : System :=
  { server := { server with seenMessages := fun _ => none } }

def arrive (s : System) (k : Nat) (worker : WorkerID) (msg : Spooled) : System :=
  { s.setCopy k { worker, msg } with server := updateLastSeen s.server worker.id }

def check (s : System) (k : Nat) (c : Copy) : System :=
  let noted := markSeen s.server c.worker.id c.msg.messageID
  if duplicate s.server c.worker.id c.msg.messageID then
    { s.setCopy k { c with phase := .acking false } with server := noted }
  else
    { s.setCopy k { c with phase := c.msg.begin } with
      server := noted
      saw := s.saw ++ [(c.name, (s.server.now, k))] }

def ack (s : System) (k : Nat) (c : Copy) (applies : Bool) : System :=
  let absent := (s.server.dispatch.connections c.worker.id).isNone
  { s.setCopy k { c with phase := if applies then .applying false else .handled } with
    server := sendAck s.server c.worker.id c.msg.messageID
    acked := if blank c.msg.messageID || absent then s.acked else k :: s.acked
    unsent := if absent then k :: s.unsent else s.unsent }

def apply (s : System) (k : Nat) (c : Copy) (acks : Bool) : System :=
  { s.setCopy k { c with phase := if acks then .acking false else .handled } with
    server := c.msg.apply s.server
    applied := s.applied ++ [(c.name, (s.server.now, k))] }

/-- The steps of the branches for the copies, in any order of the connections.
`dispatch` is a step of the command channel, `schedule` a new job run, `other`
the read loop's turn for another message. -/
inductive Action where
  | tick (d : Nat)
  | dispatch (a : Dispatch.Action)
  | schedule (runID : String) (r : JobRun)
  | other (worker : WorkerID) (m : Message)
  | arrive (copy : Nat) (worker : WorkerID) (m : Spooled)
  | check (copy : Nat)
  | ack (copy : Nat)
  | apply (copy : Nat)

def isResult : Dispatch.Action → Bool
  | .result _ _ => true
  | _ => false

def isSpooled : Message → Bool
  | .jobCompleted _ | .result _ => true
  | _ => false

variable (decode : String → Option (List UInt8))

def step (s : System) : Action → Option System
  | .tick d => some { s with server := { s.server with now := s.server.now + d } }
  | .dispatch a =>
    if isResult a then none
    else (Dispatch.step s.server.dispatch a).map
      (fun d => { s with server := { s.server with dispatch := d } })
  | .schedule runID r =>
    some { s with server := { s.server with runs := update s.server.runs runID (some r) } }
  | .other w m =>
    if isSpooled m then none else some { s with server := receive decode s.server w.id m }
  | .arrive k w m => if (s.copies k).isNone then some (arrive s k w m) else none
  | .check k =>
    match s.copies k with
    | some ⟨w, m, .read⟩ => some (check s k ⟨w, m, .read⟩)
    | _ => none
  | .ack k =>
    match s.copies k with
    | some ⟨w, m, .acking b⟩ => some (ack s k ⟨w, m, .acking b⟩ b)
    | _ => none
  | .apply k =>
    match s.copies k with
    | some ⟨w, m, .applying b⟩ => some (apply s k ⟨w, m, .applying b⟩ b)
    | _ => none

/-! The branch of one copy, taken without a pause, is the turn of the read loop. -/

variable (s : Inbound.State)

theorem effect_message (w : String) (m : Spooled) : Inbound.effect decode s w m.message =
      if duplicate s w m.messageID then none else m.effect s := by
  cases m <;> rfl

structure Same (s t : Inbound.State) : Prop where
  now : t.now = s.now
  seen : t.seenMessages = s.seenMessages

theorem Same.trans {s t u : Inbound.State} (h : Same s t) (h' : Same t u) : Same s u :=
  ⟨h'.now.trans h.now, h'.seen.trans h.seen⟩

theorem same_apply (e : Effect) : Same s (Inbound.apply s e) := by
  cases e <;> exact ⟨rfl, rfl⟩

theorem same_spooled (m : Spooled) : Same s (m.apply s) := by
  unfold Spooled.apply
  split
  · exact ⟨rfl, rfl⟩
  · exact same_apply s _

theorem same_sendAck (w messageID : String) : Same s (sendAck s w messageID) := by
  unfold sendAck
  split <;> exact ⟨rfl, rfl⟩

theorem same_receive (w : String) {m : Message} (hm : isSpooled m = false) : Same s (receive decode s w m) := by
  have hl : Same s (locally (updateLastSeen s w) w m) := by
    cases m with
    | jobCompleted | result => cases hm
    | _ => exact ⟨rfl, rfl⟩
  unfold receive
  cases Inbound.effect decode s w m with
  | none => exact hl
  | some e => exact hl.trans (same_apply _ e)

theorem sendAck_apply (w messageID : String) (e : Effect) :
    sendAck (Inbound.apply s e) w messageID = Inbound.apply (sendAck s w messageID) e := by
  have hc : (Inbound.apply s e).dispatch.connections = s.dispatch.connections := by
    cases e with
    | complete r =>
      change (Dispatch.deliver _ _).connections = _
      unfold Dispatch.deliver
      split <;> rfl
    | _ => rfl
  unfold sendAck
  rw [hc]
  by_cases h : (blank messageID || (s.dispatch.connections w).isNone) = true
  · rw [if_pos h, if_pos h]
  · rw [if_neg h, if_neg h]
    cases e <;> rfl

section Branch

variable {decode} {s : System} {k : Nat} {w : WorkerID} {m : Spooled}

theorem step_arrive (h : s.copies k = none) : step decode s (.arrive k w m) = some (arrive s k w m) := by
  simp only [step, h, isNone_none, if_true]

theorem step_check (h : s.copies k = some ⟨w, m, .read⟩) :
    step decode s (.check k) = some (check s k ⟨w, m, .read⟩) := by
  simp only [step, h]

theorem step_ack {b : Bool} (h : s.copies k = some ⟨w, m, .acking b⟩) :
    step decode s (.ack k) = some (ack s k ⟨w, m, .acking b⟩ b) := by
  simp only [step, h]

theorem step_apply {b : Bool} (h : s.copies k = some ⟨w, m, .applying b⟩) :
    step decode s (.apply k) = some (apply s k ⟨w, m, .applying b⟩ b) := by
  simp only [step, h]

theorem noteMessage_eq (s : Inbound.State) (w messageID : String) :
    noteMessage s w messageID = sendAck (markSeen s w messageID) w messageID := by
  unfold noteMessage
  by_cases h : messageID = ""
  · subst h
    rfl
  · rw [if_neg h]

theorem effect_congr {s t : Inbound.State} (hr : t.runs = s.runs) (hd : t.dispatch = s.dispatch)
    (m : Spooled) : m.effect t = m.effect s := by
  cases m <;> simp only [Spooled.effect, completion, hr, hd]

theorem markSeen_runs (s : Inbound.State) (w messageID : String) :
    (markSeen s w messageID).runs = s.runs ∧ (markSeen s w messageID).dispatch = s.dispatch := by
  unfold markSeen
  split
  · exact ⟨rfl, rfl⟩
  · split <;> exact ⟨rfl, rfl⟩

theorem sendAck_runs (s : Inbound.State) (w messageID : String) :
    (sendAck s w messageID).runs = s.runs ∧ (sendAck s w messageID).dispatch = s.dispatch := by
  unfold sendAck
  split <;> exact ⟨rfl, rfl⟩

theorem receive_spooled (s : Inbound.State) (w : String) (m : Spooled) : receive decode s w m.message =
      let noted := markSeen (updateLastSeen s w) w m.messageID
      if duplicate s w m.messageID then sendAck noted w m.messageID
      else m.apply (sendAck noted w m.messageID) := by
  have hl : locally (updateLastSeen s w) w m.message =
      sendAck (markSeen (updateLastSeen s w) w m.messageID) w m.messageID := by
    rw [← noteMessage_eq]
    cases m <;> rfl
  have he : m.effect (sendAck (markSeen (updateLastSeen s w) w m.messageID) w m.messageID) = m.effect s := by
    apply effect_congr
    · rw [(sendAck_runs _ _ _).1, (markSeen_runs _ _ _).1]
      rfl
    · rw [(sendAck_runs _ _ _).2, (markSeen_runs _ _ _).2]
      rfl
  simp only [receive, effect_message, hl]
  by_cases hd : duplicate s w m.messageID = true
  · simp only [hd, if_true]
  · simp only [hd, Spooled.apply, he]
    rfl

def turn (s : System) (k : Nat) (w : WorkerID) (m : Spooled) : List Action :=
  if duplicate s.server w.id m.messageID then [.arrive k w m, .check k, .ack k]
  else match m with
    | .jobCompleted _ => [.arrive k w m, .check k, .ack k, .apply k]
    | .result _ => [.arrive k w m, .check k, .apply k, .ack k]

theorem sendAck_spooled (s : Inbound.State) (w messageID : String) (m : Spooled) :
    sendAck (m.apply s) w messageID = m.apply (sendAck s w messageID) := by
  have he := effect_congr (sendAck_runs s w messageID).1 (sendAck_runs s w messageID).2 m
  unfold Spooled.apply
  rw [he]
  cases m.effect s with
  | none => rfl
  | some e => exact sendAck_apply s w messageID e

theorem check_copy (s : System) (k : Nat) (c : Copy) : (check s k c).copies k =
    some { c with phase :=
      if duplicate s.server c.worker.id c.msg.messageID then .acking false else c.msg.begin } := by
  unfold check
  split <;> exact update_self ..

theorem check_server (s : System) (k : Nat) (c : Copy) :
    (check s k c).server = markSeen s.server c.worker.id c.msg.messageID := by
  unfold check
  split <;> rfl

theorem run_turn (h : s.copies k = none) : ∃ t, run (step decode) s (turn s k w m) = some t ∧
    t.server = receive decode s.server w.id m.message := by
  let u := arrive s k w m
  have hu : u.copies k = some ⟨w, m, .read⟩ := update_self ..
  let v := check u k ⟨w, m, .read⟩
  have hv : v.copies k = some ⟨w, m, if duplicate s.server w.id m.messageID then .acking false
      else m.begin⟩ := check_copy u k _
  have hs : v.server = markSeen (updateLastSeen s.server w.id) w.id m.messageID := check_server u k _
  rw [receive_spooled]
  by_cases hd : duplicate s.server w.id m.messageID = true
  · rw [if_pos hd] at hv
    simp only [turn, hd, if_true]
    refine ⟨_, run_cons.mpr ⟨u, step_arrive h, run_cons.mpr ⟨v, step_check hu,
      run_cons.mpr ⟨_, step_ack hv, rfl⟩⟩⟩, ?_⟩
    simp only [ack, hs]
  · rw [if_neg hd] at hv
    simp only [turn, hd]
    cases m with
    | jobCompleted m =>
      refine ⟨_, run_cons.mpr ⟨u, step_arrive h, run_cons.mpr ⟨v, step_check hu,
        run_cons.mpr ⟨_, step_ack hv, run_cons.mpr ⟨_, step_apply (update_self ..), rfl⟩⟩⟩⟩, ?_⟩
      simp only [apply, ack, hs]
      rfl
    | result r =>
      refine ⟨_, run_cons.mpr ⟨u, step_arrive h, run_cons.mpr ⟨v, step_check hu,
        run_cons.mpr ⟨_, step_apply hv, run_cons.mpr ⟨_, step_ack (update_self ..), rfl⟩⟩⟩⟩, ?_⟩
      simp only [apply, ack, hs]
      exact sendAck_spooled _ _ _ _

end Branch

/-! What a step can do, and what every run keeps. -/

def day : Nat := 24 * 3600 * second

structure Quiet (s t : System) : Prop where
  copies : t.copies = s.copies
  saw : t.saw = s.saw
  applied : t.applied = s.applied
  acked : t.acked = s.acked
  unsent : t.unsent = s.unsent
  now : s.server.now ≤ t.server.now
  seen : t.server.seenMessages = s.server.seenMessages

variable {s : System} {server : Inbound.State}

theorem quiet_of_same (h : Same s.server server) : Quiet s { s with server } :=
  ⟨rfl, rfl, rfl, rfl, rfl, Nat.le_of_eq h.now.symm, h.seen⟩

variable {s t : System}

theorem step_cases {a : Action} (h : step decode s a = some t) : Quiet s t ∨
    (∃ k w m, s.copies k = none ∧ t = arrive s k w m) ∨
    (∃ k c, s.copies k = some c ∧ c.phase = .read ∧ t = check s k c) ∨
    (∃ k c b, s.copies k = some c ∧ c.phase = .acking b ∧ t = ack s k c b) ∨
    (∃ k c b, s.copies k = some c ∧ c.phase = .applying b ∧ t = apply s k c b) := by
  cases a with
  | tick d =>
    cases h
    exact .inl ⟨rfl, rfl, rfl, rfl, rfl, Nat.le_add_right _ _, rfl⟩
  | dispatch a =>
    obtain ⟨_, h⟩ := ite_none_left_eq_some.mp h
    obtain ⟨d, -, rfl⟩ := map_eq_some_iff.mp h
    exact .inl (quiet_of_same ⟨rfl, rfl⟩)
  | schedule runID r =>
    cases h
    exact .inl (quiet_of_same ⟨rfl, rfl⟩)
  | other w m =>
    obtain ⟨hm, ⟨⟩⟩ := ite_none_left_eq_some.mp h
    exact .inl (quiet_of_same (same_receive decode s.server w.id (eq_false_of_ne_true hm)))
  | arrive k w m =>
    obtain ⟨hk, ⟨⟩⟩ := ite_none_right_eq_some.mp h
    exact .inr (.inl ⟨k, w, m, isNone_iff_eq_none.mp hk, rfl⟩)
  | check k =>
    simp only [step] at h
    split at h
    · next hk =>
      cases h
      exact .inr (.inr (.inl ⟨k, _, hk, rfl, rfl⟩))
    · cases h
  | ack k =>
    simp only [step] at h
    split at h
    · next hk =>
      cases h
      exact .inr (.inr (.inr (.inl ⟨k, _, _, hk, rfl, rfl⟩)))
    · cases h
  | apply k =>
    simp only [step] at h
    split at h
    · next hk =>
      cases h
      exact .inr (.inr (.inr (.inr ⟨k, _, _, hk, rfl, rfl⟩)))
    · cases h

abbrev Log := List ((String × String) × (Nat × Nat))

/-- The first sight of a message: while it is fresh the table has its time, so
that no second sight falls into that time. -/
structure Sights (server : Inbound.State) (saw : Log) : Prop where
  past : ∀ n t k, (n, (t, k)) ∈ saw → t ≤ server.now
  kept : ∀ n t k, blank n.2 = false → saw.lookup n = some (t, k) → server.now ≤ t + day →
    server.seenMessages (seenKey n.1 n.2) = some t
  apart : ∀ n t k, blank n.2 = false → saw.lookup n = some (t, k) →
    ∀ t' k', (n, (t', k')) ∈ saw → k' = k ∨ t + day < t'

variable {saw : Log}

theorem Sights.later {server server' : Inbound.State} (h : Sights server saw)
    (hnow : server.now ≤ server'.now) (hseen : server'.seenMessages = server.seenMessages) : Sights server' saw where
  past n t k hm := Nat.le_trans (h.past n t k hm) hnow
  kept n t k hb hl hn := hseen ▸ h.kept n t k hb hl (Nat.le_trans hnow hn)
  apart := h.apart

theorem lookup_snoc {n n' : String × String} {v x : Nat × Nat} (h : (saw ++ [(n', v)]).lookup n = some x) :
    saw.lookup n = some x ∨ (saw.lookup n = none ∧ n = n' ∧ x = v) := by
  rw [lookup_append] at h
  cases hl : saw.lookup n with
  | some y =>
    rw [hl] at h
    exact .inl h
  | none =>
    rw [hl, none_or, lookup_cons] at h
    split at h
    · next hn => exact .inr ⟨rfl, eq_of_beq hn, (Option.some.inj h).symm⟩
    · cases h

theorem not_mem_of_lookup {n : String × String} (h : saw.lookup n = none) (v : Nat × Nat) : (n, v) ∉ saw := by
  intro hm
  have := lookup_eq_none_iff.mp h (n, v) hm
  simp at this

theorem sweepSeen_fresh {key : String} {t : Nat}
    (h : server.seenMessages key = some t) (hn : server.now ≤ t + day) : sweepSeen server key = some t := by
  have hf : seenFresh server.now t = true := by
    simp only [seenFresh, decide_eq_true_eq]
    unfold day at hn
    omega
  simp only [sweepSeen, h, filter_some, hf, if_true]

theorem markSeen_now (server : Inbound.State) (w id : String) : (markSeen server w id).now = server.now := by
  unfold markSeen
  split
  · rfl
  · split <;> rfl

theorem markSeen_keeps {key : String} {t : Nat} (w id : String)
    (h : server.seenMessages key = some t) (hn : server.now ≤ t + day) :
    (markSeen server w id).seenMessages key = some t := by
  have hs := sweepSeen_fresh h hn
  unfold markSeen
  split
  · exact h
  · split
    · exact hs
    · next hk =>
      have hne : key ≠ seenKey w id := by
        intro heq
        rw [← heq, hs] at hk
        exact hk rfl
      simp only [update_of_ne hne, hs]

variable {w id : String}

theorem sweepSeen_of_not_duplicate (hd : duplicate server w id = false) (hb : blank id = false) :
    sweepSeen server (seenKey w id) = none := by
  have hne : id ≠ "" := by
    rintro rfl
    exact absurd hb (by decide)
  simpa [duplicate, isDuplicateMessage, hne, hb] using hd

theorem markSeen_marks (hb : blank id = false) (hn : sweepSeen server (seenKey w id) = none) :
    (markSeen server w id).seenMessages (seenKey w id) = some server.now := by
  simp [markSeen, hb, hn]

theorem Sights.repeated (h : Sights server saw) (w id : String) : Sights (markSeen server w id) saw where
  past n t k hm := markSeen_now server w id ▸ h.past n t k hm
  kept n t k hb hl hn := by
    rw [markSeen_now] at hn
    exact markSeen_keeps w id (h.kept n t k hb hl hn) hn
  apart := h.apart

theorem Sights.expired (h : Sights server saw)
    (hd : duplicate server w id = false) (hb : blank id = false) {t k : Nat}
    (hl : saw.lookup (w, id) = some (t, k)) : t + day < server.now := by
  by_contra hn
  rw [not_lt] at hn
  have hs := sweepSeen_fresh (h.kept (w, id) t k hb hl hn) hn
  rw [sweepSeen_of_not_duplicate hd hb] at hs
  cases hs

theorem Sights.note (h : Sights server saw) (k : Nat) (hd : duplicate server w id = false) :
    Sights (markSeen server w id) (saw ++ [((w, id), (server.now, k))]) := by
  have hr := h.repeated w id
  refine ⟨?_, ?_, ?_⟩
  · intro n t i hm
    rcases mem_append.mp hm with hm | hm
    · exact hr.past n t i hm
    · cases mem_singleton.mp hm
      exact Nat.le_of_eq (markSeen_now server w id).symm
  · intro n t i hb hl hn
    obtain hl | ⟨-, rfl, hx⟩ := lookup_snoc hl
    · exact hr.kept n t i hb hl hn
    · cases hx
      exact markSeen_marks hb (sweepSeen_of_not_duplicate hd hb)
  · intro n t i hb hl t' i' hm
    obtain hl | ⟨hnew, rfl, hx⟩ := lookup_snoc hl
    · rcases mem_append.mp hm with hm | hm
      · exact h.apart n t i hb hl t' i' hm
      · cases mem_singleton.mp hm
        exact .inr (h.expired hd hb hl)
    · cases hx
      rcases mem_append.mp hm with hm | hm
      · exact absurd hm (not_mem_of_lookup hnew _)
      · cases mem_singleton.mp hm
        exact .inl rfl

/-- A copy is given on at most once, and only after its own sight. -/
structure Given (s : System) : Prop where
  owed : ∀ k c, s.copies k = some c → c.phase.owes = true → ∃ t ≤ s.server.now, (c.name, (t, k)) ∈ s.saw
  passed : ∀ n t k, (n, (t, k)) ∈ s.applied → ∃ c, s.copies k = some c ∧ c.phase.passed = true
  sight : ∀ n t k, (n, (t, k)) ∈ s.applied → ∃ t' ≤ t, (n, (t', k)) ∈ s.saw
  once : (s.applied.map (fun e => e.2.2)).Nodup

def Answered (s : System) : Prop :=
  ∀ k c, s.copies k = some c → blank c.msg.messageID = false → c.phase.answered = true → k ∈ s.acked ∨ k ∈ s.unsent

structure Inv (s : System) : Prop where
  sights : Sights s.server s.saw
  given : Given s
  answered : Answered s

variable {k : Nat} {c : Copy}

theorem Given.move (h : Given s) (hc : t.copies = update s.copies k (some c)) (hn : s.server.now ≤ t.server.now)
    (ho : c.phase.owes = true → ∃ τ ≤ t.server.now, (c.name, (τ, k)) ∈ t.saw)
    (hp : ∀ c', s.copies k = some c' → c'.phase.passed = true → c.phase.passed = true)
    (hs : ∀ e ∈ s.saw, e ∈ t.saw := by exact fun _ h => h) (ha : t.applied = s.applied := by rfl) : Given t where
  owed i x hx hox := by
    rw [hc] at hx
    obtain ⟨rfl, rfl⟩ | ⟨-, hx⟩ := update_some_cases hx
    · exact ho hox
    · obtain ⟨τ, hτ, hm⟩ := h.owed i x hx hox
      exact ⟨τ, Nat.le_trans hτ hn, hs _ hm⟩
  passed n τ i hm := by
    obtain ⟨x, hx, hpx⟩ := h.passed n τ i (ha ▸ hm)
    rw [hc]
    by_cases hi : i = k
    · subst hi
      exact ⟨c, update_self .., hp x hx hpx⟩
    · exact ⟨x, by rw [update_of_ne hi, hx], hpx⟩
  sight n τ i hm := by
    obtain ⟨τ', hτ', hm'⟩ := h.sight n τ i (ha ▸ hm)
    exact ⟨τ', hτ', hs _ hm'⟩
  once := ha ▸ h.once

theorem Given.give (h : Given s) {n : String × String} {τ : Nat} (hk : s.copies k = some c)
    (hp : c.phase.passed = true) (hsight : ∃ τ' ≤ τ, (n, (τ', k)) ∈ s.saw)
    (hnew : k ∉ s.applied.map (fun e => e.2.2)) : Given { s with applied := s.applied ++ [(n, (τ, k))] } where
  owed := h.owed
  passed n' t i hm := by
    rcases mem_append.mp hm with hm | hm
    · exact h.passed n' t i hm
    · cases mem_singleton.mp hm
      exact ⟨c, hk, hp⟩
  sight n' t i hm := by
    rcases mem_append.mp hm with hm | hm
    · exact h.sight n' t i hm
    · cases mem_singleton.mp hm
      exact hsight
  once := by
    rw [map_append, nodup_append_comm]
    exact nodup_cons.mpr ⟨hnew, h.once⟩

theorem Given.apply {b : Bool} (h : Given s) (hk : s.copies k = some c)
    (hp : c.phase = .applying b) : Given (apply s k c b) := by
  have hnow : (c.msg.apply s.server).now = s.server.now := (same_spooled s.server c.msg).now
  have hpassed : (if b then Phase.acking false else .handled).passed = true := by cases b <;> rfl
  have hmoved : Given { Duplicates.apply s k c b with applied := s.applied } := by
    refine h.move rfl (Nat.le_of_eq hnow.symm) ?_ (fun _ _ _ => hpassed)
    intro ho
    cases b <;> cases ho
  refine hmoved.give (update_self ..) hpassed (h.owed k c hk (by rw [hp]; rfl)) ?_
  intro hm
  obtain ⟨⟨n, t, i⟩, hmem, rfl⟩ := mem_map.mp hm
  obtain ⟨x, hx, hpx⟩ := h.passed n t i hmem
  cases hk.symm.trans hx
  rw [hp] at hpx
  cases hpx

theorem Answered.move (h : Answered s) (hc : t.copies = update s.copies k (some c))
    (hk : blank c.msg.messageID = false → c.phase.answered = true → k ∈ t.acked ∨ k ∈ t.unsent)
    (ha : ∀ i ∈ s.acked, i ∈ t.acked := by exact fun _ h => h)
    (hu : ∀ i ∈ s.unsent, i ∈ t.unsent := by exact fun _ h => h) : Answered t := by
  intro i x hx hb hax
  rw [hc] at hx
  obtain ⟨rfl, rfl⟩ | ⟨-, hx⟩ := update_some_cases hx
  · exact hk hb hax
  · exact (h i x hx hb hax).imp (ha i) (hu i)

theorem inv_arrive (w : WorkerID) (m : Spooled) (hi : Inv s) (hk : s.copies k = none) : Inv (arrive s k w m) where
  sights := hi.sights.later (Nat.le_refl _) rfl
  given := by
    refine hi.given.move rfl (Nat.le_refl _) (fun h => by cases h) ?_
    intro c' hc'
    rw [hk] at hc'
    cases hc'
  answered := hi.answered.move rfl (fun _ h => by cases h)

section

variable (hi : Inv s) (hk : s.copies k = some c)

include hi hk

theorem inv_check (hp : c.phase = .read) : Inv (check s k c) := by
  have hnow := markSeen_now s.server c.worker.id c.msg.messageID
  have hread {P : Prop} (c' : Copy) (hc' : s.copies k = some c') (hpassed : c'.phase.passed = true) : P := by
    cases hk.symm.trans hc'
    rw [hp] at hpassed
    cases hpassed
  unfold check
  split
  · exact ⟨hi.sights.repeated _ _, hi.given.move rfl (Nat.le_of_eq hnow.symm) (fun h => by cases h) hread,
      hi.answered.move rfl (fun _ h => by cases h)⟩
  · next hd =>
    refine ⟨hi.sights.note k (eq_false_of_ne_true hd), ?_, ?_⟩
    · exact hi.given.move rfl (Nat.le_of_eq hnow.symm)
        (fun _ => ⟨s.server.now, Nat.le_of_eq hnow.symm, mem_append_right _ (mem_singleton_self _)⟩)
        hread (fun _ h => mem_append_left _ h)
    · refine hi.answered.move rfl ?_
      intro _ h
      cases hm : c.msg with
      | _ =>
        simp only [hm] at h
        cases h

theorem inv_ack {b : Bool}
    (hp : c.phase = .acking b) : Inv (ack s k c b) := by
  have hsame := same_sendAck s.server c.worker.id c.msg.messageID
  refine ⟨hi.sights.later (Nat.le_of_eq hsame.now.symm) hsame.seen, ?_, ?_⟩
  · refine hi.given.move rfl (Nat.le_of_eq hsame.now.symm) ?_ ?_
    · intro ho
      cases b with
      | false => cases ho
      | true =>
        obtain ⟨τ, hτ, hm⟩ := hi.given.owed k c hk (by rw [hp]; rfl)
        exact ⟨τ, Nat.le_trans hτ (Nat.le_of_eq hsame.now.symm), hm⟩
    · intro c' hc' hpassed
      cases hk.symm.trans hc'
      rw [hp] at hpassed
      cases b with
      | false => rfl
      | true => cases hpassed
  · refine hi.answered.move rfl ?_ ?_ ?_
    rotate_left
    · intro i hm
      simp only [ack]
      split
      · exact hm
      · exact mem_cons_of_mem _ hm
    · intro i hm
      simp only [ack]
      split
      · exact mem_cons_of_mem _ hm
      · exact hm
    · intro hb _
      by_cases ha : (s.server.dispatch.connections c.worker.id).isNone = true
      · right
        simp only [ack, ha, if_true, mem_cons_self]
      · left
        change blank c.msg.messageID = false at hb
        simp [ack, ha, hb]

theorem inv_apply {b : Bool}
    (hp : c.phase = .applying b) : Inv (apply s k c b) := by
  have hsame := same_spooled s.server c.msg
  refine ⟨hi.sights.later (Nat.le_of_eq hsame.now.symm) hsame.seen, hi.given.apply hk hp, ?_⟩
  refine hi.answered.move rfl ?_
  intro hb h
  cases b with
  | true => cases h
  | false => exact hi.answered k c hk hb (by rw [hp]; rfl)

end

theorem Inv.quiet (hi : Inv s) (h : Quiet s t) : Inv t where
  sights := h.saw ▸ hi.sights.later h.now h.seen
  given := by
    refine ⟨?_, ?_, ?_, h.applied ▸ hi.given.once⟩
    · intro k c hk ho
      obtain ⟨τ, hτ, hm⟩ := hi.given.owed k c (h.copies ▸ hk) ho
      exact ⟨τ, Nat.le_trans hτ h.now, h.saw ▸ hm⟩
    · intro n τ k hm
      exact h.copies ▸ hi.given.passed n τ k (h.applied ▸ hm)
    · intro n τ k hm
      exact h.saw ▸ hi.given.sight n τ k (h.applied ▸ hm)
  answered k c hk hb ha := by
    rw [h.acked, h.unsent]
    exact hi.answered k c (h.copies ▸ hk) hb ha

theorem step_inv (s : System) (a : Action) (t : System) (hi : Inv s) (h : step decode s a = some t) : Inv t := by
  obtain hq | ⟨k, w, m, hk, rfl⟩ | ⟨k, c, hk, hp, rfl⟩ | ⟨k, c, b, hk, hp, rfl⟩ | ⟨k, c, b, hk, hp, rfl⟩ :=
    step_cases decode h
  · exact hi.quiet hq
  · exact inv_arrive w m hi hk
  · exact inv_check hi hk hp
  · exact inv_ack hi hk hp
  · exact inv_apply hi hk hp

theorem start_inv (server : Inbound.State) : Inv (start server) where
  sights :=
    { past := fun _ _ _ h => absurd h not_mem_nil
      kept := fun _ _ _ _ h => absurd h.symm (some_ne_none _)
      apart := fun _ _ _ _ h => absurd h.symm (some_ne_none _) }
  given :=
    { owed := fun _ _ h => absurd h.symm (some_ne_none _)
      passed := fun _ _ _ h => absurd h not_mem_nil
      sight := fun _ _ _ h => absurd h not_mem_nil
      once := nodup_nil }
  answered _ _ h _ := absurd h.symm (some_ne_none _)

def System.appliedBy (s : System) (n : String × String) (limit : Nat) : Log :=
  s.applied.filter (fun e => e.1 = n ∧ e.2.1 ≤ limit)

/-- A message is applied only after it was seen, and at most once in the 24
hours after it was first seen. -/
def Once (s : System) : Prop :=
  ∀ w id, blank id = false → (s.saw.lookup (w, id) = none → ∀ e ∈ s.applied, e.1 ≠ (w, id)) ∧
    ∀ t k, s.saw.lookup (w, id) = some (t, k) → (s.appliedBy (w, id) (t + day)).length ≤ 1

/-- Of every copy that was handled an ack was sent, unless no connection of the
worker was registered when it was due. -/
def Acked (s : System) : Prop :=
  ∀ k c, s.copies k = some c → blank c.msg.messageID = false → c.phase = .handled → k ∈ s.acked ∨ k ∈ s.unsent

theorem Inv.once (hi : Inv s) : Once s := by
  intro w id hb
  constructor
  · rintro hl ⟨n, t, k⟩ he rfl
    obtain ⟨t', -, hm⟩ := hi.given.sight _ t k he
    exact not_mem_of_lookup hl _ hm
  · intro t k hl
    -- every application of the window is by the copy of the first sight
    have hk : ∀ i ∈ (s.appliedBy (w, id) (t + day)).map (fun e => e.2.2), i = k := by
      intro i hm
      obtain ⟨⟨n, t₁, i⟩, hf, rfl⟩ := mem_map.mp hm
      obtain ⟨happ, hwin⟩ := mem_filter.mp hf
      obtain ⟨rfl, hle⟩ := of_decide_eq_true hwin
      obtain ⟨t', ht', hsaw⟩ := hi.given.sight _ t₁ i happ
      exact (hi.sights.apart (w, id) t k hb hl t' i hsaw).resolve_right
        (Nat.not_lt_of_le (Nat.le_trans ht' hle))
    have hnd : ((s.appliedBy (w, id) (t + day)).map (fun e => e.2.2)).Nodup :=
      hi.given.once.sublist (filter_sublist.map _)
    rw [eq_replicate_of_mem hk, nodup_replicate, length_map] at hnd
    exact hnd

theorem Inv.acked (hi : Inv s) : Acked s := by
  intro k c hk hb hp
  apply hi.answered k c hk hb
  rw [hp]
  rfl

/-- Whatever copies the connections of the workers bring, in whatever order
their branches go on. -/
theorem once_and_acked (server : Inbound.State) (as : List Action) {s : System}
    (hr : run (step decode) (start server) as = some s) : Once s ∧ Acked s := by
  have hi := run_invariant_of_step (step_inv decode) (start_inv server) hr
  exact ⟨hi.once, hi.acked⟩

def worker1 : WorkerID := ⟨"w", by decide⟩

def finishedJob : Spooled :=
  .jobCompleted ⟨"m1", "r1", true, [], 0, 0, 0⟩

theorem run_turn_finishedJob : ∃ t, run (step fun _ => none) {} (turn {} 0 worker1 finishedJob) = some t ∧
    t.server = receive (fun _ => none) {} "w" finishedJob.message :=
  run_turn rfl

/-- Two copies, the first of them acked to the worker's new connection. -/
def resent : List Action :=
  [.schedule "r1" { worker := "w", status := .running }, .dispatch (.connect "w"),
    .arrive 0 worker1 finishedJob, .dispatch (.connect "w"), .check 0, .ack 0,
    .tick 5, .arrive 1 worker1 finishedJob, .apply 0, .check 1, .ack 1]

theorem resent_once_and_acked : ∃ s ∈ run (step fun _ => none) (start {}) resent,
    Once s ∧ Acked s ∧ s.applied.length = 1 ∧ s.acked = [1, 0] := by
  refine ⟨_, rfl, ?_⟩
  obtain ⟨hOnce, hAcked⟩ := once_and_acked (fun _ => none) {} resent rfl
  exact ⟨hOnce, hAcked, by decide, by decide⟩

/-- The worker is disconnected between the read of its message and the ack. -/
def cutOff : List Action :=
  [.dispatch (.connect "w"), .arrive 0 worker1 finishedJob, .check 0,
    .dispatch (.disconnectWorker "w"), .ack 0, .apply 0]

theorem handled_without_ack : ∃ s ∈ run (step fun _ => none) (start {}) cutOff,
    (s.copies 0).map (fun c => (c.name, c.phase)) = some (("w", "m1"), .handled) ∧
      s.applied.length = 1 ∧ 0 ∉ s.acked := by
  refine ⟨_, rfl, ?_⟩
  decide

end Wireops.Server.Duplicates
