import Wireops.Server.Inbound

namespace Wireops.Server.Confinement

open Option Function List Protocol Lib.Steps Lib.Table Server.Inbound

variable {s t : State} {w v : String} {e : Effect}

def deployedOn (s : State) (workerID commandID : String) : Bool :=
  (s.commands.find? (fun r => r.commandID = commandID)).any (fun r => r.worker = workerID)

def sessionOn (s : State) (workerID sessionID : String) : Bool :=
  (s.sessions sessionID).any (fun x => x.worker = workerID)

def Owned (s : State) (workerID : String) : Effect → Prop
  | .complete r => ∀ k c, Dispatch.target s.dispatch r = some (k, c) → c.workerID = workerID
  | .ack messageID => ∀ r, s.commands.find? (fun r => r.messageID = messageID) = some r → r.worker = workerID
  | .finishRun m => ∀ r, s.runs m.jobRunID = some r → r.worker = workerID
  | .line m => ∃ r, s.commands.find? (fun r => r.commandID = m.commandID) = some r ∧
      r.worker = workerID ∧ r.stackID = m.stackID
  | .terminalOutput sessionID _ | .terminalClosed sessionID _ _ | .openRejected sessionID _ =>
    sessionOn s workerID sessionID = true

/-- What the commands, runs and sessions of one worker depend on. -/
@[ext]
structure View where
  worker : Option WorkerRecord
  calls : Nat → Option Dispatch.Call
  seen : String → Option Nat
  commands : List CommandRecord
  runs : String → Option JobRun
  live : String → Option LiveCommand
  lines : List (String × String × String)
  sessions : String → Option TerminalSession
  events : List (String × TerminalEvent)
  acks : List (String × String)

def view (s : State) (v : String) : View where
  worker := s.workers v
  calls k := (s.dispatch.calls k).filter (fun c => c.workerID = v)
  seen messageID := sweepSeen s (seenKey v messageID)
  commands := s.commands.filter (fun r => r.worker = v)
  runs id := (s.runs id).filter (fun r => r.worker = v)
  live id := if deployedOn s v id then s.live id else none
  lines := s.lines.filter (fun l => deployedOn s v l.2.1)
  sessions id := (s.sessions id).filter (fun x => x.worker = v)
  events := s.events.filter (fun e => sessionOn s v e.1)
  acks := s.acks.filter (fun a => a.1 = v)

theorem filter_worker_none {o : Option TerminalSession} (hne : v ≠ w)
    (h : o.any (fun x => x.worker = w) = true) : o.filter (fun x => x.worker = v) = none := by
  cases o with
  | none => rfl
  | some x =>
    rw [any_some, decide_eq_true_eq] at h
    rw [filter_some, if_neg]
    rw [h, decide_eq_true_eq]
    exact fun h => hne h.symm

theorem sessionOn_other {sessionID : String} (hne : v ≠ w) (h : sessionOn s w sessionID = true) :
    sessionOn s v sessionID = false := by
  unfold sessionOn at h ⊢
  cases hx : s.sessions sessionID with
  | none => rfl
  | some x =>
    rw [hx, any_some, decide_eq_true_eq] at h
    rw [any_some, decide_eq_false_iff_not, h]
    exact fun h => hne h.symm

section EditSession

variable {f : TerminalSession → TerminalSession} {sessionID : String}

theorem sessionOn_editSession (hf : ∀ x, (f x).worker = x.worker) (u id : String) :
    sessionOn (editSession s sessionID f) u id = sessionOn s u id := by
  unfold sessionOn editSession
  by_cases hid : id = sessionID
  · subst hid
    simp only [update_self]
    cases s.sessions id with
    | none => rfl
    | some x => simp only [map_some, any_some, hf]
  · simp only [update_of_ne hid]

theorem view_editSession (hne : v ≠ w) (hf : ∀ x, (f x).worker = x.worker)
    (h : sessionOn s w sessionID = true) : view (editSession s sessionID f) v = view s v := by
  refine View.ext rfl rfl rfl rfl rfl rfl rfl ?_ ?_ rfl
  · refine filter_update (filter_worker_none hne h) (filter_worker_none hne ?_)
    have hw : sessionOn (editSession s sessionID f) w sessionID = true :=
      (sessionOn_editSession hf w sessionID).trans h
    simp only [sessionOn, editSession, update_self] at hw
    exact hw
  · exact filter_congr (fun x _ => sessionOn_editSession hf v x.1)

end EditSession

theorem view_publishEvent {sessionID : String} {ev : TerminalEvent} (hne : v ≠ w)
    (h : sessionOn s w sessionID = true) : view (publishEvent s sessionID ev) v = view s v := by
  refine View.ext rfl rfl rfl rfl rfl rfl rfl rfl ?_ rfl
  change (s.events ++ [(sessionID, ev)]).filter (fun e => sessionOn s v e.1) = _
  rw [filter_append, filter_cons_of_neg (by rw [sessionOn_other hne h]; nofun),
    filter_nil, append_nil]
  rfl

section Sessions

variable {sessionID : String} (hne : v ≠ w) (h : sessionOn s w sessionID = true)

include hne h

theorem view_appendTranscript (data : List UInt8) : view (appendTranscript s sessionID data) v = view s v := by
  refine view_editSession hne (fun x => ?_) h
  split
  · split <;> rfl
  · rfl

theorem view_closeRecord (exitCode : Int) : view (closeRecord s sessionID exitCode) v = view s v := by
  exact view_editSession hne (fun _ => rfl) h

theorem view_forgetTerminalSession : view (forgetTerminalSession s sessionID) v = view s v := by
  exact view_editSession hne (fun _ => rfl) h

end Sessions

theorem sessionOn_forgetTerminalSession (s : State) (sessionID u id : String) :
    sessionOn (forgetTerminalSession s sessionID) u id = sessionOn s u id := by
  refine sessionOn_editSession (fun x => ?_) u id
  rfl

theorem sessionOn_closeRecord (s : State) (sessionID : String) (exitCode : Int) (u id : String) :
    sessionOn (closeRecord s sessionID exitCode) u id = sessionOn s u id := by
  refine sessionOn_editSession (fun x => ?_) u id
  rfl

theorem view_deliver {r : CommandResult} (hne : v ≠ w)
    (h : ∀ k c, Dispatch.target s.dispatch r = some (k, c) → c.workerID = w) :
    view { s with dispatch := Dispatch.deliver s.dispatch r } v = view s v := by
  refine View.ext rfl ?_ rfl rfl rfl rfl rfl rfl rfl rfl
  unfold Dispatch.deliver
  cases ht : Dispatch.target s.dispatch r with
  | none => rfl
  | some p =>
    obtain ⟨k, c⟩ := p
    have hw := h k c ht
    obtain ⟨_, _, _, hc, _⟩ := Dispatch.target_spec ht
    have hother : decide (c.workerID = v) = false := by
      rw [hw]
      exact decide_eq_false (fun h => hne h.symm)
    refine filter_update ?_ ?_
    · rw [hc, filter_some, hother]
      rfl
    · rw [filter_some, hother]
      rfl

theorem filter_run_none {o : Option JobRun} (hne : v ≠ w) (h : ∀ r, o = some r → r.worker = w) :
    o.filter (fun r => r.worker = v) = none := by
  cases o with
  | none => rfl
  | some r =>
    rw [filter_some, h r rfl, decide_eq_false (fun h => hne h.symm)]
    rfl

theorem view_finishRun {m : JobCompletedMessage} (hne : v ≠ w)
    (h : ∀ r, s.runs m.jobRunID = some r → r.worker = w) : view (apply s (.finishRun m)) v = view s v := by
  refine View.ext rfl rfl rfl rfl ?_ rfl rfl rfl rfl rfl
  refine filter_update (filter_run_none hne h) (filter_run_none hne ?_)
  intro r hr
  obtain ⟨r', hr', rfl⟩ := map_eq_some_iff.mp hr
  exact h r' hr'

section Ack

variable {now : Nat} {messageID : String}

theorem logCommandAck_filter (hne : v ≠ w) : ∀ {rs : List CommandRecord},
    (∀ r, rs.find? (fun r => r.messageID = messageID) = some r → r.worker = w) →
    (logCommandAck now messageID rs).filter (fun r => r.worker = v) = rs.filter (fun r => r.worker = v)
  | [], _ => rfl
  | r :: rs, h => by
    unfold logCommandAck
    split
    · next hm =>
      have hw := h r (List.find?_cons_of_pos (decide_eq_true hm))
      have hother : ¬ r.worker = v := fun hv => hne (hv.symm.trans hw)
      simp only [filter_cons, acked_worker, decide_eq_true_eq, if_neg hother]
    · next hm =>
      have ih := logCommandAck_filter hne (fun r' hr' => h r' (by
        rw [List.find?_cons_of_neg (by rwa [decide_eq_true_eq])]
        exact hr'))
      rw [filter_cons, filter_cons, ih]

theorem logCommandAck_find (commandID : String) (rs : List CommandRecord) :
    ((logCommandAck now messageID rs).find? (fun r => r.commandID = commandID)).any
      (fun r => r.worker = v) = (rs.find? (fun r => r.commandID = commandID)).any (fun r => r.worker = v) := by
  induction rs with
  | nil => rfl
  | cons r rs ih =>
    unfold logCommandAck
    split
    · simp only [List.find?_cons, acked_commandID]
      split
      · simp only [any_some, acked_worker]
      · rfl
    · simp only [List.find?_cons]
      split
      · rfl
      · exact ih

end Ack

theorem view_ack {messageID : String} (hne : v ≠ w)
    (h : ∀ r, s.commands.find? (fun r => r.messageID = messageID) = some r → r.worker = w) :
    view (apply s (.ack messageID)) v = view s v := by
  have hon : ∀ id, deployedOn (apply s (.ack messageID)) v id = deployedOn s v id :=
    fun id => logCommandAck_find id s.commands
  refine View.ext rfl rfl rfl (logCommandAck_filter hne h) rfl ?_ ?_ rfl rfl rfl
  · funext id
    change (if deployedOn (apply s (.ack messageID)) v id then s.live id else none) = _
    rw [hon id]
    rfl
  · exact filter_congr (fun l _ => hon l.2.1)

/-- The sweep of a published line takes no buffer of the worker's. -/
def Unswept (s : State) (v : String) : Prop :=
  ∀ id lc, deployedOn s v id = true → s.live id = some lc → idle s.now lc = false

theorem deployedOn_other {m : CommandOutputMessage} (hne : v ≠ w) {r : CommandRecord}
    (h : s.commands.find? (fun r => r.commandID = m.commandID) = some r) (hw : r.worker = w) :
    deployedOn s v m.commandID = false := by
  unfold deployedOn
  rw [h, any_some, hw]
  exact decide_eq_false (fun h => hne h.symm)

theorem view_line {m : CommandOutputMessage} (hother : deployedOn s v m.commandID = false) :
    view (apply s (.line m)) v = view s v ↔ Unswept s v := by
  have hlive : ∀ id, deployedOn s v id = true →
      (apply s (.line m)).live id = (s.live id).filter (fun lc => !idle s.now lc) := by
    intro id hid
    have hne : id ≠ m.commandID := by
      rintro rfl
      rw [hother] at hid
      cases hid
    change (update s.live m.commandID _ id).filter _ = _
    rw [update_of_ne hne]
  constructor
  · intro h id lc hid hlc
    have h := congrFun (congrArg View.live h) id
    change (if deployedOn s v id then (apply s (.line m)).live id else none) =
      (if deployedOn s v id then s.live id else none) at h
    rw [if_pos hid, if_pos hid, hlive id hid, hlc, filter_some] at h
    refine eq_false_of_ne_true (fun hidle => ?_)
    rw [hidle] at h
    cases h
  · intro h
    refine View.ext rfl rfl rfl rfl rfl ?_ ?_ rfl rfl rfl
    · funext id
      change (if deployedOn s v id then (apply s (.line m)).live id else none) =
        (if deployedOn s v id then s.live id else none)
      by_cases hid : deployedOn s v id = true
      · rw [if_pos hid, if_pos hid, hlive id hid]
        cases hlc : s.live id with
        | none => rfl
        | some lc =>
          rw [filter_some, h id lc hid hlc]
          rfl
      · rw [if_neg hid, if_neg hid]
    · change (s.lines ++ [(m.stackID, m.commandID, _)]).filter
        (fun l : String × String × String => deployedOn s v l.2.1) = _
      rw [filter_append, filter_cons_of_neg (by rw [hother]; nofun), filter_nil,
        append_nil]
      rfl

theorem takeWhile_colon {l : List Char} (h : ':' ∉ l) (l' : List Char) :
    (l ++ ':' :: l').takeWhile (fun c => c ≠ ':') = l := by
  rw [takeWhile_append_of_pos, takeWhile_cons_of_neg, append_nil]
  · simp
  · intro c hc
    refine decide_eq_true ?_
    rintro rfl
    exact h hc

theorem seenKey_toList (a b : String) : (seenKey a b).toList = a.toList ++ ':' :: b.toList := by
  simp [seenKey]

theorem seenKey_ne {v w : WorkerID} (hne : v ≠ w) (a b : String) : seenKey v.id a ≠ seenKey w.id b := by
  intro h
  have h := congrArg (fun k => k.toList.takeWhile (fun c => c ≠ ':')) h
  simp only [seenKey_toList, takeWhile_colon v.plain, takeWhile_colon w.plain] at h
  obtain ⟨v, hv⟩ := v
  obtain ⟨w, hw⟩ := w
  cases String.toList_inj.mp h
  exact hne rfl

theorem sweepSeen_twice (s : State) (key : String) :
    sweepSeen { s with seenMessages := sweepSeen s } key = sweepSeen s key := by
  change ((s.seenMessages key).filter (seenFresh s.now)).filter (seenFresh s.now) = _
  simp only [Option.filter_filter, Bool.and_self]
  rfl

theorem view_markSeen {v w : WorkerID} (hne : v ≠ w) (messageID : String) :
    view (markSeen s w.id messageID) v.id = view s v.id := by
  unfold markSeen
  split
  · rfl
  · split
    · refine View.ext rfl rfl ?_ rfl rfl rfl rfl rfl rfl rfl
      funext id
      exact sweepSeen_twice s _
    · refine View.ext rfl rfl ?_ rfl rfl rfl rfl rfl rfl rfl
      funext id
      change ((update (sweepSeen s) _ _) (seenKey v.id id)).filter _ = _
      rw [update_of_ne (seenKey_ne hne _ _)]
      exact sweepSeen_twice s _

theorem view_sendAck (hne : v ≠ w) (messageID : String) : view (sendAck s w messageID) v = view s v := by
  unfold sendAck
  split
  · rfl
  · refine View.ext rfl rfl rfl rfl rfl rfl rfl rfl rfl ?_
    change (s.acks ++ [(w, messageID)]).filter (fun a : String × String => a.1 = v) = _
    rw [filter_append, filter_cons_of_neg, filter_nil, append_nil]
    · rfl
    · rw [decide_eq_true_eq]
      exact fun h => hne h.symm

theorem view_editWorker (hne : v ≠ w) (f : WorkerRecord → WorkerRecord) : view (editWorker s w f) v = view s v :=
  View.ext (update_of_ne hne ..) rfl rfl rfl rfl rfl rfl rfl rfl rfl

theorem view_reconcileActiveJobs (hne : v ≠ w) (activeIDs : List String) :
    view (reconcileActiveJobs s w activeIDs) v = view s v := by
  refine View.ext rfl rfl rfl rfl ?_ rfl rfl rfl rfl rfl
  funext id
  change ((s.runs id).map _).filter _ = (s.runs id).filter _
  cases s.runs id with
  | none => rfl
  | some r =>
    rw [map_some]
    split
    · next h =>
      have hw : r.worker = w := by
        simp only [lost, Bool.and_eq_true, decide_eq_true_eq] at h
        exact h.1.1.1
      have hother : decide (r.worker = v) = false := by
        rw [hw]
        exact decide_eq_false (fun h => hne h.symm)
      simp only [filter_some, hother]
      rfl
    · rfl

theorem view_noteMessage {v w : WorkerID} (hne : v ≠ w) (hid : v.id ≠ w.id) (messageID : String) :
    view (noteMessage s w.id messageID) v.id = view s v.id := by
  unfold noteMessage
  rw [view_sendAck hid]
  split
  · rfl
  · exact view_markSeen hne messageID

theorem view_locally {v w : WorkerID} (hne : v ≠ w) (hid : v.id ≠ w.id) (m : Message) :
    view (locally (updateLastSeen s w.id) w.id m) v.id = view s v.id := by
  have hseen : view (updateLastSeen s w.id) v.id = view s v.id := view_editWorker hid _
  cases m with
  | heartbeat activeIDs =>
    exact (view_reconcileActiveJobs hid activeIDs).trans ((view_editWorker hid _).trans hseen)
  | jobCompleted | result => exact (view_noteMessage hne hid _).trans hseen
  | _ => exact hseen

/-- The tables that say whose a thing is are as they were. -/
structure Kept (s t : State) : Prop where
  dispatch : t.dispatch = s.dispatch
  commands : t.commands = s.commands
  runs : t.runs = s.runs
  sessions : t.sessions = s.sessions

theorem kept_noteMessage (s : State) (w messageID : String) : Kept s (noteMessage s w messageID) := by
  unfold noteMessage sendAck
  split <;> split <;> try exact ⟨rfl, rfl, rfl, rfl⟩
  all_goals
    unfold markSeen
    split
    · exact ⟨rfl, rfl, rfl, rfl⟩
    · split <;> exact ⟨rfl, rfl, rfl, rfl⟩

theorem kept_locally {m : Message} (hm : ∀ ids, m ≠ .heartbeat ids) : Kept s (locally (updateLastSeen s w) w m) := by
  have seen : ∀ messageID, Kept s (noteMessage (updateLastSeen s w) w messageID) := by
    intro messageID
    have h := kept_noteMessage (updateLastSeen s w) w messageID
    exact { h with }
  cases m with
  | heartbeat ids => exact absurd rfl (hm ids)
  | jobCompleted m => exact seen _
  | result r => exact seen _
  | _ => exact ⟨rfl, rfl, rfl, rfl⟩

theorem Owned.kept (h : Kept s t) (ho : Owned s w e) : Owned t w e := by
  cases e with
  | complete | ack | finishRun | line =>
    simp only [Owned, h.dispatch, h.commands, h.runs]
    exact ho
  | terminalOutput | terminalClosed | openRejected =>
    simp only [Owned, sessionOn, h.sessions]
    exact ho

/-- An effect on the sender's own things no other worker sees, but for the
sweep of a published line. -/
theorem view_apply (hne : v ≠ w) (ho : Owned s w e) (he : ∀ m, e ≠ .line m) : view (apply s e) v = view s v := by
  cases e with
  | complete r => exact view_deliver hne ho
  | ack messageID => exact view_ack hne ho
  | finishRun m => exact view_finishRun hne ho
  | line m => exact absurd rfl (he m)
  | terminalOutput sessionID data =>
    have hp : sessionOn (publishEvent s sessionID (.output data)) w sessionID = true := ho
    exact (view_appendTranscript hne hp data).trans (view_publishEvent hne ho)
  | terminalClosed sessionID exitCode error =>
    have hp : sessionOn (publishEvent s sessionID (.closed exitCode error)) w sessionID = true := ho
    exact (view_closeRecord hne hp exitCode).trans (view_publishEvent hne ho)
  | openRejected sessionID reason =>
    have hf := (sessionOn_forgetTerminalSession s sessionID w sessionID).trans ho
    have hc := (sessionOn_closeRecord _ sessionID (-1) w sessionID).trans hf
    exact (view_publishEvent hne hc).trans
      ((view_closeRecord hne hf (-1)).trans (view_forgetTerminalSession hne ho))

variable {decode : String → Option (List UInt8)}

/-- What the message names is the sender's, or the message does nothing to it. -/
def OwnTarget (decode : String → Option (List UInt8)) (s : State) (w : String) : Message → Prop
  | .unreadable | .heartbeat _ => True
  | .ack messageID => messageID = "" ∨ ∀ r, s.commands.find? (fun r => r.messageID = messageID) = some r →
      finished r.status = true ∨ r.worker = w
  | .jobCompleted m => duplicate s w m.messageID = true ∨ ∀ r, s.runs m.jobRunID = some r → r.worker = w
  | .commandOutput m => m.commandID = "" ∨
      ∃ r, s.commands.find? (fun r => r.commandID = m.commandID) = some r ∧ r.worker = w ∧ r.stackID = m.stackID
  | .result r => duplicate s w r.messageID = true ∨
      (∀ k c, Dispatch.target s.dispatch r = some (k, c) → c.workerID = w) ∧
        (s.dispatch.pending.lookup r.commandID = none →
          ∀ id, terminalOpenSessionIDFromCommandID r.commandID = some id → sessionOn s w id = true)
  | .terminalOutput id dataB64 => roomy s id = false ∨ decode dataB64 = none ∨ sessionOn s w id = true
  | .terminalClosed id _ _ => roomy s id = false ∨ sessionOn s w id = true
  | .getMetricsResult commandID metrics =>
    ∀ k c, Dispatch.target s.dispatch ⟨commandID, "", metrics, ""⟩ = some (k, c) → c.workerID = w

theorem completion_owned {r : CommandResult} : (∀ e, completion s r = some e → Owned s w e) ↔
    ∀ k c, Dispatch.target s.dispatch r = some (k, c) → c.workerID = w := by
  unfold completion
  constructor
  · intro h k c ht
    rw [ht] at h
    exact h _ rfl k c ht
  · intro h e he
    split at he <;> cases he
    exact h

theorem target_none {r : CommandResult} (h : s.dispatch.pending.lookup r.commandID = none) :
    Dispatch.target s.dispatch r = none := by
  unfold Dispatch.target
  rw [h]
  rfl

theorem owned_iff (m : Message) : (∀ e, effect decode s w m = some e → Owned s w e) ↔ OwnTarget decode s w m := by
  have hnone : ∀ e, none = some e → Owned s w e := fun _ h => by cases h
  cases m with
  | unreadable | heartbeat => exact ⟨fun _ => trivial, fun _ => hnone⟩
  | ack messageID =>
    simp only [effect, OwnTarget]
    split
    · next h => exact ⟨fun _ => .inl h, fun _ => hnone⟩
    · next hid =>
      split
      · next hf => simp [hf]
      · next r hf =>
        split
        · next hfin => simp [hf, hfin]
        · next hfin => simp [hid, hf, hfin, Owned]
  | jobCompleted m =>
    simp only [effect, OwnTarget]
    split
    · next h => exact ⟨fun _ => .inl h, fun _ => hnone⟩
    · next hdup =>
      split
      · simp [hdup, Owned]
      · next hr => simp_all
  | commandOutput m =>
    simp only [effect, OwnTarget]
    split
    · next h => exact ⟨fun _ => .inl h, fun _ => hnone⟩
    · next hid => simp [hid, Owned]
  | result r =>
    simp only [effect, OwnTarget]
    split
    · next h => exact ⟨fun _ => .inl h, fun _ => hnone⟩
    · next hdup =>
      split
      · next hl => simp [hdup, hl, completion_owned]
      · next hl => simp [hdup, hl, target_none hl, Owned]
  | terminalOutput id dataB64 =>
    simp only [effect, OwnTarget]
    split
    · next hroom =>
      cases decode dataB64 <;> simp [hroom, Owned]
    · next hroom => simp [hroom]
  | terminalClosed id exitCode error =>
    simp only [effect, OwnTarget]
    split
    · next hroom => simp [hroom, Owned]
    · next hroom => simp [hroom]
  | getMetricsResult commandID metrics => exact completion_owned

/-- The condition: besides, a line of output comes when no other worker has an
idle output buffer for its sweep to take. -/
def Own (decode : String → Option (List UInt8)) (s : State) (w : WorkerID) (m : Message) : Prop :=
  OwnTarget decode s w.id m ∧ ∀ c, m = .commandOutput c → c.commandID ≠ "" → ∀ v : WorkerID, v ≠ w → Unswept s v.id

/-- A message does nothing to what is not its sender's, and what any other
worker depends on is as if it had not come. -/
structure Confined (decode : String → Option (List UInt8)) (s : State) (w : WorkerID) (m : Message) : Prop where
  owned : ∀ e, effect decode s w.id m = some e → Owned s w.id e
  unseen : ∀ v : WorkerID, v ≠ w → view (receive decode s w.id m) v.id = view s v.id

theorem id_ne {v w : WorkerID} (hne : v ≠ w) : v.id ≠ w.id := by
  intro h
  obtain ⟨v, hv⟩ := v
  obtain ⟨w, hw⟩ := w
  cases h
  exact hne rfl

theorem unseen_line {v w : WorkerID} (hne : v ≠ w) {c : CommandOutputMessage} (hid : c.commandID ≠ "")
    (ho : Owned s w.id (.line c)) :
    view (receive decode s w.id (.commandOutput c)) v.id = view s v.id ↔ Unswept s v.id := by
  obtain ⟨r, hr, hw, _⟩ := ho
  have hother : deployedOn (updateLastSeen s w.id) v.id c.commandID = false :=
    deployedOn_other (s := updateLastSeen s w.id) (id_ne hne) hr hw
  have hrec : receive decode s w.id (.commandOutput c) = apply (updateLastSeen s w.id) (.line c) := by
    simp only [receive, effect, if_neg hid]
    rfl
  have hseen : view (updateLastSeen s w.id) v.id = view s v.id := view_editWorker (id_ne hne) _
  rw [hrec, ← hseen]
  exact view_line hother

theorem effect_line {m : Message} {c : CommandOutputMessage}
    (h : effect decode s w m = some (.line c)) : m = .commandOutput c ∧ c.commandID ≠ "" := by
  have hcompletion : ∀ r, completion s r ≠ some (.line c) := by
    intro r h
    unfold completion at h
    split at h <;> cases h
  cases m with
  | unreadable | heartbeat => cases h
  | commandOutput m =>
    simp only [effect] at h
    obtain ⟨hid, ⟨⟩⟩ := ite_none_left_eq_some.mp h
    exact ⟨rfl, hid⟩
  | ack messageID =>
    simp only [effect] at h
    split at h
    · cases h
    · split at h
      · cases h
      · split at h <;> cases h
  | jobCompleted m =>
    simp only [effect] at h
    split at h
    · cases h
    · split at h <;> cases h
  | result r =>
    simp only [effect] at h
    split at h
    · cases h
    · split at h
      · exact absurd h (hcompletion r)
      · simp at h
  | terminalOutput id dataB64 =>
    simp only [effect] at h
    split at h
    · simp at h
    · cases h
  | terminalClosed id exitCode error =>
    simp only [effect] at h
    split at h <;> cases h
  | getMetricsResult commandID metrics => exact absurd h (hcompletion _)

theorem unseen_of_owned {v w : WorkerID} (hne : v ≠ w) {m : Message}
    (ho : ∀ e, effect decode s w.id m = some e → Owned s w.id e) (hm : ∀ c, m = .commandOutput c → c.commandID = "") :
    view (receive decode s w.id m) v.id = view s v.id := by
  have hlocal := view_locally (s := s) hne (id_ne hne) m
  unfold receive
  cases he : effect decode s w.id m with
  | none => exact hlocal
  | some e =>
    have hbeat : ∀ ids, m ≠ .heartbeat ids := by
      rintro ids rfl
      cases he
    have hline : ∀ c, e ≠ .line c := by
      rintro c rfl
      obtain ⟨rfl, hid⟩ := effect_line he
      exact hid (hm c rfl)
    exact (view_apply (id_ne hne) ((ho e he).kept (kept_locally hbeat)) hline).trans hlocal

/-- A message is confined to its sender exactly when what it names is the
sender's. -/
theorem confined_iff (decode : String → Option (List UInt8)) (s : State) (w : WorkerID)
    (m : Message) : Confined decode s w m ↔ Own decode s w m := by
  constructor
  · intro h
    refine ⟨(owned_iff m).mp h.owned, ?_⟩
    rintro c rfl hid v hne
    refine (unseen_line hne hid (h.owned _ ?_)).mp (h.unseen v hne)
    simp only [effect, if_neg hid]
  · rintro ⟨htarget, hsweep⟩
    have ho := (owned_iff m).mpr htarget
    refine ⟨ho, fun v hne => ?_⟩
    by_cases hm : ∃ c, m = .commandOutput c ∧ c.commandID ≠ ""
    · obtain ⟨c, rfl, hid⟩ := hm
      refine (unseen_line hne hid (ho _ ?_)).mpr (hsweep c rfl hid v hne)
      simp only [effect, if_neg hid]
    · refine unseen_of_owned hne ho ?_
      intro c hc
      by_contra hid
      exact hm ⟨c, hc, hid⟩

def deploying : List Dispatch.Action :=
  [.connect "a", .snapshot 0 [], .read 0, .connect "b", .snapshot 1 [], .read 1,
    .dispatch "b" (.deploy ⟨"sync-1", "", "stack", "c1"⟩), .register 0, .send 0 "m1" true]

def forged : CommandResult := { commandID := "sync-1", messageID := "m2", output := "done" }

/-- The result that completes the deploy comes by the connection of `a`. -/
theorem forged_result_completes_deploy : ∃ d ∈ run Dispatch.step {} deploying,
    ((receive (fun _ => none) { dispatch := d } "a" (.result forged)).dispatch.calls 0).bind
        (fun c => c.ch) = some forged ∧
      ¬ Confined (fun _ => none) { dispatch := d } ⟨"a", by decide⟩ (.result forged) := by
  refine ⟨_, rfl, rfl, fun h => ?_⟩
  exact absurd (h.owned _ rfl 0 _ rfl) (by decide)

end Wireops.Server.Confinement
