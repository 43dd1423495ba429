import Wireops.Server.Addresses

namespace Wireops.Server.Revocation

open Option Function List Protocol Lib.Steps Lib.Table Server.Dispatch Server.Addresses

inductive Status where
  | active | revoked
  deriving DecidableEq

/-- How far the revocation has come: the status is saved, the tokens are revoked,
and the worker is disconnected. -/
inductive Stage where
  | saved | tokens | done
  deriving DecidableEq

/-- One worker's row and tokens beside the command channel. `handshakes` counts
those between the status check and the registration, `rows` are loaded copies of
the row not saved yet, `closed` the closed connections. `late` is history: the
connections written to after the revocation. -/
structure State where
  channel : Dispatch.State := {}
  status : Status := .active
  tokenValid : Bool := true
  handshakes : Nat := 0
  rows : List Status := []
  revocation : Option Stage := none
  closed : List Nat := []
  late : List Nat := []

/-- `load` and `save` are those of `UpdateLastSeen` and of the row's other
writers, in handshakes and message handling; a save writes all columns or those
that were changed. -/
inductive Action where
  | authenticate
  | abandon
  | register
  | load
  | save (i : Nat) (full : Bool)
  | revokeWorker
  | revokeTokensForWorker
  | disconnectWorker
  | channel (a : Dispatch.Action)
  deriving DecidableEq, Repr

def updateLastSeen (row : Status) : Status := if row ≠ .revoked then .active else row

variable (workerID : String) (s : State)

/-- The status column is written with all others, or when it was changed. -/
def saveRow (row : Status) (full : Bool) : Status :=
  if full || updateLastSeen row ≠ row then updateLastSeen row else s.status

def written (d : Dispatch.State) : Dispatch.Action → Option Nat
  | .send k _ true => (d.calls k).bind (fun c => match c.phase with | .send conn => conn | _ => none)
  | .resend n _ true => some n
  | _ => none

def serves (d : Dispatch.State) (n : Nat) (workerID : String) : Bool :=
  (d.sessions n).any (·.workerID = workerID)

/-- The worker connects by a handshake and is disconnected by the revocation, and
nothing is written to a connection that was closed. -/
def allowed : Dispatch.Action → Bool
  | .connect w | .disconnectWorker w => w ≠ workerID
  | a => (written s.channel a).all (fun n => !s.closed.contains n)

def shuts : Dispatch.Action → List Nat
  | .disconnect n => [n]
  | _ => []

def lateWrite (a : Dispatch.Action) : List Nat :=
  (written s.channel a).toList.filter (fun n => s.revocation = some .done && serves s.channel n workerID)

/-- `handleWebSocket` closes the connection it replaces. -/
def connectWorker : State :=
  { s with
    channel := connect s.channel workerID
    closed := (s.channel.connections workerID).toList ++ s.closed
    handshakes := s.handshakes - 1 }

def forceDisconnect : State :=
  { s with
    channel := { s.channel with connections := update s.channel.connections workerID none }
    closed := (s.channel.connections workerID).toList ++ s.closed
    revocation := some .done }

def step (workerID : String) (s : State) : Action → Option State
  | .authenticate =>
    some (if s.tokenValid && s.status ≠ .revoked then { s with handshakes := s.handshakes + 1 } else s)
  | .abandon => if 0 < s.handshakes then some { s with handshakes := s.handshakes - 1 } else none
  | .register => if 0 < s.handshakes then some (connectWorker workerID s) else none
  | .load => some { s with rows := s.rows ++ [s.status] }
  | .save i full =>
    s.rows[i]?.map fun row => { s with rows := s.rows.eraseIdx i, status := saveRow s row full }
  | .revokeWorker =>
    if s.revocation = none then some { s with status := .revoked, revocation := some .saved } else none
  | .revokeTokensForWorker =>
    if s.revocation = some .saved then some { s with tokenValid := false, revocation := some .tokens } else none
  | .disconnectWorker =>
    if s.revocation = some .tokens then some (forceDisconnect workerID s) else none
  | .channel a =>
    if allowed workerID s a then
      (Dispatch.step s.channel a).map fun d =>
        { s with channel := d, closed := shuts a ++ s.closed, late := lateWrite workerID s a ++ s.late }
    else none

structure Cut (workerID : String) (s : State) : Prop where
  disconnected : s.channel.connections workerID = none
  status : s.status = .revoked
  silent : s.late = []

/-- When the worker is disconnected no handshake is past its checks; and a copy of
the row that was loaded before the revocation is not saved whole after it. -/
def Prompt : Action → Prop
  | .disconnectWorker => s.handshakes = 0
  | .save i full => full = true → s.revocation ≠ none → ∀ row ∈ s.rows[i]?, row = .revoked
  | _ => True

instance (s : State) (a : Action) : Decidable (Prompt s a) := by
  unfold Prompt
  split <;> infer_instance

section Channel

variable {d d' : Dispatch.State} {a : Dispatch.Action} {n : Nat} {workerID : String}

theorem servedBy_of_fires (h : Fires d a d') (hn : servedBy d' n workerID) :
    servedBy d n workerID ∨ a = .connect workerID ∧ n = d.nextSession := by
  have moved {m : Nat} {x : Session} {p : SessionPhase} (hx : d.sessions m = some x)
      (hn : servedBy (d.setSession m { x with phase := p }) n workerID) : servedBy d n workerID := by
    obtain ⟨y, hy, hw⟩ := hn
    obtain ⟨rfl, rfl⟩ | ⟨_, hy⟩ := update_some_cases hy
    · exact ⟨x, hx, hw⟩
    · exact ⟨y, hy, hw⟩
  cases h with
  | connect w =>
    obtain ⟨y, hy, hw⟩ := hn
    obtain ⟨rfl, rfl⟩ | ⟨_, hy⟩ := update_some_cases hy
    · exact .inr ⟨congrArg Dispatch.Action.connect hw, rfl⟩
    · exact .inl ⟨y, hy, hw⟩
  | snapshot hx | skipReplay hx | read hx => exact .inl (moved hx hn)
  | resend _ _ hx => exact .inl (moved hx hn)
  | disconnect hx =>
    rw [disconnect_eq] at hn
    exact .inl (moved hx hn)
  | result r =>
    rw [deliver_eq] at hn
    exact .inl hn
  | dispatch | register | marshalFail | send | queue | receive | giveUp | unregister
  | disconnectWorker => exact .inl hn

theorem connections_of_fires (workerID : String) (h : Fires d a d') : d'.connections workerID = d.connections workerID ∨
    a = .connect workerID ∨ a = .disconnectWorker workerID ∨
      ∃ m, a = .disconnect m ∧ d.connections workerID = some m ∧ d'.connections workerID = none := by
  cases h with
  | connect w =>
    by_cases hw : workerID = w
    · exact .inr (.inl (congrArg Dispatch.Action.connect hw.symm))
    · exact .inl (update_of_ne hw _ _)
  | disconnectWorker w =>
    by_cases hw : workerID = w
    · exact .inr (.inr (.inl (congrArg Dispatch.Action.disconnectWorker hw.symm)))
    · exact .inl (update_of_ne hw _ _)
  | @disconnect m x hx =>
    unfold disconnect
    dsimp only
    split
    · next hconn =>
      by_cases hw : workerID = x.workerID
      · subst hw
        exact .inr (.inr (.inr ⟨m, rfl, hconn, update_self ..⟩))
      · exact .inl (update_of_ne hw _ _)
    · exact .inl rfl
  | result r =>
    rw [deliver_eq]
    exact .inl rfl
  | dispatch | register | marshalFail | send | queue | receive | giveUp | unregister | snapshot
  | skipReplay | read | resend => exact .inl rfl

theorem serves_iff : serves d n workerID = true ↔ servedBy d n workerID := by
  simp only [serves, servedBy, Option.any_eq_true, decide_eq_true_eq]

end Channel

section Invariant

variable {workerID : String} {s t : State} {a : Action}

def Shut (workerID : String) (s : State) : Prop :=
  ∀ n, servedBy s.channel n workerID → n ∈ s.closed ∨ s.channel.connections workerID = some n

structure Inv (workerID : String) (s : State) : Prop where
  addressed : Addressed s.channel
  shut : Shut workerID s
  status : s.revocation ≠ none → s.status = .revoked
  tokens : s.revocation = some .tokens ∨ s.revocation = some .done → s.tokenValid = false
  handshakes : s.revocation = some .done → s.handshakes = 0
  disconnected : s.revocation = some .done → s.channel.connections workerID = none
  late : s.late = []

theorem Inv.init : Inv workerID {} where
  addressed := addressed_init
  shut n h := by
    obtain ⟨x, hx, _⟩ := h
    cases hx
  status h := absurd rfl h
  tokens h := by rcases h with h | h <;> cases h
  handshakes h := by cases h
  disconnected h := by cases h
  late := rfl

section

variable (h : Inv workerID s)

include h

theorem Inv.connectWorker (hpos : 0 < s.handshakes) :
    Inv workerID (connectWorker workerID s) where
  __ := h
  addressed := addressed_connect h.addressed workerID
  shut n hn := by
    obtain hn | ⟨_, rfl⟩ := servedBy_of_fires (.connect workerID) hn
    · obtain hclosed | hconn := h.shut n hn
      · exact .inl (mem_append_right _ hclosed)
      · exact .inl (mem_append_left _ (mem_toList.mpr hconn))
    · exact .inr (update_self ..)
  -- after the revocation there is no handshake left to register
  handshakes hd := absurd (h.handshakes hd) (Nat.ne_of_gt hpos)
  disconnected hd := absurd (h.handshakes hd) (Nat.ne_of_gt hpos)

theorem Inv.forceDisconnect (hstage : s.revocation = some .tokens)
    (hnone : s.handshakes = 0) : Inv workerID (forceDisconnect workerID s) where
  addressed := fires_addressed h.addressed (.disconnectWorker workerID)
  shut n hn := by
    obtain hclosed | hconn := h.shut n hn
    · exact .inl (mem_append_right _ hclosed)
    · exact .inl (mem_append_left _ (mem_toList.mpr hconn))
  status _ := h.status (by rw [hstage]; exact some_ne_none _)
  tokens _ := h.tokens (.inl hstage)
  handshakes _ := hnone
  disconnected _ := update_self ..
  late := h.late

theorem Inv.lateWrite {a : Dispatch.Action} (ha : allowed workerID s a = true) :
    Revocation.lateWrite workerID s a = [] := by
  refine filter_eq_nil_iff.mpr fun n hn hlate => ?_
  have hwritten : written s.channel a = some n := mem_toList.mp hn
  rw [Bool.and_eq_true, decide_eq_true_eq, serves_iff] at hlate
  have hclosed : n ∈ s.closed := by
    obtain hclosed | hconn := h.shut n hlate.2
    · exact hclosed
    · rw [h.disconnected hlate.1] at hconn
      cases hconn
  unfold allowed at ha
  split at ha
  · cases hwritten
  · cases hwritten
  · rw [hwritten, all_some, contains_iff_mem.mpr hclosed] at ha
    cases ha

theorem Inv.channel {a : Dispatch.Action} {d : Dispatch.State}
    (ha : allowed workerID s a = true) (hd : Dispatch.step s.channel a = some d) :
    Inv workerID { s with
      channel := d, closed := shuts a ++ s.closed, late := Revocation.lateWrite workerID s a ++ s.late } := by
  have hf := step_fires hd
  have hconnect : a ≠ .connect workerID := by
    rintro rfl
    simp [allowed] at ha
  have hdisconnect : a ≠ .disconnectWorker workerID := by
    rintro rfl
    simp [allowed] at ha
  have hconn : d.connections workerID = s.channel.connections workerID ∨
      ∃ m, a = .disconnect m ∧ s.channel.connections workerID = some m ∧ d.connections workerID = none := by
    obtain hsame | hc | hc | hm := connections_of_fires workerID hf
    · exact .inl hsame
    · exact absurd hc hconnect
    · exact absurd hc hdisconnect
    · exact .inr hm
  refine ⟨fires_addressed h.addressed hf, ?_, h.status, h.tokens, h.handshakes, ?_, ?_⟩
  · intro n hn
    obtain hn | ⟨hc, _⟩ := servedBy_of_fires hf hn
    · obtain hclosed | htable := h.shut n hn
      · exact .inl (mem_append_right _ hclosed)
      · obtain hsame | ⟨m, rfl, hm, _⟩ := hconn
        · exact .inr (hsame.trans htable)
        · cases hm.symm.trans htable
          exact .inl mem_cons_self
    · exact absurd hc hconnect
  · intro hdone
    obtain hsame | ⟨_, _, _, hnone⟩ := hconn
    · exact hsame.trans (h.disconnected hdone)
    · exact hnone
  · rw [h.lateWrite ha, h.late]
    rfl

theorem Inv.authenticate (hpass : (s.tokenValid && s.status ≠ .revoked) = true) :
    Inv workerID { s with handshakes := s.handshakes + 1 } := by
  refine { h with handshakes := fun hd => ?_ }
  rw [h.tokens (.inr hd)] at hpass
  cases hpass

end

/-- A copy that was not loaded as revoked keeps its status, and so writes it only
where all columns are written. -/
theorem saveRow_revoked {row : Status} {full : Bool} (hs : s.status = .revoked)
    (hrow : full = true → row = .revoked) : saveRow s row full = .revoked := by
  cases row with
  | revoked => cases full <;> simp [saveRow, updateLastSeen, hs]
  | active =>
    cases full with
    | false => simp [saveRow, updateLastSeen, hs]
    | true => cases hrow rfl

theorem Inv.step (h : Inv workerID s) (hg : Prompt s a) (hs : step workerID s a = some t) : Inv workerID t := by
  cases a with
  | authenticate =>
    cases hs
    split
    · next hpass => exact h.authenticate hpass
    · exact h
  | abandon =>
    obtain ⟨_, ht⟩ := ite_none_right_eq_some.mp hs
    cases ht
    refine { h with handshakes := fun hd => ?_ }
    show s.handshakes - 1 = 0
    rw [h.handshakes hd]
  | register =>
    obtain ⟨hpos, ht⟩ := ite_none_right_eq_some.mp hs
    cases ht
    exact h.connectWorker hpos
  | load =>
    cases hs
    exact { h with }
  | save i full =>
    obtain ⟨row, hi, rfl⟩ := map_eq_some_iff.mp hs
    exact { h with
      status := fun hrev => saveRow_revoked (h.status hrev) (fun hfull => hg hfull hrev row hi) }
  | revokeWorker =>
    obtain ⟨_, ht⟩ := ite_none_right_eq_some.mp hs
    cases ht
    exact { h with
      status := fun _ => rfl
      tokens := fun hd => by rcases hd with hd | hd <;> cases hd
      handshakes := fun hd => by cases hd
      disconnected := fun hd => by cases hd }
  | revokeTokensForWorker =>
    obtain ⟨hstage, ht⟩ := ite_none_right_eq_some.mp hs
    cases ht
    refine { h with
      status := fun _ => h.status (by rw [hstage]; exact some_ne_none _)
      tokens := fun _ => rfl
      handshakes := fun hd => by cases hd
      disconnected := fun hd => by cases hd }
  | disconnectWorker =>
    obtain ⟨hstage, ht⟩ := ite_none_right_eq_some.mp hs
    cases ht
    exact h.forceDisconnect hstage hg
  | channel a =>
    obtain ⟨ha, hs⟩ := ite_none_right_eq_some.mp hs
    obtain ⟨d, hd, rfl⟩ := map_eq_some_iff.mp hs
    exact h.channel ha hd

/-- In every interleaving of handshakes, messages, commands and a revocation that
overtakes none of them. -/
theorem cut_of_prompt {as : List Action} (hg : Meets (step workerID) Prompt {} as)
    (hr : run (step workerID) {} as = some t) (hdone : t.revocation = some .done) : Cut workerID t := by
  have h : Inv workerID t := run_invariant (fun _ _ _ h hg hs => h.step hg hs) Inv.init hg hr
  refine ⟨h.disconnected hdone, h.status ?_, h.late⟩
  rw [hdone]
  exact some_ne_none _

end Invariant

def deploy : Command := .deploy { commandID := "c1", stackID := "st1" }

def revoke : List Action := [.revokeWorker, .revokeTokensForWorker, .disconnectWorker]

/-- The worker is checked before the revocation and registered after it. -/
def overtaken : List Action :=
  [Action.authenticate] ++ revoke ++
    [Action.register, Action.channel (.dispatch "w1" deploy), Action.channel (.register 0),
      Action.channel (.send 0 "m1" true)]

/-- It stays connected, and gets commands. -/
theorem revoked_worker_connected : ∃ t ∈ run (step "w1") {} overtaken, t.revocation = some .done ∧
      t.channel.connections "w1" = some 0 ∧ t.late = [0] ∧ ¬ Cut "w1" t := by
  have hend : ∃ t ∈ run (step "w1") {} overtaken, t.revocation = some .done ∧
      t.channel.connections "w1" = some 0 ∧ t.late = [0] := run_reaches (by decide)
  obtain ⟨t, ht, hdone, hconn, hlate⟩ := hend
  refine ⟨t, ht, hdone, hconn, hlate, fun h => ?_⟩
  cases hconn.symm.trans h.disconnected

def cutOff : List Action :=
  [Action.authenticate, Action.load, Action.register, Action.save 0 false, Action.load,
    Action.channel (.dispatch "w1" deploy), Action.channel (.register 0)] ++ revoke ++
    [Action.save 0 false, Action.channel (.send 0 "m1" false), Action.authenticate]

theorem cutOff_cut : ∃ t ∈ run (step "w1") {} cutOff, t.revocation = some .done ∧ Cut "w1" t :=
  ⟨_, rfl, rfl, @cut_of_prompt "w1" _ cutOff (by decide) rfl rfl⟩

end Wireops.Server.Revocation
