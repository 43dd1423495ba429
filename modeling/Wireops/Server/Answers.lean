import Wireops.Server.Addresses
import Wireops.Server.Replay

namespace Wireops.Server.Answers

open Option List Protocol Lib.Steps Lib.Table Server.Dispatch Server.Addresses

variable {s t : State} {a : Action} {k n : Nat} {c c' : Call} {r : CommandResult}

def waits : Phase → Bool
  | .send _ | .wait => true
  | _ => false

def inTable : Phase → Bool
  | .send _ | .wait | .unregister _ => true
  | _ => false

/-- The channel with the answers of the workers, each with the call whose
request it answers; `timely` are the calls answered while they waited. -/
structure System where
  state : State := {}
  answers : List (Nat × CommandResult) := []
  timely : List Nat := []

inductive Event where
  | server (a : Action)
  | answer (session call : Nat) (r : CommandResult)

def requested (s : State) (k : Nat) : Bool := s.writes.any (fun w => w.call = k && w.ok)

def isResult : Action → Bool
  | .result .. => true
  | _ => false

/-- A worker answers a request on a connection of its own, under the id of the
command; that answer is what the server gets as a result. -/
def next (y : System) : Event → Option System
  | .server a => if isResult a then none else (step y.state a).map (fun t => { y with state := t })
  | .answer n k r => do
    let x ← y.state.sessions n
    let c ← y.state.calls k
    let t ← step y.state (.result n r)
    if x.workerID = c.workerID ∧ r.commandID = c.cmd.commandID ∧ requested y.state k = true then
      some {
        state := t
        answers := y.answers ++ [(k, r)]
        timely := if waits c.phase then k :: y.timely else y.timely }
    else none

/-- A call that returns a result returns an answer to its own request, and a call
that was answered while it waited returns a result. -/
structure Served (y : System) : Prop where
  own : ∀ k c r, y.state.calls k = some c → c.phase = .returned (.result r) → (k, r) ∈ y.answers
  timely : ∀ k c reply, k ∈ y.timely → y.state.calls k = some c → c.phase = .returned reply → ∃ r, reply = .result r

/-- A call registers an id that no other call has in the table, an answer finds
no other call under its id, and a call ends with an error only when its channel
is empty. -/
def Apart (y : System) : Event → Prop
  | .server (.register k) => ∀ c ∈ y.state.calls k, y.state.pending.lookup c.cmd.commandID = none
  | .server (.giveUp k _) | .server (.marshalFail k) => ∀ c ∈ y.state.calls k, c.ch = none
  | .server (.send k _ ok) => ∀ c ∈ y.state.calls k, (ok || durable c.cmd) = false → c.ch = none
  | .answer _ k r => ∀ pr ∈ y.state.pending.lookup r.commandID, pr.call = k
  | _ => True

instance (y : System) (e : Event) : Decidable (Apart y e) := by
  unfold Apart
  split <;> infer_instance

/-- A call that was answered in time has the answer in its channel or has taken it. -/
def Holds (c : Call) : Prop := waits c.phase = true ∧ c.ch ≠ none ∨ taken c.phase ≠ none

structure Inv (y : System) : Prop where
  wellFormed : Replay.WellFormed y.state
  entered : ∀ k c, y.state.calls k = some c → inTable c.phase = true →
    ∃ pr, y.state.pending.lookup c.cmd.commandID = some pr ∧ pr.call = k
  ch : ∀ k c r, y.state.calls k = some c → c.ch = some r → (k, r) ∈ y.answers
  taken : ∀ k c r, y.state.calls k = some c → taken c.phase = some r → (k, r) ∈ y.answers
  known : ∀ k ∈ y.timely, ∃ c, y.state.calls k = some c
  timely : ∀ k c, k ∈ y.timely → y.state.calls k = some c → Holds c

theorem inv_init : Inv {} where
  wellFormed := Replay.once_init.wellFormed
  entered := by simp
  ch := by simp
  taken := by simp
  known := by simp
  timely := by simp

variable {y z : System}

theorem Inv.served (h : Inv y) : Served y where
  own k c r hc hp := h.taken k c r hc (by simp [hp, Addresses.taken])
  timely k c reply hk hc hp := by
    rcases h.timely k c hk hc with ⟨hw, -⟩ | ht
    · simp [hp, waits] at hw
    · cases reply with
      | result r => exact ⟨r, rfl⟩
      | error text => simp [hp, Addresses.taken] at ht

theorem Inv.setCall (h : Inv y) (hw : Replay.WellFormed z.state)
    (hc : y.state.calls k = some c) (hcalls : z.state.calls = (y.state.setCall k c').calls)
    (hentered : ∀ i d, y.state.calls i = some d → i ≠ k → inTable d.phase = true →
      z.state.pending.lookup d.cmd.commandID = y.state.pending.lookup d.cmd.commandID)
    (hself : inTable c'.phase = true → ∃ pr, z.state.pending.lookup c'.cmd.commandID = some pr ∧ pr.call = k)
    (hanswers : ∀ e ∈ y.answers, e ∈ z.answers) (htimely : ∀ i ∈ z.timely, i ∈ y.timely ∨ i = k)
    (hch : ∀ r, c'.ch = some r → (k, r) ∈ z.answers)
    (htaken : ∀ r, Addresses.taken c'.phase = some r → (k, r) ∈ z.answers)
    (hholds : k ∈ z.timely → Holds c') : Inv z where
  wellFormed := hw
  entered i d hd hi := by
    rw [hcalls] at hd
    obtain ⟨rfl, rfl⟩ | ⟨hne, hd⟩ := update_some_cases hd
    · exact hself hi
    · rw [hentered i d hd hne hi]
      exact h.entered i d hd hi
  ch i d r hd hr := by
    rw [hcalls] at hd
    obtain ⟨rfl, rfl⟩ | ⟨_, hd⟩ := update_some_cases hd
    · exact hch r hr
    · exact hanswers _ (h.ch i d r hd hr)
  taken i d r hd hr := by
    rw [hcalls] at hd
    obtain ⟨rfl, rfl⟩ | ⟨_, hd⟩ := update_some_cases hd
    · exact htaken r hr
    · exact hanswers _ (h.taken i d r hd hr)
  known i hi := by
    rw [hcalls]
    by_cases hik : i = k
    · exact ⟨c', hik ▸ y.state.setCall_self k c'⟩
    · obtain ⟨d, hd⟩ := h.known i ((htimely i hi).resolve_right hik)
      exact ⟨d, (y.state.setCall_of_ne c' hik).trans hd⟩
  timely i d hi hd := by
    rw [hcalls] at hd
    obtain ⟨rfl, rfl⟩ | ⟨hne, hd⟩ := update_some_cases hd
    · exact hholds hi
    · exact h.timely i d ((htimely i hi).resolve_right hne) hd

theorem Inv.setPhase {p : Phase} (h : Inv y) (hw : Replay.WellFormed t) (hc : y.state.calls k = some c)
    (hcalls : t.calls = (y.state.setCall k { c with phase := p }).calls)
    (hpending : t.pending = y.state.pending) (hin : inTable p = true → inTable c.phase = true)
    (htaken : Addresses.taken p = none) (hholds : waits c.phase = true → c.ch ≠ none → waits p = true)
    (hopen : Addresses.taken c.phase = none) : Inv { y with state := t } := by
  apply h.setCall hw hc hcalls
  · intro i d _ _ _
    rw [hpending]
  · intro hp
    rw [hpending]
    exact h.entered k c hc (hin hp)
  · exact fun _ he => he
  · exact fun _ hi => .inl hi
  · exact fun r hr => h.ch k c r hc hr
  · intro r hr
    rw [htaken] at hr
    cases hr
  · intro hk
    rcases h.timely k c hk hc with ⟨hwaits, hne⟩ | ht
    · exact .inl ⟨hholds hwaits hne, hne⟩
    · exact absurd hopen ht

theorem Inv.congr (h : Inv y) (hw : Replay.WellFormed t)
    (hcalls : t.calls = y.state.calls) (hpending : t.pending = y.state.pending) : Inv { y with state := t } where
  wellFormed := hw
  entered k c hc hi := by
    rw [hpending]
    exact h.entered k c (hcalls ▸ hc) hi
  ch k c r hc hr := h.ch k c r (hcalls ▸ hc) hr
  taken k c r hc hr := h.taken k c r (hcalls ▸ hc) hr
  known k hk := by
    rw [hcalls]
    exact h.known k hk
  timely k c hk hc := h.timely k c hk (hcalls ▸ hc)

theorem next_server (h : next y (.server a) = some z) :
    ∃ t, step y.state a = some t ∧ z = { y with state := t } ∧ isResult a = false := by
  rw [next, ite_none_left_eq_some] at h
  obtain ⟨t, ht, rfl⟩ := map_eq_some_iff.mp h.2
  exact ⟨t, ht, rfl, by simpa using h.1⟩

theorem next_answer (h : next y (.answer n k r) = some z) :
    ∃ c t, y.state.calls k = some c ∧ step y.state (.result n r) = some t ∧
      r.commandID = c.cmd.commandID ∧ z = {
        state := t
        answers := y.answers ++ [(k, r)]
        timely := if waits c.phase then k :: y.timely else y.timely } := by
  obtain ⟨x, hx, h⟩ := bind_eq_some_iff.mp h
  obtain ⟨c, hc, h⟩ := bind_eq_some_iff.mp h
  obtain ⟨t, ht, h⟩ := bind_eq_some_iff.mp h
  split at h
  · next hif =>
    cases h
    exact ⟨c, t, hc, ht, hif.2.1, rfl⟩
  · cases h

theorem Inv.entry_unique (h : Inv y) {i : Nat} {d : Call} (hc : y.state.calls k = some c)
    (hd : y.state.calls i = some d) (hk : inTable c.phase = true) (hi : inTable d.phase = true)
    (hid : d.cmd.commandID = c.cmd.commandID) : i = k := by
  obtain ⟨pr, hpr, rfl⟩ := h.entered k c hc hk
  obtain ⟨pr', hpr', rfl⟩ := h.entered i d hd hi
  rw [hid, hpr] at hpr'
  cases hpr'
  rfl

theorem deliver_own (hc : s.calls k = some c) (hapart : ∀ pr ∈ s.pending.lookup r.commandID, pr.call = k) :
    ∃ ch, (deliver s r).calls = (s.setCall k { c with ch }).calls ∧ (deliver s r).pending = s.pending ∧
      (∀ r', ch = some r' → c.ch = some r' ∨ r' = r) ∧
      ((∃ pr, s.pending.lookup r.commandID = some pr) → ch ≠ none) := by
  cases ht : target s r with
  | some e =>
    obtain ⟨i, d⟩ := e
    obtain ⟨pr, hpr, rfl, hd, -⟩ := target_spec ht
    cases hapart pr hpr
    rw [hc] at hd
    cases hd
    have hdeliver : deliver s r = s.setCall pr.call { c with ch := some r } := by
      rw [deliver, ht]
    rw [hdeliver]
    exact ⟨some r, rfl, rfl, by simp, by simp⟩
  | none =>
    have hdeliver : deliver s r = s := by rw [deliver, ht]
    rw [hdeliver]
    refine ⟨c.ch, ?_, rfl, fun _ => .inl, ?_⟩
    · simp [State.setCall, ← hc]
    · rintro ⟨pr, hpr⟩ hch
      have hcall : s.calls pr.call = some c := by rw [hapart pr hpr, hc]
      simp [target, hpr, hcall, hch] at ht

section Steps

variable {y : System} (h : Inv y)

include h

theorem Inv.dispatch {workerID : String} {cmd : Command} :
    Inv { y with state := open_ y.state { workerID, cmd, phase := enter y.state workerID cmd } } := by
  have hfresh := h.wellFormed.fresh y.state.nextCall (Nat.le_refl _)
  have hentered : inTable (enter y.state workerID cmd) = false := by
    simp only [enter]
    split
    · rfl
    · split <;> rfl
  refine ⟨Replay.fires_wellFormed h.wellFormed (.dispatch workerID cmd), ?_, ?_, ?_, ?_, ?_⟩
  · refine forall_update_some h.entered (fun hi => ?_)
    simp [hentered] at hi
  · intro k c r hc hr
    obtain ⟨rfl, rfl⟩ | ⟨_, hc⟩ := update_some_cases hc
    · cases hr
    · exact h.ch k c r hc hr
  · intro k c r hc hr
    obtain ⟨rfl, rfl⟩ | ⟨_, hc⟩ := update_some_cases hc
    · simp [taken_enter] at hr
    · exact h.taken k c r hc hr
  · intro k hk
    obtain ⟨c, hc⟩ := h.known k hk
    exact ⟨c, update_kept hfresh hc⟩
  · intro k c hk hc
    obtain ⟨rfl, rfl⟩ | ⟨_, hc⟩ := update_some_cases hc
    · obtain ⟨c, hc⟩ := h.known _ hk
      rw [hfresh] at hc
      cases hc
    · exact h.timely k c hk hc

section

variable (hc : y.state.calls k = some c)

include hc

theorem Inv.register {conn : Option Nat} {ty : MessageType}
    (hp : c.phase = .register conn) (ht : c.cmd.msgType = some ty)
    (hapart : y.state.pending.lookup c.cmd.commandID = none) :
    Inv { y with state := register y.state k c ty conn } := by
  apply h.setCall (Replay.fires_wellFormed h.wellFormed (.register hc hp ht)) hc rfl
  · intro i d hd _ hi
    apply AList.lookup_insert_ne
    intro hid
    obtain ⟨pr, hpr, _⟩ := h.entered i d hd hi
    rw [hid, hapart] at hpr
    cases hpr
  · exact fun _ => ⟨_, AList.lookup_insert _, rfl⟩
  · exact fun _ he => he
  · exact fun _ hi => .inl hi
  · exact fun r hr => h.ch k c r hc hr
  · simp [Addresses.taken]
  · intro hk
    have hholds := h.timely k c hk hc
    simp [Holds, hp, waits, Addresses.taken] at hholds

theorem Inv.receive (hp : c.phase = .wait) (hr : c.ch = some r) :
    Inv { y with state := y.state.setCall k { c with phase := .unregister (.result r), ch := none } } := by
  apply h.setCall (Replay.fires_wellFormed h.wellFormed (.receive hc hp hr)) hc rfl
  · exact fun _ _ _ _ _ => rfl
  · exact fun _ => h.entered k c hc (by simp [hp, inTable])
  · exact fun _ he => he
  · exact fun _ hi => .inl hi
  · simp
  · intro r' hr'
    cases hr'
    exact h.ch k c r hc hr
  · simp [Holds, Addresses.taken]

theorem Inv.unregister {reply : Reply}
    (hp : c.phase = .unregister reply) : Inv { y with state := unregister y.state k c reply } := by
  apply h.setCall (Replay.fires_wellFormed h.wellFormed (.unregister hc hp)) hc rfl
  · intro i d hd hne hi
    apply AList.lookup_erase_ne
    intro hid
    exact hne (h.entry_unique hc hd (by simp [hp, inTable]) hi hid)
  · simp [inTable]
  · exact fun _ he => he
  · exact fun _ hi => .inl hi
  · exact fun r hr => h.ch k c r hc hr
  · intro r hr
    apply h.taken k c r hc
    cases reply with
    | result _ => simpa [hp, Addresses.taken] using hr
    | error _ => simp [Addresses.taken] at hr
  · intro hk
    rcases h.timely k c hk hc with ⟨hw, -⟩ | ht
    · simp [hp, waits] at hw
    · right
      cases reply with
      | result _ => simp [Addresses.taken]
      | error _ => simp [hp, Addresses.taken] at ht

end

theorem Inv.answer {z : System} (hz : next y (.answer n k r) = some z)
    (hapart : ∀ pr ∈ y.state.pending.lookup r.commandID, pr.call = k) : Inv z := by
  obtain ⟨c, t, hc, ht, hid, rfl⟩ := next_answer hz
  have hw := Replay.fires_wellFormed h.wellFormed (step_fires ht)
  obtain rfl : t = deliver y.state r := by
    cases step_fires ht
    rfl
  obtain ⟨ch, hcalls, hpending, hch, hfull⟩ := deliver_own hc hapart
  apply h.setCall hw hc hcalls
  · intro i d _ _ _
    rw [hpending]
  · intro hp
    rw [hpending]
    exact h.entered k c hc hp
  · exact fun e he => mem_append_left _ he
  · intro i hi
    split at hi
    · exact (mem_cons.mp hi).symm
    · exact .inl hi
  · intro r' hr'
    rw [mem_append]
    rcases hch r' hr' with hr' | rfl
    · exact .inl (h.ch k c r' hc hr')
    · exact .inr (mem_singleton_self _)
  · exact fun r' hr' => mem_append_left _ (h.taken k c r' hc hr')
  · intro hk
    by_cases hp : waits c.phase = true
    · -- A call that waits has its entry in the table.
      obtain ⟨pr, hpr, _⟩ := h.entered k c hc (by cases hq : c.phase <;> simp_all [waits, inTable])
      exact .inl ⟨hp, hfull ⟨pr, hid ▸ hpr⟩⟩
    · dsimp only at hk
      rw [if_neg hp] at hk
      exact .inr ((h.timely k c hk hc).resolve_left (fun hq => hp hq.1))

end Steps

theorem step_inv (y : System) (e : Event) (z : System) (h : Inv y) (hg : Apart y e)
    (hz : next y e = some z) : Inv z := by
  cases e with
  | answer n k r => exact h.answer hz hg
  | server a =>
    obtain ⟨t, ht, rfl, hresult⟩ := next_server hz
    have hf := step_fires ht
    have hw := Replay.fires_wellFormed h.wellFormed hf
    cases hf with
    | dispatch => exact h.dispatch
    | register hc hp hty => exact h.register hc hp hty (hg _ hc)
    | marshalFail hc hp =>
      refine h.setPhase hw hc rfl rfl (by simp [hp, inTable]) rfl ?_ (by simp [hp, Addresses.taken])
      intro _ hne
      exact absurd (hg _ hc) hne
    | @send k c conn ty messageID ok hc hp hty =>
      refine h.setPhase (p := afterSend c ok) hw hc rfl rfl (by simp [hp, inTable])
        (taken_afterSend c ok) ?_ (by simp [hp, Addresses.taken])
      intro _ hne
      simp only [afterSend]
      split
      · rfl
      · next hok => exact absurd (hg c hc (Bool.eq_false_iff.mpr hok)) hne
    | queue hc hp =>
      exact h.setPhase hw hc rfl rfl (by simp [hp, inTable]) rfl (by simp [waits])
        (by simp [hp, Addresses.taken])
    | receive hc hp hr => exact h.receive hc hp hr
    | giveUp _ hc hp =>
      refine h.setPhase hw hc rfl rfl (by simp [hp, inTable]) rfl ?_ (by simp [hp, Addresses.taken])
      intro _ hne
      exact absurd (hg _ hc) hne
    | unregister hc hp => exact h.unregister hc hp
    | result r => cases hresult
    | disconnect =>
      apply h.congr hw
      · simp only [disconnect]
        split <;> rfl
      · simp only [disconnect]
        split <;> rfl
    | connect | snapshot | resend | skipReplay | read | disconnectWorker => exact h.congr hw rfl rfl

/-- In every run of any number of calls in which the steps keep the calls apart, a
call that was answered in time returns an answer to its own request. -/
theorem served_of_apart {es : List Event} {y : System} (hg : Meets next Apart {} es)
    (hr : run next {} es = some y) : Served y :=
  (run_invariant step_inv inv_init hg hr).served

/-- Two calls are under way at once, and the worker answers both, the first one
first. -/
def twoCalls (first second : String) : List Event :=
  [.server (.connect "w"), .server (.snapshot 0 []), .server (.read 0),
    .server (.dispatch "w" (.getStatus first)), .server (.register 0), .server (.send 0 "" true),
    .server (.dispatch "w" (.getStatus second)), .server (.register 1), .server (.send 1 "" true),
    .answer 0 0 ⟨first, "m1", "first", ""⟩]

/-- Two requests for the status of one stack use the same id. -/
def sharedStatus : List Event :=
  twoCalls "status-s" "status-s" ++
    [Event.server (.receive 1), Event.server (.unregister 1), Event.answer 0 1 ⟨"status-s", "m2", "second", ""⟩,
      Event.server (.giveUp 0 "timed out"), Event.server (.unregister 0)]

theorem shared_status_misdelivered : ∃ y ∈ run next {} sharedStatus,
    (0 ∈ y.timely ∧ ∃ c ∈ y.state.calls 0, c.phase = .returned (.error "timed out")) ∧
      (∃ c ∈ y.state.calls 1, c.phase = .returned (.result ⟨"status-s", "m1", "first", ""⟩)) ∧ ¬ Served y := by
  refine ⟨_, rfl, ⟨by decide, _, rfl, rfl⟩, ⟨_, rfl, rfl⟩, fun h => ?_⟩
  obtain ⟨r, hr⟩ := h.timely 0 _ _ (by decide) rfl rfl
  cases hr

def separateStatus : List Event :=
  twoCalls "status-s" "status-t" ++
    [Event.answer 0 1 ⟨"status-t", "m2", "second", ""⟩, Event.server (.receive 1), Event.server (.unregister 1),
      Event.server (.receive 0), Event.server (.unregister 0)]

theorem separate_status_served : ∃ y ∈ run next {} separateStatus,
    (∃ c ∈ y.state.calls 0, c.phase = .returned (.result ⟨"status-s", "m1", "first", ""⟩)) ∧ Served y :=
  ⟨_, rfl, ⟨_, rfl, rfl⟩, @served_of_apart separateStatus _ (by decide) rfl⟩

end Wireops.Server.Answers
