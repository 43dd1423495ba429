import Wireops.Server.Addresses
import Wireops.Server.Replay

namespace Wireops.Server.Wakeup

open List Protocol Lib.Steps Lib.Table Server.Dispatch Server.Addresses

variable {s t : State} {a : Action} {k n : Nat} {c c' : Call} {x : Session} {pr : PendingResult}

/-- The session will still send the entry, or send what is pending then. -/
def Ahead (pr : PendingResult) : SessionPhase → Prop
  | .connected => True
  | .replaying toReplay => pr ∈ toReplay
  | .reading | .ended => False

/-- The entry has been written to the connection or will be. -/
inductive Covered (s : State) (pr : PendingResult) (n : Nat) : Prop where
  | ahead {x : Session} (hx : s.sessions n = some x) (hp : Ahead pr x.phase)
  | sending {c : Call} (hc : s.calls pr.call = some c) (hp : c.phase = .send (some n))
  | written {w : Write} (hw : w ∈ s.writes) (hc : w.call = pr.call) (hn : w.session = n)
    (hid : w.env.payload.commandID = pr.cmd.commandID) (ho : w.ok = true)

def flying : Phase → Bool
  | .send _ | .wait => true
  | _ => false

/-- A durable entry is written to its worker's connection, or will be. -/
def Awake (s : State) : Prop :=
  ∀ id pr c n, s.pending.lookup id = some pr → isDurableCommand pr.msgType = true →
    s.calls pr.call = some c → flying c.phase = true → s.connections pr.workerID = some n → Covered s pr n

theorem Awake.setCall (h : Awake s) (hc : s.calls k = some c)
    (hcalls : t.calls = (s.setCall k c').calls) (hsessions : t.sessions = s.sessions)
    (hpending : ∀ id pr, t.pending.lookup id = some pr → s.pending.lookup id = some pr)
    (hconn : t.connections = s.connections) (hwrites : ∀ w ∈ s.writes, w ∈ t.writes)
    (hfly : flying c'.phase = true → flying c.phase = true)
    (hsend : ∀ id pr n, s.pending.lookup id = some pr → flying c'.phase = true →
      isDurableCommand pr.msgType = true → pr.call = k → s.connections pr.workerID = some n →
        c.phase = .send (some n) → Covered t pr n) : Awake t := by
  intro id pr d n hl hd hcall hphase hn
  rw [hconn] at hn
  have hl := hpending id pr hl
  rw [hcalls] at hcall
  have keep (hcov : Covered s pr n) (hsending : ∀ e, s.calls pr.call = some e →
      e.phase = .send (some n) → Covered t pr n) : Covered t pr n := by
    cases hcov with
    | ahead hx hp => exact .ahead (hsessions ▸ hx) hp
    | sending he hp => exact hsending _ he hp
    | written hw hcw hs hid ho => exact .written (hwrites _ hw) hcw hs hid ho
  obtain ⟨hk, rfl⟩ | ⟨hk, hcall⟩ := update_some_cases hcall
  · rw [← hk] at hc
    refine keep (h id pr c n hl hd hc (hfly hphase) hn) (fun e he hp => ?_)
    rw [hc, Option.some.injEq] at he
    subst he
    exact hsend id pr n hl hphase hd hk hn hp
  · refine keep (h id pr d n hl hd hcall hphase hn) (fun e he hp => .sending ?_ hp)
    rw [hcalls]
    exact (s.setCall_of_ne c' hk).trans he

theorem Awake.setSession (h : Awake s) (x' : Session) (hx : s.sessions n = some x)
    (hahead : ∀ id pr, s.pending.lookup id = some pr → isDurableCommand pr.msgType = true →
      t.connections pr.workerID = some n → Ahead pr x.phase → Covered t pr n)
    (hconn : ∀ w m, t.connections w = some m → s.connections w = some m := by exact fun _ _ => id)
    (hwrites : ∀ w ∈ s.writes, w ∈ t.writes := by exact fun _ => id)
    (hsessions : t.sessions = (s.setSession n x').sessions := by rfl) (hcalls : t.calls = s.calls := by rfl)
    (hpending : t.pending = s.pending := by rfl) : Awake t := by
  intro id pr c m hl hd hcall hphase hm
  rw [hpending] at hl
  rw [hcalls] at hcall
  have hcov := h id pr c m hl hd hcall hphase (hconn _ _ hm)
  cases hcov with
  | ahead hy hp =>
    by_cases hmn : m = n
    · subst hmn
      rw [hx, Option.some.injEq] at hy
      subst hy
      exact hahead id pr hl hd hm hp
    · refine .ahead ?_ hp
      rw [hsessions]
      exact (s.setSession_of_ne x' hmn).trans hy
  | sending hc hp => exact .sending (hcalls ▸ hc) hp
  | written hw hc hs hid ho => exact .written (hwrites _ hw) hc hs hid ho

theorem awake_connect (h : Awake s) (hs : Addressed s) (workerID : String) : Awake (connect s workerID) := by
  intro id pr c n hl hd hcall hphase hn
  obtain ⟨_, rfl⟩ | ⟨_, hn⟩ := update_some_cases hn
  · exact .ahead (s.setSession_self _ _) trivial
  · cases h id pr c n hl hd hcall hphase hn with
    | ahead hx hp => exact .ahead (update_kept (hs.fresh _ (Nat.le_refl _)) hx) hp
    | sending hc hp => exact .sending hc hp
    | written hw hc hm hid ho => exact .written hw hc hm hid ho

def Owned (s : State) : Prop :=
  ∀ id pr c, s.pending.lookup id = some pr → s.calls pr.call = some c → c.workerID = pr.workerID

theorem fires_owned (h : Owned s) (hs : Replay.WellFormed s) (hf : Fires s a t) : Owned t := by
  intro id pr d hl hd
  obtain hl | ⟨k, c, ty, conn, _, _, _, _, rfl, rfl⟩ := Replay.fires_pending hf hl
  · obtain ⟨c, hc, _⟩ := hs.listed pr ⟨id, hl⟩
    have hsame (e : Call) (he : s.calls pr.call = some e) : e.workerID = pr.workerID := h id pr e hl he
    cases fires_call hf hd with
    | made _ hk =>
      rw [hk, hs.fresh _ (Nat.le_refl _)] at hc
      cases hc
    | kept he hw => exact hw.trans (hsame _ he)
    | @received e r _ he _ _ hdc =>
      rw [hdc]
      exact hsame e he
    | @delivered e r n _ ht hdc =>
      obtain ⟨_, _, _, he, _⟩ := target_spec ht
      rw [hdc]
      exact hsame e he
  · obtain ⟨_, rfl⟩ | ⟨hne, _⟩ := update_some_cases hd
    · rfl
    · exact absurd rfl hne

def registering : Phase → Option (Option Nat)
  | .register conn => some conn
  | _ => none

def sending : Phase → Option Nat
  | .send conn => conn
  | _ => none

def nextReplay : SessionPhase → Option PendingResult
  | .replaying (pr :: _) => some pr
  | _ => none

/-- The worker's connection is the one that the call has read, or is about to
look at what is pending. -/
def Current (s : State) (workerID : String) (conn : Option Nat) : Prop :=
  ∀ n ∈ s.connections workerID, conn = some n ∨ ∃ x ∈ s.sessions n, x.phase = .connected

instance (s : State) (workerID : String) (conn : Option Nat) : Decidable (Current s workerID conn) :=
  inferInstanceAs (Decidable (∀ n ∈ s.connections workerID, _))

/-- A durable command registers while the connection that it has read is the
worker's, and the writes of one to the worker's connection succeed. -/
def Timely (s : State) : Action → Prop
  | .register k => ∀ c ∈ s.calls k, durable c.cmd = true → ∀ conn ∈ registering c.phase, Current s c.workerID conn
  | .send k _ ok => ∀ c ∈ s.calls k, durable c.cmd = true →
    ∀ n ∈ sending c.phase, s.connections c.workerID = some n → ok = true
  | .resend n _ ok => ∀ x ∈ s.sessions n, ∀ pr ∈ nextReplay x.phase,
    isDurableCommand pr.msgType = true → s.connections pr.workerID = some n → ok = true
  | .skipReplay n => ∀ x ∈ s.sessions n, ∀ pr ∈ nextReplay x.phase,
    isDurableCommand pr.msgType = true → s.connections pr.workerID ≠ some n
  | _ => True

instance (s : State) (a : Action) : Decidable (Timely s a) := by
  unfold Timely
  split <;> infer_instance

theorem awake_register (h : Awake s) (hs : Replay.WellFormed s) {conn : Option Nat} {ty : MessageType}
    (hc : s.calls k = some c)
    (hcur : isDurableCommand ty = true → Current s c.workerID conn) : Awake (register s k c ty conn) := by
  intro id pr d n hl hd hcall hphase hn
  by_cases hid : id = c.cmd.commandID
  · subst hid
    cases (AList.lookup_insert s.pending).symm.trans hl
    obtain rfl | ⟨x, hx, hx'⟩ := hcur hd n hn
    · exact .sending (s.setCall_self k _) rfl
    · exact .ahead hx (by rw [hx']; trivial)
  · replace hl : s.pending.lookup id = some pr := (AList.lookup_insert_ne hid).symm.trans hl
    have hk : pr.call ≠ k := by
      intro hk
      obtain ⟨e, he, hcmd, _⟩ := hs.listed pr ⟨id, hl⟩
      rw [hk, hc, Option.some.injEq] at he
      subst he
      exact hid (by rw [hcmd]; exact (hs.keyed id pr hl).symm)
    have hcall : s.calls pr.call = some d := (s.setCall_of_ne _ hk).symm.trans hcall
    cases h id pr d n hl hd hcall hphase hn with
    | ahead hx hp => exact .ahead hx hp
    | sending he hp => exact .sending ((s.setCall_of_ne _ hk).trans he) hp
    | written hw hc hm hid ho => exact .written hw hc hm hid ho

theorem flying_enter (s : State) (workerID : String) (cmd : Command) : flying (enter s workerID cmd) = false := by
  unfold enter
  split
  · rfl
  · split <;> rfl

section

variable (h : Awake s)

include h

theorem awake_dispatch (workerID : String) (cmd : Command) :
    Awake (open_ s { workerID, cmd, phase := enter s workerID cmd }) := by
  intro id pr d n hl hd hcall hphase hn
  obtain ⟨_, rfl⟩ | ⟨hk, hcall⟩ := update_some_cases hcall
  · rw [flying_enter] at hphase
    cases hphase
  · cases h id pr d n hl hd hcall hphase hn with
    | ahead hx hp => exact .ahead hx hp
    | sending hc hp => exact .sending ((s.setCall_of_ne _ hk).trans hc) hp
    | written hw hc hm hid ho => exact .written hw hc hm hid ho

theorem awake_send (hs : Replay.WellFormed s) (ho : Owned s) {conn : Nat} {ty : MessageType}
    {messageID : String} {ok : Bool} (hc : s.calls k = some c) (hp : c.phase = .send (some conn))
    (hg : durable c.cmd = true → s.connections c.workerID = some conn → ok = true) :
    Awake (send s k c ty conn messageID ok) := by
  refine h.setCall hc rfl rfl (fun _ _ => id) rfl (fun _ => mem_append_left _)
    (fun _ => by rw [hp]; rfl) ?_
  rintro id pr n hl _ hd rfl hn hsend
  rw [hp, Phase.send.injEq, Option.some.injEq] at hsend
  subst hsend
  obtain ⟨e, he, hcmd, hty⟩ := hs.listed pr ⟨id, hl⟩
  rw [hc, Option.some.injEq] at he
  subst he
  have hok : ok = true := by
    refine hg ?_ ?_
    · rw [durable, hty]
      exact hd
    · rw [ho id pr c hl hc]
      exact hn
  refine .written (mem_append_right _ (mem_singleton_self _)) rfl rfl ?_ hok
  change (withDispatchMessageID messageID c.cmd).commandID = _
  rw [withDispatchMessageID_commandID, hcmd]

theorem awake_snapshot {order : List PendingResult} (hx : s.sessions n = some x)
    (hs : Addressed s) (ho : order.Perm (s.pendingFor x.workerID)) :
    Awake (s.setSession n { x with phase := .replaying order }) := by
  refine h.setSession _ hx (fun id pr hl _ hn _ => ?_)
  obtain ⟨y, hy, hyw⟩ := hs.filed _ _ hn
  rw [hx, Option.some.injEq] at hy
  subst hy
  have hm : pr ∈ s.pendingFor x.workerID := by
    refine mem_filter.mpr ⟨mem_map.mpr ⟨⟨id, pr⟩, AList.mem_lookup_iff.mp hl, rfl⟩, ?_⟩
    exact decide_eq_true hyw.symm
  exact .ahead (s.setSession_self n _) (ho.mem_iff.mpr hm)

theorem awake_resend {rest : List PendingResult} {messageID : String} {ok : Bool}
    (hx : s.sessions n = some x) (hp : x.phase = .replaying (pr :: rest))
    (hg : isDurableCommand pr.msgType = true → s.connections pr.workerID = some n → ok = true) :
    Awake (resend s n x pr rest messageID ok) := by
  refine h.setSession _ hx (fun id q _ hd hn hahead => ?_) (fun _ _ => id) (fun _ => mem_append_left _)
  rw [hp] at hahead
  obtain rfl | hm := mem_cons.mp hahead
  · refine .written (mem_append_right _ (mem_singleton_self _)) rfl rfl ?_ (hg hd hn)
    exact withDispatchMessageID_commandID messageID q.cmd
  · exact .ahead (s.setSession_self n _) hm

theorem awake_skip {rest : List PendingResult} (hx : s.sessions n = some x) (hp : x.phase = .replaying (pr :: rest))
    (hg : isDurableCommand pr.msgType = true → s.connections pr.workerID ≠ some n) :
    Awake (s.setSession n { x with phase := .replaying rest }) := by
  refine h.setSession _ hx (fun id q _ hd hn hahead => ?_)
  rw [hp] at hahead
  obtain rfl | hm := mem_cons.mp hahead
  · exact absurd hn (hg hd)
  · exact .ahead (s.setSession_self n _) hm

theorem awake_disconnect (hs : Addressed s) (hx : s.sessions n = some x) : Awake (disconnect s n x) := by
  -- whether or not the session was the one on file, it is not afterwards
  have hconn (w : String) (m : Nat) (hm : (disconnect s n x).connections w = some m) :
      s.connections w = some m ∧ m ≠ n := by
    unfold disconnect at hm
    dsimp only at hm
    split at hm
    · next hcur =>
      obtain ⟨hw, hm⟩ := update_none_cases hm
      refine ⟨hm, ?_⟩
      rintro rfl
      obtain ⟨y, hy, rfl⟩ := hs.filed w _ hm
      rw [hx, Option.some.injEq] at hy
      exact hw (by rw [hy])
    · next hcur =>
      refine ⟨hm, ?_⟩
      rintro rfl
      obtain ⟨y, hy, rfl⟩ := hs.filed w _ hm
      rw [hx, Option.some.injEq] at hy
      exact hcur (by rw [hy]; exact hm)
  rw [disconnect_eq]
  exact h.setSession { x with phase := .ended } hx (fun _ _ _ _ hn _ => absurd rfl (hconn _ _ hn).2)
    (fun w m hm => (hconn w m hm).1)

theorem Awake.lands {c c' : Call} (hc : s.calls k = some c)
    (hland : flying c'.phase = false) : Awake (s.setCall k c') := by
  refine h.setCall hc rfl rfl (fun _ _ => id) rfl (fun _ => id) (fun hfly => ?_) (fun _ _ _ _ hfly => ?_)
  · rw [hland] at hfly
    cases hfly
  · rw [hland] at hfly
    cases hfly

theorem awake_unregister {c c' : Call} (hc : s.calls k = some c) (hland : flying c'.phase = false) :
    Awake { s.setCall k c' with pending := s.pending.erase c.cmd.commandID } := by
  refine h.setCall hc rfl rfl (fun id pr hl => ?_) rfl (fun _ => id) (fun hfly => ?_)
    (fun _ _ _ _ hfly => ?_)
  · by_cases hid : id = c.cmd.commandID
    · subst hid
      cases (AList.lookup_erase c.cmd.commandID s.pending).symm.trans hl
    · exact (AList.lookup_erase_ne hid).symm.trans hl
  · rw [hland] at hfly
    cases hfly
  · rw [hland] at hfly
    cases hfly

theorem fires_awake (hs : Replay.WellFormed s) (ha : Addressed s) (ho : Owned s)
    (hg : Timely s a) (hf : Fires s a t) : Awake t := by
  cases hf with
  | dispatch workerID cmd => exact awake_dispatch h workerID cmd
  | @register k c conn ty hc hp ht =>
    refine awake_register h hs hc (fun hd => hg c hc ?_ conn ?_)
    · rw [durable, ht]
      exact hd
    · rw [hp]
      rfl
  | @send k c conn ty messageID ok hc hp ht =>
    refine awake_send h hs ho hc hp (fun hd hn => hg c hc hd conn ?_ hn)
    rw [hp]
    rfl
  | marshalFail hc | receive hc => exact h.lands hc rfl
  | giveUp _ hc => exact h.lands hc rfl
  | @queue k c hc hp =>
    refine h.setCall hc rfl rfl (fun _ _ => id) rfl (fun _ => id) (fun _ => by rw [hp]; rfl) ?_
    rintro _ _ n _ _ _ _ _ hsend
    rw [hp] at hsend
    cases hsend
  | unregister hc hp => exact awake_unregister h hc rfl
  | connect workerID => exact awake_connect h ha workerID
  | snapshot hx _ horder => exact awake_snapshot h hx ha horder
  | @resend n x pr rest messageID ok hx hp =>
    refine awake_resend h hx hp (hg x hx pr ?_)
    rw [hp]
    rfl
  | @skipReplay n x pr rest hx hp =>
    refine awake_skip h hx hp (hg x hx pr ?_)
    rw [hp]
    rfl
  | @read n x hx hp =>
    refine h.setSession _ hx (fun _ _ _ _ _ hahead => ?_)
    rw [hp] at hahead
    cases hahead
  | result r =>
    obtain hd | ⟨k, c, hc, hd⟩ := deliver_cases s r
    · rw [hd]
      exact h
    · rw [hd]
      refine h.setCall hc rfl rfl (fun _ _ => id) rfl (fun _ => id) id ?_
      rintro id pr n _ _ _ rfl _ hsend
      exact .sending (s.setCall_self _ _) hsend
  | disconnect hx _ => exact awake_disconnect h ha hx
  | disconnectWorker workerID =>
    intro id pr c n hl hd hcall hphase hn
    cases h id pr c n hl hd hcall hphase (update_none_cases hn).2 with
    | ahead hx hp => exact .ahead hx hp
    | sending hc hp => exact .sending hc hp
    | written hw hc hm hid ho => exact .written hw hc hm hid ho

end

structure Inv (s : State) : Prop where
  wellFormed : Replay.WellFormed s
  addressed : Addressed s
  owned : Owned s
  awake : Awake s

theorem inv_init : Inv {} where
  wellFormed := Replay.once_init.wellFormed
  addressed := addressed_init
  owned _ _ _ h := by cases h
  awake _ _ _ _ h := by cases h

theorem step_inv (h : Inv s) (hg : Timely s a) (hstep : step s a = some t) : Inv t := by
  have hf := step_fires hstep
  exact ⟨Replay.fires_wellFormed h.wellFormed hf, fires_addressed h.addressed hf,
    fires_owned h.owned h.wellFormed hf, fires_awake h.awake h.wellFormed h.addressed h.owned hg hf⟩

theorem timely_written_on_connection {as : List Action} {id : String}
    (hm : Meets step Timely {} as) (hr : run step {} as = some t)
    (hl : t.pending.lookup id = some pr) (hd : isDurableCommand pr.msgType = true)
    (hc : t.calls pr.call = some c) (hw : c.phase = .wait) (hn : t.connections pr.workerID = some n)
    (hx : t.sessions n = some x) (hq : x.phase = .reading) :
    ∃ w ∈ t.writes, w.call = pr.call ∧ w.session = n ∧ w.env.payload.commandID = id ∧ w.ok = true := by
  have hinv : Inv t := run_invariant (fun _ _ _ => step_inv) inv_init hm hr
  cases hinv.awake id pr c n hl hd hc (by rw [hw]; rfl) hn with
  | ahead hy hp =>
    rw [hx, Option.some.injEq] at hy
    subst hy
    rw [hq] at hp
    cases hp
  | sending he hp =>
    rw [hc, Option.some.injEq] at he
    subst he
    rw [hw] at hp
    cases hp
  | written hmem hcall hs hid ho =>
    exact ⟨_, hmem, hcall, hs, hid.trans (hinv.wellFormed.keyed id pr hl), ho⟩

def deploy : Command := .deploy { commandID := "c1", stackID := "st1" }

def entry : PendingResult := ⟨0, "w1", .deploy, "c1", deploy⟩

/-- The worker connects and looks at what is pending between the two steps of a
call that has found it offline. -/
def lateRegistration : List Action :=
  [.dispatch "w1" deploy, .connect "w1", .snapshot 0 [], .read 0, .register 0, .queue 0]

theorem deploy_waits_while_connected : ∃ t ∈ run step {} lateRegistration, t.pending.lookup "c1" = some entry ∧
      t.calls 0 = some ⟨"w1", deploy, .wait, none⟩ ∧ t.connections "w1" = some 0 ∧
      t.sessions 0 = some ⟨"w1", .reading⟩ ∧ t.writes = [] :=
  run_reaches (by decide)

def replayedOnReconnect : List Action :=
  [.dispatch "w1" deploy, .register 0, .queue 0, .connect "w1", .snapshot 0 [entry], .resend 0 "m1" true, .read 0]

theorem replayed_deploy_written : ∃ t ∈ run step {} replayedOnReconnect, ∃ w ∈ t.writes, w.call = 0 ∧ w.session = 0 ∧
      w.env.payload.commandID = "c1" ∧ w.ok = true := by
  obtain ⟨t, ht, hl, hc, hn, hx⟩ : ∃ t ∈ run step {} replayedOnReconnect,
      t.pending.lookup "c1" = some entry ∧ t.calls 0 = some ⟨"w1", deploy, .wait, none⟩ ∧
      t.connections "w1" = some 0 ∧ t.sessions 0 = some ⟨"w1", .reading⟩ := run_reaches (by decide)
  exact ⟨t, ht, timely_written_on_connection (by decide) ht hl rfl hc rfl hn hx rfl⟩

end Wireops.Server.Wakeup
