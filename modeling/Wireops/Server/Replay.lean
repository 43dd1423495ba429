import Wireops.Lib.Table
import Wireops.Server.Dispatch

namespace Wireops.Server.Replay

open List Protocol Lib.Steps Lib.Table Server.Dispatch

variable {s t : State} {a : Action} {k : Nat} {c : Call} {pr : PendingResult}

def written (s : State) (k : Nat) : Nat := s.writes.countP (fun w => w.call = k)

def unsent : Phase → Bool
  | .register _ | .send _ => true
  | _ => false

def Describes (s : State) (pr : PendingResult) : Prop :=
  ∃ c, s.calls pr.call = some c ∧ c.cmd = pr.cmd ∧ c.cmd.msgType = some pr.msgType

def queued (s : State) (pr : PendingResult) : Prop :=
  ∃ n x l, s.sessions n = some x ∧ x.phase = .replaying l ∧ pr ∈ l

def listed (s : State) (pr : PendingResult) : Prop :=
  ∃ id, s.pending.lookup id = some pr

structure WellFormed (s : State) : Prop where
  fresh : ∀ k, s.nextCall ≤ k → s.calls k = none
  authored : ∀ w ∈ s.writes, w.call < s.nextCall
  keyed : ∀ id pr, s.pending.lookup id = some pr → pr.cmd.commandID = id
  listed : ∀ pr, listed s pr → Describes s pr
  queued : ∀ pr, queued s pr → Describes s pr

/-- No step changes the command of a call that exists. -/
def Keeps (s t : State) : Prop :=
  ∀ k c, s.calls k = some c → ∃ c', t.calls k = some c' ∧ c'.cmd = c.cmd

theorem Keeps.refl (s : State) : Keeps s s := fun _ c h => ⟨c, h, rfl⟩

theorem Keeps.describes (h : Keeps s t) (hd : Describes s pr) : Describes t pr := by
  obtain ⟨c, hc, hcmd, hty⟩ := hd
  obtain ⟨c', hc', he⟩ := h pr.call c hc
  exact ⟨c', hc', he.trans hcmd, he ▸ hty⟩

theorem keeps_setCall {c' : Call} (hc : s.calls k = some c) (he : c'.cmd = c.cmd) : Keeps s (s.setCall k c') := by
  intro i d hd
  by_cases hi : i = k
  · subst hi
    rw [hc] at hd
    cases hd
    exact ⟨c', s.setCall_self i c', he⟩
  · exact ⟨d, (s.setCall_of_ne c' hi).trans hd, rfl⟩

theorem keeps_open (hs : WellFormed s) (c : Call) : Keeps s (open_ s c) := by
  intro i d hd
  exact ⟨d, update_kept (hs.fresh _ le_rfl) hd, rfl⟩

theorem keeps_deliver (s : State) (r : CommandResult) : Keeps s (deliver s r) := by
  obtain h | ⟨k, c, hc, h⟩ := deliver_cases s r
  · rw [h]
    exact Keeps.refl s
  · rw [h]
    exact keeps_setCall hc rfl

theorem fires_keeps (hs : WellFormed s) (h : Fires s a t) : Keeps s t := by
  cases h with
  | dispatch workerID cmd => exact keeps_open hs _
  | register hc _ _ => exact keeps_setCall hc rfl
  | marshalFail hc _ => exact keeps_setCall hc rfl
  | send _ _ hc _ _ => exact keeps_setCall hc rfl
  | queue hc _ => exact keeps_setCall hc rfl
  | receive hc _ _ => exact keeps_setCall hc rfl
  | giveUp _ hc _ => exact keeps_setCall hc rfl
  | unregister hc _ => exact keeps_setCall hc rfl
  | result r _ _ => exact keeps_deliver s r
  | disconnect _ _ =>
    rw [disconnect_eq]
    exact Keeps.refl s
  | connect | snapshot | resend | skipReplay | read | disconnectWorker => exact Keeps.refl s

theorem listed_of_mem {w : String} (h : pr ∈ s.pendingFor w) : listed s pr := by
  obtain ⟨e, he, rfl⟩ := mem_map.mp (mem_filter.mp h).1
  exact ⟨e.1, AList.mem_lookup_iff.mpr he⟩

theorem describes_register {ty : MessageType} {conn : Option Nat} (ht : c.cmd.msgType = some ty) :
    Describes (register s k c ty conn) ⟨k, c.workerID, ty, c.cmd.commandID, c.cmd⟩ :=
  ⟨{ c with phase := .send conn }, s.setCall_self k _, rfl, ht⟩

theorem fires_pending (h : Fires s a t) {id : String} (hl : t.pending.lookup id = some pr) :
    s.pending.lookup id = some pr ∨ ∃ k c ty conn, a = .register k ∧ s.calls k = some c ∧
      c.cmd.msgType = some ty ∧ id = c.cmd.commandID ∧
      pr = ⟨k, c.workerID, ty, c.cmd.commandID, c.cmd⟩ ∧ t = register s k c ty conn := by
  cases h with
  | @register k c conn ty hc _ ht =>
    by_cases he : id = c.cmd.commandID
    · subst he
      cases (AList.lookup_insert s.pending).symm.trans hl
      exact .inr ⟨k, c, ty, conn, rfl, hc, ht, rfl, rfl, rfl⟩
    · exact .inl ((AList.lookup_insert_ne he).symm.trans hl)
  | @unregister k c reply _ _ =>
    by_cases he : id = c.cmd.commandID
    · subst he
      cases (AList.lookup_erase c.cmd.commandID s.pending).symm.trans hl
    · exact .inl ((AList.lookup_erase_ne he).symm.trans hl)
  | result r _ _ =>
    rw [deliver_eq] at hl
    exact .inl hl
  | disconnect _ _ =>
    rw [disconnect_eq] at hl
    exact .inl hl
  | dispatch | marshalFail | send | queue | receive | giveUp | connect | snapshot | resend
  | skipReplay | read | disconnectWorker => exact .inl hl

theorem fires_listed (h : Fires s a t) (hl : listed t pr) : listed s pr ∨ Describes t pr := by
  obtain ⟨id, hid⟩ := hl
  obtain hid | ⟨k, c, ty, conn, _, _, ht, _, rfl, rfl⟩ := fires_pending h hid
  · exact .inl ⟨id, hid⟩
  · exact .inr (describes_register ht)

theorem queued_setSession {n : Nat} {x : Session} (hq : queued (s.setSession n x) pr) :
    queued s pr ∨ ∃ l, x.phase = .replaying l ∧ pr ∈ l := by
  obtain ⟨m, y, l, hy, hp, hm⟩ := hq
  by_cases hn : m = n
  · subst hn
    cases (s.setSession_self m x).symm.trans hy
    exact .inr ⟨l, hp, hm⟩
  · exact .inl ⟨m, y, l, (s.setSession_of_ne x hn).symm.trans hy, hp, hm⟩

theorem fires_queued (h : Fires s a t) (hq : queued t pr) :
    queued s pr ∨ ∃ n order x, a = .snapshot n order ∧ s.sessions n = some x ∧ pr ∈ s.pendingFor x.workerID := by
  cases h with
  | snapshot hx _ ho =>
    obtain h | ⟨l, hl, hm⟩ := queued_setSession hq
    · exact .inl h
    · cases hl
      exact .inr ⟨_, _, _, rfl, hx, ho.mem_iff.mp hm⟩
  | @resend n x q rest _ _ hx hp =>
    have hq : queued (s.setSession n { x with phase := .replaying rest }) pr := hq
    obtain h | ⟨l, hl, hm⟩ := queued_setSession hq
    · exact .inl h
    · cases hl
      exact .inl ⟨n, x, q :: rest, hx, hp, mem_cons_of_mem q hm⟩
  | @skipReplay n x q rest hx hp =>
    obtain h | ⟨l, hl, hm⟩ := queued_setSession hq
    · exact .inl h
    · cases hl
      exact .inl ⟨n, x, q :: rest, hx, hp, mem_cons_of_mem q hm⟩
  | read hx hp =>
    obtain h | ⟨l, hl, _⟩ := queued_setSession hq
    · exact .inl h
    · cases hl
  | connect workerID =>
    have hq : queued (s.setSession s.nextSession ⟨workerID, .connected⟩) pr := hq
    obtain h | ⟨l, hl, _⟩ := queued_setSession hq
    · exact .inl h
    · cases hl
  | @disconnect n x _ _ =>
    have hq : queued (s.setSession n { x with phase := .ended }) pr := by
      rw [disconnect_eq] at hq
      exact hq
    obtain h | ⟨l, hl, _⟩ := queued_setSession hq
    · exact .inl h
    · cases hl
  | result r _ _ =>
    rw [deliver_eq] at hq
    exact .inl hq
  | dispatch | register | marshalFail | send | queue | receive | giveUp | unregister
  | disconnectWorker => exact .inl hq

theorem fresh_setCall {c' : Call} (hs : WellFormed s) (hc : s.calls k = some c) :
    ∀ i, s.nextCall ≤ i → (s.setCall k c').calls i = none :=
  unused_change hs.fresh hc

theorem fires_fresh (hs : WellFormed s) (h : Fires s a t) : ∀ k, t.nextCall ≤ k → t.calls k = none := by
  cases h with
  | dispatch workerID cmd => exact unused_fill hs.fresh
  | register hc | marshalFail hc | queue hc | receive hc | unregister hc => exact fresh_setCall hs hc
  | send _ _ hc | giveUp _ hc => exact fresh_setCall hs hc
  | result r =>
    obtain h | ⟨k, c, hc, h⟩ := deliver_cases s r
    · rw [h]
      exact hs.fresh
    · rw [h]
      exact fresh_setCall hs hc
  | disconnect =>
    rw [disconnect_eq]
    exact hs.fresh
  | connect | snapshot | resend | skipReplay | read | disconnectWorker => exact hs.fresh

theorem lt_nextCall (hs : WellFormed s) (hc : s.calls k = some c) : k < s.nextCall := by
  by_contra h
  rw [hs.fresh k (by omega)] at hc
  cases hc

theorem fires_writes (h : Fires s a t) : t.writes = s.writes ∨ ∃ w, t.writes = s.writes ++ [w] ∧
    ((∃ n x rest pr, s.sessions n = some x ∧ x.phase = .replaying (pr :: rest) ∧ w.call = pr.call ∧
        t.calls = s.calls) ∨ ∃ k c conn ok, s.calls k = some c ∧ c.phase = .send conn ∧ w.call = k ∧
        t.calls = (s.setCall k { c with phase := afterSend c ok }).calls) := by
  cases h with
  | @send k c conn ty messageID ok hc hp ht =>
    exact .inr ⟨_, rfl, .inr ⟨k, c, _, ok, hc, hp, rfl, rfl⟩⟩
  | @resend n x pr rest messageID ok hx hp =>
    exact .inr ⟨_, rfl, .inl ⟨n, x, rest, pr, hx, hp, rfl, rfl⟩⟩
  | result r =>
    rw [deliver_eq]
    exact .inl rfl
  | disconnect =>
    rw [disconnect_eq]
    exact .inl rfl
  | dispatch | register | marshalFail | queue | receive | giveUp | unregister | connect | snapshot
  | skipReplay | read | disconnectWorker => exact .inl rfl

theorem fires_nextCall (h : Fires s a t) : s.nextCall ≤ t.nextCall := by
  cases h with
  | dispatch => exact Nat.le_succ s.nextCall
  | result r =>
    rw [deliver_eq]
  | disconnect =>
    rw [disconnect_eq]
    exact le_rfl
  | register | marshalFail | send | queue | receive | giveUp | unregister | connect | snapshot
  | resend | skipReplay | read | disconnectWorker => exact le_rfl

section

variable (hs : WellFormed s) (h : Fires s a t)

include hs h

theorem fires_authored : ∀ w ∈ t.writes, w.call < t.nextCall := by
  intro w hw
  refine lt_of_lt_of_le ?_ (fires_nextCall h)
  obtain he | ⟨v, he, hv⟩ := fires_writes h
  · exact hs.authored w (he ▸ hw)
  · rw [he] at hw
    obtain hw | hw := mem_append.mp hw
    · exact hs.authored w hw
    · cases mem_singleton.mp hw
      obtain ⟨n, x, rest, pr, hx, hp, hc, _⟩ | ⟨k, c, _, _, hc, _, hk, _⟩ := hv
      · obtain ⟨c, hd, _⟩ := hs.queued pr ⟨n, x, _, hx, hp, mem_cons_self⟩
        exact hc ▸ lt_nextCall hs hd
      · exact hk ▸ lt_nextCall hs hc

theorem fires_keyed (id : String) (pr : PendingResult)
    (hid : t.pending.lookup id = some pr) : pr.cmd.commandID = id := by
  obtain hid | ⟨k, c, ty, conn, _, _, _, rfl, rfl, _⟩ := fires_pending h hid
  · exact hs.keyed id pr hid
  · rfl

theorem fires_wellFormed : WellFormed t where
  fresh := fires_fresh hs h
  authored := fires_authored hs h
  keyed := fires_keyed hs h
  listed := by
    intro pr hl
    obtain hl | hd := fires_listed h hl
    · exact (fires_keeps hs h).describes (hs.listed pr hl)
    · exact hd
  queued := by
    intro pr hq
    obtain hq | ⟨_, _, _, _, _, hm⟩ := fires_queued h hq
    · exact (fires_keeps hs h).describes (hs.queued pr hq)
    · exact (fires_keeps hs h).describes (hs.listed pr (listed_of_mem hm))

end

theorem written_append (ws : List Write) (w : Write) (k : Nat) : (ws ++ [w]).countP (fun v => v.call = k) =
      ws.countP (fun v => v.call = k) + if w.call = k then 1 else 0 := by
  simp [countP_append, countP_cons]

/-- A command of a type that is not durable has at most one write behind it
and ahead of it. -/
structure Once (s : State) : Prop where
  wellFormed : WellFormed s
  replays : ∀ pr, queued s pr → isDurableCommand pr.msgType = true
  budget : ∀ k c, s.calls k = some c → durable c.cmd = false → written s k + (if unsent c.phase then 1 else 0) ≤ 1

/-- The condition on a replay: what the pending table of the worker holds at the
reconnect is durable. -/
def ReplaysDurable (s : State) : Action → Prop
  | .snapshot n _ => ∀ x ∈ s.sessions n, ∀ pr ∈ s.pendingFor x.workerID,
      isDurableCommand pr.msgType = true
  | _ => True

instance (s : State) (a : Action) : Decidable (ReplaysDurable s a) := by
  unfold ReplaysDurable
  split <;> infer_instance

theorem once_init : Once {} where
  wellFormed := {
    fresh := fun _ _ => rfl
    authored := fun _ h => nomatch h
    keyed := fun _ _ h => nomatch h
    listed := fun _ ⟨_, h⟩ => nomatch h
    queued := fun _ ⟨_, _, _, h, _⟩ => nomatch h }
  replays := fun _ ⟨_, _, _, h, _⟩ => nomatch h
  budget := fun _ _ h => nomatch h

theorem fires_replays (hs : Once s) (hg : ReplaysDurable s a) (h : Fires s a t) :
    ∀ pr, queued t pr → isDurableCommand pr.msgType = true := by
  intro pr hq
  obtain hq | ⟨n, order, x, rfl, hx, hm⟩ := fires_queued h hq
  · exact hs.replays pr hq
  · exact hg x hx pr hm

theorem unsent_afterSend (c : Call) (ok : Bool) : unsent (afterSend c ok) = false := by
  unfold afterSend
  split <;> rfl

theorem calls_setCall {c' d : Call} {i : Nat} (hc : s.calls k = some c)
    (hd : (s.setCall k c').calls i = some d) (he : c'.cmd = c.cmd)
    (hu : unsent c'.phase = true → unsent c.phase = true) :
    ∃ c, s.calls i = some c ∧ d.cmd = c.cmd ∧ (unsent d.phase = true → unsent c.phase = true) := by
  by_cases hi : i = k
  · subst hi
    cases (s.setCall_self i c').symm.trans hd
    exact ⟨c, hc, he, hu⟩
  · exact ⟨d, (s.setCall_of_ne c' hi).symm.trans hd, rfl, id⟩

theorem fires_calls {d : Call} {i : Nat} (h : Fires s a t) (hd : t.calls i = some d) :
    (∃ c, s.calls i = some c ∧ d.cmd = c.cmd ∧ (unsent d.phase = true → unsent c.phase = true)) ∨
      (i = s.nextCall ∧ t.writes = s.writes) := by
  have same : s.calls i = some d → ∃ c, s.calls i = some c ∧ d.cmd = c.cmd ∧
      (unsent d.phase = true → unsent c.phase = true) := fun h => ⟨d, h, rfl, id⟩
  cases h with
  | dispatch workerID cmd =>
    by_cases hi : i = s.nextCall
    · exact .inr ⟨hi, rfl⟩
    · exact .inl (same ((s.setCall_of_ne _ hi).symm.trans hd))
  | register hc hp _ => exact .inl (calls_setCall hc hd rfl (fun _ => by rw [hp]; rfl))
  | send _ ok hc hp _ => exact .inl (calls_setCall hc hd rfl (fun _ => by rw [hp]; rfl))
  | marshalFail hc | queue hc | receive hc | unregister hc =>
    exact .inl (calls_setCall hc hd rfl (fun h => nomatch h))
  | giveUp _ hc => exact .inl (calls_setCall hc hd rfl (fun h => nomatch h))
  | result r =>
    obtain h | ⟨k, c, hc, h⟩ := deliver_cases s r
    · rw [h] at hd
      exact .inl (same hd)
    · rw [h] at hd
      exact .inl (calls_setCall hc hd rfl id)
  | disconnect =>
    rw [disconnect_eq] at hd
    exact .inl (same hd)
  | connect | snapshot | resend | skipReplay | read | disconnectWorker => exact .inl (same hd)

theorem written_nextCall (hs : WellFormed s) : written s s.nextCall = 0 := by
  refine countP_eq_zero.mpr ?_
  intro w hw
  have hlt := hs.authored w hw
  simp only [decide_eq_true_eq]
  omega

theorem fires_budget (hs : Once s) (h : Fires s a t) : ∀ k c, t.calls k = some c →
    durable c.cmd = false → written t k + (if unsent c.phase then 1 else 0) ≤ 1 := by
  intro k d hd hdur
  obtain ⟨c, hc, hcmd, hu⟩ | ⟨rfl, hw⟩ := fires_calls h hd
  · have hb := hs.budget k c hc (hcmd ▸ hdur)
    have hle : (if unsent d.phase then 1 else 0) ≤ if unsent c.phase then 1 else 0 := by
      split <;> simp_all
    obtain hw | ⟨w, hw, hsrc⟩ := fires_writes h
    · unfold written at hb ⊢
      rw [hw]
      omega
    · unfold written at hb ⊢
      rw [hw, written_append]
      by_cases hk : w.call = k
      · subst hk
        obtain ⟨n, x, rest, pr, hx, hp, hpr, _⟩ | ⟨i, e, conn, ok, he, hp, rfl, ht⟩ := hsrc
        · obtain ⟨e, he, _, hty⟩ := hs.wellFormed.queued pr ⟨n, x, _, hx, hp, mem_cons_self⟩
          have hq := hs.replays pr ⟨n, x, _, hx, hp, mem_cons_self⟩
          rw [← hpr, hc] at he
          cases he
          rw [hcmd, durable, hty, Option.any_some, hq] at hdur
          cases hdur
        · rw [hc] at he
          cases he
          rw [ht, State.setCall_self] at hd
          cases hd
          rw [hp] at hb
          change _ + 1 ≤ 1 at hb
          simp only [unsent_afterSend, Bool.false_eq_true, ↓reduceIte]
          omega
      · rw [if_neg hk]
        omega
  · have h0 := written_nextCall hs.wellFormed
    unfold written at h0 ⊢
    rw [hw, h0]
    split <;> omega

theorem step_once (s : State) (a : Action) (t : State) (hs : Once s) (hg : ReplaysDurable s a)
    (h : step s a = some t) : Once t :=
  have hf := step_fires h
  ⟨fires_wellFormed hs.wellFormed hf, fires_replays hs hg hf, fires_budget hs hf⟩

/-- In every interleaving of calls, connections and results whose replays range
over durable entries only, a command of a type that is not durable is written at
most once. -/
theorem written_at_most_once {as : List Action} {t : State}
    (hg : Meets step ReplaysDurable {} as) (hr : run step {} as = some t)
    {k : Nat} {c : Call} (hc : t.calls k = some c)
    (hd : c.cmd.msgType.any isDurableCommand = false) : written t k ≤ 1 := by
  have h := run_invariant step_once once_init hg hr
  have hb := h.budget k c hc hd
  omega

/-- An exec is written, its worker reconnects before the result, and the
replay writes it again. -/
def execReplayed : List Action :=
  [.connect "w", .snapshot 0 [], .read 0, .dispatch "w" (.exec "exec-1"), .register 0,
    .send 0 "m1" true, .connect "w", .snapshot 1 [⟨0, "w", .exec, "exec-1", .exec "exec-1"⟩],
    .resend 1 "m2" true]

theorem exec_written_twice : ∃ t ∈ run step {} execReplayed, ∃ c ∈ t.calls 0,
    c.cmd.msgType.any isDurableCommand = false ∧ written t 0 = 2 ∧ ∀ w ∈ t.writes, w.ok = true :=
  ⟨_, rfl, _, rfl, by decide, by decide, by decide⟩

/-- The exec has its result when the worker reconnects; the deploy has not. -/
def deployReplayed : List Action :=
  [.connect "w", .snapshot 0 [], .read 0, .dispatch "w" (.exec "exec-1"), .register 0,
    .send 0 "m1" true, .dispatch "w" (.deploy ⟨"sync-1", "", "stack", "c1"⟩), .register 1,
    .send 1 "m2" true, .result 0 ⟨"exec-1", "", "out", ""⟩, .receive 0, .unregister 0,
    .connect "w",
    .snapshot 1 [⟨1, "w", .deploy, "sync-1", .deploy ⟨"sync-1", "", "stack", "c1"⟩⟩],
    .resend 1 "m3" true]

theorem exec_written_once_deploy_twice : ∃ t ∈ run step {} deployReplayed, written t 0 ≤ 1 ∧ written t 1 = 2 :=
  ⟨_, rfl, @written_at_most_once deployReplayed _ (by decide) rfl _ _ rfl (by decide), by decide⟩

end Wireops.Server.Replay
