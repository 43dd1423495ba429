import Wireops.Server.Addresses
import Wireops.Server.Replay

namespace Wireops.Server.ReplayOrder

open List Protocol Lib.Steps Lib.Table Server.Dispatch Server.Addresses

variable {s t : State} {a : Action} {k n : Nat}

def toReplay : SessionPhase → List PendingResult
  | .replaying l => l
  | _ => []

def ahead (s : State) (n : Nat) : List PendingResult := (s.sessions n).elim [] (fun x => toReplay x.phase)

def registers : Action → List Nat
  | .register k => [k]
  | _ => []

def replays (s : State) (n : Nat) : Action → List PendingResult
  | .resend m _ _ => if m = n then (ahead s n).take 1 else []
  | _ => []

/-- The channel with its history: the calls in the order in which they registered,
and what was replayed on each connection. -/
structure Log where
  state : State := {}
  registered : List Nat := []
  replayed : Nat → List PendingResult := fun _ => []

def track (l : Log) (a : Action) : Option Log :=
  (step l.state a).map (fun t =>
    ⟨t, l.registered ++ registers a, fun n => l.replayed n ++ replays l.state n a⟩)

def durableCalls (l : List PendingResult) : List Nat :=
  (l.filter (fun pr => isDurableCommand pr.msgType)).map (·.call)

/-- The durable commands of every replay were written in the order in which their
calls registered, which is a list without repetitions. -/
def InOrder (l : Log) : Prop :=
  l.registered.Nodup ∧ ∀ n, (durableCalls (l.replayed n)).Sublist l.registered

/-- The condition on a reconnect: the range over the pending table yields the
durable entries in the order in which their calls registered. -/
def Ranges (l : Log) : Action → Prop
  | .snapshot _ order => (durableCalls order).Sublist l.registered
  | _ => True

instance : ∀ l a, Decidable (Ranges l a)
  | l, .snapshot _ order => inferInstanceAs (Decidable ((durableCalls order).Sublist l.registered))
  | _, .dispatch .. | _, .register .. | _, .marshalFail .. | _, .send .. | _, .queue .. | _, .receive .. | _, .giveUp ..
  | _, .unregister .. | _, .connect .. | _, .resend .. | _, .skipReplay .. | _, .read .. | _, .result ..
  | _, .disconnect .. | _, .disconnectWorker .. => .isTrue trivial

theorem durableCalls_append (l m : List PendingResult) :
    durableCalls (l ++ m) = durableCalls l ++ durableCalls m := by
  simp [durableCalls]

theorem durableCalls_sublist {l m : List PendingResult} (h : l.Sublist m) :
    (durableCalls l).Sublist (durableCalls m) :=
  (h.filter _).map _

inductive Turn (s : State) (a : Action) (t : State) (n : Nat) : Prop where
  | same (hs : t.sessions n = s.sessions n) (hr : replays s n a = [])
  | opened (hs : s.sessions n = none) {workerID : String}
    (ht : t.sessions n = some ⟨workerID, .connected⟩) (hr : replays s n a = [])
  | ranged {x : Session} {order : List PendingResult} (ha : a = .snapshot n order)
    (hs : s.sessions n = some x) (hp : x.phase = .connected)
    (ho : order.Perm (s.pendingFor x.workerID))
    (ht : t.sessions n = some { x with phase := .replaying order }) (hr : replays s n a = [])
  | moved {x y : Session} (hs : s.sessions n = some x) (ht : t.sessions n = some y)
    (hx : x.phase ≠ .connected) (hy : y.phase ≠ .connected)
    (hr : (replays s n a ++ toReplay y.phase).Sublist (toReplay x.phase))

theorem ahead_eq {x : Session} (hx : s.sessions n = some x) : ahead s n = toReplay x.phase := by
  simp [ahead, hx]

theorem turn_setSession {m : Nat} {y : Session}
    (hsessions : t.sessions = (s.setSession m y).sessions) (hne : n ≠ m → replays s n a = [])
    (hself : n = m → Turn s a t n) : Turn s a t n := by
  by_cases hn : n = m
  · exact hself hn
  · apply Turn.same _ (hne hn)
    rw [hsessions]
    exact s.setSession_of_ne y hn

theorem fires_turn (hs : Addressed s) (h : Fires s a t) (n : Nat) : Turn s a t n := by
  cases h with
  | connect workerID =>
    by_cases hn : n = s.nextSession
    · subst hn
      exact .opened (hs.fresh _ (Nat.le_refl _)) (s.setSession_self _ _) rfl
    · exact .same (s.setSession_of_ne _ hn) rfl
  | @snapshot m x order hx hp ho =>
    apply turn_setSession rfl (fun _ => rfl)
    rintro rfl
    exact .ranged rfl hx hp ho (s.setSession_self _ _) rfl
  | @resend m x pr rest messageID ok hx hp =>
    have hsessions : (resend s m x pr rest messageID ok).sessions =
        (s.setSession m { x with phase := .replaying rest }).sessions := rfl
    apply turn_setSession hsessions
    · intro hn
      simp [replays, Ne.symm hn]
    · rintro rfl
      apply Turn.moved hx (hsessions ▸ s.setSession_self _ _) (by simp [hp]) (by simp)
      simp [replays, ahead_eq hx, hp, toReplay]
  | @skipReplay m x pr rest hx hp =>
    apply turn_setSession rfl (fun _ => rfl)
    rintro rfl
    apply Turn.moved hx (s.setSession_self _ _) (by simp [hp]) (by simp)
    simp [replays, hp, toReplay]
  | @read m x hx hp =>
    apply turn_setSession rfl (fun _ => rfl)
    rintro rfl
    apply Turn.moved hx (s.setSession_self _ _) (by simp [hp]) (by simp)
    simp [replays, toReplay]
  | @disconnect m x hx hp =>
    have hsessions : (disconnect s m x).sessions = (s.setSession m { x with phase := .ended }).sessions := by
      simp only [disconnect]
      split <;> rfl
    apply turn_setSession hsessions (fun _ => rfl)
    rintro rfl
    apply Turn.moved hx (hsessions ▸ s.setSession_self _ _) (by simp [hp]) (by simp)
    simp [replays, toReplay]
  | result r =>
    rw [deliver_eq]
    exact .same rfl rfl
  | dispatch | register | marshalFail | send | queue | receive | giveUp | unregister
  | disconnectWorker => exact .same rfl rfl

theorem fires_registering {d : Call} {conn : Option Nat} (h : Fires s a t)
    (hd : t.calls k = some d) (hp : d.phase = .register conn) :
    a ≠ .register k ∧ ((∃ c conn, s.calls k = some c ∧ c.phase = .register conn) ∨ k = s.nextCall) := by
  cases h with
  | dispatch =>
    obtain ⟨rfl, rfl⟩ | ⟨_, hd⟩ := update_some_cases hd
    · exact ⟨by simp, .inr rfl⟩
    · exact ⟨by simp, .inl ⟨d, conn, hd, hp⟩⟩
  | @register i c conn' ty hc hph _ =>
    obtain ⟨rfl, rfl⟩ | ⟨hne, hd⟩ := update_some_cases hd
    · cases hp
    · exact ⟨by simpa using Ne.symm hne, .inl ⟨d, conn, hd, hp⟩⟩
  | @send i c conn' ty messageID ok hc hph _ =>
    obtain ⟨rfl, rfl⟩ | ⟨_, hd⟩ := update_some_cases hd
    · simp only [afterSend] at hp
      split at hp <;> cases hp
    · exact ⟨by simp, .inl ⟨d, conn, hd, hp⟩⟩
  | marshalFail | queue | receive | giveUp | unregister =>
    obtain ⟨rfl, rfl⟩ | ⟨_, hd⟩ := update_some_cases hd
    · cases hp
    · exact ⟨by simp, .inl ⟨d, conn, hd, hp⟩⟩
  | result r =>
    refine ⟨by simp, .inl ?_⟩
    obtain h | ⟨i, c, hc, h⟩ := deliver_cases s r
    · rw [h] at hd
      exact ⟨d, conn, hd, hp⟩
    · rw [h] at hd
      obtain ⟨rfl, rfl⟩ | ⟨_, hd⟩ := update_some_cases hd
      · exact ⟨c, conn, hc, hp⟩
      · exact ⟨d, conn, hd, hp⟩
  | disconnect =>
    refine ⟨by simp, .inl ⟨d, conn, ?_, hp⟩⟩
    simp only [disconnect] at hd
    split at hd <;> exact hd
  | connect | snapshot | resend | skipReplay | read | disconnectWorker =>
    exact ⟨by simp, .inl ⟨d, conn, hd, hp⟩⟩

structure Enrolled (l : Log) : Prop where
  wellFormed : Replay.WellFormed l.state
  nodup : l.registered.Nodup
  known : ∀ k ∈ l.registered, ∃ c, l.state.calls k = some c
  past : ∀ k c conn, l.state.calls k = some c → c.phase = .register conn → k ∉ l.registered
  listed : ∀ id pr, l.state.pending.lookup id = some pr → pr.call ∈ l.registered

theorem registers_of_fires (h : Fires s a t) (hk : k ∈ registers a) :
    ∃ c conn, s.calls k = some c ∧ c.phase = .register conn := by
  cases h with
  | @register i c conn ty hc hp _ =>
    cases mem_singleton.mp hk
    exact ⟨c, conn, hc, hp⟩
  | _ => cases hk

theorem Enrolled.step {l m : Log} (hl : Enrolled l) (h : Fires l.state a m.state)
    (hm : m.registered = l.registered ++ registers a) : Enrolled m where
  wellFormed := Replay.fires_wellFormed hl.wellFormed h
  nodup := by
    rw [hm, nodup_append]
    refine ⟨hl.nodup, ?_, ?_⟩
    · cases a <;> simp [registers]
    · rintro k hk _ hk' rfl
      obtain ⟨c, conn, hc, hp⟩ := registers_of_fires h hk'
      exact hl.past k c conn hc hp hk
  known k hk := by
    have hknown : ∃ c, l.state.calls k = some c := by
      rw [hm, mem_append] at hk
      rcases hk with hk | hk
      · exact hl.known k hk
      · obtain ⟨c, _, hc, _⟩ := registers_of_fires h hk
        exact ⟨c, hc⟩
    obtain ⟨c, hc⟩ := hknown
    obtain ⟨d, hd, _⟩ := Replay.fires_keeps hl.wellFormed h k c hc
    exact ⟨d, hd⟩
  past k d conn hd hp := by
    obtain ⟨hne, hold⟩ := fires_registering h hd hp
    rw [hm, mem_append, not_or]
    constructor
    · rcases hold with ⟨c, conn', hc, hp'⟩ | rfl
      · exact hl.past k c conn' hc hp'
      · intro hk
        obtain ⟨c, hc⟩ := hl.known _ hk
        rw [hl.wellFormed.fresh _ (Nat.le_refl _)] at hc
        cases hc
    · cases a with
      | register i => simpa [registers, eq_comm] using hne
      | _ => simp [registers]
  listed id pr hpr := by
    rw [hm, mem_append]
    obtain hpr | ⟨i, c, ty, conn, rfl, _, _, _, rfl, _⟩ := Replay.fires_pending h hpr
    · exact .inl (hl.listed id pr hpr)
    · exact .inr (mem_singleton_self i)

/-- What was replayed on a connection and what is still ahead there. -/
structure Ordered (l : Log) : Prop where
  enrolled : Enrolled l
  addressed : Addressed l.state
  idle : ∀ n, (∀ x, l.state.sessions n = some x → x.phase = .connected) → l.replayed n = []
  ordered : ∀ n, (durableCalls (l.replayed n ++ ahead l.state n)).Sublist l.registered

theorem ordered_init : Ordered {} where
  enrolled := {
    wellFormed := Replay.once_init.wellFormed
    nodup := nodup_nil
    known := fun _ h => nomatch h
    past := fun _ _ _ h => nomatch h
    listed := fun _ _ h => nomatch h }
  addressed := addressed_init
  idle _ _ := rfl
  ordered _ := List.Sublist.refl _

theorem Ordered.inOrder {l : Log} (h : Ordered l) : InOrder l := by
  refine ⟨h.enrolled.nodup, fun n => ?_⟩
  have hn := h.ordered n
  rw [durableCalls_append] at hn
  exact (sublist_append_left _ _).trans hn

theorem step_ordered (l : Log) (a : Action) (m : Log) (hl : Ordered l) (hg : Ranges l a)
    (h : track l a = some m) : Ordered m := by
  obtain ⟨t, hstep, rfl⟩ := Option.map_eq_some_iff.mp h
  have hf := step_fires hstep
  refine ⟨hl.enrolled.step hf rfl, fires_addressed hl.addressed hf, fun n hn => ?_, fun n => ?_⟩
  · -- A handler that has not looked at the table has replayed nothing.
    dsimp only at hn ⊢
    cases fires_turn hl.addressed hf n with
    | same hs hr =>
      rw [hs] at hn
      rw [hr, hl.idle n hn, nil_append]
    | opened hs ht hr => rw [hr, hl.idle n (by simp [hs]), nil_append]
    | ranged _ _ _ _ ht _ => cases hn _ ht
    | moved _ ht _ hy _ => exact absurd (hn _ ht) hy
  · have hn := hl.ordered n
    dsimp only
    refine List.Sublist.trans ?_ (sublist_append_left _ _)
    cases fires_turn hl.addressed hf n with
    | same hs hr =>
      have hahead : ahead t n = ahead l.state n := by rw [ahead, ahead, hs]
      rw [hr, hahead, append_nil]
      exact hn
    | opened hs ht hr =>
      rw [hr, ahead_eq ht, hl.idle n (by simp [hs])]
      exact nil_sublist _
    | @ranged x order ha hs hp ho ht hr =>
      subst ha
      rw [hr, ahead_eq ht, hl.idle n (by simp [hs, hp])]
      exact hg
    | @moved x y hs ht hx hy hr =>
      rw [ahead_eq hs] at hn
      rw [ahead_eq ht, append_assoc]
      exact (durableCalls_sublist (List.Sublist.append_left hr _)).trans hn

/-- In every run of calls, results and reconnects whose ranges over the pending
table yield the durable entries in the order their calls registered, every
replay writes them in that order. -/
theorem replayed_in_order {as : List Action} {l : Log} (hg : Meets track Ranges {} as)
    (hr : run track {} as = some l) : InOrder l :=
  (run_invariant step_ordered ordered_init hg hr).inOrder

/-- A deploy and then a teardown are queued for a worker that is away; when it
connects, the range yields them in the given order. -/
def deployThenTeardown (order : List PendingResult) : List Action :=
  [.dispatch "w" (.deploy ⟨"sync-1", "", "stack", "c1"⟩), .register 0, .queue 0,
    .dispatch "w" (.teardown ⟨"teardown-1", "", "stack"⟩), .register 1, .queue 1,
    .connect "w", .snapshot 0 order, .resend 0 "m1" true, .resend 0 "m2" true]

def deployEntry : PendingResult :=
  ⟨0, "w", .deploy, "sync-1", .deploy ⟨"sync-1", "", "stack", "c1"⟩⟩

def teardownEntry : PendingResult :=
  ⟨1, "w", .teardown, "teardown-1", .teardown ⟨"teardown-1", "", "stack"⟩⟩

theorem teardown_replayed_first : ∃ l ∈ run track {} (deployThenTeardown [teardownEntry, deployEntry]), ¬ InOrder l :=
  ⟨_, rfl, fun h => absurd (h.2 0) (by decide)⟩

theorem deploy_replayed_first : ∃ l ∈ run track {} (deployThenTeardown [deployEntry, teardownEntry]),
      l.replayed 0 = [deployEntry, teardownEntry] ∧ InOrder l :=
  ⟨_, rfl, rfl, @replayed_in_order (deployThenTeardown [deployEntry, teardownEntry]) _ (by decide) rfl⟩

end Wireops.Server.ReplayOrder
