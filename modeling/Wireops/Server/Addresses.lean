import Wireops.Lib.Table
import Wireops.Server.Dispatch

namespace Wireops.Server.Addresses

open List Protocol Lib.Table Server.Dispatch

variable {s t : State} {a : Action} {k n : Nat} {c : Call} {x : Session}

def aim : Phase → Option Nat
  | .register conn | .send conn => conn
  | _ => none

def isOpen : Phase → Bool
  | .register _ | .send _ | .wait => true
  | _ => false

def servedBy (s : State) (n : Nat) (workerID : String) : Prop :=
  ∃ x, s.sessions n = some x ∧ x.workerID = workerID

/-- Connections belong to the worker they are filed under. -/
structure Addressed (s : State) : Prop where
  fresh : ∀ n, s.nextSession ≤ n → s.sessions n = none
  filed : ∀ workerID n, s.connections workerID = some n → servedBy s n workerID
  aimed : ∀ k c n, s.calls k = some c → aim c.phase = some n → servedBy s n c.workerID

theorem addressed_init : Addressed {} where
  fresh _ _ := rfl
  filed _ _ h := nomatch h
  aimed _ _ _ h := nomatch h

theorem servedBy_setSession (hx : s.sessions n = some x) (p : SessionPhase) {m : Nat}
    {workerID : String} (h : servedBy s m workerID) : servedBy (s.setSession n { x with phase := p }) m workerID := by
  obtain ⟨y, hy, hyw⟩ := h
  by_cases hm : m = n
  · subst hm
    rw [hx] at hy
    cases hy
    exact ⟨{ x with phase := p }, s.setSession_self m _, hyw⟩
  · exact ⟨y, (s.setSession_of_ne _ hm).trans hy, hyw⟩

theorem Addressed.setCall (hs : Addressed s) {c' : Call}
    (hcalls : t.calls = (s.setCall k c').calls) (hsessions : t.sessions = s.sessions)
    (hnext : t.nextSession = s.nextSession) (hconn : t.connections = s.connections)
    (ha : ∀ n, aim c'.phase = some n → servedBy s n c'.workerID) : Addressed t where
  fresh n hn := by
    rw [hsessions]
    exact hs.fresh n (hnext ▸ hn)
  filed w n h := by
    unfold servedBy
    rw [hsessions]
    exact hs.filed w n (hconn ▸ h)
  aimed i d n hd hn := by
    unfold servedBy
    rw [hsessions]
    rw [hcalls] at hd
    obtain ⟨_, rfl⟩ | ⟨_, hd⟩ := update_some_cases hd
    · exact ha n hn
    · exact hs.aimed i d n hd hn

theorem Addressed.setSession (hs : Addressed s) (hx : s.sessions n = some x) {p : SessionPhase}
    (hsessions : t.sessions = (s.setSession n { x with phase := p }).sessions)
    (hcalls : t.calls = s.calls) (hnext : t.nextSession = s.nextSession)
    (hconn : ∀ w m, t.connections w = some m → s.connections w = some m) : Addressed t where
  fresh m hm := by
    rw [hsessions]
    exact unused_change hs.fresh hx m (hnext ▸ hm)
  filed w m h := by
    unfold servedBy
    rw [hsessions]
    exact servedBy_setSession hx p (hs.filed w m (hconn w m h))
  aimed i d m hd hm := by
    unfold servedBy
    rw [hsessions]
    exact servedBy_setSession hx p (hs.aimed i d m (hcalls ▸ hd) hm)

theorem addressed_connect (hs : Addressed s) (workerID : String) : Addressed (connect s workerID) := by
  have keep : ∀ {m w}, servedBy s m w → servedBy (connect s workerID) m w := by
    rintro m w ⟨y, hy, hyw⟩
    exact ⟨y, update_kept (hs.fresh _ (Nat.le_refl _)) hy, hyw⟩
  refine ⟨unused_fill hs.fresh, ?_, fun i d m hd hm => keep (hs.aimed i d m hd hm)⟩
  exact forall_update_some (fun w m h => keep (hs.filed w m h)) ⟨⟨workerID, .connected⟩, s.setSession_self _ _, rfl⟩

theorem aim_enter {workerID : String} {cmd : Command} (h : aim (enter s workerID cmd) = some n) :
    s.connections workerID = some n := by
  unfold enter at h
  split at h
  · cases h
  · split at h
    · cases h
    · exact h

theorem aim_afterSend (c : Call) (ok : Bool) : aim (afterSend c ok) = none := by
  unfold afterSend
  split <;> rfl

theorem fires_addressed (hs : Addressed s) (h : Fires s a t) : Addressed t := by
  cases h with
  | dispatch workerID cmd =>
    exact hs.setCall rfl rfl rfl rfl (fun n hn => hs.filed workerID n (aim_enter hn))
  | @register k c conn ty hc hp _ =>
    refine hs.setCall rfl rfl rfl rfl (fun n hn => ?_)
    exact hs.aimed k c n hc (by rw [hp]; exact hn)
  | @send k c conn ty messageID ok hc hp _ =>
    refine hs.setCall rfl rfl rfl rfl (fun n hn => ?_)
    change aim (afterSend c ok) = some n at hn
    rw [aim_afterSend] at hn
    cases hn
  | marshalFail | queue | receive | giveUp | unregister => exact hs.setCall rfl rfl rfl rfl nofun
  | connect workerID => exact addressed_connect hs workerID
  | snapshot hx | skipReplay hx | read hx =>
    exact hs.setSession hx rfl rfl rfl (fun _ _ h => h)
  | resend _ _ hx => exact hs.setSession hx rfl rfl rfl (fun _ _ h => h)
  | result r =>
    obtain h | ⟨k, c, hc, h⟩ := deliver_cases s r
    · rw [h]
      exact hs
    · rw [h]
      exact hs.setCall rfl rfl rfl rfl (fun n hn => hs.aimed k c n hc hn)
  | @disconnect n x hx _ =>
    unfold disconnect
    dsimp only
    split
    · exact hs.setSession hx rfl rfl rfl (fun _ _ h => (update_none_cases h).2)
    · exact hs.setSession hx rfl rfl rfl (fun _ _ h => h)
  | disconnectWorker workerID =>
    exact ⟨hs.fresh, fun w m h => hs.filed w m (update_none_cases h).2, hs.aimed⟩

/-- The server may still write a command with the property to the worker. -/
inductive Due (s : State) (workerID : String) (P : Command → Prop) : Prop where
  | called {k : Nat} {c : Call} (hc : s.calls k = some c) (hw : c.workerID = workerID)
    (hp : P c.cmd) (ho : isOpen c.phase = true)
  | listed {id : String} {pr : PendingResult} (hl : s.pending.lookup id = some pr)
    (hw : pr.workerID = workerID) (hp : P pr.cmd)
  | queued {n : Nat} {x : Session} {l : List PendingResult} {pr : PendingResult}
    (hx : s.sessions n = some x) (hw : x.workerID = workerID) (hq : x.phase = .replaying l)
    (hm : pr ∈ l) (hp : P pr.cmd)

section Due

variable {workerID : String} {P : Command → Prop}

theorem Due.congr (h : Due t workerID P) (hcalls : t.calls = s.calls)
    (hpending : t.pending = s.pending) (hsessions : t.sessions = s.sessions) : Due s workerID P := by
  cases h with
  | called hc hw hp ho => exact .called (hcalls ▸ hc) hw hp ho
  | listed hl hw hp => exact .listed (hpending ▸ hl) hw hp
  | queued hx hw hq hm hp => exact .queued (hsessions ▸ hx) hw hq hm hp

theorem due_mono {Q : Command → Prop} (h : Due s workerID P) (hPQ : ∀ c, P c → Q c) : Due s workerID Q := by
  cases h with
  | called hc hw hp ho => exact .called hc hw (hPQ _ hp) ho
  | listed hl hw hp => exact .listed hl hw (hPQ _ hp)
  | queued hx hw hq hm hp => exact .queued hx hw hq hm (hPQ _ hp)

theorem due_setCall (hc : s.calls k = some c) {c' : Call} (h : Due (s.setCall k c') workerID P)
    (hw : c'.workerID = c.workerID) (hcmd : c'.cmd = c.cmd)
    (ho : isOpen c'.phase = true → isOpen c.phase = true) : Due s workerID P := by
  cases h with
  | called hd hdw hp hdo =>
    obtain ⟨_, rfl⟩ | ⟨_, hd⟩ := update_some_cases hd
    · exact .called hc (hw.symm.trans hdw) (hcmd ▸ hp) (ho hdo)
    · exact .called hd hdw hp hdo
  | listed hl hlw hp => exact .listed hl hlw hp
  | queued hx hxw hq hm hp => exact .queued hx hxw hq hm hp

theorem due_setSession {x' : Session} (h : Due (s.setSession n x') workerID P) (hw : x'.workerID = x.workerID)
    (hq : ∀ l', x'.phase = .replaying l' → ∀ pr ∈ l', P pr.cmd → Due s x.workerID P) : Due s workerID P := by
  cases h with
  | called hd hdw hp hdo => exact .called hd hdw hp hdo
  | listed hl hlw hp => exact .listed hl hlw hp
  | queued hy hyw hyq hm hp =>
    obtain ⟨_, rfl⟩ | ⟨_, hy⟩ := update_some_cases hy
    · have h := hq _ hyq _ hm hp
      rwa [← hw, hyw] at h
    · exact .queued hy hyw hyq hm hp

theorem due_register (hc : s.calls k = some c) (ho : isOpen c.phase = true) {ty : MessageType}
    {conn : Option Nat} (hd : Due (register s k c ty conn) workerID P) : Due s workerID P := by
  cases hd with
  | called hd hw hp hdo =>
    obtain ⟨_, rfl⟩ | ⟨_, hd⟩ := update_some_cases hd
    · exact .called hc hw hp ho
    · exact .called hd hw hp hdo
  | @listed id pr hl hw hp =>
    by_cases hid : id = c.cmd.commandID
    · subst hid
      cases (AList.lookup_insert s.pending).symm.trans hl
      exact .called hc hw hp ho
    · exact .listed ((AList.lookup_insert_ne hid).symm.trans hl) hw hp
  | queued hx hw hq hm hp => exact .queued hx hw hq hm hp

theorem due_unregister (hc : s.calls k = some c) {reply : Reply}
    (hd : Due (unregister s k c reply) workerID P) : Due s workerID P := by
  have hcall : Due (s.setCall k { c with phase := .returned reply }) workerID P := by
    cases hd with
    | called hd hw hp ho => exact .called hd hw hp ho
    | @listed id pr hl hw hp =>
      by_cases hid : id = c.cmd.commandID
      · subst hid
        cases (AList.lookup_erase c.cmd.commandID s.pending).symm.trans hl
      · exact .listed ((AList.lookup_erase_ne hid).symm.trans hl) hw hp
    | queued hx hw hq hm hp => exact .queued hx hw hq hm hp
  exact due_setCall hc hcall rfl rfl nofun

theorem due_dequeue (hx : s.sessions n = some x) {pr : PendingResult} {rest : List PendingResult}
    (hph : x.phase = .replaying (pr :: rest))
    (hd : Due (s.setSession n { x with phase := .replaying rest }) workerID P) : Due s workerID P := by
  refine due_setSession (x := x) hd rfl ?_
  intro l hl pr hm hp
  cases hl
  exact .queued hx rfl hph (mem_cons_of_mem _ hm) hp

theorem fires_due (h : Fires s a t) (hd : Due t workerID P) :
    Due s workerID P ∨ ∃ cmd, a = .dispatch workerID cmd ∧ P cmd := by
  cases h with
  | dispatch w cmd =>
    cases hd with
    | called hc hw hp ho =>
      obtain ⟨_, rfl⟩ | ⟨_, hc⟩ := update_some_cases hc
      · exact .inr ⟨cmd, by rw [← hw], hp⟩
      · exact .inl (.called hc hw hp ho)
    | listed hl hw hp => exact .inl (.listed hl hw hp)
    | queued hx hw hq hm hp => exact .inl (.queued hx hw hq hm hp)
  | register hc hph _ => exact .inl (due_register hc (by rw [hph]; rfl) hd)
  | @send k c conn ty messageID ok hc hph _ =>
    have hd : Due (s.setCall k { c with phase := afterSend c ok }) workerID P := hd.congr rfl rfl rfl
    exact .inl (due_setCall hc hd rfl rfl (fun _ => by rw [hph]; rfl))
  | queue hc hph => exact .inl (due_setCall hc hd rfl rfl (fun _ => by rw [hph]; rfl))
  | marshalFail hc | receive hc => exact .inl (due_setCall hc hd rfl rfl nofun)
  | giveUp _ hc => exact .inl (due_setCall hc hd rfl rfl nofun)
  | unregister hc _ => exact .inl (due_unregister hc hd)
  | connect w =>
    cases hd with
    | called hc hw hp ho => exact .inl (.called hc hw hp ho)
    | listed hl hw hp => exact .inl (.listed hl hw hp)
    | queued hx hw hq hm hp =>
      obtain ⟨_, rfl⟩ | ⟨_, hx⟩ := update_some_cases hx
      · cases hq
      · exact .inl (.queued hx hw hq hm hp)
  | @snapshot n x order hx _ ho =>
    refine .inl (due_setSession (x := x) hd rfl ?_)
    intro l hl pr hm hp
    cases hl
    obtain ⟨hmem, hw⟩ := mem_filter.mp (ho.mem_iff.mp hm)
    obtain ⟨e, he, rfl⟩ := mem_map.mp hmem
    exact .listed (AList.mem_lookup_iff.mpr he) (of_decide_eq_true hw) hp
  | resend _ _ hx hph => exact .inl (due_dequeue hx hph (hd.congr rfl rfl rfl))
  | skipReplay hx hph => exact .inl (due_dequeue hx hph hd)
  | @read n x hx _ => exact .inl (due_setSession (x := x) hd rfl nofun)
  | result r =>
    obtain h | ⟨k, c, hc, h⟩ := deliver_cases s r
    · exact .inl (h ▸ hd)
    · rw [h] at hd
      exact .inl (due_setCall hc hd rfl rfl id)
  | @disconnect n x hx _ =>
    have hd : Due (s.setSession n { x with phase := .ended }) workerID P := by
      rw [disconnect_eq] at hd
      exact hd.congr rfl rfl rfl
    exact .inl (due_setSession (x := x) hd rfl nofun)
  | disconnectWorker w => exact .inl (hd.congr rfl rfl rfl)

end Due

theorem fires_servedBy (hs : Addressed s) (h : Fires s a t) {workerID : String}
    (hn : servedBy s n workerID) : servedBy t n workerID := by
  cases h with
  | connect w =>
    obtain ⟨x, hx, hxw⟩ := hn
    exact ⟨x, update_kept (hs.fresh _ (Nat.le_refl _)) hx, hxw⟩
  | snapshot hx | skipReplay hx | read hx => exact servedBy_setSession hx _ hn
  | resend _ _ hx => exact servedBy_setSession hx _ hn
  | disconnect hx =>
    obtain ⟨y, hy, hw⟩ := servedBy_setSession hx .ended hn
    rw [disconnect_eq]
    exact ⟨y, hy, hw⟩
  | result r =>
    rw [deliver_eq]
    exact hn
  | dispatch | register | marshalFail | send | queue | receive | giveUp | unregister
  | disconnectWorker => exact hn

theorem servedBy_unique {v w : String} (hv : servedBy s n v) (hw : servedBy s n w) : v = w := by
  obtain ⟨x, hx, rfl⟩ := hv
  obtain ⟨y, hy, rfl⟩ := hw
  rw [hx] at hy
  cases hy
  rfl

theorem fires_written (hs : Addressed s) (h : Fires s a t) : t.writes = s.writes ∨
    ∃ w cmd m workerID, t.writes = s.writes ++ [w] ∧ w.env.payload = withDispatchMessageID m cmd ∧
      servedBy s w.session workerID ∧ Due s workerID (fun c => c = cmd) := by
  cases h with
  | @send k c conn ty messageID ok hc hp ht =>
    refine .inr ⟨_, c.cmd, messageID, c.workerID, rfl, rfl, ?_, ?_⟩
    · exact hs.aimed k c conn hc (by rw [hp]; rfl)
    · exact .called hc rfl rfl (by rw [hp]; rfl)
  | @resend n x pr rest messageID ok hx hp =>
    exact .inr ⟨_, pr.cmd, messageID, x.workerID, rfl, rfl, ⟨x, hx, rfl⟩, .queued hx rfl hp mem_cons_self rfl⟩
  | result r =>
    rw [deliver_eq]
    exact .inl rfl
  | disconnect =>
    rw [disconnect_eq]
    exact .inl rfl
  | dispatch | register | marshalFail | queue | receive | giveUp | unregister | connect | snapshot
  | skipReplay | read | disconnectWorker => exact .inl rfl

def Delivered (s : State) : Prop := ∀ w ∈ s.writes, ∃ workerID, servedBy s w.session workerID

theorem fires_delivered (hs : Addressed s) (hd : Delivered s) (h : Fires s a t) : Delivered t := by
  intro w hw
  obtain he | ⟨v, cmd, m, workerID, he, _, hv, _⟩ := fires_written hs h
  · obtain ⟨workerID, hn⟩ := hd w (he ▸ hw)
    exact ⟨workerID, fires_servedBy hs h hn⟩
  · rw [he] at hw
    obtain hw | hw := mem_append.mp hw
    · obtain ⟨workerID, hn⟩ := hd w hw
      exact ⟨workerID, fires_servedBy hs h hn⟩
    · cases mem_singleton.mp hw
      exact ⟨workerID, fires_servedBy hs h hv⟩

def taken : Phase → Option CommandResult
  | .unregister (.result r) | .returned (.result r) => some r
  | _ => none

inductive CallStep (s : State) (a : Action) (k : Nat) (c' : Call) : Prop where
  | made (ha : a = .dispatch c'.workerID c'.cmd) (hk : k = s.nextCall) (hch : c'.ch = none)
    (ht : taken c'.phase = none)
  | kept {c : Call} (hc : s.calls k = some c) (hw : c'.workerID = c.workerID)
    (hcmd : c'.cmd = c.cmd) (hch : c'.ch = c.ch)
    (ho : isOpen c'.phase = true → isOpen c.phase = true)
    (ht : ∀ r, taken c'.phase = some r → taken c.phase = some r)
    (hreceive : a ≠ .receive k) (hresult : ∀ n r c, a = .result n r → target s r ≠ some (k, c))
  | received {c : Call} {r : CommandResult} (ha : a = .receive k) (hc : s.calls k = some c)
    (hp : c.phase = .wait) (hch : c.ch = some r)
    (he : c' = { c with phase := .unregister (.result r), ch := none })
  | delivered {c : Call} {r : CommandResult} {n : Nat} (ha : a = .result n r)
    (ht : target s r = some (k, c)) (he : c' = { c with ch := some r })

theorem taken_enter (s : State) (workerID : String) (cmd : Command) : taken (enter s workerID cmd) = none := by
  unfold enter
  split
  · rfl
  · split <;> rfl

theorem taken_afterSend (c : Call) (ok : Bool) : taken (afterSend c ok) = none := by
  unfold afterSend
  split <;> rfl

theorem CallStep.same {c' : Call} (hc : s.calls k = some c') (hreceive : a ≠ .receive k)
    (hresult : ∀ n r c, a = .result n r → target s r ≠ some (k, c)) : CallStep s a k c' :=
  .kept hc rfl rfl rfl id (fun _ => id) hreceive hresult

theorem CallStep.phase {i : Nat} {p : Phase} {c' : Call} (hc : s.calls k = some c)
    (h : (s.setCall k { c with phase := p }).calls i = some c')
    (ho : isOpen p = true → isOpen c.phase = true)
    (ht : ∀ r, taken p = some r → taken c.phase = some r) (hreceive : ∀ k, a ≠ .receive k)
    (hresult : ∀ n r, a ≠ .result n r) : CallStep s a i c' := by
  obtain ⟨rfl, rfl⟩ | ⟨_, h⟩ := update_some_cases h
  · exact .kept hc rfl rfl rfl ho ht (hreceive i) (fun n r _ h => absurd h (hresult n r))
  · exact .same h (hreceive i) (fun n r _ h => absurd h (hresult n r))

theorem fires_call (h : Fires s a t) {c' : Call} (hc' : t.calls k = some c') : CallStep s a k c' := by
  cases h with
  | dispatch w cmd =>
    obtain ⟨rfl, rfl⟩ | ⟨_, h⟩ := update_some_cases hc'
    · exact .made rfl rfl rfl (taken_enter s w cmd)
    · exact .same h nofun (fun _ _ _ h => (nomatch h))
  | register hc hp _ => exact .phase hc hc' (fun _ => by rw [hp]; rfl) nofun nofun nofun
  | marshalFail hc | giveUp _ hc => exact .phase hc hc' nofun nofun nofun nofun
  | @send k c conn ty messageID ok hc hp _ =>
    refine .phase hc hc' (fun _ => by rw [hp]; rfl) ?_ nofun nofun
    intro r hr
    rw [taken_afterSend] at hr
    cases hr
  | queue hc hp => exact .phase hc hc' (fun _ => by rw [hp]; rfl) nofun nofun nofun
  | @receive i c r hc hp hr =>
    obtain ⟨rfl, rfl⟩ | ⟨hne, h⟩ := update_some_cases hc'
    · exact .received rfl hc hp hr rfl
    · refine .same h ?_ (fun _ _ _ h => (nomatch h))
      intro he
      cases he
      exact hne rfl
  | @unregister k c reply hc hp =>
    refine .phase hc hc' nofun ?_ nofun nofun
    intro r hr
    rw [hp]
    cases reply with
    | result _ => exact hr
    | error _ => exact hr
  | @result n x r hx hp =>
    change (deliver s r).calls k = some c' at hc'
    unfold deliver at hc'
    split at hc'
    · next ht =>
      refine .same hc' nofun ?_
      intro _ _ c he
      cases he
      rw [ht]
      nofun
    · next i c ht =>
      obtain ⟨rfl, rfl⟩ | ⟨hne, h⟩ := update_some_cases hc'
      · exact .delivered rfl ht rfl
      · refine .same h nofun ?_
        intro _ _ d he htd
        cases he
        rw [ht] at htd
        cases htd
        exact hne rfl
  | disconnect =>
    rw [disconnect_eq] at hc'
    exact .same hc' nofun (fun _ _ _ h => (nomatch h))
  | connect | snapshot | resend | skipReplay | read | disconnectWorker =>
    exact .same hc' nofun (fun _ _ _ h => (nomatch h))

end Wireops.Server.Addresses
