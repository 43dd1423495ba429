import Wireops.Channel.Deliveries

namespace Wireops.Channel.Origin

open Function Protocol Server Server.Addresses Worker
open Worker.Results Channel.Model Channel.Deliveries

variable {s t : State} {a : Action} {v : String} {id : String}

def OfID (id : String) (c : Command) : Prop := c.commandID = id

theorem stable_ofID (id : String) : Stable (OfID id) := by
  intro m c h
  unfold OfID at h ⊢
  rwa [withDispatchMessageID_commandID] at h

/-- The worker may come to send the server a result for the id without a
further call. -/
def Expecting (s : State) (v id : String) : Prop :=
  Outstanding s v (OfID id) ∨ ∃ m ∈ (s.worker v).outbox, m.result.commandID = id

theorem fires_expecting (hs : Sound s) (h : Fires s a t) (he : Expecting t v id) :
    Expecting s v id ∨ ∃ cmd, a = .server (.dispatch v cmd) ∧ cmd.commandID = id := by
  obtain ho | ⟨m, hm, hid⟩ := he
  · obtain ho | hd := fires_outstanding hs (stable_ofID id) h ho
    · exact .inl (.inl ho)
    · exact .inr hd
  · cases fires_worker h v with
    | same hw => exact .inl (.inr ⟨m, hw ▸ hm, hid⟩)
    | reported hw =>
      rw [hw] at hm
      exact .inl (.inr ⟨m, List.mem_of_mem_eraseIdx hm, hid⟩)
    | internal _ hb hw =>
      obtain hm | ⟨k, c, hc, hcid, hd⟩ | ⟨cmd, d, rfl, _⟩ := step_sent (hs.labelled v) hw hm
      · exact .inl (.inr ⟨m, hm, hid⟩)
      · exact .inl (.inl (.handled hc hd (hcid.trans hid)))
      · cases hb
    | @arrived n draining cmd _ hn hread hw =>
      obtain hm | ⟨k, c, hc, hcid, hd⟩ | ⟨cmd', d, he, hcid⟩ := step_sent (hs.labelled v) hw hm
      · exact .inl (.inr ⟨m, hm, hid⟩)
      · exact .inl (.inl (.handled hc hd (hcid.trans hid)))
      · cases draining with
        | none => cases he
        | some draining =>
          cases he
          exact .inl (.inl (.written hn (Nat.le_refl _) hread (hcid.trans hid)))

/-- The source of a result is an execution the worker began after the call was
made, or, where refusals count, a refusal. -/
def Since (refusals : Prop) (begun : Nat) : Option Nat → Prop
  | none => refusals
  | some e => begun ≤ e

/-- Nothing begun or sent before can be taken for the answer to a call for the
id to the worker. -/
structure Clear (s : State) (v id : String) : Prop where
  here : ∀ x, ¬ Live (s.worker v) id x
  elsewhere : ∀ w, w ≠ v → ¬ Expecting s w id

/-- The condition on the calls for watched ids, and on their refusals. -/
def Guard (watch : String → Prop) (refusals : Prop) (s : State) : Action → Prop
  | .server (.dispatch v cmd) => watch cmd.commandID → Clear s v cmd.commandID
  | .deliver n (some _) => ∀ cmd, (wire s.server n)[s.read n]? = some cmd → watch cmd.commandID → refusals
  | _ => True

structure CallTraced (refusals : Prop) (s : State) (k : Nat) (c : Dispatch.Call) : Prop where
  live : isOpen c.phase = true → ∀ x, Live (s.worker c.workerID) c.cmd.commandID x → Since refusals (s.begun k) x
  elsewhere : isOpen c.phase = true → ∀ w, w ≠ c.workerID → ¬ Expecting s w c.cmd.commandID
  inbox : isOpen c.phase = true → ∀ r, c.ch = some r → ∃ x, s.inbox k = some (c.workerID, x) ∧
    Since refusals (s.begun k) x ∧ Sourced (s.worker c.workerID) c.cmd.commandID r x
  used : ∀ r, taken c.phase = some r → ∃ x, s.used k = some (c.workerID, x) ∧
    Since refusals (s.begun k) x ∧ Sourced (s.worker c.workerID) c.cmd.commandID r x

structure Traced (watch : String → Prop) (refusals : Prop) (s : State) : Prop where
  sound : Sound s
  begun : ∀ k c, s.server.calls k = some c → s.begun k ≤ (s.worker c.workerID).nextExec
  call : ∀ k c, s.server.calls k = some c → watch c.cmd.commandID → CallTraced refusals s k c

theorem traced_init (watch : String → Prop) (refusals : Prop) : Traced watch refusals {} where
  sound := sound_init
  begun _ _ h := nomatch h
  call _ _ h := nomatch h

theorem fires_sourced (hs : Sound s) (h : Fires s a t) {r : CommandResult} {x : Option Nat}
    (hr : Sourced (s.worker v) id r x) : Sourced (t.worker v) id r x := by
  cases fires_worker h v with
  | same hw => exact hw ▸ hr
  | reported hw =>
    rw [hw]
    exact hr.mono (fun h => h)
  | internal _ _ hw => exact hr.mono (step_returned (hs.labelled v) hw)
  | arrived _ _ _ hw => exact hr.mono (step_returned (hs.labelled v) hw)

theorem fires_nextExec (h : Fires s a t) (v : String) : (s.worker v).nextExec ≤ (t.worker v).nextExec := by
  cases fires_worker h v with
  | same hw => exact Nat.le_of_eq (by rw [hw])
  | reported hw => exact Nat.le_of_eq (by rw [hw]; rfl)
  | internal _ _ hw | arrived _ _ _ hw => exact step_nextExec hw

theorem fires_live (hs : Sound s) (h : Fires s a t) {x : Option Nat} (hl : Live (t.worker v) id x) :
    Live (s.worker v) id x ∨ x = some (s.worker v).nextExec ∨
      (x = none ∧ ∃ n d cmd, a = .deliver n (some d) ∧ (wire s.server n)[s.read n]? = some cmd ∧
        cmd.commandID = id) := by
  cases fires_worker h v with
  | same hw => exact .inl (hw ▸ hl)
  | reported hw =>
    rw [hw] at hl
    refine .inl ?_
    cases hl with
    | cached he hf => exact .cached he hf
    | judged hc hid hp hf => exact .judged hc hid hp hf
    | underWay hc hid hp => exact .underWay hc hid hp
    | carried hc hid hp => exact .carried hc hid hp
    | sent hm hid => exact .sent (List.mem_of_mem_eraseIdx hm) hid
  | internal _ hb hw =>
    obtain hl | hx | ⟨_, cmd, d, rfl, _⟩ := step_live (hs.labelled v) hw hl
    · exact .inl hl
    · exact .inr (.inl hx)
    · cases hb
  | @arrived n draining cmd ha hn hread hw =>
    obtain hl | hx | ⟨hx, cmd', d, he, hid⟩ := step_live (hs.labelled v) hw hl
    · exact .inl hl
    · exact .inr (.inl hx)
    · cases draining with
      | none => cases he
      | some draining =>
        cases he
        exact .inr (.inr ⟨hx, n, _, cmd, ha, hread, hid⟩)

variable {watch : String → Prop} {refusals : Prop}

variable {k : Nat} {c : Dispatch.Call}

theorem live_step (hs : Traced watch refusals s) (hg : Guard watch refusals s a) (h : Fires s a t)
    (hc : s.server.calls k = some c) (hw : watch c.cmd.commandID) (ho : isOpen c.phase = true) {x : Option Nat}
    (hl : Live (t.worker c.workerID) c.cmd.commandID x) : Since refusals (s.begun k) x := by
  obtain hl | rfl | ⟨rfl, n, d, cmd, rfl, hm, hid⟩ := fires_live hs.sound h hl
  · exact (hs.call k c hc hw).live ho x hl
  · exact hs.begun k c hc
  · exact hg cmd hm (hid ▸ hw)

theorem expecting_of_open (hc : s.server.calls k = some c)
    (ho : isOpen c.phase = true) : Expecting s c.workerID c.cmd.commandID :=
  .inl (.due (.called hc rfl rfl ho))

theorem elsewhere_step (hs : Traced watch refusals s) (hg : Guard watch refusals s a)
    (h : Fires s a t) (hc : s.server.calls k = some c)
    (hw : watch c.cmd.commandID) (ho : isOpen c.phase = true) {w : String} (hne : w ≠ c.workerID) :
    ¬ Expecting t w c.cmd.commandID := by
  intro he
  obtain he | ⟨cmd, rfl, hid⟩ := fires_expecting hs.sound h he
  · exact (hs.call k c hc hw).elsewhere ho w hne he
  · have hclear := hg (hid ▸ hw)
    exact hclear.elsewhere c.workerID (Ne.symm hne) (hid ▸ expecting_of_open hc ho)

/-- The tables that record history change at a call's own steps only. -/
structure Recorded (s t : State) (k : Nat) : Prop where
  begun : t.begun k = s.begun k
  inbox : t.inbox k = s.inbox k
  used : t.used k = s.used k

theorem CallTraced.kept (hs : Traced watch refusals s) (hg : Guard watch refusals s a)
    (h : Fires s a t) {c c' : Dispatch.Call} (hc : s.server.calls k = some c)
    (hw : c'.workerID = c.workerID) (hcmd : c'.cmd = c.cmd) (hch : c'.ch = c.ch)
    (ho : isOpen c'.phase = true → isOpen c.phase = true)
    (ht : ∀ r, taken c'.phase = some r → taken c.phase = some r) (hrec : Recorded s t k)
    (hwatch : watch c'.cmd.commandID) : CallTraced refusals t k c' := by
  rw [hcmd] at hwatch
  have hct := hs.call k c hc hwatch
  refine ⟨?_, ?_, ?_, ?_⟩
  · intro hop x hl
    rw [hw, hcmd] at hl
    rw [hrec.begun]
    exact live_step hs hg h hc hwatch (ho hop) hl
  · intro hop w hne
    rw [hcmd]
    exact elsewhere_step hs hg h hc hwatch (ho hop) (hw ▸ hne)
  · intro hop r hr
    obtain ⟨x, hi, hsince, hsrc⟩ := hct.inbox (ho hop) r (hch.symm.trans hr)
    rw [hw, hcmd, hrec.begun, hrec.inbox]
    exact ⟨x, hi, hsince, fires_sourced hs.sound h hsrc⟩
  · intro r hr
    obtain ⟨x, hu, hsince, hsrc⟩ := hct.used r (ht r hr)
    rw [hw, hcmd, hrec.begun, hrec.used]
    exact ⟨x, hu, hsince, fires_sourced hs.sound h hsrc⟩

variable {sv : Dispatch.State} {w : String} {cmd : Command} {m : Handlers.Sent}

theorem CallTraced.made (hs : Traced watch refusals s) (hg : Guard watch refusals s (.server (.dispatch w cmd)))
    (h : Fires s (.server (.dispatch w cmd)) (record s (.dispatch w cmd) sv))
    (hw : c.workerID = w) (hcmd : c.cmd = cmd) (hch : c.ch = none) (ht : taken c.phase = none)
    (hwatch : watch c.cmd.commandID) : CallTraced refusals (record s (.dispatch w cmd) sv) s.server.nextCall c := by
  subst hw
  subst hcmd
  have hclear := hg hwatch
  refine ⟨fun _ x hl => absurd hl (hclear.here x), ?_, ?_, ?_⟩
  · intro _ v hne he
    obtain he | ⟨cmd, ha, _⟩ := fires_expecting hs.sound h he
    · exact hclear.elsewhere v hne he
    · cases ha
      exact hne rfl
  · intro _ r hr
    rw [hch] at hr
    cases hr
  · intro r hr
    rw [ht] at hr
    cases hr

theorem record_kept {b : Dispatch.Action}
    (hk : k ≠ s.server.nextCall) (hr : b ≠ .receive k) : Recorded s (record s b sv) k := by
  cases b with
  | dispatch w cmd => exact ⟨update_of_ne hk .., rfl, rfl⟩
  | receive i =>
    refine ⟨rfl, rfl, update_of_ne ?_ ..⟩
    rintro rfl
    exact hr rfl
  | _ => exact ⟨rfl, rfl, rfl⟩

theorem call_ne_nextCall (hs : Sound s) (hc : s.server.calls k = some c) : k ≠ s.server.nextCall :=
  Nat.ne_of_lt (Replay.lt_nextCall hs.wellFormed hc)

theorem traced_server {b : Dispatch.Action} (hs : Traced watch refusals s)
    (hg : Guard watch refusals s (.server b)) (ha : allowed b = true)
    (h : Dispatch.Fires s.server b sv) : Traced watch refusals (record s b sv) := by
  have hf : Fires s (.server b) (record s b sv) := .server ha h
  refine ⟨fires_sound hs.sound hf, ?_, ?_⟩
  · intro k c' hc'
    rw [record_server] at hc'
    rw [record_worker]
    cases fires_call h hc' with
    | made hb hk _ _ =>
      subst hb hk
      exact Nat.le_of_eq (update_self ..)
    | kept hc hw _ _ _ _ hr _ =>
      rw [(record_kept (call_ne_nextCall hs.sound hc) hr).begun, hw]
      exact hs.begun k _ hc
    | @received c _ hb hc _ _ he =>
      subst hb he
      exact hs.begun k c hc
    | delivered hb _ _ =>
      subst hb
      cases ha
  · intro k c' hc' hwatch
    rw [record_server] at hc'
    cases fires_call h hc' with
    | made hb hk hch ht =>
      subst hb hk
      exact CallTraced.made hs hg hf rfl rfl hch ht hwatch
    | kept hc hw hcmd hch ho ht hr _ =>
      exact CallTraced.kept hs hg hf hc hw hcmd hch ho ht
        (record_kept (call_ne_nextCall hs.sound hc) hr) hwatch
    | @received c r hb hc hp hch he =>
      subst hb he
      have ho : isOpen c.phase = true := by rw [hp]; rfl
      obtain ⟨x, hi, hsince, hsrc⟩ := (hs.call k c hc hwatch).inbox ho r hch
      refine ⟨nofun, nofun, nofun, ?_⟩
      intro r' hr'
      cases hr'
      exact ⟨x, (update_self ..).trans hi, hsince, fires_sourced hs.sound hf hsrc⟩
    | delivered hb _ _ =>
      subst hb
      cases ha

theorem note_of_ne (h : ∀ c, Dispatch.target s.server m.result ≠ some (k, c)) : note s v m k = s.inbox k := by
  unfold note
  cases ht : Dispatch.target s.server m.result with
  | none => rfl
  | some p =>
    refine update_of_ne ?_ ..
    rintro rfl
    exact h p.2 ht

theorem note_self (h : Dispatch.target s.server m.result = some (k, c)) : note s v m k = some (v, m.exec) := by
  unfold note
  rw [h]
  exact update_self ..

/-- The result a call gets comes from its own worker, and from an execution
begun after the call was made. -/
theorem traced_report {n i : Nat} {x : Dispatch.Session}
    (hs : Traced watch refusals s) (hx : s.server.sessions n = some x) (hp : x.phase = .reading)
    (hm : (s.worker x.workerID).outbox[i]? = some m) : Traced watch refusals (report s x.workerID i m) := by
  have hf : Fires s (.report n i) (report s x.workerID i m) := .report hx hp hm
  have hres : Dispatch.Fires s.server (.result n m.result) (Dispatch.deliver s.server m.result) :=
    .result m.result hx hp
  have hg : Guard watch refusals s (.report n i) := trivial
  have hmem := List.mem_of_getElem? hm
  refine ⟨fires_sound hs.sound hf, ?_, ?_⟩
  · intro k c' hc'
    refine Nat.le_trans ?_ (fires_nextExec hf _)
    cases fires_call hres hc' with
    | made hb => cases hb
    | kept hc hw => exact hw ▸ hs.begun k _ hc
    | received hb => cases hb
    | @delivered c _ _ hb ht he =>
      subst he
      obtain ⟨_, _, _, hc, _⟩ := Dispatch.target_spec ht
      exact hs.begun k c hc
  · intro k c' hc' hwatch
    cases fires_call hres hc' with
    | made hb => cases hb
    | kept hc hw hcmd hch ho ht _ hr =>
      refine CallTraced.kept hs hg hf hc hw hcmd hch ho ht ⟨rfl, note_of_ne ?_, rfl⟩ hwatch
      exact fun c => hr n m.result c rfl
    | received hb => cases hb
    | @delivered c r n' hb ht he =>
      cases hb
      subst he
      obtain ⟨pr, hl, hcall, hc, hch⟩ := Dispatch.target_spec ht
      have hid : c.cmd.commandID = m.result.commandID := by
        obtain ⟨d, hd, hcmd, _⟩ := hs.sound.wellFormed.listed pr ⟨_, hl⟩
        rw [hcall, hc] at hd
        cases hd
        rw [hcmd]
        exact hs.sound.wellFormed.keyed _ pr hl
      have hct := hs.call k c hc hwatch
      refine ⟨fun ho x hl => live_step hs hg hf hc hwatch ho hl,
        fun ho w hne => elsewhere_step hs hg hf hc hwatch ho hne, ?_, ?_⟩
      · intro ho r hr
        cases hr
        have hworker : x.workerID = c.workerID := by
          by_contra hne
          exact hct.elsewhere ho x.workerID hne (.inr ⟨m, hmem, hid.symm⟩)
        refine ⟨m.exec, ?_, ?_, ?_⟩
        · exact (note_self ht).trans (by rw [hworker])
        · refine hct.live ho m.exec ?_
          rw [← hworker, hid]
          exact .sent hmem rfl
        · have hsrc := (hs.sound.labelled x.workerID).sent m hmem
          rw [hworker, ← hid] at hsrc
          exact fires_sourced hs.sound hf hsrc
      · intro r hr
        obtain ⟨y, hu, hsince, hsrc⟩ := hct.used r hr
        exact ⟨y, hu, hsince, fires_sourced hs.sound hf hsrc⟩

theorem step_traced (s : State) (a : Action) (t : State) (hs : Traced watch refusals s)
    (hg : Guard watch refusals s a) (h : step s a = some t) : Traced watch refusals t := by
  have hf := step_fires h
  have still : t.server = s.server → (∀ k, Recorded s t k) → Traced watch refusals t := by
    intro hsv hrec
    refine ⟨fires_sound hs.sound hf, ?_, ?_⟩
    · intro k c hc
      rw [hsv] at hc
      rw [(hrec k).begun]
      exact Nat.le_trans (hs.begun k c hc) (fires_nextExec hf _)
    · intro k c hc hwatch
      rw [hsv] at hc
      exact CallTraced.kept hs hg hf hc rfl rfl rfl (fun h => h) (fun _ h => h) (hrec k) hwatch
  cases hf with
  | server ha hb => exact traced_server hs hg ha hb
  | deliver | work => exact still rfl (fun _ => ⟨rfl, rfl, rfl⟩)
  | report hx hp hm => exact traced_report hs hx hp hm

theorem fires_call_kept (hs : Sound s) (h : Fires s a t) (hc : s.server.calls k = some c) :
    ∃ c', t.server.calls k = some c' ∧ c'.workerID = c.workerID ∧ c'.cmd = c.cmd := by
  obtain ⟨he, _⟩ | ⟨b, hb, _⟩ := fires_server h
  · exact ⟨c, he ▸ hc, rfl, rfl⟩
  · obtain ⟨c', hc', hcmd⟩ := Replay.fires_keeps hs.wellFormed hb k c hc
    refine ⟨c', hc', ?_, hcmd⟩
    cases fires_call hb hc' with
    | made _ hk => exact absurd hk (call_ne_nextCall hs hc)
    | kept hd hw =>
      rw [hc] at hd
      cases hd
      exact hw
    | received _ hd _ _ he =>
      rw [hc] at hd
      cases hd
      rw [he]
    | delivered _ ht he =>
      obtain ⟨_, _, _, hd, _⟩ := Dispatch.target_spec ht
      rw [hc] at hd
      cases hd
      rw [he]

theorem dispatch_made (h : step s (.server (.dispatch w cmd)) = some t) : ∃ c,
    t.server.calls s.server.nextCall = some c ∧ c.workerID = w ∧ c.cmd = cmd := by
  cases step_fires h with
  | server _ hb =>
    cases hb with
    | dispatch w cmd =>
      exact ⟨_, Dispatch.State.setCall_self .., rfl, rfl⟩

theorem dispatch_begun (h : step s (.server (.dispatch w cmd)) = some t) :
    t.worker = s.worker ∧ t.begun s.server.nextCall = (s.worker w).nextExec := by
  cases step_fires h with
  | server => exact ⟨rfl, update_self ..⟩

theorem fires_begun (h : Fires s a t) (hk : k ≠ s.server.nextCall) : t.begun k = s.begun k := by
  cases h with
  | @server b sv =>
    cases b with
    | dispatch => exact update_of_ne hk ..
    | _ => rfl
  | deliver | work | report => rfl

end Wireops.Channel.Origin
