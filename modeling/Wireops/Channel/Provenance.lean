import Wireops.Channel.Quiet

namespace Wireops.Channel.Provenance

open List Protocol Lib.Steps Server Server.Addresses Worker Worker.Results
open Channel.Model Channel.Deliveries Channel.Origin Channel.Quiet

/-! # Where commands and results come from

The commands are deploy, redeploy and teardown. Nothing else is assumed of the runs:
connections are lost, commands are sent again, and calls share their ids. -/

variable {as : List Action} {s t : State} {a : Action} {v : String}

/-- No call to the worker is for the command, whatever its message id. -/
def Unknown (as : List Action) (v : String) (c : Command) : Prop :=
  ∀ cmd, Action.server (.dispatch v cmd) ∈ as → withDispatchMessageID "" c ≠ withDispatchMessageID "" cmd

theorem stable_unknown (as : List Action) (v : String) : Stable (Unknown as v) := by
  intro m c h
  have he : withDispatchMessageID "" (withDispatchMessageID m c) = withDispatchMessageID "" c := by
    cases c <;> rfl
  unfold Unknown at h ⊢
  rwa [he] at h

structure Known (as : List Action) (s : State) : Prop where
  sound : Sound s
  outstanding : ∀ v, ¬ Outstanding s v (Unknown as v)
  execs : ∀ v e x, (s.worker v).execs e = some x → ¬ Unknown as v x.cmd

theorem step_known (hs : Known as s) (ha : a ∈ as) (h : step s a = some t) : Known as t := by
  have hf := step_fires h
  refine ⟨fires_sound hs.sound hf, ?_, ?_⟩
  · intro v ho
    obtain ho | ⟨cmd, rfl, hu⟩ := fires_outstanding hs.sound (stable_unknown as v) hf ho
    · exact hs.outstanding v ho
    · exact hu cmd ha rfl
  · intro v e x hx hu
    obtain ⟨y, hy, he⟩ | hout := fires_execs hf hx
    · exact hs.execs v e y hy (he ▸ hu)
    · exact hs.outstanding v (hout _ hu)

/-- A worker executes only the deploys, redeploys and teardowns dispatched to it. -/
theorem executed_dispatched {e : Nat} {x : Handlers.Exec} (hr : run step {} as = some t)
    (hx : (t.worker v).execs e = some x) : ∃ cmd, Action.server (.dispatch v cmd) ∈ as ∧
      withDispatchMessageID "" x.cmd = withDispatchMessageID "" cmd := by
  have init : Known as {} := by
    refine ⟨sound_init, ?_, ?_⟩
    · rintro v (h | h | h)
      · cases h <;> contradiction
      all_goals contradiction
    · rintro v e x ⟨⟩
  have hs := run_invariant (fun _ _ _ => step_known) init (meets_of_forall (fun _ h _ => h) _) hr
  by_contra hno
  exact hs.execs v e x hx (fun cmd hmem he => hno ⟨cmd, hmem, he⟩)

/-- A result that a call was given or has taken refuses its command, or is what
an execution of the command has returned. -/
structure Genuine (s : State) : Prop where
  sound : Sound s
  given : ∀ k c r, s.server.calls k = some c → c.ch = some r ∨ taken c.phase = some r →
    ∃ v x, Sourced (s.worker v) c.cmd.commandID r x

theorem call_given {sv : Dispatch.State} {b : Dispatch.Action} {k : Nat} {c : Dispatch.Call}
    {r : CommandResult} (hs : Genuine s) (h : Dispatch.Fires s.server b sv)
    (hc : sv.calls k = some c) (hr : c.ch = some r ∨ taken c.phase = some r) :
    (∃ v x, Sourced (s.worker v) c.cmd.commandID r x) ∨ ∃ n, b = .result n r ∧ r.commandID = c.cmd.commandID := by
  cases fires_call h hc with
  | made _ _ hch ht =>
    rw [hch, ht] at hr
    obtain h | h := hr <;> cases h
  | @kept d hd _ hcmd hch _ ht _ _ =>
    rw [hcmd]
    exact .inl (hs.given k d r hd (hr.imp (hch ▸ ·) (ht r)))
  | @received d q _ hd _ hch he =>
    subst he
    obtain h | h := hr
    · cases h
    · cases h
      exact .inl (hs.given k d _ hd (.inl hch))
  | @delivered d q n hb ht he =>
    subst he
    obtain ⟨pr, hl, hcall, hd, _⟩ := Dispatch.target_spec ht
    obtain h | h := hr
    · cases h
      refine .inr ⟨n, hb, ?_⟩
      obtain ⟨e, he, hcmd, _⟩ := hs.sound.wellFormed.listed pr ⟨_, hl⟩
      rw [hcall, hd] at he
      cases he
      rw [hcmd]
      exact (hs.sound.wellFormed.keyed _ pr hl).symm
    · exact .inl (hs.given k d r hd (.inr h))

theorem step_genuine (hs : Genuine s) (h : step s a = some t) : Genuine t := by
  have hf := step_fires h
  refine ⟨fires_sound hs.sound hf, ?_⟩
  intro k c r hc hr
  have still : (∃ v x, Sourced (s.worker v) c.cmd.commandID r x) →
      ∃ v x, Sourced (t.worker v) c.cmd.commandID r x := by
    rintro ⟨v, x, hx⟩
    exact ⟨v, x, fires_sourced hs.sound hf hx⟩
  apply still
  cases hf with
  | server ha hb =>
    rw [record_server] at hc
    obtain hold | ⟨n, rfl, _⟩ := call_given hs hb hc hr
    · exact hold
    · cases ha
  | deliver | work => exact hs.given k c r hc hr
  | @report n i x m hx hp hm =>
    obtain hold | ⟨_, he, hid⟩ := call_given hs (.result m.result hx hp) hc hr
    · exact hold
    · cases he
      exact ⟨x.workerID, m.exec, hid ▸ (hs.sound.labelled _).sent m (mem_of_getElem? hm)⟩

/-- No deploy, redeploy or teardown returns a result that no worker has produced for its
command id. -/
theorem result_genuine {k : Nat} {c : Dispatch.Call} {r : CommandResult}
    (hr : run step {} as = some t) (hc : t.server.calls k = some c) (ht : taken c.phase = some r) :
    ∃ v x, Sourced (t.worker v) c.cmd.commandID r x := by
  have init : Genuine {} := by
    refine ⟨sound_init, ?_⟩
    rintro k c r ⟨⟩
  exact (run_invariant_of_step (fun _ _ _ => step_genuine) init hr).given k c r hc (.inr ht)

/-- A deploy that is dispatched, executed and answered. -/
def deployed : List Action :=
  online "w" 0 ++ [.server (.dispatch "w" (.deploy ⟨"sync-1", "", "stack", "c1"⟩))] ++
    sent 0 0 "m1" ++ executed "w" 0 "" ++ answered 0 0

theorem deployed_reaches : ∃ t ∈ run step {} deployed, ((t.worker "w").execs 0).isSome = true ∧
    (t.server.calls 0).any (fun c => (taken c.phase).isSome) = true :=
  run_reaches (by decide)

theorem executed_dispatched_deployed : ∃ t ∈ run step {} deployed,
    ∃ x ∈ (t.worker "w").execs 0, ∃ cmd, Action.server (.dispatch "w" cmd) ∈ deployed ∧
      withDispatchMessageID "" x.cmd = withDispatchMessageID "" cmd := by
  obtain ⟨t, ht, hx, _⟩ := deployed_reaches
  obtain ⟨x, hx⟩ := Option.isSome_iff_exists.mp hx
  exact ⟨t, ht, x, hx, executed_dispatched ht hx⟩

theorem result_genuine_deployed : ∃ t ∈ run step {} deployed, ∃ c ∈ t.server.calls 0,
    ∃ r ∈ taken c.phase, ∃ v x, Sourced (t.worker v) c.cmd.commandID r x := by
  obtain ⟨t, ht, _, hc⟩ := deployed_reaches
  obtain ⟨c, hc, hr⟩ := (Option.any_eq_true ..).mp hc
  obtain ⟨r, hr⟩ := Option.isSome_iff_exists.mp hr
  exact ⟨t, ht, c, hc, r, hr, result_genuine ht hc hr⟩

end Wireops.Channel.Provenance
