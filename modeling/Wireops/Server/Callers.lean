import Wireops.Server.Addresses

namespace Wireops.Server.Callers

open List Protocol Lib.Steps Server.Dispatch Server.Addresses

/-! # The calls behind what the server writes

Nothing is assumed of the runs: calls may share an id, and any result may come
in. -/

variable {s t : State} {a : Action} {as : List Action} {D : String → Command → Prop}

/-- What is written, or may still be, was dispatched to the worker it goes to. -/
structure Sent (D : String → Command → Prop) (s : State) : Prop where
  addressed : Addressed s
  due : ∀ v, ¬ Due s v (fun cmd => ¬ D v cmd)
  writes : ∀ w ∈ s.writes, ∃ v cmd m, servedBy s w.session v ∧ D v cmd ∧ w.env.payload = withDispatchMessageID m cmd

theorem sent_init (D : String → Command → Prop) : Sent D {} where
  addressed := addressed_init
  due v h := by
    cases h with
    | called hc => cases hc
    | listed hl => cases hl
    | queued hx => cases hx
  writes := forall_mem_nil _

theorem fires_sent (hs : Sent D s) (hf : Fires s a t) (ha : ∀ v cmd, a = .dispatch v cmd → D v cmd) : Sent D t := by
  refine ⟨fires_addressed hs.addressed hf, ?_, ?_⟩
  · intro v hd
    obtain hd | ⟨cmd, rfl, hn⟩ := fires_due hf hd
    · exact hs.due v hd
    · exact hn (ha v cmd rfl)
  · have old : ∀ w ∈ s.writes, ∃ v cmd m, servedBy t w.session v ∧ D v cmd ∧
        w.env.payload = withDispatchMessageID m cmd := by
      intro w hw
      obtain ⟨v, cmd, m, hv, hD, hpay⟩ := hs.writes w hw
      exact ⟨v, cmd, m, fires_servedBy hs.addressed hf hv, hD, hpay⟩
    obtain he | ⟨w, cmd, m, v, he, hpay, hv, hdue⟩ := fires_written hs.addressed hf
    · rwa [he]
    · rw [he]
      refine forall_mem_append.mpr ⟨old, forall_mem_singleton.mpr ?_⟩
      refine ⟨v, cmd, m, fires_servedBy hs.addressed hf hv, ?_, hpay⟩
      by_contra hn
      exact hs.due v (due_mono hdue (fun c hc => hc ▸ hn))

/-- Each command on a connection was dispatched to the worker that the
connection is of. -/
theorem written_dispatched (hr : run step {} as = some t) : ∀ w ∈ t.writes, ∃ v cmd m,
    servedBy t w.session v ∧ Action.dispatch v cmd ∈ as ∧ w.env.payload = withDispatchMessageID m cmd := by
  have hstep : ∀ s a t, Sent (fun v cmd => Action.dispatch v cmd ∈ as) s → a ∈ as →
      step s a = some t → Sent (fun v cmd => Action.dispatch v cmd ∈ as) t := by
    intro s a t hs ha h
    refine fires_sent hs (step_fires h) ?_
    rintro v cmd rfl
    exact ha
  exact (run_invariant hstep (sent_init _) (meets_of_forall (fun _ h _ => h) _) hr).writes

def replayedTeardown : List Action :=
  [.dispatch "w" (.teardown ⟨"t-1", "", "st"⟩), .register 0, .queue 0, .connect "w",
    .snapshot 0 [⟨0, "w", .teardown, "t-1", .teardown ⟨"t-1", "", "st"⟩⟩], .resend 0 "m1" true]

theorem written_dispatched_replayed : ∃ t ∈ run step {} replayedTeardown, t.writes ≠ [] ∧
    ∀ w ∈ t.writes, ∃ v cmd m, servedBy t w.session v ∧ Action.dispatch v cmd ∈ replayedTeardown ∧
      w.env.payload = withDispatchMessageID m cmd :=
  ⟨_, rfl, cons_ne_nil _ _, written_dispatched rfl⟩

end Wireops.Server.Callers
