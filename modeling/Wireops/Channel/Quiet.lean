import Wireops.Channel.Origin

namespace Wireops.Channel.Quiet

open Bool List Protocol Server Server.Addresses Worker Worker.Results
open Channel.Model Channel.Deliveries

variable {s t : State} {a : Action} {v : String}

/-- Only workers that connected have copies to handle or results to send. -/
def Present (s : State) : Prop :=
  ∀ v, (∃ n, servedBy s.server n v) ∨ ((s.worker v).nextCopy = 0 ∧ (s.worker v).outbox = [])

theorem present_init : Present {} := fun _ => .inr ⟨rfl, rfl⟩

theorem servedBy_step (hs : Sound s) (h : Fires s a t) {n : Nat} (hn : servedBy s.server n v) :
    servedBy t.server n v := by
  obtain ⟨he, _⟩ | ⟨b, hb, _⟩ := fires_server h
  · exact he ▸ hn
  · exact fires_servedBy hs.addressed hb hn

theorem fires_present (hs : Sound s) (hp : Present s) (h : Fires s a t) : Present t := by
  intro v
  obtain ⟨n, hn⟩ | ⟨hnext, hout⟩ := hp v
  · exact .inl ⟨n, servedBy_step hs h hn⟩
  · cases fires_worker h v with
    | same hw =>
      rw [hw]
      exact .inr ⟨hnext, hout⟩
    | reported hw =>
      rw [hw]
      refine .inr ⟨hnext, ?_⟩
      change (s.worker v).outbox.eraseIdx _ = []
      rw [hout]
      rfl
    | arrived _ hn => exact .inl ⟨_, servedBy_step hs h hn⟩
    | internal _ hb hw =>
      obtain ⟨hn, ho⟩ | ⟨cmd, rfl⟩ | ⟨cmd, d, rfl⟩ := step_unused (hs.labelled v) hw hnext
      · exact .inr ⟨hn, ho.trans hout⟩
      · cases hb
      · cases hb

theorem fires_execs (h : Fires s a t) {e : Nat} {x : Handlers.Exec} (hx : (t.worker v).execs e = some x) :
    (∃ y, (s.worker v).execs e = some y ∧ y.cmd = x.cmd) ∨ ∀ P : Command → Prop, P x.cmd → Outstanding s v P := by
  have handled : (∃ k c, (s.worker v).copies k = some c ∧ c.cmd = x.cmd ∧
      ∀ o d, c.phase ≠ .done o d) → ∀ P : Command → Prop, P x.cmd → Outstanding s v P := by
    rintro ⟨k, c, hc, hcmd, hd⟩ P hP
    exact .handled hc hd (hcmd ▸ hP)
  cases fires_worker h v with
  | same hw => exact .inl ⟨x, hw ▸ hx, rfl⟩
  | reported hw =>
    rw [hw] at hx
    exact .inl ⟨x, hx, rfl⟩
  | internal _ _ hw | arrived _ _ _ hw => exact (step_execs hw hx).imp_right handled

def queue : Dispatch.SessionPhase → List Dispatch.PendingResult
  | .replaying l => l
  | _ => []

def isDone : Handlers.Phase → Bool
  | .done _ _ => true
  | _ => false

def onSession (s : State) (p : String → Command → Bool) (n : Nat) (x : Dispatch.Session) : Bool :=
  (queue x.phase).any (fun pr => p x.workerID pr.cmd) ||
    ((wire s.server n).drop (s.read n)).any (p x.workerID) ||
    (List.range (s.worker x.workerID).nextCopy).any (fun k =>
      ((s.worker x.workerID).copies k).any (fun c => !isDone c.phase && p x.workerID c.cmd))

def outstanding (s : State) (p : String → Command → Bool) : Bool :=
  (List.range s.server.nextCall).any (fun k =>
    (s.server.calls k).any (fun c => isOpen c.phase && p c.workerID c.cmd)) ||
    s.server.pending.entries.any (fun e => p e.2.workerID e.2.cmd) ||
    (List.range s.server.nextSession).any (fun n =>
      (s.server.sessions n).any (onSession s p n))

def unreported (s : State) (p : String → String → Bool) : Bool :=
  (List.range s.server.nextSession).any (fun n => (s.server.sessions n).any (fun x =>
    (s.worker x.workerID).outbox.any (fun m => p x.workerID m.result.commandID)))

theorem any_range {α : Type} {f : Nat → Option α} {q : Nat → α → Bool} {i m : Nat} {x : α}
    (hi : i < m) (hx : f i = some x) (hq : q i x = true) : (List.range m).any (fun i => (f i).any (q i)) = true := by
  refine any_eq_true.mpr ⟨i, mem_range.mpr hi, ?_⟩
  rw [hx]
  exact hq

theorem any_session (hs : Sound s) {q : Nat → Dispatch.Session → Bool} {n : Nat}
    {x : Dispatch.Session} (hx : s.server.sessions n = some x) (hq : q n x = true) :
    (List.range s.server.nextSession).any (fun n => (s.server.sessions n).any (q n)) = true := by
  refine any_range ?_ hx hq
  by_contra hge
  rw [hs.addressed.fresh n (by omega)] at hx
  cases hx

theorem copy_lt (hs : Sound s) {k : Nat} {c : Handlers.Copy}
    (hc : (s.worker v).copies k = some c) : k < (s.worker v).nextCopy := by
  by_contra hge
  rw [(hs.labelled v).nextCopy k (by omega)] at hc
  cases hc

theorem not_outstanding (hs : Sound s) (hp : Present s) {p : String → Command → Bool}
    (h : outstanding s p = false) (v : String) : ¬ Outstanding s v (fun c => p v c = true) := by
  simp only [outstanding, or_eq_false_iff] at h
  obtain ⟨⟨hcalls, hpending⟩, hsessions⟩ := h
  have session : ∀ n x, s.server.sessions n = some x → onSession s p n x = false := by
    intro n x hx
    refine eq_false_of_ne_true (fun hq => ?_)
    rw [any_session hs hx hq] at hsessions
    cases hsessions
  intro ho
  cases ho with
  | due hd =>
    cases hd with
    | called hc hw hp ho =>
      subst hw
      rw [any_range (Replay.lt_nextCall hs.wellFormed hc) hc (by rw [ho, hp]; rfl)] at hcalls
      cases hcalls
    | listed hl hw hp =>
      subst hw
      rw [any_eq_true.mpr ⟨_, AList.mem_lookup_iff.mp hl, hp⟩] at hpending
      cases hpending
    | queued hx hw hq hm hp =>
      subst hw
      have hne := session _ _ hx
      simp only [onSession, or_eq_false_iff, hq, queue] at hne
      rw [any_eq_true.mpr ⟨_, hm, hp⟩] at hne
      cases hne.1.1
  | @written n i cmd hn hi hm hp =>
    obtain ⟨x, hx, rfl⟩ := hn
    have hne := session n x hx
    simp only [onSession, or_eq_false_iff] at hne
    have hmem : cmd ∈ (wire s.server n).drop (s.read n) := by
      refine mem_iff_getElem?.mpr ⟨i - s.read n, ?_⟩
      rw [List.getElem?_drop, Nat.add_sub_cancel' hi, hm]
    rw [any_eq_true.mpr ⟨cmd, hmem, hp⟩] at hne
    cases hne.1.2
  | @handled k c hc hd hpc =>
    obtain ⟨n, x, hx, rfl⟩ | ⟨hnext, _⟩ := hp v
    · have hne := session n x hx
      simp only [onSession, or_eq_false_iff] at hne
      have hdone : isDone c.phase = false := by
        cases hphase : c.phase with
        | done o d => exact absurd hphase (hd o d)
        | _ => rfl
      rw [any_range (copy_lt hs hc) hc (by rw [hdone, hpc]; rfl)] at hne
      cases hne.2
    · have hlt := copy_lt hs hc
      omega

theorem not_unreported (hs : Sound s) (hp : Present s) {p : String → String → Bool}
    (h : unreported s p = false) {m : Handlers.Sent} (hm : m ∈ (s.worker v).outbox) :
    p v m.result.commandID = false := by
  refine eq_false_of_ne_true (fun hq => ?_)
  obtain ⟨n, x, hx, rfl⟩ | ⟨_, hout⟩ := hp v
  · unfold unreported at h
    rw [any_session hs (q := fun _ x => (s.worker x.workerID).outbox.any
      (fun m => p x.workerID m.result.commandID)) hx (any_eq_true.mpr ⟨m, hm, hq⟩)] at h
    cases h
  · rw [hout] at hm
    cases hm

end Wireops.Channel.Quiet
