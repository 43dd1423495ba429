import Wireops.Channel.Model
import Wireops.Server.Addresses
import Wireops.Server.Replay

namespace Wireops.Channel.Deliveries

open Function List Protocol Server Server.Addresses Worker
open Channel.Model

variable {s t : State} {a : Action} {workerID : String} {P : Command → Prop}

structure Sound (s : State) : Prop where
  wellFormed : Replay.WellFormed s.server
  addressed : Addressed s.server
  delivered : Delivered s.server
  labelled : ∀ workerID, Results.Labelled (s.worker workerID)

theorem sound_init : Sound {} where
  wellFormed := Replay.once_init.wellFormed
  addressed := addressed_init
  delivered _ h := nomatch h
  labelled _ := Results.labelled_init

@[simp]
theorem record_server (s : State) (a : Dispatch.Action) (sv : Dispatch.State) : (record s a sv).server = sv := by
  cases a <;> rfl

@[simp]
theorem record_worker (s : State) (a : Dispatch.Action) (sv : Dispatch.State) :
    (record s a sv).worker = s.worker := by
  cases a <;> rfl

@[simp]
theorem record_read (s : State) (a : Dispatch.Action) (sv : Dispatch.State) : (record s a sv).read = s.read := by
  cases a <;> rfl

theorem fires_server (h : Fires s a t) : (t.server = s.server ∧ ∀ b, a ≠ .server b) ∨
      ∃ b, Dispatch.Fires s.server b t.server ∧ ∀ w cmd, b = .dispatch w cmd → a = .server b := by
  cases h with
  | @server b sv ha h =>
    exact .inr ⟨b, by rwa [record_server], fun _ _ _ => rfl⟩
  | deliver | work => exact .inl ⟨rfl, nofun⟩
  | report hx hp hm => exact .inr ⟨_, .result _ hx hp, nofun⟩

theorem labelled_update {w : Handlers.State} (hs : Sound s) (hw : Results.Labelled w) (v : String) :
    Results.Labelled (update s.worker workerID w v) := by
  by_cases hv : v = workerID
  · subst hv
    rw [update_self]
    exact hw
  · rw [update_of_ne hv]
    exact hs.labelled v

theorem labelled_drop {w : Handlers.State} (h : Results.Labelled w) (i : Nat) : Results.Labelled (drop w i) where
  __ := h
  copy k c hc :=
    have hl := h.copy k c hc
    { hl with }
  sent m hm := h.sent m (mem_of_mem_eraseIdx hm)

theorem fires_labelled (hs : Sound s) (h : Fires s a t) (v : String) : Results.Labelled (t.worker v) := by
  cases h with
  | server _ _ =>
    rw [record_worker]
    exact hs.labelled v
  | deliver _ _ h => exact labelled_update hs (Results.outcome_labelled (hs.labelled _) h) v
  | work _ h => exact labelled_update hs (Results.outcome_labelled (hs.labelled _) h) v
  | report _ _ _ => exact labelled_update hs (labelled_drop (hs.labelled _) _) v

theorem fires_sound (hs : Sound s) (h : Fires s a t) : Sound t := by
  obtain ⟨he, _⟩ | ⟨b, hb, _⟩ := fires_server h
  · exact ⟨he ▸ hs.wellFormed, he ▸ hs.addressed, he ▸ hs.delivered, fires_labelled hs h⟩
  · exact ⟨Replay.fires_wellFormed hs.wellFormed hb, fires_addressed hs.addressed hb,
      fires_delivered hs.addressed hs.delivered hb, fires_labelled hs h⟩

/-- What a step of the channel does to one worker. -/
inductive WorkerStep (s t : State) (a : Action) (v : String) : Prop where
  | same (h : t.worker v = s.worker v)
  | internal {b : Handlers.Action} (ha : a = .work v b) (hb : Model.internal b = true)
    (h : Handlers.step (s.worker v) b = some (t.worker v))
  | arrived {n : Nat} {draining : Option Bool} {cmd : Command} (ha : a = .deliver n draining)
    (hn : servedBy s.server n v) (hm : (wire s.server n)[s.read n]? = some cmd)
    (h : Handlers.step (s.worker v) (arrival cmd draining) = some (t.worker v))
  | reported {i : Nat} (h : t.worker v = drop (s.worker v) i)

theorem fires_worker (h : Fires s a t) (v : String) : WorkerStep s t a v := by
  cases h with
  | server _ _ => exact .same (by rw [record_worker])
  | @deliver n draining x cmd w hx hm h =>
    by_cases hv : v = x.workerID
    · subst hv
      exact .arrived rfl ⟨x, hx, rfl⟩ hm (h.trans (congrArg some (setWorker_self s _ w).symm))
    · exact .same (update_of_ne hv ..)
  | @work w b u hb h =>
    by_cases hv : v = w
    · subst hv
      exact .internal rfl hb (h.trans (congrArg some (setWorker_self s v u).symm))
    · exact .same (update_of_ne hv ..)
  | @report n i x m hx hp hm =>
    by_cases hv : v = x.workerID
    · subst hv
      exact .reported (update_self ..)
    · exact .same (update_of_ne hv ..)

def Stable (P : Command → Prop) : Prop := ∀ m c, P (withDispatchMessageID m c) → P c

inductive Outstanding (s : State) (workerID : String) (P : Command → Prop) : Prop where
  | due (h : Due s.server workerID P)
  | written {n i : Nat} {cmd : Command} (hn : servedBy s.server n workerID) (hi : s.read n ≤ i)
    (hm : (wire s.server n)[i]? = some cmd) (hp : P cmd)
  | handled {k : Nat} {c : Handlers.Copy} (hc : (s.worker workerID).copies k = some c)
    (hd : ∀ o d, c.phase ≠ .done o d) (hp : P c.cmd)

variable {sv : Dispatch.State}

theorem mem_wire {n : Nat} {cmd : Command} (h : cmd ∈ wire sv n) :
    ∃ w ∈ sv.writes, w.session = n ∧ w.env.payload = cmd := by
  obtain ⟨w, hw, he⟩ := mem_map.mp h
  obtain ⟨hw, hn⟩ := mem_filter.mp hw
  rw [Bool.and_eq_true, decide_eq_true_eq] at hn
  exact ⟨w, hw, hn.1, he⟩

theorem wire_append {sv sv' : Dispatch.State} {w : Dispatch.Write} (h : sv'.writes = sv.writes ++ [w])
    (n : Nat) : wire sv' n = wire sv n ∨ (w.session = n ∧ wire sv' n = wire sv n ++ [w.env.payload]) := by
  unfold wire
  rw [h, filter_append, map_append]
  by_cases hw : (decide (w.session = n) && w.ok) = true
  · rw [filter_cons_of_pos (by exact hw)]
    rw [Bool.and_eq_true, decide_eq_true_eq] at hw
    exact .inr ⟨hw.1, rfl⟩
  · rw [filter_cons_of_neg (by exact hw)]
    exact .inl (append_nil _)

theorem getElem?_append_singleton {α : Type} {l : List α} {x y : α} {i : Nat}
    (h : (l ++ [x])[i]? = some y) : l[i]? = some y ∨ y = x := by
  by_cases hi : i < l.length
  · rw [List.getElem?_append_left hi] at h
    exact .inl h
  · rw [List.getElem?_append_right (by omega)] at h
    exact .inr (mem_singleton.mp (mem_of_getElem? h))

theorem Outstanding.mono {P Q : Command → Prop} (h : Outstanding s workerID P)
    (hPQ : ∀ c, P c → Q c) : Outstanding s workerID Q := by
  cases h with
  | due hd => exact .due (due_mono hd hPQ)
  | written hn hi hm hp => exact .written hn hi hm (hPQ _ hp)
  | handled hc hd hp => exact .handled hc hd (hPQ _ hp)

theorem fires_wire (hs : Sound s) (hP : Stable P) {b : Dispatch.Action}
    (h : Dispatch.Fires s.server b sv) {n i : Nat} {cmd : Command} (hn : servedBy sv n workerID)
    (hm : (wire sv n)[i]? = some cmd) (hp : P cmd) :
    (servedBy s.server n workerID ∧ (wire s.server n)[i]? = some cmd) ∨ Due s.server workerID P := by
  have old : (wire s.server n)[i]? = some cmd → servedBy s.server n workerID := by
    intro hm
    obtain ⟨w, hw, hwn, _⟩ := mem_wire (mem_of_getElem? hm)
    obtain ⟨v, hv⟩ := hs.delivered w hw
    rw [hwn] at hv
    exact servedBy_unique (fires_servedBy hs.addressed h hv) hn ▸ hv
  obtain he | ⟨w, cmd', m, v, he, hpay, hv, hdue⟩ := fires_written hs.addressed h
  · have hm : (wire s.server n)[i]? = some cmd := by
      unfold wire at hm ⊢
      rwa [he] at hm
    exact .inl ⟨old hm, hm⟩
  · obtain hw | ⟨hwn, hw⟩ := wire_append he n
    · rw [hw] at hm
      exact .inl ⟨old hm, hm⟩
    · rw [hw] at hm
      obtain hm | rfl := getElem?_append_singleton hm
      · exact .inl ⟨old hm, hm⟩
      · rw [hwn] at hv
        have hvw : v = workerID := servedBy_unique (fires_servedBy hs.addressed h hv) hn
        subst hvw
        rw [hpay] at hp
        exact .inr (due_mono hdue (fun c hc => hc ▸ hP m cmd' hp))

theorem fires_copies (h : WorkerStep s t a workerID) {k : Nat} {c : Handlers.Copy}
    (hc : (t.worker workerID).copies k = some c) (hd : ∀ o d, c.phase ≠ .done o d) :
    (∃ k c', (s.worker workerID).copies k = some c' ∧ c'.cmd = c.cmd ∧ ∀ o d, c'.phase ≠ .done o d) ∨
    ∃ n, servedBy s.server n workerID ∧ (wire s.server n)[s.read n]? = some c.cmd := by
  cases h with
  | same h | reported h =>
    rw [h] at hc
    exact .inl ⟨k, c, hc, rfl, hd⟩
  | internal _ hb h =>
    obtain hold | rfl := Results.step_copies h hc hd
    · exact .inl hold
    · cases hb
  | @arrived n draining cmd _ hn hm h =>
    obtain hold | he := Results.step_copies h hc hd
    · exact .inl hold
    · cases draining with
      | none =>
        cases he
        exact .inr ⟨n, hn, hm⟩
      | some draining => cases he

theorem fires_read (h : Fires s a t) (n : Nat) : s.read n ≤ t.read n := by
  cases h with
  | server => rw [record_read]
  | @deliver m =>
    by_cases hn : n = m
    · subst hn
      change _ ≤ update s.read n (s.read n + 1) n
      rw [update_self]
      exact Nat.le_succ _
    · change _ ≤ update s.read m (s.read m + 1) n
      rw [update_of_ne hn]
  | work | report => exact Nat.le_refl _

theorem fires_outstanding (hs : Sound s) (hP : Stable P) (h : Fires s a t)
    (ho : Outstanding t workerID P) : Outstanding s workerID P ∨
      ∃ cmd, a = .server (.dispatch workerID cmd) ∧ P cmd := by
  cases ho with
  | due hd =>
    obtain ⟨he, _⟩ | ⟨b, hb, hab⟩ := fires_server h
    · exact .inl (.due (he ▸ hd))
    · obtain hd | ⟨cmd, rfl, hp⟩ := fires_due hb hd
      · exact .inl (.due hd)
      · exact .inr ⟨cmd, hab _ _ rfl, hp⟩
  | written hn hi hm hp =>
    have hi := Nat.le_trans (fires_read h _) hi
    obtain ⟨he, _⟩ | ⟨b, hb, _⟩ := fires_server h
    · exact .inl (.written (he ▸ hn) hi (he ▸ hm) hp)
    · obtain ⟨hn, hm⟩ | hd := fires_wire hs hP hb hn hm hp
      · exact .inl (.written hn hi hm hp)
      · exact .inl (.due hd)
  | handled hc hd hp =>
    obtain ⟨k, c', hc', hcmd, hd'⟩ | ⟨n, hn, hm⟩ := fires_copies (fires_worker h workerID) hc hd
    · exact .inl (.handled hc' hd' (hcmd ▸ hp))
    · exact .inl (.written hn (Nat.le_refl _) hm hp)

end Wireops.Channel.Deliveries
