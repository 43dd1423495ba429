import Wireops.Worker.Results

namespace Wireops.Worker.Dedup

open Function Protocol Lib.Steps Lib.Table Worker.Handlers
open Worker.Results (Labelled underWay outcome_labelled labelled_init)

variable {s t : State} {k : Nat} {c : Copy}

def holds : Phase → Bool
  | .activate | .start | .running _ | .store .. | .release .. => true
  | _ => false

def Finished (s : State) (commandID : String) (e storedAt : Nat) (r : CommandResult) : Prop :=
  ∃ x, s.execs e = some x ∧ x.cmd.commandID = commandID ∧ x.finished = some (storedAt, r)

def Expired (s : State) (commandID : String) : Prop :=
  ∀ e x, s.execs e = some x → x.cmd.commandID = commandID →
    ∃ at_ r, x.finished = some (at_, r) ∧ at_ + completedDurableRetention < s.now

def Answers (now e storedAt : Nat) (r : CommandResult) : Phase → Prop
  | .queued | .checkActive | .lookup => True
  | .judge entry => now ≤ storedAt + completedDurableRetention → entry = ⟨r, storedAt, e⟩
  | .done o decidedAt => decidedAt ≤ storedAt + completedDurableRetention → o = .cached e r
  | _ => storedAt + completedDurableRetention < now

structure CopyOk (s : State) (c : Copy) : Prop where
  claimed : holds c.phase = true → s.claimed c.cmd.commandID = true
  waiting : c.phase = .activate ∨ c.phase = .start → Expired s c.cmd.commandID
  answers : ∀ e, c.after = some e → ∃ at_ r, Finished s c.cmd.commandID e at_ r ∧ Answers s.now e at_ r c.phase

structure Inv (s : State) : Prop where
  copy : ∀ k c, s.copies k = some c → CopyOk s c
  unique : ∀ i j c d, s.copies i = some c → s.copies j = some d → holds c.phase = true →
    holds d.phase = true → c.cmd.commandID = d.cmd.commandID → i = j
  held : ∀ e x, s.execs e = some x → x.finished = none → ∃ k c, s.copies k = some c ∧ underWay c.phase = some e
  stored : ∀ e at_ r commandID, Finished s commandID e at_ r →
    s.now ≤ at_ + completedDurableRetention → s.completed commandID = some ⟨r, at_, e⟩
  started : ∀ e x, s.execs e = some x → x.startedAt ≤ s.now
  apart : ∀ i j e e', i < j → s.execs i = some e → s.execs j = some e' → e.cmd.commandID = e'.cmd.commandID →
    ∃ at_ r, e.finished = some (at_, r) ∧ at_ + completedDurableRetention < e'.startedAt
  last : ∀ commandID e, s.lastFinished commandID = some e → ∃ at_ r, Finished s commandID e at_ r

/-- The cache has no result of the command inside the retention window. -/
def Stale (s : State) (commandID : String) : Prop :=
  ∀ entry ∈ s.completed commandID, fresh s.now entry = false

instance (s : State) (commandID : String) : Decidable (Stale s commandID) :=
  inferInstanceAs (Decidable (∀ entry ∈ s.completed commandID, fresh s.now entry = false))

def OrderlyAt (s : State) (commandID : String) : Phase → Prop
  | .checkActive => s.active commandID = true → Stale s commandID
  | .claim => s.claimed commandID = false → Stale s commandID
  | .expire => Stale s commandID
  | .evict _ _ _ other => Stale s other
  | _ => True

/-- The condition on the races: no claim is taken and no cache entry deleted
while a result of that command is in its retention window, and no copy reads
`ActiveCommands` between the store of a result and the deferred delete. -/
def Orderly (s : State) : Action → Prop
  | .advance k => ∀ c ∈ s.copies k, OrderlyAt s c.cmd.commandID c.phase
  | _ => True

instance (s : State) (commandID : String) (p : Phase) : Decidable (OrderlyAt s commandID p) := by
  unfold OrderlyAt
  split <;> infer_instance

instance (s : State) (a : Action) : Decidable (Orderly s a) := by
  unfold Orderly
  split <;> infer_instance

theorem not_stale (hs : Inv s) {commandID : String} {e at_ : Nat} {r : CommandResult}
    (hf : Finished s commandID e at_ r) (hst : Stale s commandID) : at_ + completedDurableRetention < s.now := by
  by_contra hle
  have hin : s.now ≤ at_ + completedDurableRetention := by omega
  have hfresh := hst _ (hs.stored e at_ r commandID hf hin)
  rw [fresh_iff.mpr hin] at hfresh
  cases hfresh

variable {p q : Phase}

theorem holds_of_underWay {e : Nat} (h : underWay p = some e) : holds p = true := by
  cases p <;> first | rfl | cases h

theorem expired_of_stale (hl : Labelled s) (hs : Inv s) {commandID : String} (hst : Stale s commandID)
    (hcl : s.claimed commandID = false) : Expired s commandID := by
  intro e x hx hid
  cases hf : x.finished with
  | none =>
    obtain ⟨k, c, hc, he⟩ := hs.held e x hx hf
    obtain ⟨y, hy, hcmd, _⟩ := (hl.copy k c hc).underWay e he
    rw [hx] at hy
    cases hy
    have hclaimed := (hs.copy k c hc).claimed (holds_of_underWay he)
    rw [← hcmd, hid, hcl] at hclaimed
    cases hclaimed
  | some p => exact ⟨p.1, p.2, rfl, not_stale hs ⟨x, hx, hid, hf⟩ hst⟩

theorem Inv.frame (hs : Inv s) (active : String → Bool) (sweeping : Bool) (outbox : List Sent) :
    Inv { s with active, sweeping, outbox } where
  __ := hs
  copy k c hc :=
    have h := hs.copy k c hc
    { h with }

def moved (s : State) (k : Nat) (c : Copy) : State :=
  { s with copies := update s.copies k (some c) }

theorem moved_cases {i : Nat} {c' d : Copy} (h : (moved s k c').copies i = some d) :
    (i = k ∧ d = c') ∨ (i ≠ k ∧ s.copies i = some d) :=
  update_some_cases h

theorem unique_moved (hs : Inv s) {c' : Copy}
    (hu : holds c'.phase = true → ∀ j d, j ≠ k → s.copies j = some d → holds d.phase = true →
      d.cmd.commandID ≠ c'.cmd.commandID) (i j : Nat) (d d' : Copy)
    (hd : (moved s k c').copies i = some d) (hd' : (moved s k c').copies j = some d')
    (hh : holds d.phase = true) (hh' : holds d'.phase = true) (hid : d.cmd.commandID = d'.cmd.commandID) : i = j := by
  obtain ⟨rfl, rfl⟩ | ⟨hi, hi'⟩ := moved_cases hd
  · obtain ⟨rfl, _⟩ | ⟨hj, hj'⟩ := moved_cases hd'
    · rfl
    · exact absurd hid.symm (hu hh j d' hj hj' hh')
  · obtain ⟨rfl, rfl⟩ | ⟨_, hj'⟩ := moved_cases hd'
    · exact absurd hid (hu hh' i d hi hi' hh)
    · exact hs.unique i j d d' hi' hj' hh hh' hid

theorem held_moved {c' : Copy} {e : Nat} (h : ∃ i d, s.copies i = some d ∧ underWay d.phase = some e)
    (hc : s.copies k = some c) (hu : underWay c.phase = some e → underWay c'.phase = some e) :
    ∃ i d, (moved s k c').copies i = some d ∧ underWay d.phase = some e := by
  obtain ⟨i, d, hd, he⟩ := h
  by_cases hi : i = k
  · subst hi
    cases hc.symm.trans hd
    exact ⟨i, c', update_self .., hu he⟩
  · exact ⟨i, d, (update_of_ne hi ..).trans hd, he⟩

theorem Inv.moved (hs : Inv s) (hc : s.copies k = some c) (c' : Copy)
    (hu : holds c'.phase = true → ∀ j d, j ≠ k → s.copies j = some d → holds d.phase = true →
      d.cmd.commandID ≠ c'.cmd.commandID)
    (he : underWay c'.phase = underWay c.phase) (hok : CopyOk s c') : Inv (moved s k c') where
  __ := hs
  copy i d hd := by
    have h : CopyOk s d := by
      obtain ⟨_, rfl⟩ | ⟨_, hd⟩ := moved_cases hd
      · exact hok
      · exact hs.copy i d hd
    exact { h with }
  unique := unique_moved hs hu
  held e x hx hf := held_moved (hs.held e x hx hf) hc he.trans

theorem others_of_holds (hs : Inv s) (hc : s.copies k = some c) (hh : holds c.phase = true) (j : Nat)
    (d : Copy) (hj : j ≠ k) (hd : s.copies j = some d) (hhd : holds d.phase = true) :
    d.cmd.commandID ≠ c.cmd.commandID :=
  fun hid => hj (hs.unique j k d c hd hc hhd hh hid)

theorem others_of_unclaimed (hs : Inv s) {commandID : String} (hcl : s.claimed commandID = false)
    (j : Nat) (d : Copy) (hd : s.copies j = some d) (hhd : holds d.phase = true) : d.cmd.commandID ≠ commandID := by
  rintro rfl
  rw [(hs.copy j d hd).claimed hhd] at hcl
  cases hcl

theorem CopyOk.answered (h : CopyOk s c) (hq : c.phase = q) (e : Nat) (he : c.after = some e) :
    ∃ at_ r, Finished s c.cmd.commandID e at_ r ∧ Answers s.now e at_ r q :=
  hq ▸ h.answers e he

theorem CopyOk.unclaimed (h : CopyOk s c) (hq : c.phase = q)
    (ha : ∀ e at_ r, Finished s c.cmd.commandID e at_ r → Answers s.now e at_ r q → Answers s.now e at_ r p)
    (hh : holds p = false := by rfl) : CopyOk s { c with phase := p } where
  claimed hp := by
    rw [hh] at hp
    cases hp
  waiting hw := by
    obtain rfl | rfl := hw <;> cases hh
  answers e he := by
    obtain ⟨at_, r, hf, h⟩ := h.answered hq e he
    exact ⟨at_, r, hf, ha e at_ r hf h⟩

theorem underWay_of_unclaimed (h : holds p = false) : underWay p = none := by
  cases p <;> first | rfl | cases h

theorem Inv.movedUnclaimed (hs : Inv s) (hc : s.copies k = some c) (hq : holds c.phase = false) {c' : Copy}
    (hh : holds c'.phase = false) (hok : CopyOk s c') : Inv (Dedup.moved s k c') := by
  refine hs.moved hc c' (fun hp => ?_) ?_ hok
  · rw [hh] at hp
    cases hp
  · rw [underWay_of_unclaimed hq, underWay_of_unclaimed hh]

theorem Inv.unclaimed (hs : Inv s) (hc : s.copies k = some c) (hq : c.phase = q)
    (ha : ∀ e at_ r, Finished s c.cmd.commandID e at_ r → Answers s.now e at_ r q → Answers s.now e at_ r p)
    (hc' : holds q = false := by rfl) (hh : holds p = false := by rfl) : Inv (s.setPhase k c p) :=
  hs.movedUnclaimed hc (hq ▸ hc') hh ((hs.copy k c hc).unclaimed hq ha hh)

theorem inv_delete (hs : Inv s) {commandID : String} (hst : Stale s commandID) : Inv (delete s commandID) where
  __ := hs
  copy k c hc :=
    have h := hs.copy k c hc
    { h with }
  stored e at_ r id hf hin := by
    have hf : Finished s id e at_ r := hf
    have hin : s.now ≤ at_ + completedDurableRetention := hin
    by_cases hid : id = commandID
    · subst hid
      have hlt := not_stale hs hf hst
      omega
    · exact (update_of_ne hid ..).trans (hs.stored e at_ r id hf hin)

theorem inv_claimed (hs : Inv s) {claimed : String → Bool}
    (hcl : ∀ j d, s.copies j = some d → holds d.phase = true → claimed d.cmd.commandID = true) :
    Inv { s with claimed } where
  __ := hs
  copy i d hd :=
    have h := hs.copy i d hd
    { h with claimed := hcl i d hd }

section

variable (hs : Inv s) (hc : s.copies k = some c)

include hs hc

theorem inv_begin (hp : c.phase = .checkActive)
    (hst : s.active c.cmd.commandID = true → Stale s c.cmd.commandID) : Inv (begin_ s k c) := by
  have answer : ∀ p, holds p = false → (∀ e at_ r, Finished s c.cmd.commandID e at_ r → Answers s.now e at_ r p) →
      Inv (moved s k ⟨c.cmd, p, s.lastFinished c.cmd.commandID⟩) := by
    intro p hh ha
    have hok : CopyOk s ⟨c.cmd, .queued, s.lastFinished c.cmd.commandID⟩ := by
      refine ⟨fun h => (nomatch h), fun h => by simp at h, fun e he => ?_⟩
      obtain ⟨at_, r, hf⟩ := hs.last _ e he
      exact ⟨at_, r, hf, trivial⟩
    have hq : holds c.phase = false := by rw [hp]; rfl
    exact hs.movedUnclaimed hc hq hh (hok.unclaimed rfl (fun e at_ r hf _ => ha e at_ r hf) hh)
  unfold begin_
  dsimp only
  split
  · next hact =>
    refine answer (.done .ignored s.now) rfl ?_
    intro e at_ r hf hle
    have hlt := not_stale hs hf (hst hact)
    omega
  · exact answer .lookup rfl (fun _ _ _ _ => trivial)

theorem inv_lookup (hp : c.phase = .lookup) : Inv (lookup s k c) := by
  unfold lookup
  split
  · next hn =>
    refine hs.unclaimed hc hp (fun e at_ r hf _ => ?_)
    change at_ + completedDurableRetention < s.now
    by_contra hle
    rw [hs.stored e at_ r _ hf (by omega)] at hn
    cases hn
  · next entry he =>
    refine hs.unclaimed hc hp (fun e at_ r hf _ hin => ?_)
    rw [hs.stored e at_ r _ hf hin] at he
    exact (Option.some.inj he).symm

theorem inv_judge {entry : DurableResultEntry} (hp : c.phase = .judge entry) : Inv (judge s k c entry) := by
  unfold judge
  split
  · next hf =>
    refine (hs.unclaimed hc (p := .done (.cached entry.exec entry.result) s.now) hp ?_).frame _ _ _
    intro e at_ r _ ha hin
    rw [ha hin]
  · next hf =>
    refine hs.unclaimed hc hp (fun e at_ r _ ha => ?_)
    change at_ + completedDurableRetention < s.now
    by_contra hle
    have hin : s.now ≤ at_ + completedDurableRetention := by omega
    rw [ha hin] at hf
    exact hf (fresh_iff.mpr hin)

theorem inv_claim (hl : Labelled s) (hp : c.phase = .claim)
    (hst : s.claimed c.cmd.commandID = false → Stale s c.cmd.commandID) : Inv (claim s k c) := by
  unfold claim
  split
  · refine hs.unclaimed hc hp (fun e at_ r _ ha hin => ?_)
    change at_ + completedDurableRetention < s.now at ha
    omega
  · next hcl =>
    have hcl := eq_false_of_ne_true hcl
    have hset : Inv { s with claimed := update s.claimed c.cmd.commandID true } := by
      refine inv_claimed hs (fun i d hd hh => ?_)
      by_cases hid : d.cmd.commandID = c.cmd.commandID
      · rw [hid]
        exact update_self ..
      · exact (update_of_ne hid ..).trans ((hs.copy i d hd).claimed hh)
    refine hset.moved hc { c with phase := .activate } ?_ ?_ ?_
    · exact fun _ j d _ hd => others_of_unclaimed hs hcl j d hd
    · rw [hp]
      rfl
    · refine ⟨fun _ => update_self .., fun _ => ?_, fun e he => ?_⟩
      · exact expired_of_stale hl hs (hst hcl) hcl
      · exact (hs.copy k c hc).answered hp e he

theorem inv_activate (hp : c.phase = .activate) : Inv (activate s k c) := by
  have h := hs.copy k c hc
  have hh : holds c.phase = true := by rw [hp]; rfl
  refine (hs.moved hc { c with phase := .start } ?_ ?_ ?_).frame _ _ _
  · exact fun _ j d => others_of_holds hs hc hh j d
  · rw [hp]
    rfl
  · exact ⟨fun _ => h.claimed hh, fun _ => h.waiting (.inl hp), h.answered (q := .activate) hp⟩

end

variable {e : Nat} {x : Exec} {r : CommandResult}

theorem Finished.start {commandID : String} {at_ : Nat} (hl : Labelled s)
    (hf : Finished s commandID e at_ r) : Finished (start s k c) commandID e at_ r := by
  obtain ⟨x, hx, h⟩ := hf
  exact ⟨x, (update_of_ne (Nat.ne_of_lt (hl.exec_lt hx)) ..).trans hx, h⟩

theorem start_execs (h : (start s k c).execs e = some x) :
    (e = s.nextExec ∧ x = ⟨c.cmd, s.now, none⟩) ∨ (e ≠ s.nextExec ∧ s.execs e = some x) :=
  update_some_cases h

section

variable (hl : Labelled s) (hs : Inv s) (hc : s.copies k = some c)

include hl hs hc

theorem copyOk_start (hh : holds c.phase = true) {i : Nat} {d : Copy}
    (hi : i ≠ k) (hd : s.copies i = some d) : CopyOk (start s k c) d where
  claimed := (hs.copy i d hd).claimed
  waiting hw e x hx hid := by
    obtain ⟨rfl, rfl⟩ | ⟨_, hx⟩ := start_execs hx
    · have hhd : holds d.phase = true := by
        obtain hw | hw := hw <;> rw [hw] <;> rfl
      exact absurd hid.symm (others_of_holds hs hc hh i d hi hd hhd)
    · exact (hs.copy i d hd).waiting hw e x hx hid
  answers e he := by
    obtain ⟨at_, r, hf, ha⟩ := (hs.copy i d hd).answers e he
    exact ⟨at_, r, hf.start hl, ha⟩

theorem inv_start (hp : c.phase = .start) : Inv (start s k c) := by
  have hok := hs.copy k c hc
  have hh : holds c.phase = true := by rw [hp]; rfl
  have hexp := hok.waiting (.inr hp)
  constructor
  case copy =>
    intro i d hd
    obtain ⟨_, rfl⟩ | ⟨hi, hd⟩ := moved_cases hd
    · refine ⟨fun _ => hok.claimed hh, fun h => by simp at h, fun e he => ?_⟩
      obtain ⟨at_, r, hf, ha⟩ := hok.answered hp e he
      exact ⟨at_, r, hf.start hl, ha⟩
    · exact copyOk_start hl hs hc hh hi hd
  case unique => exact unique_moved hs (fun _ j d => others_of_holds hs hc hh j d)
  case held =>
    intro e x hx hf
    obtain ⟨rfl, rfl⟩ | ⟨_, hx⟩ := start_execs hx
    · exact ⟨k, _, update_self .., rfl⟩
    · refine held_moved (hs.held e x hx hf) hc (fun h => ?_)
      rw [hp] at h
      cases h
  case stored =>
    rintro e at_ r id ⟨x, hx, hid, hf⟩ hin
    obtain ⟨_, rfl⟩ | ⟨_, hx⟩ := start_execs hx
    · cases hf
    · exact hs.stored e at_ r id ⟨x, hx, hid, hf⟩ hin
  case started =>
    intro e x hx
    obtain ⟨_, rfl⟩ | ⟨_, hx⟩ := start_execs hx
    · exact Nat.le_refl _
    · exact hs.started e x hx
  case apart =>
    intro i j x y hij hx hy hid
    obtain ⟨rfl, rfl⟩ | ⟨hi, hx⟩ := start_execs hx
    · obtain ⟨rfl, _⟩ | ⟨_, hy⟩ := start_execs hy
      · omega
      · exact absurd hij (Nat.lt_asymm (hl.exec_lt hy))
    · obtain ⟨rfl, rfl⟩ | ⟨_, hy⟩ := start_execs hy
      · exact hexp i x hx hid
      · exact hs.apart i j x y hij hx hy hid
  case last =>
    intro id e he
    obtain ⟨at_, r, hf⟩ := hs.last id e he
    exact ⟨at_, r, hf.start hl⟩

end

theorem inv_complete (hs : Inv s) (hc : s.copies k = some c) (hp : c.phase = .running e)
    (r : CommandResult) (now : Nat) : Inv (s.setPhase k c (.store e r now)) := by
  have hok := hs.copy k c hc
  have hh : holds c.phase = true := by rw [hp]; rfl
  refine hs.moved hc _ (fun _ j d => others_of_holds hs hc hh j d) (by rw [hp]; rfl) ?_
  exact ⟨fun _ => hok.claimed hh, fun h => by simp at h, hok.answered (q := .running e) hp⟩

theorem store_execs {i now : Nat} {y : Exec} (hx : s.execs e = some x) (h : (store s k c e r now).execs i = some y) :
    (i = e ∧ y = { x with finished := some (now, r) }) ∨ (i ≠ e ∧ s.execs i = some y) := by
  obtain ⟨rfl, hy⟩ | hother := update_cases h
  · rw [hx] at hy
    cases hy
    exact .inl ⟨rfl, rfl⟩
  · exact .inr hother

theorem Finished.store {commandID : String} {i at_ now : Nat} {r' : CommandResult}
    (hx : s.execs e = some x) (hu : x.finished = none) (hf : Finished s commandID i at_ r') :
    Finished (store s k c e r now) commandID i at_ r' := by
  obtain ⟨y, hy, hid, hfin⟩ := hf
  have hne : i ≠ e := by
    rintro rfl
    rw [hx] at hy
    cases hy
    rw [hu] at hfin
    cases hfin
  exact ⟨y, (update_of_ne hne ..).trans hy, hid, hfin⟩

section Store

variable {e now : Nat} {r : CommandResult} {x : Exec}

theorem copyOk_store_self (hs : Inv s) (hc : s.copies k = some c) (hp : c.phase = .store e r now)
    (hx : s.execs e = some x) (hun : x.finished = none) :
    CopyOk (store s k c e r now) { c with phase := .release e r } := by
  have hok := hs.copy k c hc
  refine ⟨fun _ => hok.claimed (by rw [hp]; rfl), fun h => by simp at h, ?_⟩
  intro i hi
  obtain ⟨at_, r', hf, ha⟩ := hok.answered hp i hi
  exact ⟨at_, r', hf.store hx hun, ha⟩

theorem copyOk_store_other (hs : Inv s) (hc : s.copies k = some c) (hh : holds c.phase = true)
    (hx : s.execs e = some x) (hcmd : x.cmd = c.cmd) (hun : x.finished = none) {i : Nat} {d : Copy}
    (hi : i ≠ k) (hd : s.copies i = some d) : CopyOk (store s k c e r now) d := by
  have h := hs.copy i d hd
  refine ⟨h.claimed, ?_, ?_⟩
  · intro hw j y hy hid
    obtain ⟨rfl, rfl⟩ | ⟨_, hy⟩ := store_execs hx hy
    · have hhd : holds d.phase = true := by
        obtain hw | hw := hw <;> rw [hw] <;> rfl
      exact absurd (hid.symm.trans (congrArg _ hcmd)) (others_of_holds hs hc hh i d hi hd hhd)
    · exact h.waiting hw j y hy hid
  · intro j hj
    obtain ⟨at_, r', hf, ha⟩ := h.answers j hj
    exact ⟨at_, r', hf.store hx hun, ha⟩

theorem ne_of_open (hs : Inv s) (hx : s.execs e = some x) (hun : x.finished = none) {i at_ : Nat}
    {r' : CommandResult} {y : Exec} (hi : i ≠ e) (hy : s.execs i = some y)
    (hf : y.finished = some (at_, r')) (hin : s.now ≤ at_ + completedDurableRetention) :
    y.cmd.commandID ≠ x.cmd.commandID := by
  intro hsame
  obtain hlt | hlt := Nat.lt_or_gt_of_ne hi
  · obtain ⟨at', r'', hf', hap⟩ := hs.apart i e y x hlt hy hx hsame
    rw [hf] at hf'
    cases hf'
    have hst := hs.started e x hx
    omega
  · obtain ⟨_, _, hf', _⟩ := hs.apart e i x y hlt hx hy hsame.symm
    rw [hun] at hf'
    cases hf'

theorem apart_store (hs : Inv s) (hx : s.execs e = some x) (hun : x.finished = none) {i j : Nat}
    {y z : Exec} (hij : i < j) (hy : (store s k c e r now).execs i = some y)
    (hz : (store s k c e r now).execs j = some z) (hid : y.cmd.commandID = z.cmd.commandID) :
    ∃ at_ r', y.finished = some (at_, r') ∧ at_ + completedDurableRetention < z.startedAt := by
  obtain ⟨rfl, rfl⟩ | ⟨_, hy'⟩ := store_execs hx hy
  · obtain ⟨rfl, _⟩ | ⟨_, hz⟩ := store_execs hx hz
    · omega
    · obtain ⟨_, _, hf', _⟩ := hs.apart i j x z hij hx hz hid
      rw [hun] at hf'
      cases hf'
  · obtain ⟨rfl, rfl⟩ | ⟨_, hz⟩ := store_execs hx hz
    · exact hs.apart i j y x hij hy' hx hid
    · exact hs.apart i j y z hij hy' hz hid

theorem inv_store (hl : Labelled s) (hs : Inv s) (hc : s.copies k = some c) (hp : c.phase = .store e r now) :
    Inv (store s k c e r now) := by
  have hh : holds c.phase = true := by rw [hp]; rfl
  obtain ⟨x, hx, hcmd, hun⟩ := (hl.copy k c hc).underWay e (by rw [hp]; rfl)
  refine ⟨?_, unique_moved hs (fun _ j d => others_of_holds hs hc hh j d),
    ?_, ?_, ?_, fun i j y z => apart_store hs hx hun, ?_⟩
  · intro i d hd
    obtain ⟨_, rfl⟩ | ⟨hi, hdi⟩ := moved_cases hd
    · exact copyOk_store_self hs hc hp hx hun
    · exact copyOk_store_other hs hc hh hx hcmd hun hi hdi
  · intro i y hy hf
    obtain ⟨_, rfl⟩ | ⟨hi, hy⟩ := store_execs hx hy
    · cases hf
    · refine held_moved (hs.held i y hy hf) hc (fun h => ?_)
      rw [hp] at h
      cases h
      exact absurd rfl hi
  · rintro i at_ r' id ⟨y, hy, hid, hf⟩ hin
    obtain ⟨rfl, rfl⟩ | ⟨hi, hy⟩ := store_execs hx hy
    · cases hf
      rw [← hid]
      change (update s.completed c.cmd.commandID _) x.cmd.commandID = _
      rw [hcmd]
      exact update_self ..
    · have hne : id ≠ c.cmd.commandID := by
        rw [← hid, ← hcmd]
        exact ne_of_open hs hx hun hi hy hf hin
      exact (update_of_ne hne ..).trans (hs.stored i at_ r' id ⟨y, hy, hid, hf⟩ hin)
  · intro i y hy
    obtain ⟨_, rfl⟩ | ⟨_, hy⟩ := store_execs hx hy
    · exact hs.started e x hx
    · exact hs.started i y hy
  · intro id i hi
    obtain ⟨rfl, rfl⟩ | ⟨_, hi⟩ := update_some_cases hi
    · exact ⟨now, r, { x with finished := some (now, r) },
        (update_self ..).trans (by rw [hx]; rfl), congrArg _ hcmd, rfl⟩
    · obtain ⟨at_, r', hf⟩ := hs.last id i hi
      exact ⟨at_, r', hf.store hx hun⟩

end Store

theorem inv_release (hs : Inv s) (hc : s.copies k = some c) {e : Nat} {r : CommandResult}
    (hp : c.phase = .release e r) : Inv (release s k c e r) := by
  have hh : holds c.phase = true := by rw [hp]; rfl
  have hmove : Inv (s.setPhase k c (.trySweep e r)) := by
    refine hs.moved hc _ (fun h => (nomatch h)) (by rw [hp]; rfl) ?_
    exact (hs.copy k c hc).unclaimed hp (fun _ _ _ _ ha => ha)
  refine inv_claimed hmove (fun j d hd hhd => ?_)
  obtain ⟨_, rfl⟩ | ⟨hj, hdj⟩ := moved_cases hd
  · cases hhd
  · refine (update_of_ne (others_of_holds hs hc hh j d hj hdj hhd) ..).trans ?_
    exact (hs.copy j d hdj).claimed hhd

theorem inv_tick (hs : Inv s) (d : Nat) : Inv { s with now := s.now + d } where
  __ := hs
  copy k c hc := by
    have h := hs.copy k c hc
    refine ⟨h.claimed, ?_, ?_⟩
    · intro hw e x hx hid
      obtain ⟨at_, r, hf, hlt⟩ := h.waiting hw e x hx hid
      exact ⟨at_, r, hf, Nat.lt_add_right d hlt⟩
    · intro e he
      obtain ⟨at_, r, hf, ha⟩ := h.answers e he
      refine ⟨at_, r, hf, ?_⟩
      revert ha
      cases c.phase with
      | judge entry =>
        intro ha hin
        exact ha (Nat.le_trans (Nat.le_add_right s.now d) hin)
      | queued | checkActive | lookup => exact fun _ => trivial
      | done => exact id
      | expire | claim | activate | start | running | store | release | trySweep | sweep | evict
      | reply | deactivate => exact fun ha => Nat.lt_add_right d ha
  stored e at_ r id hf hin := by
    have hin : s.now + d ≤ at_ + completedDurableRetention := hin
    exact hs.stored e at_ r id hf (by omega)
  started e x hx := Nat.le_trans (hs.started e x hx) (Nat.le_add_right s.now d)

theorem inv_receive (hl : Labelled s) (hs : Inv s) (cmd : Command) : Inv (receive s cmd) where
  __ := hs
  copy k c hc := by
    obtain ⟨_, rfl⟩ | ⟨_, hc⟩ := moved_cases hc
    · exact ⟨fun h => (nomatch h), fun h => by simp at h, fun _ h => (nomatch h)⟩
    · have h := hs.copy k c hc
      exact { h with }
  unique := unique_moved hs (fun h => (nomatch h))
  held e x hx hf := by
    obtain ⟨i, d, hd, he⟩ := hs.held e x hx hf
    exact ⟨i, d, update_kept (hl.nextCopy _ (Nat.le_refl _)) hd, he⟩

theorem inv_advance (hl : Labelled s) (hs : Inv s) (hc : s.copies k = some c)
    (hg : OrderlyAt s c.cmd.commandID c.phase) (h : advance s k c c.phase = some t) : Inv t := by
  generalize hp : c.phase = p at h hg
  cases p with
  | queued =>
    cases h
    exact hs.unclaimed hc hp (fun _ _ _ _ _ => trivial)
  | checkActive =>
    cases h
    exact inv_begin hs hc hp hg
  | lookup =>
    cases h
    exact inv_lookup hs hc hp
  | judge entry =>
    cases h
    exact inv_judge hs hc hp
  | expire =>
    cases h
    have hd : Inv (delete s c.cmd.commandID) := inv_delete hs hg
    exact hd.unclaimed hc hp (fun _ _ _ _ ha => ha)
  | claim =>
    cases h
    exact inv_claim hs hc hl hp hg
  | activate =>
    cases h
    exact inv_activate hs hc hp
  | start =>
    cases h
    exact inv_start hl hs hc hp
  | running e =>
    cases h
  | store e r now =>
    cases h
    exact inv_store hl hs hc hp
  | release e r =>
    cases h
    exact inv_release hs hc hp
  | trySweep e r =>
    cases h
    unfold trySweep
    split
    · exact hs.unclaimed hc hp (fun _ _ _ _ ha => ha)
    · exact (hs.unclaimed hc (p := .sweep e r s.now) hp (fun _ _ _ _ ha => ha)).frame _ _ _
  | sweep e r now =>
    cases h
    exact (hs.unclaimed hc (p := .reply e r) hp (fun _ _ _ _ ha => ha)).frame _ _ _
  | evict e r now other =>
    cases h
    have hd : Inv (delete s other) := inv_delete hs hg
    exact hd.unclaimed hc hp (fun _ _ _ _ ha => ha)
  | reply e r =>
    cases h
    exact (hs.unclaimed hc (p := .deactivate e r) hp (fun _ _ _ _ ha => ha)).frame _ _ _
  | deactivate e r =>
    cases h
    refine (hs.unclaimed hc (p := .done (.executed e r) s.now) hp (fun i at_ r' _ ha hin => ?_)).frame _ _ _
    change at_ + completedDurableRetention < s.now at ha
    omega
  | done o d =>
    cases h

theorem step_inv (s : State) (a : Action) (t : State) (hi : Labelled s ∧ Inv s) (hg : Orderly s a)
    (h : step s a = some t) : Labelled t ∧ Inv t := by
  obtain ⟨hl, hs⟩ := hi
  refine ⟨outcome_labelled hl h, ?_⟩
  cases step_fires h with
  | tick d => exact inv_tick hs d
  | receive _ => exact inv_receive hl hs _
  | refuse draining _ _ => exact hs.frame _ _ _
  | refuseSilently _ _ _ => exact hs
  | advance hc ha => exact inv_advance hl hs hc (hg _ hc) ha
  | complete output error hc hp => exact inv_complete hs hc hp _ _
  | pick hc hp _ _ =>
    exact hs.unclaimed hc hp (fun _ _ _ _ ha => ha)

theorem inv_init : Inv {} where
  copy _ _ h := by cases h
  unique _ _ _ _ h := by cases h
  held _ _ h := by cases h
  stored _ _ _ _ h := by
    obtain ⟨_, h, _⟩ := h
    cases h
  started _ _ h := by cases h
  apart _ _ _ _ _ h := by cases h
  last _ _ h := by cases h

/-- A durable command is executed at most once in the retention window of its
result, and a copy whose handling begins after an execution finished gets that
result while the window is open. -/
structure Deduplicates (s : State) : Prop where
  apart : ∀ i j x y, i < j → s.execs i = some x → s.execs j = some y → x.cmd.commandID = y.cmd.commandID →
    ∃ at_ r, x.finished = some (at_, r) ∧ at_ + completedDurableRetention < y.startedAt
  cached : ∀ k c e x at_ r o decidedAt, s.copies k = some c → c.after = some e →
    s.execs e = some x → x.finished = some (at_, r) → c.phase = .done o decidedAt →
    decidedAt ≤ at_ + completedDurableRetention → o = .cached e r

/-- In every interleaving of the handling of any number of copies whose steps
are orderly. -/
theorem orderly_deduplicates {as : List Action} {t : State}
    (hg : Meets step Orderly {} as) (hr : run step {} as = some t) : Deduplicates t := by
  obtain ⟨_, h⟩ := run_invariant step_inv ⟨labelled_init, inv_init⟩ hg hr
  refine ⟨h.apart, ?_⟩
  intro k c e x at_ r o decidedAt hc he hx hf hp hin
  obtain ⟨at', r', ⟨y, hy, _, hf'⟩, ha⟩ := (h.copy k c hc).answers e he
  rw [hx] at hy
  cases hy
  rw [hf] at hf'
  cases hf'
  rw [hp] at ha
  exact ha hin

def deploySync : Command := .deploy ⟨"sync-1", "", "stack", "c1"⟩

/-- Two copies of a deploy. The second finds no cached result and stalls before
its claim; the first executes and gives its claim back; the second takes it and
executes again. -/
def stalledCopy : List Action :=
  [Action.receive deploySync, .receive deploySync] ++ List.replicate 3 (Action.advance 1) ++
    List.replicate 6 (Action.advance 0) ++ [Action.complete 0 "deployed" ""] ++
    List.replicate 6 (Action.advance 0) ++ List.replicate 3 (Action.advance 1)

theorem stalled_copy_executes_again : ∃ t ∈ run step {} stalledCopy, ¬ Deduplicates t := by
  refine ⟨_, rfl, ?_⟩
  intro h
  obtain ⟨at_, r, hf, hlt⟩ := h.apart 0 1 _ _ (by decide) rfl rfl rfl
  cases hf
  revert hlt
  decide

def lateCopy : List Action :=
  [Action.receive deploySync, .receive deploySync] ++ List.replicate 6 (Action.advance 0) ++
    [Action.complete 0 "deployed" ""] ++ List.replicate 6 (Action.advance 0) ++
    [Action.tick 60000000000] ++ List.replicate 4 (Action.advance 1)

theorem late_copy_deduplicated : ∃ t ∈ run step {} lateCopy, Deduplicates t ∧ (t.copies 1).map (fun c => c.phase) =
      some (.done (.cached 0 ⟨"sync-1", "", "deployed", ""⟩) 60000000000) :=
  ⟨_, rfl, @orderly_deduplicates lateCopy _ (by decide) rfl, by decide⟩

end Wireops.Worker.Dedup
