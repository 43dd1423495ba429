import Wireops.Lib.Table
import Wireops.Worker.Handlers

namespace Wireops.Worker.Results

open List hiding lookup
open Function Option Protocol Lib.Table Worker.Handlers

variable {s t : State} {k : Nat} {c : Copy} {a : Action}

def underWay : Phase → Option Nat
  | .running e | .store e _ _ => some e
  | _ => none

def carried : Phase → Option (Nat × CommandResult)
  | .release e r | .trySweep e r | .sweep e r _ | .evict e r _ _ | .reply e r => some (e, r)
  | _ => none

/-- The clock and the executions are as they were, and the cache lost entries
at most. -/
structure Same (s t : State) : Prop where
  nextCopy : t.nextCopy = s.nextCopy
  now : t.now = s.now
  execs : t.execs = s.execs
  nextExec : t.nextExec = s.nextExec
  completed : ∀ commandID entry, t.completed commandID = some entry → s.completed commandID = some entry

/-- What one operation of a handler does to results, by the phase it leads to. -/
inductive Turn (s t : State) (c : Copy) : Phase → Prop where
  | idle {p : Phase} (hu : underWay p = none) (hc : carried p = none) (hj : ∀ e, p ≠ .judge e)
    (same : Same s t) (out : t.outbox = s.outbox) : Turn s t c p
  | looked {entry : DurableResultEntry} (he : s.completed c.cmd.commandID = some entry)
    (same : Same s t) (out : t.outbox = s.outbox) : Turn s t c (.judge entry)
  | hit {entry : DurableResultEntry} {d : Nat} (hp : c.phase = .judge entry)
    (hf : fresh s.now entry = true) (same : Same s t)
    (out : t.outbox = s.outbox ++ [⟨entry.result, some entry.exec⟩]) :
    Turn s t c (.done (.cached entry.exec entry.result) d)
  | began (nextCopy : t.nextCopy = s.nextCopy) (now : t.now = s.now)
    (completed : t.completed = s.completed)
    (execs : t.execs = update s.execs s.nextExec (some ⟨c.cmd, s.now, none⟩))
    (nextExec : t.nextExec = s.nextExec + 1) (out : t.outbox = s.outbox) : Turn s t c (.running s.nextExec)
  | returned {e : Nat} {output error : String} (hp : c.phase = .running e) (same : Same s t)
    (out : t.outbox = s.outbox) : Turn s t c (.store e ⟨c.cmd.commandID, "", output, error⟩ s.now)
  | stored {e at_ : Nat} {r : CommandResult} (hp : c.phase = .store e r at_)
    (nextCopy : t.nextCopy = s.nextCopy) (now : t.now = s.now)
    (completed : t.completed = update s.completed c.cmd.commandID (some ⟨r, at_, e⟩))
    (execs : t.execs = update s.execs e
      ((s.execs e).map (fun x => { x with finished := some (at_, r) })))
    (nextExec : t.nextExec = s.nextExec) (out : t.outbox = s.outbox) : Turn s t c (.release e r)
  | kept {p : Phase} (hc : carried c.phase = carried p) (hu : underWay p = none)
    (hj : ∀ e, p ≠ .judge e) (same : Same s t) (out : t.outbox = s.outbox) : Turn s t c p
  | replied {e : Nat} {r : CommandResult} (hp : c.phase = .reply e r) (same : Same s t)
    (out : t.outbox = s.outbox ++ [⟨r, some e⟩]) : Turn s t c (.deactivate e r)

theorem same_of_eq (hk : t.nextCopy = s.nextCopy := by rfl) (hn : t.now = s.now := by rfl)
    (he : t.execs = s.execs := by rfl) (hx : t.nextExec = s.nextExec := by rfl)
    (hc : t.completed = s.completed := by rfl) : Same s t :=
  ⟨hk, hn, he, hx, fun _ _ h => by rwa [hc] at h⟩

theorem same_delete (s : State) (id : String) (k : Nat) (c : Copy) (p : Phase) :
    Same s ((delete s id).setPhase k c p) :=
  ⟨rfl, rfl, rfl, rfl, fun _ _ h => (update_none_cases h).2⟩

theorem advance_turn (h : advance s k c c.phase = some t) :
    ∃ p after, t.copies = update s.copies k (some ⟨c.cmd, p, after⟩) ∧ Turn s t c p := by
  generalize hp : c.phase = p at h
  cases p with
  | queued | activate | deactivate =>
    cases h
    exact ⟨_, _, rfl, .idle rfl rfl nofun same_of_eq rfl⟩
  | checkActive =>
    cases h
    unfold begin_
    dsimp only
    split <;> exact ⟨_, _, rfl, .idle rfl rfl nofun same_of_eq rfl⟩
  | lookup =>
    cases h
    unfold lookup
    split
    · exact ⟨_, _, rfl, .idle rfl rfl nofun same_of_eq rfl⟩
    · next he => exact ⟨_, _, rfl, .looked he same_of_eq rfl⟩
  | judge entry =>
    cases h
    unfold judge
    split
    · next hf => exact ⟨_, _, rfl, .hit hp hf same_of_eq rfl⟩
    · exact ⟨_, _, rfl, .idle rfl rfl nofun same_of_eq rfl⟩
  | expire =>
    cases h
    exact ⟨_, _, rfl, .idle rfl rfl nofun (same_delete ..) rfl⟩
  | claim =>
    cases h
    unfold claim
    split <;> exact ⟨_, _, rfl, .idle rfl rfl nofun same_of_eq rfl⟩
  | start =>
    cases h
    exact ⟨_, _, rfl, .began rfl rfl rfl rfl rfl rfl⟩
  | running e =>
    cases h
  | store e r now =>
    cases h
    exact ⟨_, _, rfl, .stored hp rfl rfl rfl rfl rfl rfl⟩
  | release | sweep =>
    cases h
    exact ⟨_, _, rfl, .kept (by rw [hp]; rfl) rfl nofun same_of_eq rfl⟩
  | trySweep e r =>
    cases h
    unfold trySweep
    split <;> exact ⟨_, _, rfl, .kept (by rw [hp]; rfl) rfl nofun same_of_eq rfl⟩
  | evict e r now other =>
    cases h
    exact ⟨_, _, rfl, .kept (by rw [hp]; rfl) rfl nofun (same_delete ..) rfl⟩
  | reply e r =>
    cases h
    exact ⟨_, _, rfl, .replied hp same_of_eq rfl⟩
  | done o d =>
    cases h

/-- What a step of the worker does to its copies and to results. -/
inductive Outcome (s : State) : Action → State → Prop where
  | tick (d : Nat) : Outcome s (.tick d) { s with now := s.now + d }
  | receive (cmd : Command) : Outcome s (.receive cmd) (receive s cmd)
  | refuse (cmd : Command) (draining : Bool) :
    Outcome s (.refuse cmd draining) (s.send (refusal cmd.commandID draining) none)
  | silent (cmd : Command) (draining : Bool) : Outcome s (.refuse cmd draining) s
  | turn {a : Action} {t : State} {k : Nat} {c : Copy} {p : Phase} {after : Option Nat}
    (hc : s.copies k = some c) (hd : ∀ o d, c.phase ≠ .done o d)
    (hcopies : t.copies = update s.copies k (some ⟨c.cmd, p, after⟩))
    (turn : Turn s t c p) : Outcome s a t

theorem step_outcome (h : step s a = some t) : Outcome s a t := by
  cases step_fires h with
  | tick d => exact .tick d
  | receive _ => exact .receive _
  | refuse draining _ _ => exact .refuse _ draining
  | refuseSilently draining _ _ => exact .silent _ draining
  | advance hc ha =>
    obtain ⟨p, after, hcopies, turn⟩ := advance_turn ha
    refine .turn hc ?_ hcopies turn
    intro o d hp
    rw [hp] at ha
    cases ha
  | complete output error hc hp =>
    refine .turn hc ?_ rfl (.returned hp same_of_eq rfl)
    rw [hp]
    nofun
  | pick hc hp _ _ =>
    refine .turn hc ?_ rfl (.kept ?_ rfl nofun same_of_eq rfl)
    · rw [hp]
      nofun
    · rw [hp]
      rfl

def Returned (s : State) (commandID : String) (e : Nat) (r : CommandResult) : Prop :=
  r.commandID = commandID ∧ ∃ x at_, s.execs e = some x ∧ x.cmd.commandID = commandID ∧ x.finished = some (at_, r)

/-- A result comes from an execution, or refuses the command. -/
def Sourced (s : State) (commandID : String) (r : CommandResult) : Option Nat → Prop
  | none => ∃ draining, r = refusal commandID draining
  | some e => Returned s commandID e r

structure CopyLabelled (s : State) (c : Copy) : Prop where
  underWay : ∀ e, underWay c.phase = some e → ∃ x, s.execs e = some x ∧ x.cmd = c.cmd ∧ x.finished = none
  storing : ∀ e r now, c.phase = .store e r now → r.commandID = c.cmd.commandID
  judged : ∀ entry, c.phase = .judge entry → Returned s c.cmd.commandID entry.exec entry.result
  carried : ∀ e r, carried c.phase = some (e, r) → Returned s c.cmd.commandID e r

structure Labelled (s : State) : Prop where
  nextCopy : ∀ k, s.nextCopy ≤ k → s.copies k = none
  nextExec : ∀ e, s.nextExec ≤ e → s.execs e = none
  completed : ∀ commandID entry, s.completed commandID = some entry → Returned s commandID entry.exec entry.result
  copy : ∀ k c, s.copies k = some c → CopyLabelled s c
  alone : ∀ i j c d e, s.copies i = some c → s.copies j = some d →
    underWay c.phase = some e → underWay d.phase = some e → i = j
  sent : ∀ m ∈ s.outbox, Sourced s m.result.commandID m.result m.exec

theorem labelled_init : Labelled {} where
  nextCopy _ _ := rfl
  nextExec _ _ := rfl
  completed _ _ h := nomatch h
  copy _ _ h := nomatch h
  alone _ _ _ _ _ h := nomatch h
  sent _ h := nomatch h

theorem Labelled.exec_lt (hs : Labelled s) {e : Nat} {x : Exec} (hx : s.execs e = some x) : e < s.nextExec := by
  by_contra h
  rw [hs.nextExec e (by omega)] at hx
  cases hx

theorem alone_moved (hs : Labelled s) {c' : Copy} (hcopies : t.copies = update s.copies k (some c'))
    (hu : ∀ e, underWay c'.phase = some e → ∀ j d, s.copies j = some d → underWay d.phase = some e → j = k)
    (i j : Nat) (d d' : Copy) (e : Nat) (hd : t.copies i = some d) (hd' : t.copies j = some d')
    (he : underWay d.phase = some e) (he' : underWay d'.phase = some e) : i = j := by
  rw [hcopies] at hd hd'
  obtain ⟨rfl, rfl⟩ | ⟨_, hdi⟩ := update_some_cases hd
  · obtain ⟨rfl, _⟩ | ⟨_, hdj⟩ := update_some_cases hd'
    · rfl
    · exact (hu e he j d' hdj he').symm
  · obtain ⟨rfl, rfl⟩ | ⟨_, hdj⟩ := update_some_cases hd'
    · exact hu e he' i d hdi he
    · exact hs.alone i j d d' e hdi hdj he he'

theorem nextCopy_moved (hs : Labelled s) (hc : s.copies k = some c) {c' : Copy}
    (hcopies : t.copies = update s.copies k (some c')) (hk : t.nextCopy = s.nextCopy)
    (i : Nat) (hi : t.nextCopy ≤ i) : t.copies i = none := by
  rw [hcopies]
  exact unused_change hs.nextCopy hc i (hk ▸ hi)

variable {p : Phase}

theorem CopyLabelled.idle (cmd : Command) (after : Option Nat) (hu : Results.underWay p = none)
    (hc : Results.carried p = none) (hj : ∀ e, p ≠ .judge e) : CopyLabelled s ⟨cmd, p, after⟩ where
  underWay e h := by
    change Results.underWay p = some e at h
    rw [hu] at h
    cases h
  storing e r now h := by
    change p = .store e r now at h
    rw [h] at hu
    cases hu
  judged entry h := absurd h (hj entry)
  carried e r h := by
    change Results.carried p = some (e, r) at h
    rw [hc] at h
    cases h

variable {commandID : String} {e : Nat} {r : CommandResult}

theorem Returned.congr (hr : Returned s commandID e r) (h : t.execs = s.execs) : Returned t commandID e r := by
  unfold Returned at hr ⊢
  rw [h]
  exact hr

theorem Sourced.mono {x : Option Nat} (h : Sourced s commandID r x)
    (hr : ∀ {e}, Returned s commandID e r → Returned t commandID e r) : Sourced t commandID r x := by
  cases x with
  | none => exact h
  | some e => exact hr h

theorem CopyLabelled.congr (hc : CopyLabelled s c) (h : t.execs = s.execs) : CopyLabelled t c where
  underWay e he := by
    rw [h]
    exact hc.underWay e he
  storing := hc.storing
  judged entry hp := (hc.judged entry hp).congr h
  carried e r hp := (hc.carried e r hp).congr h

theorem Labelled.same (hs : Labelled s) (same : Same s t) (hc : s.copies k = some c) {c' : Copy}
    (hcopies : t.copies = update s.copies k (some c'))
    (hu : ∀ e, Results.underWay c'.phase = some e → Results.underWay c.phase = some e) (hok : CopyLabelled s c')
    (hsent : ∀ m ∈ t.outbox, m ∈ s.outbox ∨ Sourced s m.result.commandID m.result m.exec) : Labelled t where
  nextCopy := nextCopy_moved hs hc hcopies same.nextCopy
  nextExec e he := by
    rw [same.execs]
    exact hs.nextExec e (same.nextExec ▸ he)
  completed id entry he := (hs.completed id entry (same.completed id entry he)).congr same.execs
  copy i d hd := by
    rw [hcopies] at hd
    obtain ⟨_, rfl⟩ | ⟨_, hd⟩ := update_some_cases hd
    · exact hok.congr same.execs
    · exact (hs.copy i d hd).congr same.execs
  alone := alone_moved hs hcopies (fun e he j d hd hj => hs.alone j k d c e hd hc hj (hu e he))
  sent m hm := by
    obtain hm | hr := hsent m hm
    · exact (hs.sent m hm).mono (·.congr same.execs)
    · exact hr.mono (·.congr same.execs)

theorem Returned.began (hs : Labelled s) {x : Exec} (execs : t.execs = update s.execs s.nextExec (some x))
    (hr : Returned s commandID e r) : Returned t commandID e r := by
  obtain ⟨hid, y, at_, hy, h⟩ := hr
  refine ⟨hid, y, at_, ?_, h⟩
  rw [execs, update_of_ne (Nat.ne_of_lt (hs.exec_lt hy))]
  exact hy

variable {after : Option Nat}

theorem labelled_began (hs : Labelled s) (hc : s.copies k = some c)
    (hcopies : t.copies = update s.copies k (some ⟨c.cmd, .running s.nextExec, after⟩))
    (hk : t.nextCopy = s.nextCopy) (completed : t.completed = s.completed)
    (execs : t.execs = update s.execs s.nextExec (some ⟨c.cmd, s.now, none⟩))
    (nextExec : t.nextExec = s.nextExec + 1) (out : t.outbox = s.outbox) : Labelled t where
  nextCopy := nextCopy_moved hs hc hcopies hk
  nextExec e he := by
    rw [execs]
    exact unused_fill hs.nextExec e (nextExec ▸ he)
  completed id entry he := (hs.completed id entry (completed ▸ he)).began hs execs
  copy i d hd := by
    rw [hcopies] at hd
    obtain ⟨_, rfl⟩ | ⟨_, hd⟩ := update_some_cases hd
    · refine ⟨?_, nofun, nofun, nofun⟩
      intro e he
      cases he
      exact ⟨⟨c.cmd, s.now, none⟩, by rw [execs, update_self], rfl, rfl⟩
    · have h := hs.copy i d hd
      refine ⟨?_, h.storing, fun entry hp => (h.judged entry hp).began hs execs,
        fun e r hp => (h.carried e r hp).began hs execs⟩
      intro e he
      obtain ⟨x, hx, hr⟩ := h.underWay e he
      exact ⟨x, by rw [execs, update_of_ne (Nat.ne_of_lt (hs.exec_lt hx)), hx], hr⟩
  alone := by
    refine alone_moved hs hcopies (fun e he j d hd hj => ?_)
    cases he
    obtain ⟨x, hx, _⟩ := (hs.copy j d hd).underWay _ hj
    exact absurd (hs.exec_lt hx) (Nat.lt_irrefl _)
  sent m hm := (hs.sent m (out ▸ hm)).mono (fun h => h.began hs execs)

theorem Returned.stored {e i at_ : Nat} {r r' : CommandResult} {x : Exec}
    (hx : s.execs e = some x) (hun : x.finished = none) (execs : t.execs = update s.execs e
      ((s.execs e).map (fun x => { x with finished := some (at_, r) })))
    (hr : Returned s commandID i r') : Returned t commandID i r' := by
  obtain ⟨hid, y, at', hy, hcmd, hf⟩ := hr
  have hne : i ≠ e := by
    rintro rfl
    rw [hx] at hy
    cases hy
    rw [hun] at hf
    cases hf
  refine ⟨hid, y, at', ?_, hcmd, hf⟩
  rw [execs, update_of_ne hne]
  exact hy

theorem labelled_stored (hs : Labelled s) (hc : s.copies k = some c) {e at_ : Nat} (hp : c.phase = .store e r at_)
    (hcopies : t.copies = update s.copies k (some ⟨c.cmd, .release e r, after⟩)) (hk : t.nextCopy = s.nextCopy)
    (completed : t.completed = update s.completed c.cmd.commandID (some ⟨r, at_, e⟩))
    (execs : t.execs = update s.execs e ((s.execs e).map (fun x => { x with finished := some (at_, r) })))
    (nextExec : t.nextExec = s.nextExec) (out : t.outbox = s.outbox) : Labelled t := by
  have hun : underWay c.phase = some e := by rw [hp]; rfl
  obtain ⟨x, hx, hcmd, hfin⟩ := (hs.copy k c hc).underWay e hun
  have self : Returned t c.cmd.commandID e r := by
    refine ⟨(hs.copy k c hc).storing e r at_ hp, { x with finished := some (at_, r) }, at_, ?_, congrArg _ hcmd, rfl⟩
    rw [execs, update_self, hx]
    rfl
  have keep : ∀ {id i r'}, Returned s id i r' → Returned t id i r' :=
    fun h => h.stored hx hfin execs
  refine ⟨nextCopy_moved hs hc hcopies hk, ?_, ?_, ?_, alone_moved hs hcopies nofun,
    fun m hm => (hs.sent m (out ▸ hm)).mono keep⟩
  · intro i hi
    rw [nextExec] at hi
    rw [execs, update_of_ne (Nat.ne_of_gt (Nat.lt_of_lt_of_le (hs.exec_lt hx) hi))]
    exact hs.nextExec i hi
  · intro id entry he
    rw [completed] at he
    obtain ⟨rfl, rfl⟩ | ⟨_, he⟩ := update_some_cases he
    · exact self
    · exact keep (hs.completed id entry he)
  · intro i d hd
    rw [hcopies] at hd
    obtain ⟨_, rfl⟩ | ⟨hi, hdi⟩ := update_some_cases hd
    · refine ⟨nofun, nofun, nofun, ?_⟩
      intro i r' h
      cases h
      exact self
    · have h := hs.copy i d hdi
      refine ⟨?_, h.storing, fun entry hp => keep (h.judged entry hp), fun j r' hp => keep (h.carried j r' hp)⟩
      intro j hj
      obtain ⟨y, hy, hr⟩ := h.underWay j hj
      have hne : j ≠ e := by
        rintro rfl
        exact hi (hs.alone i k d c j hdi hc hj hun)
      exact ⟨y, by rw [execs, update_of_ne hne, hy], hr⟩

theorem sourced_append (hr : Returned s commandID e r) (out : t.outbox = s.outbox ++ [⟨r, some e⟩]) :
    ∀ m ∈ t.outbox, m ∈ s.outbox ∨ Sourced s m.result.commandID m.result m.exec := by
  intro m hm
  rw [out] at hm
  obtain hm | hm := mem_append.mp hm
  · exact .inl hm
  · cases mem_singleton.mp hm
    refine .inr ?_
    rw [hr.1]
    exact hr

theorem labelled_turn (hs : Labelled s) (hc : s.copies k = some c)
    (hcopies : t.copies = update s.copies k (some ⟨c.cmd, p, after⟩)) (turn : Turn s t c p) : Labelled t := by
  have hok := hs.copy k c hc
  have unbound {P : Nat → Prop} (hu : underWay p = none) (e : Nat) (he : underWay p = some e) : P e := by
    cases hu.symm.trans he
  cases turn with
  | idle hu hca hj same out =>
    exact hs.same same hc hcopies (unbound hu) (.idle c.cmd after hu hca hj) (fun m hm => .inl (out ▸ hm))
  | looked he same out =>
    refine hs.same same hc hcopies nofun ⟨nofun, nofun, ?_, nofun⟩ (fun m hm => .inl (out ▸ hm))
    intro entry hp
    cases hp
    exact hs.completed _ _ he
  | hit hp _ same out =>
    have hanswer := sourced_append (hok.judged _ hp) out
    exact hs.same same hc hcopies nofun (.idle c.cmd after rfl rfl nofun) hanswer
  | began hk _ completed execs nextExec out =>
    exact labelled_began hs hc hcopies hk completed execs nextExec out
  | @returned e output error hp same out =>
    have hun : underWay c.phase = some e := by rw [hp]; rfl
    refine hs.same same hc hcopies ?_ ⟨?_, ?_, nofun, nofun⟩ (fun m hm => .inl (out ▸ hm))
    · intro i hi
      cases hi
      exact hun
    · intro i hi
      cases hi
      exact hok.underWay e hun
    · intro i r now hr
      cases hr
      rfl
  | stored hp hk _ completed execs nextExec out =>
    exact labelled_stored hs hc hp hcopies hk completed execs nextExec out
  | kept hca hu hj same out =>
    refine hs.same same hc hcopies ?_ ⟨?_, ?_, ?_, ?_⟩ (fun m hm => .inl (out ▸ hm))
    · exact unbound hu
    · exact unbound hu
    · intro e r now h
      change p = .store e r now at h
      rw [h] at hu
      cases hu
    · exact fun entry h => absurd h (hj entry)
    · intro e r h
      exact hok.carried e r (hca.trans h)
  | replied hp same out =>
    have hanswer := sourced_append (hok.carried _ _ (by rw [hp]; rfl)) out
    exact hs.same same hc hcopies nofun (.idle c.cmd after rfl rfl nofun) hanswer

theorem outcome_labelled (hs : Labelled s) (h : Handlers.step s a = some t) : Labelled t := by
  cases step_outcome h with
  | tick d =>
    exact ⟨hs.nextCopy, hs.nextExec, hs.completed, fun k c hc => (hs.copy k c hc).congr rfl, hs.alone, hs.sent⟩
  | receive cmd =>
    refine ⟨unused_fill hs.nextCopy, hs.nextExec, hs.completed, ?_, alone_moved hs rfl nofun, hs.sent⟩
    exact forall_update_some (fun k c hc => (hs.copy k c hc).congr rfl) (.idle cmd none rfl rfl nofun)
  | refuse cmd draining =>
    refine ⟨hs.nextCopy, hs.nextExec, hs.completed, fun k c hc => (hs.copy k c hc).congr rfl, hs.alone, ?_⟩
    intro m hm
    obtain hm | hm := mem_append.mp hm
    · exact hs.sent m hm
    · cases mem_singleton.mp hm
      exact ⟨draining, rfl⟩
  | silent cmd draining => exact hs
  | turn hc _ hcopies turn => exact labelled_turn hs hc hcopies turn

/-- The executions whose result the worker may still send for a command, and
`none` for a refusal on its way. -/
inductive Live (s : State) (commandID : String) : Option Nat → Prop where
  | cached {entry : DurableResultEntry} (he : s.completed commandID = some entry)
    (hf : fresh s.now entry = true) : Live s commandID (some entry.exec)
  | judged {k : Nat} {c : Copy} {entry : DurableResultEntry} (hc : s.copies k = some c)
    (hid : c.cmd.commandID = commandID) (hp : c.phase = .judge entry)
    (hf : fresh s.now entry = true) : Live s commandID (some entry.exec)
  | underWay {k e : Nat} {c : Copy} (hc : s.copies k = some c) (hid : c.cmd.commandID = commandID)
    (hp : underWay c.phase = some e) : Live s commandID (some e)
  | carried {k e : Nat} {c : Copy} {r : CommandResult} (hc : s.copies k = some c)
    (hid : c.cmd.commandID = commandID) (hp : carried c.phase = some (e, r)) : Live s commandID (some e)
  | sent {m : Sent} (hm : m ∈ s.outbox) (hid : m.result.commandID = commandID) : Live s commandID m.exec

def copyLive (now : Nat) (c : Copy) : Bool :=
  match c.phase with
  | .judge entry => fresh now entry
  | p => (underWay p).isSome || (carried p).isSome

/-- Whether the worker may still send a result of the command without
executing it again. -/
def live (s : State) (commandID : String) : Bool :=
  (s.completed commandID).any (fresh s.now) ||
    (List.range s.nextCopy).any (fun k =>
      (s.copies k).any (fun c => c.cmd.commandID = commandID && copyLive s.now c)) ||
    s.outbox.any (fun m => m.result.commandID = commandID)

theorem copyLive_of_some {now : Nat} (h : ((underWay c.phase).isSome || (carried c.phase).isSome) = true) :
    copyLive now c = true := by
  unfold copyLive
  split
  · next hj =>
    rw [hj] at h
    cases h
  · exact h

theorem live_of_copy (hs : Labelled s) (hc : s.copies k = some c)
    (hid : c.cmd.commandID = commandID) (hl : copyLive s.now c = true) : live s commandID = true := by
  have hk : k < s.nextCopy := by
    by_contra hge
    rw [hs.nextCopy k (by omega)] at hc
    cases hc
  have hany : (List.range s.nextCopy).any (fun k =>
      (s.copies k).any (fun c => c.cmd.commandID = commandID && copyLive s.now c)) = true := by
    refine any_eq_true.mpr ⟨k, mem_range.mpr hk, ?_⟩
    rw [hc, any_some, hl, Bool.and_true]
    exact decide_eq_true hid
  simp only [live, hany, Bool.or_true, Bool.true_or]

theorem not_live (hs : Labelled s) (h : live s commandID = false) (x : Option Nat) : ¬ Live s commandID x := by
  intro hl
  have htrue : live s commandID = true := by
    cases hl with
    | cached he hf => simp only [live, he, any_some, hf, Bool.true_or]
    | judged hc hid hp hf => exact live_of_copy hs hc hid (by rw [copyLive, hp]; exact hf)
    | underWay hc hid hp => exact live_of_copy hs hc hid (copyLive_of_some (by rw [hp]; rfl))
    | carried hc hid hp => exact live_of_copy hs hc hid (copyLive_of_some (by rw [hp]; exact Bool.or_true _))
    | @sent m hm hid =>
      have hany : s.outbox.any (fun m => m.result.commandID = commandID) = true :=
        any_eq_true.mpr ⟨m, hm, decide_eq_true hid⟩
      simp only [live, hany, Bool.or_true]
  rw [h] at htrue
  cases htrue

theorem Turn.clocks (h : Turn s t c p) : t.now = s.now ∧ t.nextCopy = s.nextCopy := by
  cases h with
  | idle _ _ _ same | looked _ same | hit _ _ same | returned _ same | kept _ _ _ same
  | replied _ same => exact ⟨same.now, same.nextCopy⟩
  | began next now | stored _ next now => exact ⟨now, next⟩

theorem Turn.nextExec (h : Turn s t c p) : s.nextExec ≤ t.nextExec := by
  cases h with
  | idle _ _ _ same | looked _ same | hit _ _ same | returned _ same | kept _ _ _ same
  | replied _ same => exact Nat.le_of_eq same.nextExec.symm
  | began _ _ _ _ next =>
    rw [next]
    exact Nat.le_succ _
  | stored _ _ _ _ _ next => exact Nat.le_of_eq next.symm

variable {id : String} {entry : DurableResultEntry} {x : Option Nat}

theorem Turn.cached (h : Turn s t c p) (he : t.completed id = some entry) : s.completed id = some entry ∨
      (id = c.cmd.commandID ∧ underWay c.phase = some entry.exec) := by
  cases h with
  | idle _ _ _ same | looked _ same | hit _ _ same | returned _ same | kept _ _ _ same
  | replied _ same => exact .inl (same.completed _ _ he)
  | began _ _ completed => exact .inl (completed ▸ he)
  | stored hp _ _ completed =>
    rw [completed] at he
    obtain ⟨hid, rfl⟩ | ⟨_, he⟩ := update_some_cases he
    · exact .inr ⟨hid, by rw [hp]; rfl⟩
    · exact .inl he

theorem Turn.judged (h : Turn s t c (.judge entry)) : s.completed c.cmd.commandID = some entry := by
  cases h with
  | idle _ _ hj | kept _ _ hj => exact absurd rfl (hj entry)
  | looked he => exact he

theorem Turn.underWay (h : Turn s t c p) (hp : Results.underWay p = some e) :
    e = s.nextExec ∨ Results.underWay c.phase = some e := by
  cases h with
  | idle hu | kept _ hu =>
    rw [hu] at hp
    cases hp
  | began =>
    cases hp
    exact .inl rfl
  | returned hr =>
    cases hp
    exact .inr (by rw [hr]; rfl)
  | looked | hit | stored | replied => cases hp

theorem Turn.carried (h : Turn s t c p) (hp : Results.carried p = some (e, r)) :
    Results.underWay c.phase = some e ∨ Results.carried c.phase = some (e, r) := by
  cases h with
  | idle _ hc =>
    rw [hc] at hp
    cases hp
  | kept hc => exact .inr (hc.trans hp)
  | stored hs =>
    cases hp
    exact .inl (by rw [hs]; rfl)
  | looked | hit | began | returned | replied => cases hp

theorem Turn.sent {m : Sent} (h : Turn s t c p) (hm : m ∈ t.outbox) : m ∈ s.outbox ∨
    (∃ entry, c.phase = .judge entry ∧ fresh s.now entry = true ∧ m = ⟨entry.result, some entry.exec⟩) ∨
    ∃ e r, Results.carried c.phase = some (e, r) ∧ m = ⟨r, some e⟩ := by
  cases h with
  | idle _ _ _ _ out | looked _ _ out | began _ _ _ _ _ out | returned _ _ out
  | stored _ _ _ _ _ _ out | kept _ _ _ _ out => exact .inl (out ▸ hm)
  | hit hp hf _ out =>
    rw [out] at hm
    obtain hm | hm := mem_append.mp hm
    · exact .inl hm
    · exact .inr (.inl ⟨_, hp, hf, mem_singleton.mp hm⟩)
  | replied hp _ out =>
    rw [out] at hm
    obtain hm | hm := mem_append.mp hm
    · exact .inl hm
    · exact .inr (.inr ⟨_, _, by rw [hp]; rfl, mem_singleton.mp hm⟩)

theorem live_turn (hs : Labelled s) (hc : s.copies k = some c)
    (hcopies : t.copies = update s.copies k (some ⟨c.cmd, p, after⟩)) (turn : Turn s t c p)
    (h : Live t id x) : Live s id x ∨ x = some s.nextExec := by
  cases h with
  | cached he hf =>
    rw [turn.clocks.1] at hf
    obtain he | ⟨rfl, hu⟩ := turn.cached he
    · exact .inl (.cached he hf)
    · exact .inl (.underWay hc rfl hu)
  | judged hd hid hp hf =>
    rw [turn.clocks.1] at hf
    rw [hcopies] at hd
    obtain ⟨_, rfl⟩ | ⟨_, hd⟩ := update_some_cases hd
    · cases hp
      exact .inl (.cached (hid ▸ turn.judged) hf)
    · exact .inl (.judged hd hid hp hf)
  | underWay hd hid hp =>
    rw [hcopies] at hd
    obtain ⟨_, rfl⟩ | ⟨_, hd⟩ := update_some_cases hd
    · obtain rfl | hu := turn.underWay hp
      · exact .inr rfl
      · exact .inl (.underWay hc hid hu)
    · exact .inl (.underWay hd hid hp)
  | carried hd hid hp =>
    rw [hcopies] at hd
    obtain ⟨_, rfl⟩ | ⟨_, hd⟩ := update_some_cases hd
    · obtain hu | hk := turn.carried hp
      · exact .inl (.underWay hc hid hu)
      · exact .inl (.carried hc hid hk)
    · exact .inl (.carried hd hid hp)
  | sent hm hid =>
    obtain hm | ⟨entry, hp, hf, rfl⟩ | ⟨e, r, hk, rfl⟩ := turn.sent hm
    · exact .inl (.sent hm hid)
    · have hr := (hs.copy k c hc).judged entry hp
      exact .inl (.judged hc (hr.1.symm.trans hid) hp hf)
    · have hr := (hs.copy k c hc).carried e r hk
      exact .inl (.carried hc (hr.1.symm.trans hid) hk)

theorem live_or {Q : Prop} (h : Live t id x) (hnow : s.now ≤ t.now) (hcompleted : t.completed = s.completed)
    (hcopies : ∀ k c, t.copies k = some c →
      s.copies k = some c ∨ (underWay c.phase = none ∧ carried c.phase = none ∧ ∀ e, c.phase ≠ .judge e))
    (hout : ∀ m ∈ t.outbox, m.result.commandID = id → m ∈ s.outbox ∨ m.exec = none ∧ Q) :
    Live s id x ∨ x = none ∧ Q := by
  have fresher (entry : DurableResultEntry) (hf : fresh t.now entry = true) : fresh s.now entry = true := by
    rw [fresh_iff] at hf ⊢
    omega
  cases h with
  | cached he hf => exact .inl (.cached (hcompleted ▸ he) (fresher _ hf))
  | judged hc hid hp hf =>
    obtain hc | ⟨_, _, hj⟩ := hcopies _ _ hc
    · exact .inl (.judged hc hid hp (fresher _ hf))
    · exact absurd hp (hj _)
  | underWay hc hid hp =>
    obtain hc | ⟨hu, _, _⟩ := hcopies _ _ hc
    · exact .inl (.underWay hc hid hp)
    · cases hu.symm.trans hp
  | carried hc hid hp =>
    obtain hc | ⟨_, hn, _⟩ := hcopies _ _ hc
    · exact .inl (.carried hc hid hp)
    · cases hn.symm.trans hp
  | sent hm hid => exact (hout _ hm hid).imp_left (.sent · hid)

theorem step_live (hs : Labelled s) (h : Handlers.step s a = some t)
    (hl : Live t id x) : Live s id x ∨ x = some s.nextExec ∨
      (x = none ∧ ∃ cmd d, a = .refuse cmd d ∧ cmd.commandID = id) := by
  cases step_outcome h with
  | tick d =>
    exact (live_or (s := s) hl (Nat.le_add_right ..) rfl (fun _ _ => .inl) (fun _ hm _ => .inl hm)).imp_right .inr
  | receive cmd =>
    refine (live_or (s := s) hl (Nat.le_refl _) rfl (fun k c hc => ?_) (fun _ hm _ => .inl hm)).imp_right .inr
    obtain ⟨_, rfl⟩ | ⟨_, hc⟩ := update_some_cases hc
    · exact .inr ⟨rfl, rfl, nofun⟩
    · exact .inl hc
  | refuse cmd draining =>
    refine (live_or (s := s) hl (Nat.le_refl _) rfl (fun _ _ => .inl) (fun m hm hid => ?_)).imp_right .inr
    obtain hm | hm := mem_append.mp hm
    · exact .inl hm
    · cases mem_singleton.mp hm
      exact .inr ⟨rfl, cmd, draining, rfl, hid⟩
  | silent cmd draining => exact .inl hl
  | turn hc _ hcopies turn =>
    obtain hl | hx := live_turn hs hc hcopies turn hl
    · exact .inl hl
    · exact .inr (.inl hx)

theorem step_nextExec (h : Handlers.step s a = some t) : s.nextExec ≤ t.nextExec := by
  cases step_outcome h with
  | tick | receive | refuse | silent => exact Nat.le_refl _
  | turn _ _ _ turn => exact turn.nextExec

theorem step_copies (h : Handlers.step s a = some t) (hc : t.copies k = some c)
    (hd : ∀ o d, c.phase ≠ .done o d) : (∃ k c', s.copies k = some c' ∧ c'.cmd = c.cmd ∧
      ∀ o d, c'.phase ≠ .done o d) ∨ a = .receive c.cmd := by
  cases step_outcome h with
  | tick | refuse | silent => exact .inl ⟨k, c, hc, rfl, hd⟩
  | receive cmd =>
    obtain ⟨_, rfl⟩ | ⟨_, hc⟩ := update_some_cases hc
    · exact .inr rfl
    · exact .inl ⟨k, c, hc, rfl, hd⟩
  | turn hc' hd' hcopies _ =>
    rw [hcopies] at hc
    obtain ⟨_, rfl⟩ | ⟨_, hc⟩ := update_some_cases hc
    · exact .inl ⟨_, _, hc', rfl, hd'⟩
    · exact .inl ⟨k, c, hc, rfl, hd⟩

theorem step_returned (hs : Labelled s) (h : Handlers.step s a = some t)
    (hr : Returned s id e r) : Returned t id e r := by
  cases step_outcome h with
  | tick | receive | refuse | silent => exact hr
  | turn hc _ _ turn =>
    cases turn with
    | idle _ _ _ same | looked _ same | hit _ _ same | returned _ same | kept _ _ _ same
    | replied _ same => exact hr.congr same.execs
    | began _ _ _ execs => exact hr.began hs execs
    | stored hp _ _ _ execs =>
      obtain ⟨x, hx, _, hun⟩ := (hs.copy _ _ hc).underWay _ (by rw [hp]; rfl)
      exact hr.stored hx hun execs

theorem step_execs (h : Handlers.step s a = some t) {x : Exec} (hx : t.execs e = some x) :
    (∃ y, s.execs e = some y ∧ y.cmd = x.cmd) ∨
    ∃ k c, s.copies k = some c ∧ c.cmd = x.cmd ∧ ∀ o d, c.phase ≠ .done o d := by
  cases step_outcome h with
  | tick | receive | refuse | silent => exact .inl ⟨x, hx, rfl⟩
  | turn hc hd _ turn =>
    cases turn with
    | idle _ _ _ same | looked _ same | hit _ _ same | returned _ same | kept _ _ _ same
    | replied _ same => exact .inl ⟨x, same.execs ▸ hx, rfl⟩
    | began _ _ _ execs =>
      rw [execs] at hx
      obtain ⟨_, rfl⟩ | ⟨_, hx⟩ := update_some_cases hx
      · exact .inr ⟨_, _, hc, rfl, hd⟩
      · exact .inl ⟨x, hx, rfl⟩
    | @stored i _ _ _ _ _ _ execs =>
      rw [execs] at hx
      by_cases he : e = i
      · subst he
        rw [update_self] at hx
        obtain ⟨y, hy, rfl⟩ := map_eq_some_iff.mp hx
        exact .inl ⟨y, hy, rfl⟩
      · rw [update_of_ne he] at hx
        exact .inl ⟨x, hx, rfl⟩

theorem step_unused (hs : Labelled s) (h : Handlers.step s a = some t) (hn : s.nextCopy = 0) :
    (t.nextCopy = 0 ∧ t.outbox = s.outbox) ∨ (∃ cmd, a = .receive cmd) ∨ ∃ cmd d, a = .refuse cmd d := by
  cases step_outcome h with
  | tick => exact .inl ⟨hn, rfl⟩
  | receive cmd => exact .inr (.inl ⟨cmd, rfl⟩)
  | refuse cmd d | silent cmd d => exact .inr (.inr ⟨cmd, d, rfl⟩)
  | @turn _ _ k _ _ _ hc =>
    rw [hs.nextCopy k (by omega)] at hc
    cases hc

theorem step_sent (hs : Labelled s) (h : Handlers.step s a = some t) {m : Sent} (hm : m ∈ t.outbox) :
    m ∈ s.outbox ∨ (∃ k c, s.copies k = some c ∧ c.cmd.commandID = m.result.commandID ∧
      ∀ o d, c.phase ≠ .done o d) ∨ ∃ cmd d, a = .refuse cmd d ∧ cmd.commandID = m.result.commandID := by
  cases step_outcome h with
  | tick | receive | silent => exact .inl hm
  | refuse cmd draining =>
    obtain hm | hm := mem_append.mp hm
    · exact .inl hm
    · cases mem_singleton.mp hm
      exact .inr (.inr ⟨cmd, draining, rfl, rfl⟩)
  | turn hc hd _ turn =>
    obtain hm | ⟨entry, hp, _, rfl⟩ | ⟨e, r, hk, rfl⟩ := turn.sent hm
    · exact .inl hm
    · exact .inr (.inl ⟨_, _, hc, ((hs.copy _ _ hc).judged entry hp).1.symm, hd⟩)
    · exact .inr (.inl ⟨_, _, hc, ((hs.copy _ _ hc).carried e r hk).1.symm, hd⟩)

end Wireops.Worker.Results
