import Wireops.Lib.Steps

namespace Wireops.Server.TokenStatus

open Option Lib.Steps

inductive Status where
  | staging | active | revoked | expired
  deriving DecidableEq

/-- A row of `worker_tokens`. An empty `expires_at` is time zero. -/
structure Token where
  status : Status
  worker : String := ""
  expiresAt : Nat := 0
  lastUsedAt : Nat := 0

structure Copy where
  id : Nat
  loaded : Token

/-- What the operation that holds the mutex of the service has yet to save. -/
inductive Section where
  | activate (copy : Copy) (row : Token)
  | revoke (copy : Copy) (rest : List Copy)

/-- An `ExpireStagingTokens` under way, which takes no mutex. It reads the clock
after the rows. -/
structure Sweep where
  copies : List Copy
  clock : Option Nat := none

structure State where
  tokens : List Token
  now : Nat
  held : Option Section := none
  sweeps : List Sweep := []

/-- The read of an operation and each of its saves are separate steps. `worker`
is the worker an activation registers, `ok` whether a save succeeds, `full`
whether it writes all columns. -/
inductive Action where
  | tick (d : Nat)
  | issue
  | activate (id : Nat) (worker : String)
  | abandon
  | revoke (id : Nat)
  | revokeForWorker (worker : String)
  | save (ok full : Bool)
  | sweepRead
  | sweepClock (k : Nat)
  | sweepSave (k : Nat) (ok full : Bool)
  deriving DecidableEq, Repr

/-- The row that `ActivateToken` saves, none when it returns an error before. -/
def activateToken (now : Nat) (worker : String) (r : Token) : Option Token :=
  match r.status with
  | .revoked | .expired => none
  | .staging =>
    if r.expiresAt < now then some { r with status := .expired, lastUsedAt := now }
    else if r.worker = "" then
      some { r with worker := worker, status := .active, expiresAt := 0, lastUsedAt := now }
    else some { r with status := .active, expiresAt := 0, lastUsedAt := now }
  | .active =>
    if r.worker = "" then
      some { r with worker := worker, status := .active, expiresAt := 0, lastUsedAt := now }
    else some { r with lastUsedAt := now }

def written {α : Type} [DecidableEq α] (full : Bool) (loaded new stored : α) : α :=
  if full ∨ new ≠ loaded then new else stored

def saveRow (full : Bool) (loaded new stored : Token) : Token where
  status := written full loaded.status new.status stored.status
  worker := written full loaded.worker new.worker stored.worker
  expiresAt := written full loaded.expiresAt new.expiresAt stored.expiresAt
  lastUsedAt := written full loaded.lastUsedAt new.lastUsedAt stored.lastUsedAt

namespace State

def save (s : State) (full : Bool) (c : Copy) (new : Token) : State :=
  { s with tokens := s.tokens.modify c.id (saveRow full c.loaded new) }

def hold (s : State) (x : Option Section) : State := { s with held := x }

def find (s : State) (p : Token → Bool) : List Copy :=
  (s.tokens.zipIdx.filter (fun e => p e.1)).map (fun e => ⟨e.2, e.1⟩)

end State

def revoking : List Copy → Option Section
  | [] => none
  | c :: cs => some (.revoke c cs)

variable (s : State)

def saveHeld (ok full : Bool) : Section → State
  | .activate c row => (if ok then s.save full c row else s).hold none
  | .revoke c rest =>
    if ok then (s.save full c { c.loaded with status := .revoked, lastUsedAt := s.now }).hold (revoking rest)
    else s.hold none

def sweepSave (k : Nat) (c : Copy) (rest : List Copy) (now : Nat) (ok full : Bool) : State :=
  if c.loaded.expiresAt < now then
    if ok then
      { s.save full c { c.loaded with status := .expired, lastUsedAt := now } with
        sweeps := s.sweeps.set k ⟨rest, some now⟩ }
    else { s with sweeps := s.sweeps.set k ⟨[], some now⟩ }
  else { s with sweeps := s.sweeps.set k ⟨rest, some now⟩ }

def step : Action → Option State
  | .tick d => some { s with now := s.now + d }
  | .issue =>
    if s.held = none then
      some { s with tokens := s.tokens ++ [{ status := .staging, expiresAt := s.now + 3600 }] }
    else none
  | .activate id worker =>
    if s.held = none then
      some (s.hold (s.tokens[id]?.bind fun r =>
        (activateToken s.now worker r).map fun row => .activate ⟨id, r⟩ row))
    else none
  -- the worker cannot be registered or found
  | .abandon =>
    match s.held with
    | some (.activate _ _) => some (s.hold none)
    | _ => none
  | .revoke id =>
    if s.held = none then some (s.hold (s.tokens[id]?.map fun r => .revoke ⟨id, r⟩ [])) else none
  | .revokeForWorker worker =>
    if s.held = none then some (s.hold (revoking (s.find fun r => r.worker = worker))) else none
  | .save ok full => s.held.map (saveHeld s ok full)
  | .sweepRead => some { s with sweeps := s.sweeps ++ [⟨s.find fun r => r.status = .staging, none⟩] }
  | .sweepClock k =>
    match s.sweeps[k]? with
    | some ⟨copies, none⟩ => some { s with sweeps := s.sweeps.set k ⟨copies, some s.now⟩ }
    | _ => none
  | .sweepSave k ok full =>
    match s.sweeps[k]? with
    | some ⟨c :: rest, some now⟩ => some (sweepSave s k c rest now ok full)
    | _ => none

/-- The moves a token's status may make, any number of them. -/
def Onward (a b : Status) : Prop :=
  a = b ∨ b = .revoked ∨ a = .staging ∧ (b = .active ∨ b = .expired)

instance (a b : Status) : Decidable (Onward a b) := inferInstanceAs (Decidable (_ ∨ _))

theorem Onward.refl (a : Status) : Onward a a := .inl rfl

theorem Onward.trans {a b c : Status} (h : Onward a b) (h' : Onward b c) : Onward a c := by
  cases a <;> cases b <;> cases c <;> revert h h' <;> decide

/-- Every token of the first state has moved onward in the second. -/
def Kept (s t : State) : Prop :=
  ∀ (id : Nat) (r : Token), s.tokens[id]? = some r → ∃ r' : Token, t.tokens[id]? = some r' ∧ Onward r.status r'.status

def activating (id : Nat) : Bool :=
  match s.held with
  | some (.activate c _) => c.id = id
  | _ => false

/-- A sweep saves a row only while the stored one is staging and no activation of
it is between its read and its save. -/
def Undisturbed : Action → Prop
  | .sweepSave k _ _ => ∀ w ∈ s.sweeps[k]?, ∀ c ∈ w.copies.head?,
      activating s c.id = false ∧ ∀ r ∈ s.tokens[c.id]?, r.status = .staging
  | _ => True

instance (s : State) (a : Action) : Decidable (Undisturbed s a) := by
  unfold Undisturbed
  split <;> infer_instance

def Inv : Prop :=
  ∀ c row, s.held = some (.activate c row) → s.tokens[c.id]? = some c.loaded ∧ Onward c.loaded.status row.status

variable {s t : State} {c : Copy} {full ok : Bool} {new row : Token}

theorem activateToken_onward {now : Nat} {worker : String} {r : Token}
    (h : activateToken now worker r = some row) : Onward r.status row.status := by
  unfold activateToken at h
  split at h
  · cases h
  · cases h
  · next hs =>
    refine .inr (.inr ⟨hs, ?_⟩)
    split at h
    · cases h
      exact .inr rfl
    · split at h <;> cases h <;> exact .inl rfl
  · next hs =>
    refine .inl ?_
    split at h <;> cases h
    · exact hs
    · rfl

theorem saveRow_onward {loaded stored : Token} (h : Onward stored.status new.status) :
    Onward stored.status (saveRow full loaded new stored).status := by
  simp only [saveRow, written]
  split
  · exact h
  · exact .refl _

theorem Kept.of_eq (h : t.tokens = s.tokens) : Kept s t :=
  fun _ r hr => ⟨r, h ▸ hr, .refl _⟩

theorem Kept.trans {u : State} (h : Kept s t) (h' : Kept t u) : Kept s u := by
  intro id r hr
  obtain ⟨r', hr', hon⟩ := h id r hr
  obtain ⟨r'', hr'', hon'⟩ := h' id r' hr'
  exact ⟨r'', hr'', hon.trans hon'⟩

theorem save_other {id : Nat} (h : c.id ≠ id) : (s.save full c new).tokens[id]? = s.tokens[id]? := by
  simp [State.save, h]

theorem Kept.save (htok : t.tokens = (s.save full c new).tokens)
    (h : ∀ r, s.tokens[c.id]? = some r → Onward r.status new.status) : Kept s t := by
  intro id r hr
  rw [htok]
  by_cases hid : c.id = id
  · subst hid
    exact ⟨saveRow full c.loaded new r, by simp [State.save, hr], saveRow_onward (h r hr)⟩
  · exact ⟨r, by rw [save_other hid, hr], .refl _⟩

theorem Inv.free (h : t.held = none) : Inv t := by
  intro c row hc
  rw [h] at hc
  cases hc

theorem Inv.of_eq (htok : t.tokens = s.tokens) (hheld : t.held = s.held) (hinv : Inv s) : Inv t := by
  intro c row hc
  rw [htok]
  exact hinv c row (hheld ▸ hc)

theorem revoking_ne {cs : List Copy} : revoking cs ≠ some (.activate c row) := by
  cases cs <;> simp [revoking]

theorem Inv.revoking {cs : List Copy} (h : t.held = revoking cs) : Inv t := by
  intro c row hc
  exact absurd (h.symm.trans hc) revoking_ne

theorem saveHeld_kept {x : Section} (hinv : Inv s) (hx : s.held = some x) :
    Kept s (saveHeld s ok full x) ∧ Inv (saveHeld s ok full x) := by
  cases x with
  | activate c row =>
    refine ⟨?_, .free rfl⟩
    cases ok with
    | false => exact .of_eq rfl
    | true =>
      obtain ⟨hc, hon⟩ := hinv c row hx
      refine .save rfl (fun r hr => ?_)
      rw [hc] at hr
      cases hr
      exact hon
  | revoke c rest =>
    cases ok with
    | false => exact ⟨.of_eq rfl, .free rfl⟩
    | true => exact ⟨.save rfl (fun r _ => .inr (.inl rfl)), .revoking rfl⟩

theorem sweepSave_kept {k now : Nat} {rest : List Copy} (hinv : Inv s)
    (hact : activating s c.id = false) (hst : ∀ r, s.tokens[c.id]? = some r → r.status = .staging) :
    Kept s (sweepSave s k c rest now ok full) ∧ Inv (sweepSave s k c rest now ok full) := by
  unfold sweepSave
  split
  · split
    · refine ⟨.save rfl (fun r hr => .inr (.inr ⟨hst r hr, .inr rfl⟩)), ?_⟩
      intro d row hd
      obtain ⟨hrow, hon⟩ := hinv d row hd
      have hid : c.id ≠ d.id := by
        intro he
        simp only [activating, show s.held = some (.activate d row) from hd] at hact
        simp [he] at hact
      exact ⟨(save_other hid).trans hrow, hon⟩
    · exact ⟨.of_eq rfl, .of_eq rfl rfl hinv⟩
  · exact ⟨.of_eq rfl, .of_eq rfl rfl hinv⟩

theorem step_kept {a : Action} (hinv : Inv s) (hg : Undisturbed s a) (h : step s a = some t) : Kept s t ∧ Inv t := by
  cases a with
  | tick | sweepRead =>
    cases h
    exact ⟨.of_eq rfl, .of_eq rfl rfl hinv⟩
  | issue =>
    obtain ⟨hfree, ⟨⟩⟩ := ite_none_right_eq_some.mp h
    refine ⟨?_, .free hfree⟩
    intro id r hr
    have hlt := (List.getElem?_eq_some_iff.mp hr).1
    exact ⟨r, by rw [List.getElem?_append_left hlt, hr], .refl _⟩
  | activate id worker =>
    obtain ⟨_, ⟨⟩⟩ := ite_none_right_eq_some.mp h
    refine ⟨.of_eq rfl, ?_⟩
    intro c row hc
    obtain ⟨r, hr, hrow⟩ := bind_eq_some_iff.mp hc
    obtain ⟨row', hact, heq⟩ := map_eq_some_iff.mp hrow
    cases heq
    exact ⟨hr, activateToken_onward hact⟩
  | abandon =>
    simp only [step] at h
    split at h
    · cases h
      exact ⟨.of_eq rfl, .free rfl⟩
    · cases h
  | revoke id =>
    obtain ⟨_, ⟨⟩⟩ := ite_none_right_eq_some.mp h
    refine ⟨.of_eq rfl, ?_⟩
    intro c row hc
    obtain ⟨r, _, heq⟩ := map_eq_some_iff.mp hc
    cases heq
  | revokeForWorker worker =>
    obtain ⟨_, ⟨⟩⟩ := ite_none_right_eq_some.mp h
    exact ⟨.of_eq rfl, .revoking rfl⟩
  | save ok full =>
    obtain ⟨x, hx, rfl⟩ := map_eq_some_iff.mp h
    exact saveHeld_kept hinv hx
  | sweepClock k =>
    simp only [step] at h
    split at h
    · cases h
      exact ⟨.of_eq rfl, .of_eq rfl rfl hinv⟩
    · cases h
  | sweepSave k ok full =>
    simp only [step] at h
    split at h
    · next hw =>
      cases h
      obtain ⟨hact, hst⟩ := hg _ hw _ rfl
      exact sweepSave_kept hinv hact hst
    · cases h

def start (tokens : List Token) (now : Nat) : State := { tokens, now }

theorem run_kept {as : List Action} (hinv : Inv s) (hg : Meets step Undisturbed s as)
    (h : run step s as = some t) : Kept s t ∧ Inv t := by
  induction as generalizing s with
  | nil =>
    cases h
    exact ⟨.of_eq rfl, hinv⟩
  | cons a as ih =>
    obtain ⟨u, hu, h⟩ := run_cons.mp h
    obtain ⟨ha, hg⟩ := meets_cons hg hu
    obtain ⟨hkept, hinv⟩ := step_kept hinv ha hu
    obtain ⟨hkept', hinv'⟩ := ih hinv hg h
    exact ⟨hkept.trans hkept', hinv'⟩

/-- Between any two states of an undisturbed run every token has moved onward. -/
theorem undisturbed_run_onward (tokens : List Token) (now : Nat) (as bs : List Action) (s t : State)
    (hg : Meets step Undisturbed (start tokens now) as) (hs : run step (start tokens now) as = some s)
    (hg' : Meets step Undisturbed s bs) (ht : run step s bs = some t) : Kept s t := by
  obtain ⟨_, hinv⟩ := run_kept (.free rfl) hg hs
  exact (run_kept hinv hg' ht).1

def staleExpiry : List Action :=
  [.issue, .sweepRead, .activate 0 "w1", .save true false, .tick 3601, .sweepClock 0, .sweepSave 0 true false]

def staleRevival : List Action :=
  [.issue, .sweepRead, .revoke 0, .save true false, .tick 3601, .sweepClock 0, .sweepSave 0 true false]

def statusAfter (as : List Action) : Option Status :=
  (run step (start [] 0) as).bind fun s => s.tokens[0]?.map fun r => r.status

/-- An activated token becomes expired, and a revoked one leaves its status. -/
theorem swept_token_moves_back :
    (statusAfter (staleExpiry.take 4) = some .active ∧ statusAfter staleExpiry = some .expired) ∧
      (statusAfter (staleRevival.take 4) = some .revoked ∧ statusAfter staleRevival = some .expired) := by
  decide

def orderly : List Action :=
  [.issue, .issue, .activate 0 "w1", .save true false, .tick 3601, .sweepRead, .sweepClock 0, .sweepSave 0 true false]

theorem undisturbed_run_onward_orderly : Meets step Undisturbed (start [] 0) (orderly.take 4) ∧
      ∃ s ∈ run step (start [] 0) (orderly.take 4), Meets step Undisturbed s (orderly.drop 4) ∧
        ∃ t ∈ run step s (orderly.drop 4), t.tokens.map (fun r => r.status) = [.active, .expired] ∧ Kept s t := by
  have hg : Meets step Undisturbed (start [] 0) (orderly.take 4) := by decide
  have hrun : ∃ s ∈ run step (start [] 0) (orderly.take 4),
      Meets step Undisturbed s (orderly.drop 4) ∧ (run step s (orderly.drop 4)).any (fun t =>
          decide (t.tokens.map (fun r => r.status) = [.active, .expired])) = true :=
    run_reaches (by decide)
  obtain ⟨s, hs, hg', hend⟩ := hrun
  obtain ⟨t, ht, hst⟩ := run_reaches hend
  exact ⟨hg, s, hs, hg', t, ht, hst, undisturbed_run_onward [] 0 _ _ s t hg hs hg' ht⟩

end Wireops.Server.TokenStatus
