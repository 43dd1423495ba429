import Wireops.Lib.Steps

namespace Wireops.Git.Tokens

open Option List Lib.Steps

/-- The answer of a provider; tokens and times are numbers. -/
structure Token where
  access : Nat
  refresh : Option Nat
  expiresAt : Option Nat
  deriving DecidableEq

/-- The columns of the credential. Every encryption gives a ciphertext of its
own, which `token` is the number of. -/
structure Row where
  token : Nat
  access : Nat
  refresh : Option Nat
  expiresAt : Option Nat

structure CredentialIdentity where
  expiresAt : Option Nat
  tokenCipher : Nat
  deriving DecidableEq

def identityOf (row : Row) : CredentialIdentity := ⟨row.expiresAt, row.token⟩

structure PendingRefresh where
  token : Token
  base : CredentialIdentity

/-- A call of `persistRefreshedToken`: the token, whether it was redeemed just
now, and the attempts that are left. -/
structure Job where
  base : CredentialIdentity
  token : Token
  redeemed : Bool
  left : Nat
  deriving DecidableEq

/-- Where the refresh of the credential is; there is one at a time. -/
inductive Phase where
  | idle
  | redeem (base : CredentialIdentity) (refreshToken : Nat) (pending : Bool)
  | find (j : Job)
  | save (j : Job)
  deriving DecidableEq

def Phase.job? : Phase → Option Job
  | .find j | .save j => some j
  | _ => none

def Phase.relies : Phase → Bool
  | .redeem .. | .save _ => true
  | _ => false

/-- What a refresh does: it presents a token or is given up, with what is known
of the live token then, or it writes over the credential `stored`. -/
inductive Event where
  | presented (refreshToken : Nat) (live : Option Nat) (consumed : Bool)
  | gaveUp (live : Option Nat)
  | wrote (base stored : CredentialIdentity)

def Event.Good : Event → Prop
  | .presented refreshToken live consumed => live = some refreshToken ∧ consumed = false
  | .gaveUp live => live = none
  | .wrote base stored => stored = base

instance : DecidablePred Event.Good
  | .presented .. => inferInstanceAs (Decidable (_ ∧ _))
  | .gaveUp _ | .wrote .. => inferInstanceAs (Decidable (_ = _))

structure State where
  row : Row
  pending : Option PendingRefresh := none
  phase : Phase := .idle
  live : Option Nat
  consumed : List Nat := []
  nextToken : Nat
  nextCipher : Nat
  log : List Event := []

inductive Answer where
  | failed
  | rotated (access : Nat) (expiresAt : Option Nat)
  | kept (access : Nat) (expiresAt : Option Nat)
  deriving DecidableEq, Repr

/-- `find` and `save` are the read and the write of one attempt to persist a
token, `connect` is a manual reconnect in one transaction. -/
inductive Action where
  | refresh (now : Nat)
  | redeem (answer : Answer)
  | find (ok : Bool)
  | save (ok : Bool)
  | connect (access : Nat) (withRefresh : Bool) (expiresAt : Option Nat)
  deriving DecidableEq, Repr

/-- In minutes, as all times here. -/
def refreshGraceWindow : Nat := 15

def persistRetries : Nat := 3

variable (s : State)

def giveUp : State := { s with phase := .idle, log := .gaveUp s.live :: s.log }

/-- A token in memory that was made for the row is saved while it is good;
otherwise its refresh token is redeemed. -/
def refreshPending (now : Nat) (p : PendingRefresh) : State :=
  if p.token.expiresAt.all (fun e => now + refreshGraceWindow < e) then
    { s with phase := .find ⟨identityOf s.row, p.token, false, persistRetries⟩ }
  else
    match p.token.refresh with
    | none => giveUp s
    | some r => { s with phase := .redeem (identityOf s.row) r true }

def refreshStored : State :=
  match s.row.refresh with
  | none => giveUp s
  | some r => { s with phase := .redeem (identityOf s.row) r false }

/-- The part of `doRefreshOAuthToken` that chooses the refresh token. -/
def refresh (now : Nat) : State :=
  if s.row.expiresAt.any (fun e => now + refreshGraceWindow < e) then s
  else
    match s.pending.filter (fun p => p.base = identityOf s.row) with
    | some p => refreshPending s now p
    | none => refreshStored { s with pending := none }

def redeem (s : State) (answer : Answer) : Option State :=
  match s.phase with
  | .redeem base r pending =>
    let s := { s with log := .presented r s.live (decide (r ∈ s.consumed)) :: s.log }
    match answer with
    | .failed => some { s with phase := .idle }
    | .rotated access expiresAt =>
      if r ∈ s.consumed then none
      else
        some { s with
          phase := .find ⟨base, ⟨access, some s.nextToken, expiresAt⟩, true, persistRetries⟩
          live := if s.live = some r then some s.nextToken else s.live
          consumed := r :: s.consumed
          nextToken := s.nextToken + 1 }
    | .kept access expiresAt =>
      if r ∈ s.consumed then none
      else
        some { s with
          phase := .find ⟨base, ⟨access, if pending then some r else none, expiresAt⟩, true, persistRetries⟩ }
  | _ => none

def persisted : State := { s with pending := none, phase := .idle }

/-- An attempt has failed. After the last, a token redeemed just now is kept in
memory. -/
def retry (j : Job) : State :=
  if j.left = 0 then
    { s with pending := if j.redeemed then some ⟨j.token, j.base⟩ else s.pending, phase := .idle }
  else { s with phase := .find { j with left := j.left - 1 } }

def find (s : State) (ok : Bool) : Option State :=
  match s.phase with
  | .find j =>
    if !ok then some (retry s j)
    else if identityOf s.row = j.base then some { s with phase := .save j }
    else some (persisted s)
  | _ => none

def applyRefreshedToken (row : Row) (newToken : Token) (cipher : Nat) : Row where
  token := cipher
  access := newToken.access
  refresh := newToken.refresh.or row.refresh
  expiresAt := newToken.expiresAt.or row.expiresAt

def save (s : State) (ok : Bool) : Option State :=
  match s.phase with
  | .save j =>
    if !ok then some (retry s j)
    else
      some (persisted { s with
        row := applyRefreshedToken s.row j.token s.nextCipher
        nextCipher := s.nextCipher + 1
        log := .wrote j.base (identityOf s.row) :: s.log })
  | _ => none

/-- A reconnect without a refresh token leaves the one in the row. -/
def connect (access : Nat) (withRefresh : Bool) (expiresAt : Option Nat) : State :=
  { s with
    row := ⟨s.nextCipher, access, if withRefresh then some s.nextToken else s.row.refresh,
      expiresAt.or s.row.expiresAt⟩
    live := if withRefresh then some s.nextToken else s.live
    nextToken := s.nextToken + 1
    nextCipher := s.nextCipher + 1 }

def step : Action → Option State
  | .refresh now => if s.phase = .idle then some (refresh s now) else none
  | .redeem answer => redeem s answer
  | .find ok => find s ok
  | .save ok => save s ok
  | .connect access withRefresh expiresAt => some (connect s access withRefresh expiresAt)

def init (access : Nat) (withRefresh : Bool) (expiresAt : Option Nat) : State where
  row := ⟨0, access, if withRefresh then some 0 else none, expiresAt⟩
  live := if withRefresh then some 0 else none
  nextToken := 1
  nextCipher := 1

/-- No token that is not live is presented, no refresh is given up while there is
a live token, and no credential is written over by the refresh of another. -/
def Sound : Prop := ∀ e ∈ s.log, e.Good

instance (s : State) : Decidable (Sound s) := inferInstanceAs (Decidable (∀ e ∈ s.log, e.Good))

/-- A job that fails for good leaves a refresh token to go on with, if its row is
still there. -/
def Resumable (j : Job) : Prop :=
  j.left = 0 → j.redeemed = true → j.token.refresh = none → identityOf s.row ≠ j.base

/-- A reconnect does not come between the read of the row and its use, and has a
refresh token unless that of the row is live; and the last attempt to save an
answer without a refresh token does not fail. -/
def Careful : Action → Prop
  | .connect _ withRefresh _ => s.phase.relies = false ∧ (withRefresh = true ∨ s.row.refresh = s.live)
  | .find false | .save false => ∀ j ∈ s.phase.job?, Resumable s j
  | _ => True

instance (s : State) (j : Job) : Decidable (Resumable s j) := inferInstanceAs (Decidable (_ → _ → _ → _))

instance (s : State) (a : Action) : Decidable (Careful s a) := by
  unfold Careful
  split <;> infer_instance

structure JobOk (s : State) (j : Job) : Prop where
  older : j.base.tokenCipher < s.nextCipher
  carried : identityOf s.row = j.base →
    j.token.refresh = s.live ∨ j.redeemed = true ∧ j.token.refresh = none ∧ s.row.refresh = s.live
  replaced : identityOf s.row ≠ j.base → s.row.refresh = s.live
  pending : j.redeemed = false → s.pending = some ⟨j.token, j.base⟩
  alive : s.live ≠ none

/-- The live token is in memory if what is there was made for the row, and
otherwise in the row. -/
structure IdleOk (s : State) : Prop where
  pending : ∀ p ∈ s.pending, identityOf s.row = p.base → p.token.refresh = s.live
  stored : (∀ p ∈ s.pending, identityOf s.row ≠ p.base) → s.row.refresh = s.live

structure RedeemOk (s : State) (base : CredentialIdentity) (r : Nat) (pending : Bool) : Prop where
  base : identityOf s.row = base
  live : s.live = some r
  idle : IdleOk s
  stored : pending = false → s.row.refresh = some r

def PhaseOk : Phase → Prop
  | .idle => IdleOk s
  | .redeem base r pending => RedeemOk s base r pending
  | .find j => JobOk s j
  | .save j => JobOk s j ∧ identityOf s.row = j.base

structure Inv (s : State) : Prop where
  sound : Sound s
  cipher : s.row.token < s.nextCipher
  older : ∀ p ∈ s.pending, p.base.tokenCipher < s.nextCipher
  alive : s.pending ≠ none → s.live ≠ none
  live : ∀ r ∈ s.live, r < s.nextToken ∧ r ∉ s.consumed
  consumed : ∀ r ∈ s.consumed, r < s.nextToken
  phase : PhaseOk s s.phase

section Steps

variable {s t : State} {a : Action} {j : Job}

theorem Inv.init (access : Nat) (withRefresh : Bool) (expiresAt : Option Nat) :
    Inv (init access withRefresh expiresAt) where
  sound := forall_mem_nil _
  cipher := Nat.zero_lt_one
  older _ h := by cases h
  alive h := absurd rfl h
  live r h := by
    refine ⟨?_, not_mem_nil⟩
    cases withRefresh with
    | false => cases h
    | true =>
      cases h
      exact Nat.zero_lt_one
  consumed := forall_mem_nil _
  phase := ⟨fun _ h => by (cases h), fun _ => rfl⟩

theorem Sound.cons {e : Event} (hs : Sound s) (he : e.Good) : ∀ e' ∈ e :: s.log, e'.Good :=
  forall_mem_cons.mpr ⟨he, hs⟩

section

variable (hi : Inv s)

include hi

theorem Inv.giveUp (hok : IdleOk s) (hnone : s.live = none) : Inv (giveUp s) :=
  ⟨Sound.cons hi.sound hnone, hi.cipher, hi.older, hi.alive, hi.live, hi.consumed, hok.pending, hok.stored⟩

theorem Inv.refreshPending (hok : IdleOk s) {p : PendingRefresh} (hp : s.pending = some p)
    (hmatch : identityOf s.row = p.base) (now : Nat) : Inv (refreshPending s now p) := by
  have hlive := hok.pending p hp hmatch
  have halive : s.live ≠ none := by
    refine hi.alive ?_
    rw [hp]
    exact some_ne_none p
  unfold Tokens.refreshPending
  split
  · refine ⟨hi.sound, hi.cipher, hi.older, hi.alive, hi.live, hi.consumed, hi.cipher, fun _ => .inl hlive,
      fun h => absurd rfl h, ?_, halive⟩
    intro _
    rw [hp, hmatch]
  · split
    · rename_i hnone
      exact hi.giveUp hok (hlive.symm.trans hnone)
    · rename_i r hr
      exact ⟨hi.sound, hi.cipher, hi.older, hi.alive, hi.live, hi.consumed, rfl, hlive.symm.trans hr,
        ⟨hok.pending, hok.stored⟩, fun h => by (cases h)⟩

theorem Inv.refreshStored (hok : IdleOk s) (hstored : s.row.refresh = s.live) :
    Inv (refreshStored s) := by
  unfold Tokens.refreshStored
  split
  · rename_i hnone
    exact hi.giveUp hok (hstored.symm.trans hnone)
  · rename_i r hr
    exact ⟨hi.sound, hi.cipher, hi.older, hi.alive, hi.live, hi.consumed, rfl, hstored.symm.trans hr,
      ⟨hok.pending, hok.stored⟩, fun _ => hr⟩

theorem Inv.forget (hidle : s.phase = .idle) (hstored : s.row.refresh = s.live) :
    Inv { s with pending := none } ∧ IdleOk { s with pending := none } := by
  have hok : IdleOk { s with pending := none } := ⟨fun p h => by (cases h), fun _ => hstored⟩
  refine ⟨⟨hi.sound, hi.cipher, fun p h => by (cases h), fun h => absurd rfl h, hi.live, hi.consumed, ?_⟩, hok⟩
  change PhaseOk _ s.phase
  rw [hidle]
  exact ⟨hok.pending, hok.stored⟩

theorem Inv.refresh (hidle : s.phase = .idle) (now : Nat) : Inv (refresh s now) := by
  have hok : IdleOk s := by
    have h := hi.phase
    rw [hidle] at h
    exact h
  unfold Tokens.refresh
  split
  · exact hi
  · split
    · rename_i p hfilter
      obtain ⟨hp, hbase⟩ := filter_eq_some_iff.mp hfilter
      exact hi.refreshPending hok hp (of_decide_eq_true hbase).symm now
    · rename_i hfilter
      have hstored : s.row.refresh = s.live := by
        refine hok.stored ?_
        intro p hp hmatch
        exact filter_eq_none_iff.mp hfilter p hp (decide_eq_true hmatch.symm)
      obtain ⟨hi', hok'⟩ := hi.forget hidle hstored
      exact hi'.refreshStored hok' hstored

theorem Inv.presented_good {r : Nat} (hlive : s.live = some r) :
    (Event.presented r s.live (decide (r ∈ s.consumed))).Good :=
  ⟨hlive, decide_eq_false (hi.live r hlive).2⟩

end

variable {base : CredentialIdentity}

section

variable (hi : Inv s)

include hi

theorem Inv.redeemed_older (h : identityOf s.row = base) : base.tokenCipher < s.nextCipher := by
  rw [← h]
  exact hi.cipher

theorem Inv.rotated {r : Nat} {pending : Bool}
    (hok : RedeemOk s base r pending) (access : Nat) (expiresAt : Option Nat) :
    Inv { s with
      log := .presented r s.live (decide (r ∈ s.consumed)) :: s.log
      phase := .find ⟨base, ⟨access, some s.nextToken, expiresAt⟩, true, persistRetries⟩
      live := if s.live = some r then some s.nextToken else s.live
      consumed := r :: s.consumed
      nextToken := s.nextToken + 1 } := by
  obtain ⟨hlt, _⟩ := hi.live r hok.live
  have hgood := hi.presented_good hok.live
  rw [if_pos hok.live]
  refine ⟨Sound.cons hi.sound hgood, hi.cipher, hi.older, fun _ => some_ne_none _, ?_, ?_, ?_⟩
  · intro r' hr'
    cases hr'
    refine ⟨Nat.lt_succ_self _, ?_⟩
    intro hmem
    obtain rfl | hmem := mem_cons.mp hmem
    · exact absurd hlt (Nat.lt_irrefl _)
    · exact absurd (hi.consumed _ hmem) (Nat.lt_irrefl _)
  · intro r' hr'
    obtain rfl | hmem := mem_cons.mp hr'
    · exact Nat.lt_succ_of_lt hlt
    · exact Nat.lt_succ_of_lt (hi.consumed _ hmem)
  · exact ⟨hi.redeemed_older hok.base, fun _ => .inl rfl, fun hne => absurd hok.base hne, fun h => by (cases h),
      some_ne_none _⟩

theorem Inv.kept {r : Nat} {pending : Bool}
    (hok : RedeemOk s base r pending) (access : Nat) (expiresAt : Option Nat) :
    Inv { s with
      log := .presented r s.live (decide (r ∈ s.consumed)) :: s.log
      phase := .find ⟨base, ⟨access, if pending then some r else none, expiresAt⟩, true, persistRetries⟩ } := by
  have halive : s.live ≠ none := by
    rw [hok.live]
    exact some_ne_none r
  refine ⟨Sound.cons hi.sound (hi.presented_good hok.live), hi.cipher, hi.older, hi.alive, hi.live, hi.consumed,
    hi.redeemed_older hok.base, ?_, fun hne => absurd hok.base hne, fun h => by (cases h), halive⟩
  intro _
  cases pending with
  | true => exact .inl hok.live.symm
  | false => exact .inr ⟨rfl, rfl, (hok.stored rfl).trans hok.live.symm⟩

theorem Inv.redeem {answer : Answer} (h : redeem s answer = some t) : Inv t := by
  unfold Tokens.redeem at h
  split at h
  · rename_i base r pending hphase
    have hok : RedeemOk s base r pending := by
      have h := hi.phase
      rw [hphase] at h
      exact h
    obtain ⟨_, hfresh⟩ := hi.live r hok.live
    cases answer with
    | failed =>
      cases h
      exact ⟨Sound.cons hi.sound (hi.presented_good hok.live), hi.cipher, hi.older, hi.alive, hi.live, hi.consumed,
        hok.idle.pending, hok.idle.stored⟩
    | rotated access expiresAt =>
      simp only at h
      rw [if_neg hfresh] at h
      cases h
      exact hi.rotated hok access expiresAt
    | kept access expiresAt =>
      simp only at h
      rw [if_neg hfresh] at h
      cases h
      exact hi.kept hok access expiresAt
  · cases h

theorem Inv.persisted (hstored : s.row.refresh = s.live) : Inv (persisted s) :=
  ⟨hi.sound, hi.cipher, fun p h => by (cases h), fun h => absurd rfl h, hi.live, hi.consumed,
    fun p h => by (cases h), fun _ => hstored⟩

theorem Inv.retry (hj : JobOk s j) (hresume : Resumable s j) : Inv (retry s j) := by
  unfold Tokens.retry
  split
  · rename_i hlast
    have hpending : (if j.redeemed then some ⟨j.token, j.base⟩ else s.pending) =
        some (PendingRefresh.mk j.token j.base) := by
      cases hredeemed : j.redeemed with
      | true => exact if_pos rfl
      | false => exact (if_neg Bool.false_ne_true).trans (hj.pending hredeemed)
    rw [hpending]
    refine ⟨hi.sound, hi.cipher, ?_, fun _ => hj.alive, hi.live, hi.consumed, ?_, ?_⟩
    · intro p hp
      cases hp
      exact hj.older
    · intro p hp hmatch
      cases hp
      obtain hlive | ⟨hredeemed, hnone, _⟩ := hj.carried hmatch
      · exact hlive
      · exact absurd hmatch (hresume hlast hredeemed hnone)
    · intro hother
      exact hj.replaced (hother _ rfl)
  · exact ⟨hi.sound, hi.cipher, hi.older, hi.alive, hi.live, hi.consumed, hj.older, hj.carried, hj.replaced,
      hj.pending, hj.alive⟩

theorem Inv.find {ok : Bool} (hcareful : Careful s (.find ok)) (h : find s ok = some t) : Inv t := by
  unfold Tokens.find at h
  split at h
  · rename_i j hphase
    have hj : JobOk s j := by
      have h := hi.phase
      rw [hphase] at h
      exact h
    cases ok with
    | false =>
      cases h
      refine hi.retry hj (hcareful j ?_)
      rw [hphase]
      rfl
    | true =>
      simp only [Bool.not_true, Bool.false_eq_true, if_false] at h
      split at h
      · rename_i hmatch
        cases h
        exact ⟨hi.sound, hi.cipher, hi.older, hi.alive, hi.live, hi.consumed, { hj with }, hmatch⟩
      · rename_i hother
        cases h
        exact hi.persisted (hj.replaced hother)
  · cases h

theorem Inv.save {ok : Bool} (hcareful : Careful s (.save ok)) (h : save s ok = some t) : Inv t := by
  unfold Tokens.save at h
  split at h
  · rename_i j hphase
    have hok := hi.phase
    rw [hphase] at hok
    obtain ⟨hj, hmatch⟩ := hok
    cases ok with
    | false =>
      cases h
      refine hi.retry hj (hcareful j ?_)
      rw [hphase]
      rfl
    | true =>
      cases h
      have hstored : j.token.refresh.or s.row.refresh = s.live := by
        obtain hlive | ⟨_, hnone, hrow⟩ := hj.carried hmatch
        · obtain ⟨r, hr⟩ := ne_none_iff_exists'.mp hj.alive
          rw [hlive, hr, some_or]
        · rw [hnone, none_or, hrow]
      have hgood : (Event.wrote j.base (identityOf s.row)).Good := hmatch
      exact ⟨Sound.cons hi.sound hgood, Nat.lt_succ_self _, fun p h => by (cases h), fun h => absurd rfl h, hi.live,
        hi.consumed, fun p h => by (cases h), fun _ => hstored⟩
  · cases h

theorem Inv.connect {access : Nat} {withRefresh : Bool} {expiresAt : Option Nat}
    (hcareful : Careful s (.connect access withRefresh expiresAt)) :
    Inv (connect s access withRefresh expiresAt) := by
  obtain ⟨hphase, hrefresh⟩ := hcareful
  have hstored : (Tokens.connect s access withRefresh expiresAt).row.refresh =
      (Tokens.connect s access withRefresh expiresAt).live := by
    cases withRefresh with
    | true => rfl
    | false => exact hrefresh.resolve_left Bool.false_ne_true
  have hother (base : CredentialIdentity) (holder : base.tokenCipher < s.nextCipher) :
      identityOf (Tokens.connect s access withRefresh expiresAt).row ≠ base := by
    rintro rfl
    exact absurd holder (Nat.lt_irrefl _)
  have halive (h : s.live ≠ none) : (Tokens.connect s access withRefresh expiresAt).live ≠ none := by
    cases withRefresh with
    | true => exact some_ne_none _
    | false => exact h
  refine ⟨hi.sound, Nat.lt_succ_self _, fun p hp => Nat.lt_succ_of_lt (hi.older p hp), fun hp => halive (hi.alive hp),
    ?_, fun r hr => Nat.lt_succ_of_lt (hi.consumed r hr), ?_⟩
  · intro r hr
    cases withRefresh with
    | true =>
      cases hr
      exact ⟨Nat.lt_succ_self _, fun hmem => absurd (hi.consumed _ hmem) (Nat.lt_irrefl _)⟩
    | false =>
      obtain ⟨hlt, hfresh⟩ := hi.live r hr
      exact ⟨Nat.lt_succ_of_lt hlt, hfresh⟩
  · change PhaseOk _ s.phase
    have hok := hi.phase
    cases hp : s.phase with
    | idle => exact ⟨fun p hp hmatch => absurd hmatch (hother _ (hi.older p hp)), fun _ => hstored⟩
    | find j =>
      rw [hp] at hok
      exact ⟨Nat.lt_succ_of_lt hok.older, fun hmatch => absurd hmatch (hother _ hok.older), fun _ => hstored,
        hok.pending, halive hok.alive⟩
    | redeem | save =>
      rw [hp] at hphase
      cases hphase

theorem inv_step (hcareful : Careful s a) (h : step s a = some t) : Inv t := by
  cases a with
  | refresh now =>
    obtain ⟨hidle, ht⟩ := ite_none_right_eq_some.mp h
    cases ht
    exact hi.refresh hidle now
  | redeem answer => exact hi.redeem h
  | find ok => exact hi.find hcareful h
  | save ok => exact hi.save hcareful h
  | connect access withRefresh expiresAt =>
    cases h
    exact hi.connect hcareful

end

/-- The refreshes of a history with careful reconnects and saves are sound. -/
theorem sound_of_careful {access : Nat} {withRefresh : Bool} {expiresAt : Option Nat} {as : List Action}
    (hr : run step (init access withRefresh expiresAt) as = some s)
    (hcareful : Meets step Careful (init access withRefresh expiresAt) as) : Sound s := by
  have hi : Inv s := run_invariant (fun _ _ _ hi hcareful h => inv_step hi hcareful h)
    (Inv.init access withRefresh expiresAt) hcareful hr
  exact hi.sound

end Steps

/-- The provider rotates, no save succeeds, and the next refresh goes on from what
is in memory. -/
def resumed : List Action :=
  [.refresh 0, .redeem (.rotated 1 (some 100)), .find true, .save false, .find false, .find false, .find false,
    .refresh 90, .redeem (.kept 2 (some 300)), .find true, .save true, .connect 3 true none]

theorem resumed_sound : ∃ s, run step (init 0 true (some 0)) resumed = some s ∧ Sound s :=
  ⟨_, rfl, @sound_of_careful _ 0 true (some 0) resumed rfl (by decide)⟩

/-- A reconnect is stored after the row was compared and before it is saved. -/
def overwritten : List Action :=
  [.refresh 0, .redeem (.rotated 1 (some 100)), .find true, .connect 2 true (some 100), .save true]

/-- The provider does not rotate and no save succeeds: the next refresh finds no
refresh token in memory and does not look at the row. -/
def abandoned : List Action :=
  [.refresh 0, .redeem (.kept 1 (some 100)), .find false, .find false, .find false, .find false, .refresh 90]

theorem overwritten_abandoned_not_sound : (∃ s ∈ run step (init 0 true (some 0)) overwritten, ¬ Sound s) ∧
    ∃ s ∈ run step (init 0 true (some 0)) abandoned, ¬ Sound s :=
  ⟨run_reaches (by decide), run_reaches (by decide)⟩

end Wireops.Git.Tokens
