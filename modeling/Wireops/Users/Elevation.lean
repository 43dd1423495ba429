import Wireops.Users.Admins

namespace Wireops.Users.Elevation

open Function List Lib.Flow Lib.Steps Lib.Table Users.Admins

def rank : Option Role → Nat
  | none => 0
  | some .monitoring => 1
  | some .viewer => 2
  | some .operator => 3
  | some .admin => 4

def highestRole (roles : List (Option Role)) : Option Role :=
  roles.foldl (fun best role => if rank best < rank role then role else best) none

inductive LoginError where
  | notVerified | noEmail | noGroups | mappings | noMapping

def resolveSSORoleFromGroups (groups : List String) (mappings : Option (List (String × Option Role))) :
    Except LoginError (Option Role) :=
  if groups = [] then .error .noGroups
  else
    match mappings with
    | none => .error .mappings
    | some mappings =>
      match mappings.filter (·.1 ∈ groups) with
      | [] => .error .noMapping
      | matched => .ok (highestRole (matched.map (·.2)))

structure Claims where
  emailVerified : Option Bool := none
  email : String := ""
  rawEmail : String := ""
  groups : List String := []
  deriving DecidableEq, Repr

def admitLogin (requireEmailVerified : Bool) (mappings : Option (List (String × Option Role)))
    (c : Claims) : Except LoginError (String × Option Role) := do
  if requireEmailVerified && c.emailVerified ≠ some true then
    throw .notVerified
  let email := if c.email = "" then c.rawEmail else c.email
  if email = "" then
    throw .noEmail
  let role ← resolveSSORoleFromGroups c.groups mappings
  pure (email, role)

structure SSOUser where
  email : String
  name : String := ""
  role : Option Role := none
  consumed : Bool := false
  verified : Bool := true
  tokenKey : Nat := 0

/-- A session token: whose it is, the key it is signed with, and when it expires. -/
structure Token where
  person : String
  key : Nat
  expires : Nat
  deriving DecidableEq, Repr

/-- A login between its response and the save that follows it: the row as
loaded, and the role to be saved. -/
structure Login where
  person : String
  loaded : SSOUser
  role : Option Role

structure State where
  requireEmailVerified : Bool := true
  mappings : Option (List (String × Option Role)) := some []
  now : Nat := 0
  records : String → Option SSOUser := fun _ => none
  users : String → Option User := fun _ => none
  logins : Nat → Option Login := fun _ => none
  issued : List Token := []
  /-- The tokens that were exchanged for a user's token, last one first. -/
  elevated : List Token := []

def valid (s : State) (token : Token) : Bool :=
  token ∈ s.issued && s.now < token.expires &&
    (s.records token.person).any (fun r => r.tokenKey = token.key)

inductive ElevateError where
  | invalidToken | alreadyConsumed | noEmail | roleEmpty | failed

/-- The transaction of an elevation; `ok` says whether its saves succeed. -/
def elevate (s : State) (token : Token) (ok : Bool) : Except ElevateError State :=
  if !valid s token then .error .invalidToken
  else
    match s.records token.person with
    | none => .error .invalidToken
    | some r =>
      if r.consumed then .error .alreadyConsumed
      else if r.email = "" then .error .noEmail
      else
        match r.role with
        | none => .error .roleEmpty
        | some role =>
          if !ok then .error .failed
          else
            let sso : SSORecord := { email := r.email, name := r.name, role := role }
            let user := ((s.users r.email).map (Admins.elevated sso)).getD (provisioned sso)
            .ok { s with
              users := update s.users r.email (some user)
              records := update s.records token.person
                (some { r with consumed := true, verified := false })
              elevated := token :: s.elevated }

inductive Action where
  | tick
  /-- The mappings are changed, or are lost to a failing query. -/
  | configure (mappings : Option (List (String × Option Role)))
  /-- A login gets its response; the auth library may change the token key. -/
  | login (n : Nat) (person : String) (claims : Claims) (expires : Nat) (rekeys : Bool)
  /-- The save after the response, of all columns or of the changed ones. -/
  | reset (n : Nat) (full ok : Bool)
  | elevate (token : Token) (ok : Bool)
  | rekey (person : String)
  deriving DecidableEq, Repr

def rekeyed (r : SSOUser) : SSOUser := { r with tokenKey := r.tokenKey + 1 }

/-- The row that a login finds or creates. -/
def loginRow (s : State) (person email : String) (rekeys : Bool) : SSOUser :=
  match s.records person with
  | none => { email }
  | some r => if rekeys then { rekeyed r with verified := true } else r

/-- The row after the save that follows a login. Only the auth library writes
the token key. -/
def resetRow (full : Bool) (l : Login) (row : SSOUser) : SSOUser :=
  if full then { l.loaded with role := l.role, consumed := false, tokenKey := row.tokenKey }
  else
    { row with
      role := if l.role = l.loaded.role then row.role else l.role
      consumed := if l.loaded.consumed then false else row.consumed }

def step (s : State) : Action → Option State
  | .tick => some { s with now := s.now + 1 }
  | .configure mappings => some { s with mappings }
  | .login n person claims expires rekeys =>
    if s.logins n ≠ none then none
    else
      match admitLogin s.requireEmailVerified s.mappings claims with
      | .error _ => some s
      | .ok (email, role) =>
        let r := loginRow s person email rekeys
        some { s with
          records := update s.records person (some r)
          logins := update s.logins n (some ⟨person, r, role⟩)
          issued := ⟨person, r.tokenKey, expires⟩ :: s.issued }
  | .reset n full ok =>
    match s.logins n with
    | none => none
    | some l =>
      let logins := update s.logins n none
      match s.records l.person with
      | none => none
      | some row =>
        if ok then
          some { s with logins, records := update s.records l.person (some (resetRow full l row)) }
        else some { s with logins }
  | .elevate token ok => some ((elevate s token ok).toOption.getD s)
  | .rekey person =>
    (s.records person).map (fun r =>
      { s with records := update s.records person (some (rekeyed r)) })

variable {s t : State} {token : Token}

theorem valid_iff : valid s token = true ↔ token ∈ s.issued ∧ s.now < token.expires ∧
    ∃ r, s.records token.person = some r ∧ r.tokenKey = token.key := by
  rw [valid, Bool.and_eq_true, Bool.and_eq_true, decide_eq_true_eq, decide_eq_true_eq, and_assoc, Option.any_eq_true]
  simp only [decide_eq_true_eq]

theorem elevate_ok {ok : Bool} (h : elevate s token ok = .ok t) :
    valid s token = true ∧ ∃ r, s.records token.person = some r ∧ r.consumed = false ∧
      t.now = s.now ∧ t.issued = s.issued ∧ t.elevated = token :: s.elevated ∧
      t.records = update s.records token.person (some { r with consumed := true, verified := false }) := by
  obtain ⟨hvalid, h⟩ := guard_ok h
  rw [Bool.not_eq_true, Bool.not_eq_false'] at hvalid
  refine ⟨hvalid, ?_⟩
  split at h
  · cases h
  · next r hr =>
    obtain ⟨hconsumed, h⟩ := guard_ok h
    obtain ⟨_, h⟩ := guard_ok h
    split at h
    · cases h
    · obtain ⟨_, ⟨⟩⟩ := guard_ok h
      exact ⟨r, hr, Bool.eq_false_iff.mpr hconsumed, rfl, rfl, rfl, rfl⟩

/-- The flag of a person stands for all tokens exchanged so far that could still
be presented. -/
structure Inv (s : State) : Prop where
  once : s.elevated.Nodup
  flagged : ∀ token ∈ s.elevated, valid s token = true → ∃ r, s.records token.person = some r ∧ r.consumed = true
  issued : ∀ token ∈ s.elevated, token ∈ s.issued
  keys : ∀ token ∈ s.issued, ∃ r, s.records token.person = some r ∧ token.key ≤ r.tokenKey

/-- The save writes the flag: it was set when the login loaded the row, or all
columns are written. -/
def clears (full : Bool) (l : Login) : Bool := full || l.loaded.consumed

/-- A login resets the flag only when no token that its person has exchanged is
still valid. -/
def Expired (s : State) : Action → Prop
  | .reset n full ok => ∀ l ∈ s.logins n, ok = true → clears full l = true →
    ∀ token ∈ s.elevated, token.person = l.person → valid s token = false
  | _ => True

instance (s : State) (a : Action) : Decidable (Expired s a) := by
  unfold Expired
  split <;> infer_instance

theorem Inv.row (h : Inv s) (person : String) (r : SSOUser)
    (hrow : ∀ r₀, s.records person = some r₀ → r.tokenKey = r₀.tokenKey ∨ r₀.tokenKey < r.tokenKey)
    (hflag : ∀ r₀, s.records person = some r₀ → r.tokenKey = r₀.tokenKey → r₀.consumed = true →
      (∃ token ∈ s.elevated, token.person = person ∧ valid s token = true) → r.consumed = true)
    (hrecords : t.records = update s.records person (some r)) (hnow : s.now ≤ t.now)
    (helevated : t.elevated = s.elevated)
    (hissued : ∀ token ∈ t.issued, token ∈ s.issued ∨ token.person = person ∧ token.key = r.tokenKey)
    (hmore : ∀ token ∈ s.issued, token ∈ t.issued) : Inv t := by
  refine ⟨helevated ▸ h.once, fun token hmem hvalid => ?_, fun token hmem => ?_, fun token hmem => ?_⟩
  · rw [helevated] at hmem
    obtain ⟨r₁, hr₁, hkey₁⟩ := h.keys token (h.issued token hmem)
    obtain ⟨_, hexp, r₂, hr₂, hkey⟩ := valid_iff.mp hvalid
    rw [hrecords] at hr₂ ⊢
    have hbefore (hk : r₁.tokenKey = token.key) : valid s token = true :=
      valid_iff.mpr ⟨h.issued token hmem, Nat.lt_of_le_of_lt hnow hexp, r₁, hr₁, hk⟩
    obtain ⟨rfl, rfl⟩ | ⟨hne, hr₂⟩ := update_some_cases hr₂
    · refine ⟨r₂, update_self .., ?_⟩
      -- a new key is larger than any that a token was signed with
      have hsame : r₂.tokenKey = r₁.tokenKey := by
        obtain hsame | hlt := hrow r₁ hr₁
        · exact hsame
        · omega
      have hv := hbefore (by omega)
      obtain ⟨r₃, hr₃, hconsumed⟩ := h.flagged token hmem hv
      rw [hr₁, Option.some.injEq] at hr₃
      subst hr₃
      exact hflag r₁ hr₁ hsame hconsumed ⟨token, hmem, rfl, hv⟩
    · rw [hr₁, Option.some.injEq] at hr₂
      subst hr₂
      obtain ⟨r₃, hr₃, hconsumed⟩ := h.flagged token hmem (hbefore hkey)
      exact ⟨r₃, (update_of_ne hne ..).trans hr₃, hconsumed⟩
  · rw [helevated] at hmem
    exact hmore token (h.issued token hmem)
  · rw [hrecords]
    obtain hold | ⟨rfl, hkey⟩ := hissued token hmem
    · obtain ⟨r₁, hr₁, hle⟩ := h.keys token hold
      by_cases hp : token.person = person
      · subst hp
        refine ⟨r, update_self .., ?_⟩
        obtain hsame | hlt := hrow r₁ hr₁ <;> omega
      · exact ⟨r₁, (update_of_ne hp ..).trans hr₁, hle⟩
    · exact ⟨r, update_self .., Nat.le_of_eq hkey⟩

theorem Inv.elevate (h : Inv s) {ok : Bool} (he : elevate s token ok = .ok t) : Inv t := by
  obtain ⟨hvalid, r, hr, hconsumed, hnow, hissued, helevated, hrecords⟩ := elevate_ok he
  have hnew : token ∉ s.elevated := by
    intro hmem
    obtain ⟨r', hr', hflag⟩ := h.flagged token hmem hvalid
    rw [hr, Option.some.injEq] at hr'
    subst hr'
    exact Bool.eq_false_iff.mp hconsumed hflag
  have hself : t.records token.person = some { r with consumed := true, verified := false } := by
    rw [hrecords]
    exact update_self ..
  refine ⟨?_, fun other hmem hv => ?_, fun other hmem => ?_, fun other hmem => ?_⟩
  · rw [helevated]
    exact nodup_cons.mpr ⟨hnew, h.once⟩
  · by_cases hp : other.person = token.person
    · rw [hp]
      exact ⟨_, hself, rfl⟩
    · rw [helevated] at hmem
      obtain rfl | hmem := mem_cons.mp hmem
      · exact absurd rfl hp
      · obtain ⟨hin, hexp, r', hr', hkey⟩ := valid_iff.mp hv
        rw [hrecords, update_of_ne hp] at hr' ⊢
        refine h.flagged other hmem (valid_iff.mpr ⟨?_, ?_, r', hr', hkey⟩)
        · exact hissued ▸ hin
        · exact hnow ▸ hexp
  · rw [helevated] at hmem
    rw [hissued]
    obtain rfl | hmem := mem_cons.mp hmem
    · exact (valid_iff.mp hvalid).1
    · exact h.issued other hmem
  · rw [hissued] at hmem
    obtain ⟨r', hr', hle⟩ := h.keys other hmem
    by_cases hp : other.person = token.person
    · rw [hp, hr, Option.some.injEq] at hr'
      subst hr'
      rw [hp]
      exact ⟨_, hself, hle⟩
    · refine ⟨r', ?_, hle⟩
      rw [hrecords, update_of_ne hp]
      exact hr'

theorem resetRow_tokenKey (full : Bool) (l : Login) (row : SSOUser) :
    (resetRow full l row).tokenKey = row.tokenKey := by
  unfold resetRow
  split <;> rfl

theorem resetRow_consumed {full : Bool} {l : Login} (h : clears full l = false) (row : SSOUser) :
    (resetRow full l row).consumed = row.consumed := by
  rw [clears, Bool.or_eq_false_iff] at h
  rw [resetRow, h.1, if_neg Bool.false_ne_true, h.2]
  rfl

theorem Inv.login (h : Inv s) (n : Nat) (person email : String) (role : Option Role) (expires : Nat)
    (rekeys : Bool) : Inv { s with
      records := update s.records person (some (loginRow s person email rekeys))
      logins := update s.logins n (some ⟨person, loginRow s person email rekeys, role⟩)
      issued := ⟨person, (loginRow s person email rekeys).tokenKey, expires⟩ :: s.issued } := by
  refine h.row person (loginRow s person email rekeys) ?_ ?_ rfl (Nat.le_refl _) rfl ?_
    (fun _ => mem_cons_of_mem _)
  · intro r₀ hr₀
    cases rekeys <;> simp [loginRow, hr₀, rekeyed]
  · intro r₀ hr₀ _ hconsumed _
    cases rekeys <;> simp [loginRow, hr₀, rekeyed, hconsumed]
  · intro token hmem
    obtain rfl | hmem := mem_cons.mp hmem
    · exact .inr ⟨rfl, rfl⟩
    · exact .inl hmem

theorem Inv.rewrite (h : Inv s) {person : String} {r₀ : SSOUser} (hr₀ : s.records person = some r₀)
    (r : SSOUser) (hkey : r.tokenKey = r₀.tokenKey ∨ r₀.tokenKey < r.tokenKey)
    (hflag : r₀.consumed = true → (∃ token ∈ s.elevated, token.person = person ∧ valid s token = true) →
      r.consumed = true) (logins : Nat → Option Login) :
    Inv { s with records := update s.records person (some r), logins := logins } := by
  refine h.row person r (fun r₁ hr₁ => ?_) (fun r₁ hr₁ _ hconsumed hused => ?_) rfl (Nat.le_refl _) rfl
    (fun _ => .inl) (fun _ => id)
  · rw [hr₀, Option.some.injEq] at hr₁
    exact hr₁ ▸ hkey
  · rw [hr₀, Option.some.injEq] at hr₁
    exact hflag (hr₁ ▸ hconsumed) hused

theorem Inv.reset (h : Inv s) {n : Nat} {full : Bool} {l : Login} {row : SSOUser}
    (hl : s.logins n = some l) (hrow : s.records l.person = some row)
    (hc : Expired s (.reset n full true)) (logins : Nat → Option Login) :
    Inv { s with
      logins := logins
      records := update s.records l.person (some (resetRow full l row)) } := by
  refine h.rewrite hrow _ (.inl (resetRow_tokenKey full l row)) ?_ logins
  rintro hconsumed ⟨token, hmem, hp, hv⟩
  have hkeeps : clears full l = false := by
    rw [Bool.eq_false_iff]
    intro hclears
    exact Bool.eq_false_iff.mp (hc l hl rfl hclears token hmem hp) hv
  rw [resetRow_consumed hkeeps]
  exact hconsumed

theorem step_inv {a : Action} (h : Inv s) (hc : Expired s a) (hstep : step s a = some t) : Inv t := by
  cases a with
  | tick =>
    cases hstep
    refine ⟨h.once, fun token hmem hv => ?_, h.issued, h.keys⟩
    obtain ⟨hin, hexp, hr⟩ := valid_iff.mp hv
    exact h.flagged token hmem (valid_iff.mpr ⟨hin, Nat.lt_of_succ_lt hexp, hr⟩)
  | configure mappings =>
    cases hstep
    exact { h with }
  | login n person claims expires rekeys =>
    obtain ⟨_, hstep⟩ := Option.ite_none_left_eq_some.mp hstep
    split at hstep
    · cases hstep
      exact h
    · next email role _ =>
      cases hstep
      exact h.login n person email role expires rekeys
  | reset n full ok =>
    simp only [step] at hstep
    split at hstep
    · cases hstep
    · next l hl =>
      split at hstep
      · cases hstep
      · next row hrow =>
        split at hstep
        · next hok =>
          cases hstep
          subst hok
          exact h.reset hl hrow hc _
        · cases hstep
          exact { h with }
  | elevate token ok =>
    simp only [step, Option.some.injEq] at hstep
    cases he : elevate s token ok with
    | error e =>
      rw [he] at hstep
      subst hstep
      exact h
    | ok u =>
      rw [he] at hstep
      subst hstep
      exact h.elevate he
  | rekey person =>
    obtain ⟨r, hr, rfl⟩ := Option.map_eq_some_iff.mp hstep
    exact h.rewrite hr (rekeyed r) (.inr (Nat.lt_succ_self _)) (fun hconsumed _ => hconsumed) s.logins

theorem expired_single_use {as : List Action} (hissued : s.issued = []) (helevated : s.elevated = [])
    (hc : Meets step Expired s as) (hr : run step s as = some t) : t.elevated.Nodup := by
  have hinit : Inv s := by
    refine ⟨by rw [helevated]; exact nodup_nil, ?_, ?_, ?_⟩
    · rw [helevated]
      exact forall_mem_nil _
    · rw [helevated]
      exact forall_mem_nil _
    · rw [hissued]
      exact forall_mem_nil _
  exact (run_invariant (fun _ _ _ => step_inv) hinit hc hr).once

def server : State where
  mappings := some [("dev", some .operator)]

def loginOf (n : Nat) (rekeys : Bool) : List Action :=
  [.login n "p1" { emailVerified := some true, email := "a@b.c", groups := ["dev"] } 10 rekeys, .reset n false true]

/-- The token of the first login is exchanged, and again after a second login. -/
def exchangedTwice (rekeys : Bool) : List Action :=
  loginOf 0 false ++ [Action.elevate ⟨"p1", 0, 10⟩ true] ++ loginOf 1 rekeys ++ [Action.elevate ⟨"p1", 0, 10⟩ true]

/-- Every login that finds the row unverified changes the key. Two logins have
loaded the row when the first is saved; its token is exchanged, and again after
the second save. -/
def overlappingLogins : List Action :=
  loginOf 0 false ++ [Action.elevate ⟨"p1", 0, 10⟩ true] ++
    [Action.login 1 "p1" { emailVerified := some true, email := "a@b.c", groups := ["dev"] } 10 true,
      .login 2 "p1" { emailVerified := some true, email := "a@b.c", groups := ["dev"] } 11 false,
      .reset 1 false true, .elevate ⟨"p1", 1, 10⟩ true, .reset 2 false true,
      .elevate ⟨"p1", 1, 10⟩ true]

theorem consumed_token_elevates_again :
    (∃ t ∈ run step server (exchangedTwice false), t.elevated = [⟨"p1", 0, 10⟩, ⟨"p1", 0, 10⟩]) ∧
      ∃ t ∈ run step server overlappingLogins, t.elevated = [⟨"p1", 1, 10⟩, ⟨"p1", 1, 10⟩, ⟨"p1", 0, 10⟩] :=
  ⟨run_reaches (by decide), run_reaches (by decide)⟩

theorem rekeyed_token_used_once :
    ∃ t ∈ run step server (exchangedTwice true), t.elevated = [⟨"p1", 0, 10⟩] ∧ t.elevated.Nodup := by
  obtain ⟨t, ht, he⟩ : ∃ t ∈ run step server (exchangedTwice true), t.elevated = [⟨"p1", 0, 10⟩] :=
    run_reaches (by decide)
  exact ⟨t, ht, he, expired_single_use rfl rfl (by decide) ht⟩

end Wireops.Users.Elevation
