import Mathlib.Data.Finset.Card
import Wireops.Lib.Flow
import Wireops.Lib.Steps
import Wireops.Lib.Table

namespace Wireops.Users.Admins

open Function Lib.Flow Lib.Steps Lib.Table

inductive Role where
  | monitoring | viewer | operator | admin
  deriving DecidableEq, Repr

structure User where
  email : String
  name : String := ""
  role : Option Role
  disabled : Bool := false
  isProtected : Bool := false
  isSSO : Bool := false
  emailVisibility : Bool := false

def activeAdmin (u : User) : Bool := u.role = some .admin && !u.disabled

inductive Refusal where
  | onlyAdmins | invalidRole | demoted | disabled | lastAdmin | lastDemoted | lastDisabled | validate
  | saveFailed
  deriving DecidableEq

section Checks

variable (original record : User)

def roleChanged : Bool := record.role ≠ original.role

def disabledChanged : Bool := record.disabled ≠ original.disabled

/-- The request disables or demotes an admin that was active. -/
def takesAdmin : Bool :=
  activeAdmin original && (disabledChanged original record && record.disabled ||
    roleChanged original record && record.role ≠ some .admin)

/-- The checks of the hook on record updates. The new record says whether the
user is protected, and a failed count lets the request pass. -/
def hookCheck (byAdmin : Bool) (count : Option Nat) : Except Refusal Unit :=
  if roleChanged original record && !byAdmin then .error .onlyAdmins
  else if record.isProtected && roleChanged original record && record.role ≠ some .admin then
    .error .demoted
  else if record.isProtected && disabledChanged original record && record.disabled then .error .disabled
  else if takesAdmin original record && count.any (· ≤ 1) then .error .lastAdmin
  else .ok ()

end Checks

def requireOther (why : Refusal) : Option Nat → Except Refusal Unit
  | none => .error .validate
  | some n => if n ≤ 1 then .error why else .ok ()

/-- The body of the custom route. The role is the normalized one, none if it is
invalid. -/
structure Body where
  name : Option String := none
  role : Option (Option Role) := none
  disabled : Option Bool := none
  deriving DecidableEq, Repr

variable (body : Body) (s : State)

def countsRole (u : User) : Bool :=
  match body.role with
  | some (some role) => u.role = some .admin && role ≠ .admin
  | _ => false

def updateRole (u : User) (count : Option Nat) : Except Refusal User :=
  match body.role with
  | none => .ok u
  | some none => .error .invalidRole
  | some (some role) =>
    if u.isProtected && role ≠ .admin then .error .demoted
    else if u.role = some .admin && role ≠ .admin then do
      requireOther .lastDemoted count
      .ok { u with role := some role }
    else .ok { u with role := some role }

def countsDisabled (u : User) : Bool := body.disabled = some true && u.role = some .admin

def updateDisabled (u : User) (count : Option Nat) : Except Refusal User :=
  match body.disabled with
  | none => .ok u
  | some disabled =>
    if u.isProtected && disabled then .error .disabled
    else if disabled && u.role = some .admin then do
      requireOther .lastDisabled count
      .ok { u with disabled := disabled }
    else .ok { u with disabled := disabled }

structure Patch where
  email : Option String := none
  name : Option String := none
  role : Option (Option Role) := none
  disabled : Option Bool := none
  isProtected : Option Bool := none
  isSSO : Option Bool := none
  emailVisibility : Option Bool := none
  deriving DecidableEq, Repr

def Patch.apply (p : Patch) (u : User) : User where
  email := p.email.getD u.email
  name := p.name.getD u.name
  role := p.role.getD u.role
  disabled := p.disabled.getD u.disabled
  isProtected := p.isProtected.getD u.isProtected
  isSSO := p.isSSO.getD u.isSSO
  emailVisibility := p.emailVisibility.getD u.emailVisibility

structure SSORecord where
  email : String
  name : String := ""
  role : Role
  deriving DecidableEq, Repr

/-- What an elevation makes of the user it found. -/
def elevated (sso : SSORecord) (u : User) : User :=
  { u with role := some sso.role, isSSO := true, emailVisibility := true }

def provisioned (sso : SSORecord) : User where
  email := sso.email
  name := sso.name
  role := some sso.role
  isSSO := true
  emailVisibility := true

inductive Kind where
  | hook (byAdmin : Bool)
  | route (body : Body)
  | elevation
  deriving DecidableEq

inductive Phase where
  | check | checkDisabled | save | saved
  | refused (why : Refusal)
  deriving DecidableEq

/-- A request in progress: the row as loaded, the row it is about to save, and
the admins it counted. -/
structure Request where
  kind : Kind
  id : String
  original : User
  record : User
  counted : Finset String := ∅
  phase : Phase

structure State where
  ids : Finset String
  user : String → User
  requests : Nat → Option Request := fun _ => none

def admins : Finset String := s.ids.filter (fun id => activeAdmin (s.user id) = true)

def column {α : Type} [DecidableEq α] (f : User → α) (r : Request) (row : User) : α :=
  if f r.record = f r.original then f row else f r.record

/-- The row after a save. The database layer may write all columns as loaded or
only the changed ones. -/
def written (full : Bool) (r : Request) (row : User) : User :=
  if full then r.record
  else
    { email := column User.email r row
      name := column User.name r row
      role := column User.role r row
      disabled := column User.disabled r row
      isProtected := column User.isProtected r row
      isSSO := column User.isSSO r row
      emailVisibility := column User.emailVisibility r row }

/-- The steps of requests: each reads or writes the table at most once. A count
and a save may fail. -/
inductive Action where
  | findRecord (n : Nat) (id : String) (patch : Patch) (byAdmin : Bool)
  | findUser (n : Nat) (id : String) (body : Body)
  | findSSO (n : Nat) (id : String) (sso : SSORecord)
  | provision (id : String) (sso : SSORecord)
  | check (n : Nat) (counted : Bool)
  | save (n : Nat) (full ok : Bool)
  deriving DecidableEq, Repr

def State.put (n : Nat) (r : Request) : State :=
  { s with requests := update s.requests n (some r) }

def begin (n : Nat) (r : Request) : Option State :=
  if s.requests n = none ∧ r.id ∈ s.ids then some (s.put n r) else none

def checked (r : Request) (ok : Bool) : Option Request :=
  let count := if ok then some (admins s).card else none
  match r.kind, r.phase with
  | .hook byAdmin, .check =>
    match hookCheck r.original r.record byAdmin count with
    | .error why => some { r with phase := .refused why }
    | .ok () =>
      some { r with phase := .save, counted := if takesAdmin r.original r.record then admins s else ∅ }
  | .route body, .check =>
    match updateRole body r.record count with
    | .error why => some { r with phase := .refused why }
    | .ok u =>
      some { r with
        phase := .checkDisabled, record := u
        counted := if countsRole body r.record then admins s else ∅ }
  | .route body, .checkDisabled =>
    match updateDisabled body r.record count with
    | .error why => some { r with phase := .refused why }
    | .ok u =>
      some { r with
        phase := .save, record := u
        counted := if countsDisabled body r.record then admins s else r.counted }
  | _, _ => none

def saved (s : State) (n : Nat) (r : Request) (full : Bool) : State :=
  { ids := s.ids
    user := update s.user r.id (written full r (s.user r.id))
    requests := update s.requests n (some { r with phase := .saved }) }

def added (id : String) (sso : SSORecord) : State :=
  { s with ids := insert id s.ids, user := update s.user id (provisioned sso) }

def step : Action → Option State
  | .findRecord n id patch byAdmin =>
    let u := s.user id
    begin s n { kind := .hook byAdmin, id, original := u, record := patch.apply u, phase := .check }
  | .findUser n id body =>
    let u := s.user id
    begin s n
      { kind := .route body, id, original := u, record := { u with name := body.name.getD u.name }
        phase := .check }
  | .findSSO n id sso =>
    let u := s.user id
    if u.email = sso.email then
      begin s n { kind := .elevation, id, original := u, record := elevated sso u, phase := .save }
    else none
  | .provision id sso =>
    if id ∈ s.ids ∨ ∃ other ∈ s.ids, (s.user other).email = sso.email then none
    else some (added s id sso)
  | .check n ok =>
    match s.requests n with
    | none => none
    | some r => (checked s r ok).map (s.put n)
  | .save n full ok =>
    match s.requests n with
    | none => none
    | some r =>
      if r.phase ≠ .save then none
      else if ok then some (saved s n r full)
      else some (s.put n { r with phase := .refused .saveFailed })

variable {s t : State} {r r' : Request} {n : Nat} {id : String}

theorem mem_admins : id ∈ admins s ↔ id ∈ s.ids ∧ activeAdmin (s.user id) = true := Finset.mem_filter

theorem activeAdmin_iff {u : User} : activeAdmin u = true ↔ u.role = some .admin ∧ u.disabled = false := by
  rw [activeAdmin, Bool.and_eq_true, decide_eq_true_eq, Bool.not_eq_true']

theorem activeAdmin_congr {u v : User} (hr : u.role = v.role) (hd : u.disabled = v.disabled) :
    activeAdmin u = activeAdmin v := by
  rw [activeAdmin, activeAdmin, hr, hd]

/-- A request that would end an active admin is for a user who is not protected,
and has counted another one. -/
def Guarded (r : Request) : Prop :=
  activeAdmin r.original = true → activeAdmin r.record = false → r.original.isProtected = false ∧ 1 < r.counted.card

section Checks

variable {original record u u' : User} {body : Body} {count : Option Nat} {byAdmin : Bool}

theorem takesAdmin_of_lost (ho : activeAdmin original = true) (hr : activeAdmin record = false) :
    takesAdmin original record = true := by
  obtain ⟨hrole, hdisabled⟩ := activeAdmin_iff.mp ho
  simp only [takesAdmin, disabledChanged, roleChanged, ho, hrole, hdisabled, Bool.true_and]
  cases hd : record.disabled with
  | true => simp
  | false =>
    have hne : record.role ≠ some .admin := by
      intro h
      rw [activeAdmin_iff.mpr ⟨h, hd⟩] at hr
      cases hr
    simp [hne]

theorem hookCheck_lost (h : hookCheck original record byAdmin count = .ok ())
    (ho : activeAdmin original = true) (hr : activeAdmin record = false) :
    record.isProtected = false ∧ count.any (· ≤ 1) = false := by
  have htakes := takesAdmin_of_lost ho hr
  obtain ⟨_, h⟩ := guard_ok h
  obtain ⟨hdemoted, h⟩ := guard_ok h
  obtain ⟨hdisabled, h⟩ := guard_ok h
  obtain ⟨hcount, _⟩ := guard_ok h
  rw [htakes, Bool.true_and, Bool.not_eq_true] at hcount
  refine ⟨?_, hcount⟩
  rw [takesAdmin, ho, Bool.true_and, Bool.or_eq_true] at htakes
  by_contra hprot
  rw [Bool.not_eq_false] at hprot
  rw [hprot, Bool.true_and] at hdemoted hdisabled
  exact htakes.elim hdisabled hdemoted

theorem requireOther_ok {why : Refusal} {x : Unit} (h : requireOther why count = .ok x) : ∃ n ∈ count, 1 < n := by
  cases count with
  | none => cases h
  | some n =>
    obtain ⟨hlt, _⟩ := guard_ok h
    exact ⟨n, rfl, Nat.lt_of_not_le hlt⟩

theorem updateRole_ok (h : updateRole body u count = .ok u') :
    u'.disabled = u.disabled ∧ u'.isProtected = u.isProtected ∧ (activeAdmin u = true → activeAdmin u' = false →
        u.isProtected = false ∧ countsRole body u = true ∧ ∃ n ∈ count, 1 < n) := by
  unfold updateRole at h
  split at h
  · cases h
    exact ⟨rfl, rfl, fun ha hn => absurd (ha.symm.trans hn) (by decide)⟩
  · cases h
  · next role hrole =>
    obtain ⟨hprot, h⟩ := guard_ok h
    split at h
    · next hcounts =>
      obtain ⟨_, hother, h⟩ := bind_eq_ok_iff.mp h
      cases h
      refine ⟨rfl, rfl, fun _ _ => ⟨?_, ?_, requireOther_ok hother⟩⟩
      · rw [Bool.and_eq_true] at hcounts
        rw [hcounts.2, Bool.and_true, Bool.not_eq_true] at hprot
        exact hprot
      · rw [countsRole, hrole]
        exact hcounts
    · next hcounts =>
      cases h
      refine ⟨rfl, rfl, fun ha hn => absurd ?_ hcounts⟩
      obtain ⟨hadmin, hdisabled⟩ := activeAdmin_iff.mp ha
      rw [hadmin, decide_eq_true rfl, Bool.true_and, decide_eq_true_eq]
      rintro rfl
      exact Bool.eq_false_iff.mp hn (activeAdmin_iff.mpr ⟨rfl, hdisabled⟩)

theorem updateDisabled_ok (h : updateDisabled body u count = .ok u') : u'.isProtected = u.isProtected ∧
      (activeAdmin u' = false → countsDisabled body u = false ∧ activeAdmin u = false ∨
        u.isProtected = false ∧ countsDisabled body u = true ∧ ∃ n ∈ count, 1 < n) := by
  unfold updateDisabled at h
  split at h
  · next hnone =>
    cases h
    have hno : countsDisabled body u = false := by
      rw [countsDisabled, hnone]
      rfl
    exact ⟨rfl, fun hlost => .inl ⟨hno, hlost⟩⟩
  · next disabled hsome =>
    obtain ⟨hprot, h⟩ := guard_ok h
    split at h
    · next hcounts =>
      obtain ⟨_, hother, h⟩ := bind_eq_ok_iff.mp h
      cases h
      rw [Bool.and_eq_true] at hcounts
      refine ⟨rfl, fun _ => .inr ⟨?_, ?_, requireOther_ok hother⟩⟩
      · rw [hcounts.1, Bool.and_true, Bool.not_eq_true] at hprot
        exact hprot
      · rw [countsDisabled, hsome, hcounts.1, hcounts.2]
        rfl
    · next hcounts =>
      cases h
      rw [Bool.not_eq_true] at hcounts
      have hno : countsDisabled body u = false := by
        rw [countsDisabled, hsome]
        cases disabled with
        | false => rfl
        | true => exact hcounts
      refine ⟨rfl, fun hlost => .inl ⟨hno, Bool.eq_false_iff.mpr (fun ha => ?_)⟩⟩
      obtain ⟨hadmin, _⟩ := activeAdmin_iff.mp ha
      rw [hadmin, decide_eq_true rfl, Bool.and_true] at hcounts
      exact Bool.eq_false_iff.mp hlost (activeAdmin_iff.mpr ⟨hadmin, hcounts⟩)

end Checks

/-- What is known of a request when it gets to its next check or its save. -/
def Stage (r : Request) : Prop :=
  match r.kind, r.phase with
  | .hook _, .save => Guarded r
  | .route _, .check =>
    r.record.role = r.original.role ∧ r.record.disabled = r.original.disabled ∧
      r.record.isProtected = r.original.isProtected
  | .route _, .checkDisabled => r.record.isProtected = r.original.isProtected ∧ Guarded r
  | .route _, .save => Guarded r
  | _, _ => True

structure Sound (s : State) (r : Request) : Prop where
  mem : r.id ∈ s.ids
  shielded : r.original.isProtected = true → r.record.isProtected = true
  stage : Stage r

def Kind.isHook : Kind → Bool
  | .hook _ => true
  | _ => false

variable {ok : Bool}

theorem card_of_counted
    (h : ∃ n ∈ (if ok = true then some (admins s).card else none), 1 < n) : 1 < (admins s).card := by
  obtain ⟨n, hn, hlt⟩ := h
  split at hn
  · cases hn
    exact hlt
  · cases hn

theorem Sound.refused (h : Sound s r) (why : Refusal) : Sound s { r with phase := .refused why } := by
  refine ⟨h.mem, h.shielded, ?_⟩
  cases r.kind <;> trivial

theorem hook_guarded {byAdmin : Bool} (h : Sound s r)
    (hcheck : hookCheck r.original r.record byAdmin (some (admins s).card) = .ok ())
    (ho : activeAdmin r.original = true) (hr : activeAdmin r.record = false) :
    r.original.isProtected = false ∧ 1 < (admins s).card := by
  obtain ⟨hprot, hcount⟩ := hookCheck_lost hcheck ho hr
  refine ⟨Bool.eq_false_iff.mpr (fun hp => ?_), ?_⟩
  · exact Bool.eq_false_iff.mp hprot (h.shielded hp)
  · simpa using hcount

theorem role_guarded {body : Body} {u : User}
    (hrole : r.record.role = r.original.role) (hdisabled : r.record.disabled = r.original.disabled)
    (hsame : r.record.isProtected = r.original.isProtected)
    (hu : updateRole body r.record (if ok = true then some (admins s).card else none) = .ok u) :
    Guarded { r with
      phase := .checkDisabled, record := u
      counted := if countsRole body r.record then admins s else ∅ } := by
  intro ho hr
  have ha : activeAdmin r.record = true := (activeAdmin_congr hrole hdisabled).trans ho
  obtain ⟨hfree, hcounts, hcount⟩ := (updateRole_ok hu).2.2 ha hr
  rw [hcounts, if_pos rfl]
  exact ⟨hsame.symm.trans hfree, card_of_counted hcount⟩

theorem disabled_guarded {body : Body} {u : User}
    (hsame : r.record.isProtected = r.original.isProtected) (hguarded : Guarded r)
    (hu : updateDisabled body r.record (if ok = true then some (admins s).card else none) = .ok u) :
    Guarded { r with
      phase := .save, record := u
      counted := if countsDisabled body r.record then admins s else r.counted } := by
  intro ho hr
  obtain ⟨hno, hbefore⟩ | ⟨hfree, hcounts, hcount⟩ := (updateDisabled_ok hu).2 hr
  · rw [hno, if_neg Bool.false_ne_true]
    exact hguarded ho hbefore
  · rw [hcounts, if_pos rfl]
    exact ⟨hsame.symm.trans hfree, card_of_counted hcount⟩

theorem checked_sound (h : Sound s r) (hc : checked s r ok = some r')
    (hok : r.kind.isHook = true → takesAdmin r.original r.record = true → ok = true) : Sound s r' := by
  have hstage := h.stage
  unfold checked at hc
  unfold Stage at hstage
  dsimp only at hc
  split at hc
  · next byAdmin hkind hphase =>
    split at hc
    · cases hc
      exact h.refused _
    · next hcheck =>
      cases hc
      refine ⟨h.mem, h.shielded, ?_⟩
      simp only [hkind]
      intro ho hr
      have htakes := takesAdmin_of_lost ho hr
      rw [hok (by rw [hkind]; rfl) htakes, if_pos rfl] at hcheck
      dsimp only
      rw [if_pos htakes]
      exact hook_guarded h hcheck ho hr
  · next body hkind hphase =>
    rw [hkind, hphase] at hstage
    obtain ⟨hrole, hdisabled, hsame⟩ := hstage
    split at hc
    · cases hc
      exact h.refused _
    · next u hu =>
      cases hc
      have hprot := (updateRole_ok hu).2.1
      refine ⟨h.mem, fun hp => hprot.trans (h.shielded hp), ?_⟩
      simp only [hkind]
      exact ⟨hprot.trans hsame, role_guarded hrole hdisabled hsame hu⟩
  · next body hkind hphase =>
    rw [hkind, hphase] at hstage
    split at hc
    · cases hc
      exact h.refused _
    · next u hu =>
      cases hc
      have hprot := (updateDisabled_ok hu).1
      refine ⟨h.mem, fun hp => hprot.trans (h.shielded hp), ?_⟩
      simp only [hkind]
      exact disabled_guarded hstage.1 hstage.2 hu
  · cases hc

/-- Nothing that the request has decided by was changed since: neither its row
nor the admins it counted. -/
structure Undisturbed (s : State) (r : Request) : Prop where
  role : (s.user r.id).role = r.original.role
  disabled : (s.user r.id).disabled = r.original.disabled
  isProtected : (s.user r.id).isProtected = r.original.isProtected
  counted : r.counted ⊆ admins s

instance (s : State) (r : Request) : Decidable (Undisturbed s r) :=
  decidable_of_iff
    ((s.user r.id).role = r.original.role ∧ (s.user r.id).disabled = r.original.disabled ∧
      (s.user r.id).isProtected = r.original.isProtected ∧ r.counted ⊆ admins s)
    ⟨fun h => ⟨h.1, h.2.1, h.2.2.1, h.2.2.2⟩, fun h => ⟨h.role, h.disabled, h.isProtected, h.counted⟩⟩

/-- An elevation that takes the admin role finds what the other writers ask for. -/
def Spares (s : State) (r : Request) : Prop :=
  r.kind = .elevation → activeAdmin (s.user r.id) = true → activeAdmin r.record = false →
    (s.user r.id).isProtected = false ∧ 1 < (admins s).card

instance (s : State) (r : Request) : Decidable (Spares s r) :=
  inferInstanceAs (Decidable (_ → _ → _ → _))

/-- No request to the record API takes the protection from a user, the counts of
its hook succeed, and a save finds what its request has decided by. -/
def Considerate (s : State) : Action → Prop
  | .findRecord _ id patch _ => patch.isProtected = some false → (s.user id).isProtected = false
  | .check n ok =>
    ∀ r ∈ s.requests n, r.kind.isHook = true → takesAdmin r.original r.record = true → ok = true
  | .save n _ _ => ∀ r ∈ s.requests n, Undisturbed s r ∧ Spares s r
  | _ => True

instance (s : State) (a : Action) : Decidable (Considerate s a) := by
  unfold Considerate
  split <;> infer_instance

section Save

variable {row : User} {full : Bool}

theorem column_eq_of_loaded {α : Type} [DecidableEq α] {f : User → α} (h : f row = f r.original) :
    column f r row = f r.record := by
  unfold column
  split
  · next heq => rw [h, heq]
  · rfl

theorem Undisturbed.written (h : Undisturbed s r) (full : Bool) :
    activeAdmin (written full r (s.user r.id)) = activeAdmin r.record ∧
      (Admins.written full r (s.user r.id)).isProtected = r.record.isProtected := by
  cases full with
  | true => exact ⟨rfl, rfl⟩
  | false =>
    refine ⟨activeAdmin_congr ?_ ?_, column_eq_of_loaded h.isProtected⟩
    · exact column_eq_of_loaded h.role
    · exact column_eq_of_loaded h.disabled

theorem saved_user_self : (saved s n r full).user r.id = written full r (s.user r.id) :=
  update_self ..

theorem saved_user_of_ne (h : id ≠ r.id) : (saved s n r full).user id = s.user id :=
  update_of_ne h ..

theorem mem_admins_saved (hm : r.id ∈ s.ids) : id ∈ admins (saved s n r full) ↔
    if id = r.id then activeAdmin (written full r (s.user r.id)) = true else id ∈ admins s := by
  rw [mem_admins]
  by_cases hid : id = r.id
  · subst hid
    rw [if_pos rfl, saved_user_self]
    exact and_iff_right hm
  · rw [if_neg hid, saved_user_of_ne hid, mem_admins]
    rfl

theorem Undisturbed.spares (h : Undisturbed s r) (hs : Sound s r) (hp : r.phase = .save)
    (he : Spares s r) (ha : activeAdmin (s.user r.id) = true) (hn : activeAdmin r.record = false) :
    (s.user r.id).isProtected = false ∧ 1 < (admins s).card := by
  have ho : activeAdmin r.original = true := (activeAdmin_congr h.role h.disabled).symm.trans ha
  have hguarded (hg : Guarded r) : (s.user r.id).isProtected = false ∧ 1 < (admins s).card := by
    obtain ⟨hfree, hcard⟩ := hg ho hn
    exact ⟨h.isProtected.trans hfree, Nat.lt_of_lt_of_le hcard (Finset.card_le_card h.counted)⟩
  have hstage := hs.stage
  unfold Stage at hstage
  cases hkind : r.kind with
  | hook | route =>
    rw [hkind, hp] at hstage
    exact hguarded hstage
  | elevation => exact he hkind ha hn

end Save

/-- The users that were protected active admins at the start are so still. -/
structure Inv (initial : Finset String) (s : State) : Prop where
  active : (admins s).Nonempty
  kept : ∀ id ∈ initial, id ∈ admins s ∧ (s.user id).isProtected = true
  requests : ∀ n r, s.requests n = some r → Sound s r

variable {initial : Finset String}

theorem Inv.put (h : Inv initial s) (hr : Sound s r) : Inv initial (s.put n r) := by
  refine ⟨h.active, h.kept, forall_update_some (fun m q hq => ?_) { hr with }⟩
  have hq := h.requests m q hq
  exact { hq with }

theorem Inv.begin (h : Inv initial s) (hb : begin s n r = some t) (hs : r.id ∈ s.ids → Sound s r) :
    Inv initial t := by
  obtain ⟨hfree, ⟨⟩⟩ := Option.ite_none_right_eq_some.mp hb
  exact h.put (hs hfree.2)

theorem Inv.saved (h : Inv initial s) (hr : s.requests n = some r) (hp : r.phase = .save)
    (hu : Undisturbed s r) (he : Spares s r) (full : Bool) : Inv initial (saved s n r full) := by
  have hsound := h.requests n r hr
  obtain ⟨hactive, hprot⟩ := hu.written full
  -- a user other than the row's keeps its state, and so does an initial admin
  have hspared (hn : activeAdmin r.record = false) {id : String} (hid : id ∈ initial) : id ≠ r.id := by
    rintro rfl
    obtain ⟨hmem, hp'⟩ := h.kept _ hid
    have hfree := (hu.spares hsound hp he (mem_admins.mp hmem).2 hn).1
    exact Bool.eq_false_iff.mp hfree hp'
  refine ⟨?_, fun id hid => ⟨?_, ?_⟩, fun m q hq => ?_⟩
  · by_cases hn : activeAdmin r.record = true
    · refine ⟨r.id, (mem_admins_saved hsound.mem).mpr ?_⟩
      rw [if_pos rfl, hactive]
      exact hn
    · rw [Bool.not_eq_true] at hn
      have hother : ∃ id ∈ admins s, id ≠ r.id := by
        by_cases ha : activeAdmin (s.user r.id) = true
        · exact Finset.exists_mem_ne (hu.spares hsound hp he ha hn).2 r.id
        · obtain ⟨id, hid⟩ := h.active
          refine ⟨id, hid, ?_⟩
          rintro rfl
          exact ha (mem_admins.mp hid).2
      obtain ⟨id, hid, hne⟩ := hother
      refine ⟨id, (mem_admins_saved hsound.mem).mpr ?_⟩
      rw [if_neg hne]
      exact hid
  · rw [mem_admins_saved hsound.mem]
    split
    · next heq =>
      rw [hactive]
      by_contra hn
      rw [Bool.not_eq_true] at hn
      exact hspared hn hid heq
    · exact (h.kept id hid).1
  · by_cases heq : id = r.id
    · subst heq
      have hrow := (h.kept _ hid).2
      rw [hu.isProtected] at hrow
      rw [saved_user_self, hprot]
      exact hsound.shielded hrow
    · rw [saved_user_of_ne heq]
      exact (h.kept id hid).2
  · obtain ⟨_, rfl⟩ | ⟨_, hq⟩ := update_some_cases hq
    · refine ⟨hsound.mem, hsound.shielded, ?_⟩
      cases r.kind <;> trivial
    · have hq := h.requests m q hq
      exact { hq with }

theorem Inv.added (h : Inv initial s) {sso : SSORecord} (hid : id ∉ s.ids) : Inv initial (added s id sso) := by
  have huser {other : String} (ho : other ∈ admins s) : (Admins.added s id sso).user other = s.user other := by
    refine update_of_ne ?_ _ _
    rintro rfl
    exact hid (mem_admins.mp ho).1
  have hadmins {other : String} (ho : other ∈ admins s) : other ∈ admins (Admins.added s id sso) := by
    rw [mem_admins, huser ho]
    exact ⟨Finset.mem_insert_of_mem (mem_admins.mp ho).1, (mem_admins.mp ho).2⟩
  refine ⟨h.active.imp (fun _ => hadmins), fun other ho => ?_, fun m q hq => ?_⟩
  · obtain ⟨hmem, hprot⟩ := h.kept other ho
    rw [huser hmem]
    exact ⟨hadmins hmem, hprot⟩
  · have hq := h.requests m q hq
    exact ⟨Finset.mem_insert_of_mem hq.mem, hq.shielded, hq.stage⟩

theorem step_inv {a : Action} (h : Inv initial s) (hc : Considerate s a) (hstep : step s a = some t) :
    Inv initial t := by
  cases a with
  | findRecord n id patch byAdmin =>
    refine h.begin hstep (fun hm => ⟨hm, fun hp => ?_, trivial⟩)
    change patch.isProtected.getD (s.user id).isProtected = true
    cases hpatch : patch.isProtected with
    | none => exact hp
    | some b =>
      cases b with
      | true => rfl
      | false => exact absurd hp (Bool.eq_false_iff.mp (hc hpatch))
  | findUser n id body => exact h.begin hstep (fun hm => ⟨hm, fun hp => hp, rfl, rfl, rfl⟩)
  | findSSO n id sso =>
    obtain ⟨_, hstep⟩ := Option.ite_none_right_eq_some.mp hstep
    exact h.begin hstep (fun hm => ⟨hm, fun hp => hp, trivial⟩)
  | provision id sso =>
    obtain ⟨hnew, ⟨⟩⟩ := Option.ite_none_left_eq_some.mp hstep
    exact h.added (not_or.mp hnew).1
  | check n ok =>
    simp only [step] at hstep
    split at hstep
    · cases hstep
    · next r hr =>
      obtain ⟨r', hchecked, rfl⟩ := Option.map_eq_some_iff.mp hstep
      exact h.put (checked_sound (h.requests n r hr) hchecked (hc r hr))
  | save n full ok =>
    simp only [step] at hstep
    split at hstep
    · cases hstep
    · next r hr =>
      obtain ⟨hp, hstep⟩ := Option.ite_none_left_eq_some.mp hstep
      split at hstep
      · cases hstep
        obtain ⟨hu, he⟩ := hc r hr
        exact h.saved hr (not_not.mp hp) hu he full
      · cases hstep
        exact h.put ((h.requests n r hr).refused _)

def initialAdmins (s : State) : Finset String :=
  (admins s).filter (fun id => (s.user id).isProtected = true)

theorem considerate_keeps_admins {as : List Action} (hnew : ∀ n, s.requests n = none)
    (hactive : (admins s).Nonempty) (hc : Meets step Considerate s as) (hr : run step s as = some t) :
    (admins t).Nonempty ∧ initialAdmins s ⊆ admins t := by
  have hinit : Inv (initialAdmins s) s := by
    refine ⟨hactive, fun id hid => Finset.mem_filter.mp hid, fun n r hreq => ?_⟩
    rw [hnew n] at hreq
    cases hreq
  have hinv : Inv (initialAdmins s) t := run_invariant (fun _ _ _ => step_inv) hinit hc hr
  exact ⟨hinv.active, fun id hid => (hinv.kept id hid).1⟩

def staff (isProtected second : Bool) : State where
  ids := if second then {"root", "ops"} else {"root"}
  user id := { email := id, role := some .admin, isProtected := isProtected && id = "root" }

/-- Each of the two admins demotes the other. -/
def eachOther : List Action :=
  [.findUser 0 "root" { role := some (some .viewer) }, .findUser 1 "ops" { role := some (some .viewer) },
    .check 0 true, .check 1 true, .check 0 true, .check 1 true, .save 0 false true, .save 1 false true]

/-- The first admin logs in through SSO with the groups of a viewer. -/
def elevation : List Action :=
  [.findSSO 0 "root" { email := "root", role := .viewer }, .save 0 false true]

theorem admins_lost :
    (∃ t ∈ run step (staff true false) elevation, initialAdmins (staff true false) = {"root"} ∧ admins t = ∅) ∧
      ∃ t ∈ run step (staff false true) eachOther, (admins (staff false true)).card = 2 ∧ admins t = ∅ :=
  ⟨run_reaches (by decide), run_reaches (by decide)⟩

def restored : List Action :=
  [.findRecord 0 "ops" { role := some (some .viewer) } true, .check 0 true, .save 0 true true,
    .findSSO 1 "ops" { email := "ops", role := .admin }, .save 1 false true]

theorem restored_keeps_admins : ∃ t ∈ run step (staff true true) restored,
      (admins t).Nonempty ∧ initialAdmins (staff true true) ⊆ admins t := by
  obtain ⟨t, ht, _⟩ : ∃ t ∈ run step (staff true true) restored, (admins t).card = 2 :=
    run_reaches (by decide)
  exact ⟨t, ht, considerate_keeps_admins (fun _ => rfl) (by decide) (by decide) ht⟩

end Wireops.Users.Admins
