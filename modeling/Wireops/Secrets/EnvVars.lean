import Wireops.Lib.Crypto
import Wireops.Lib.Steps
import Wireops.Secrets.Vault

namespace Wireops.Secrets.EnvVars

open Option Lib.Crypto Lib.Flow Lib.Steps Lib.Strings Secrets.Vault

def mask : Text := "••••••••".toList

/-- The server key. The mask is not base64, so it does not decrypt. -/
structure SecretKey extends Cipher where
  decrypt_mask : decrypt mask = none

structure EnvVar where
  key : Text := []
  secret : Bool := false
  secretProvider : Text := []
  value : Text := []
  deriving DecidableEq

inductive ReferenceError where
  | empty (provider : Text)
  | vault (e : VaultError)
  | infisical (rawValue : Text)
  | notExternal (provider : Text)

inductive HookError where
  | validation (field code message : String)
  | unknownProvider (provider : Text)
  | reference (e : ReferenceError)
  | secretKey

/-- The project, the environment, the path and the name of a secret. -/
def parseInfisicalReference (rawValue : Text) : Except ReferenceError (Text × Text × Text × Text) :=
  match cutLast '#' rawValue with
  | none => .error (.infisical rawValue)
  | some (locator, secretName) =>
    if secretName = [] then .error (.infisical rawValue)
    else
      match cut "/".toList locator with
      | none => .error (.infisical rawValue)
      | some (projectID, rest) =>
        let parts := (cut "/".toList rest).getD (rest, [])
        if projectID = [] ∨ parts.1 = [] then .error (.infisical rawValue)
        else .ok (projectID, parts.1, '/' :: trimPrefix "/".toList parts.2, secretName)

def validateReference (provider rawValue : Text) : Except ReferenceError Unit :=
  if trimSpace rawValue = [] then .error (.empty provider)
  else if provider = "vault".toList then
    match parseVaultReference rawValue with
    | .error e => .error (.vault e)
    | .ok _ => .ok ()
  else if provider = "infisical".toList then (parseInfisicalReference rawValue).map (fun _ => ())
  else .error (.notExternal provider)

def validProviders : List Text := ["internal".toList, "vault".toList, "infisical".toList]

def validateSecretProvider (provider : Text) : Except HookError Unit :=
  if provider ∈ validProviders then .ok () else .error (.unknownProvider provider)

def isInternalSecretProvider (provider : Text) : Bool := provider = [] || provider = "internal".toList

def normalizeEnvVarKey (record : EnvVar) : Except HookError EnvVar :=
  if trimSpace record.key = [] then .error (.validation "key" "validation_required" "Key is required.")
  else .ok { record with key := trimSpace record.key }

def normalizeProvider (record : EnvVar) : Except HookError EnvVar :=
  if record.secretProvider ≠ [] then (validateSecretProvider record.secretProvider).map (fun _ => record)
  else if record.secret then .ok { record with secretProvider := "internal".toList }
  else .ok record

def preserveMaskedSecretValue (original record : EnvVar) : EnvVar :=
  if record.value ≠ [] ∧ record.value ≠ mask then record
  else if !original.secret then record
  else if original.value = [] then record
  else { record with value := original.value }

variable (c : Option SecretKey) (s : State) (nonce : Nat)

/-- `c` is absent when the key has not 32 bytes. -/
def encryptField (record : EnvVar) : Except HookError EnvVar :=
  match c with
  | none => .error .secretKey
  | some c =>
    if record.value = [] ∨ record.value = mask then .ok record
    else if (c.decrypt record.value).isSome then .ok record
    else .ok { record with value := c.encrypt nonce record.value }

def prepareEnvSecretRecord (original record : EnvVar) : Except HookError EnvVar := do
  let record ← normalizeEnvVarKey record
  let record ← normalizeProvider record
  if record.secret then
    if isInternalSecretProvider record.secretProvider then
      encryptField c nonce (preserveMaskedSecretValue original record)
    else
      match validateReference record.secretProvider record.value with
      | .error e => .error (.reference e)
      | .ok () => .ok record
  else .ok record

def preventEnvSecretDowngrade (original record : EnvVar) : Except HookError Unit :=
  if original.secret ∧ !record.secret then
    .error (.validation "secret" "validation_secret_downgrade" "Secrets cannot be converted to plain text.")
  else .ok ()

def orInternal (provider : Text) : Text := if provider = [] then "internal".toList else provider

def preventEnvSecretProviderChange (original record : EnvVar) : Except HookError Unit :=
  if !original.secret then .ok ()
  else if orInternal original.secretProvider ≠ orInternal record.secretProvider then
    .error (.validation "secret_provider" "validation_secret_provider_locked"
      "The secret provider cannot be changed once a secret is created.")
  else .ok ()

structure Submission where
  key : Option Text := none
  secret : Option Bool := none
  secretProvider : Option Text := none
  value : Option Text := none
  deriving DecidableEq, Repr

def Submission.apply (sub : Submission) (original : EnvVar) : EnvVar where
  key := sub.key.getD original.key
  secret := sub.secret.getD original.secret
  secretProvider := sub.secretProvider.getD original.secretProvider
  value := sub.value.getD original.value

/-- The value a request carries, if it is neither blank nor the mask. -/
def Submission.text (sub : Submission) : Option Text := sub.value.filter (fun v => v ≠ [] ∧ v ≠ mask)

def create (sub : Submission) : Except HookError EnvVar :=
  prepareEnvSecretRecord c nonce {} (sub.apply {})

def update (original : EnvVar) (sub : Submission) : Except HookError EnvVar := do
  preventEnvSecretDowngrade original (sub.apply original)
  preventEnvSecretProviderChange original (sub.apply original)
  prepareEnvSecretRecord c nonce original (sub.apply original)

/-- The row of a variable, the last text submitted for it, and the texts
submitted while it was a secret. -/
structure State where
  row : Option EnvVar := none
  last : Option Text := none
  confided : List Text := []

inductive Action where
  | create (sub : Submission) (nonce : Nat)
  | update (sub : Submission) (nonce : Nat)
  deriving DecidableEq, Repr

def Action.sub : Action → Submission
  | .create sub _ => sub
  | .update sub _ => sub

def record (sub : Submission) (row : EnvVar) : State where
  row := some row
  last := sub.text.or s.last
  confided := if row.secret then sub.text.toList ++ s.confided else s.confided

def answer : Action → Option (Except HookError EnvVar)
  | .create sub nonce => if s.row = none then some (create c nonce sub) else none
  | .update sub nonce => s.row.map (fun original => update c nonce original sub)

/-- A request that is refused leaves no trace, so it is no step. -/
def step (a : Action) : Option State :=
  match answer c s a with
  | some (.ok row) => some (record s a.sub row)
  | _ => none

def EnvVar.guarded (row : EnvVar) : Bool := row.secret && isInternalSecretProvider row.secretProvider

def opened (value : Text) : Option Text := c.bind (·.decrypt value)

/-- The value of an internal secret is empty or decrypts to the last text
submitted, and is none of the texts submitted while the row was a secret. -/
def Safe : Prop :=
  ∀ row ∈ s.row, row.guarded →
    (row.value = [] ∨ ∃ p, opened c row.value = some p ∧ s.last = some p) ∧ row.value ∉ s.confided

def StaysSafe (a : Action) : Prop := ∀ t ∈ step c s a, Safe c t

def State.original : EnvVar := s.row.getD {}

/-- A request that leaves an internal secret has the mask only in the place of a
stored secret, and a text that decrypts only as the stored secret left as it is. -/
def Clean (a : Action) : Prop :=
  (a.sub.apply s.original).guarded →
    ((a.sub.apply s.original).value = mask → s.original.secret ∧ s.original.value ≠ []) ∧
    (opened c (a.sub.apply s.original).value ≠ none → s.original.secret ∧ a.sub.value = none)

instance (c : Option SecretKey) (s : State) (a : Action) : Decidable (Clean c s a) :=
  inferInstanceAs (Decidable (_ → _))

def preserved (original : EnvVar) (value : Text) : Text :=
  if (value = [] ∨ value = mask) ∧ original.secret ∧ original.value ≠ [] then original.value else value

def cover (k : SecretKey) (nonce : Nat) (value : Text) : Text :=
  if value = [] ∨ value = mask ∨ (k.decrypt value).isSome then value else k.encrypt nonce value

section Hooks

variable {c : Option SecretKey} {k : SecretKey} {nonce : Nat} {original record row : EnvVar} {value : Text}

structure Prepared (c : Option SecretKey) (nonce : Nat) (original record row : EnvVar) : Prop where
  secret : row.secret = record.secret
  guarded : row.guarded = record.guarded
  plain : record.secret = false → row.value = record.value
  hidden : record.guarded → ∃ k, c = some k ∧ row.value = cover k nonce (preserved original record.value)

theorem normalizeEnvVarKey_ok (h : normalizeEnvVarKey record = .ok row) :
    row = { record with key := trimSpace record.key } := by
  obtain ⟨_, h⟩ := guard_ok h
  exact (Except.ok.inj h).symm

theorem normalizeProvider_ok (h : normalizeProvider record = .ok row) :
    row.secret = record.secret ∧ row.value = record.value ∧ row.guarded = record.guarded := by
  unfold normalizeProvider at h
  split at h
  · unfold validateSecretProvider at h
    split at h
    · cases h
      exact ⟨rfl, rfl, rfl⟩
    · cases h
  · rename_i hprovider
    split at h
    · cases h
      have hinternal : isInternalSecretProvider "internal".toList = isInternalSecretProvider [] := by decide
      exact ⟨rfl, rfl, by simp only [EnvVar.guarded, not_not.mp hprovider, hinternal]⟩
    · cases h
      exact ⟨rfl, rfl, rfl⟩

theorem preserveMaskedSecretValue_eq : preserveMaskedSecretValue original record =
    { record with value := preserved original record.value } := by
  unfold preserveMaskedSecretValue preserved
  by_cases hvalue : record.value ≠ [] ∧ record.value ≠ mask
  · rw [if_pos hvalue, if_neg (fun h => h.1.elim hvalue.1 hvalue.2)]
  · rw [if_neg hvalue]
    have hblank : record.value = [] ∨ record.value = mask := by
      by_contra h
      exact hvalue ⟨fun hnil => h (.inl hnil), fun hmask => h (.inr hmask)⟩
    by_cases hsecret : original.secret = true
    · by_cases hnil : original.value = []
      · simp [hsecret, hnil]
      · simp [hsecret, hnil, hblank]
    · simp [hsecret]

theorem encryptField_ok (h : encryptField c nonce record = .ok row) :
    ∃ k, c = some k ∧ row = { record with value := cover k nonce record.value } := by
  unfold encryptField at h
  split at h
  · cases h
  · rename_i k
    refine ⟨k, rfl, ?_⟩
    unfold cover
    split at h
    · rename_i hblank
      cases h
      rw [if_pos (hblank.imp_right .inl)]
    · rename_i hblank
      split at h
      · rename_i hopen
        cases h
        rw [if_pos (.inr (.inr hopen))]
      · rename_i hopen
        cases h
        rw [if_neg]
        rintro (hnil | hmask | hsome)
        · exact hblank (.inl hnil)
        · exact hblank (.inr hmask)
        · exact hopen hsome

theorem prepareEnvSecretRecord_ok (h : prepareEnvSecretRecord c nonce original record = .ok row) :
    Prepared c nonce original record row := by
  obtain ⟨named, hnamed, hrest⟩ := bind_eq_ok_iff.mp h
  obtain ⟨provided, hprovided, hlast⟩ := bind_eq_ok_iff.mp hrest
  cases normalizeEnvVarKey_ok hnamed
  obtain ⟨hsecret, hvalue, hguarded⟩ := normalizeProvider_ok hprovided
  have hguarded' : provided.guarded = record.guarded := hguarded
  split at hlast
  · rename_i hon
    split at hlast
    · rename_i hinternal
      rw [preserveMaskedSecretValue_eq] at hlast
      obtain ⟨k, hk, rfl⟩ := encryptField_ok hlast
      refine ⟨hsecret, hguarded', ?_, ?_⟩
      · intro hoff
        rw [hsecret] at hon
        exact absurd (hon.symm.trans hoff) (by decide)
      · intro _
        exact ⟨k, hk, by rw [hvalue]⟩
    · rename_i hexternal
      have hfree : record.guarded = false := by
        rw [← hguarded', EnvVar.guarded]
        simp [hexternal]
      split at hlast
      · cases hlast
      · cases hlast
        refine ⟨hsecret, hguarded', fun _ => hvalue, ?_⟩
        intro hon
        exact absurd (hfree.symm.trans hon) (by decide)
  · rename_i hoff
    cases hlast
    refine ⟨hsecret, hguarded', fun _ => hvalue, ?_⟩
    intro hon
    rw [← hguarded', EnvVar.guarded, Bool.and_eq_true] at hon
    exact absurd hon.1 hoff

theorem isInternalSecretProvider_eq {provider : Text} :
    isInternalSecretProvider provider = decide (orInternal provider = "internal".toList) := by
  unfold isInternalSecretProvider orInternal
  by_cases hp : provider = []
  · subst hp
    decide
  · rw [if_neg hp, decide_eq_false hp, Bool.false_or]

theorem update_ok {sub : Submission} (h : update c nonce original sub = .ok row) :
    Prepared c nonce original (sub.apply original) row ∧
      (original.secret = true → (sub.apply original).secret = true ∧
        (sub.apply original).guarded = original.guarded) := by
  obtain ⟨_, hdown, hrest⟩ := bind_eq_ok_iff.mp h
  obtain ⟨_, hlock, hlast⟩ := bind_eq_ok_iff.mp hrest
  refine ⟨prepareEnvSecretRecord_ok hlast, ?_⟩
  intro hsecret
  have hkept : (sub.apply original).secret = true := by
    obtain ⟨hnot, hdown⟩ := guard_ok hdown
    simpa [hsecret] using hnot
  refine ⟨hkept, ?_⟩
  have hsame : orInternal original.secretProvider = orInternal (sub.apply original).secretProvider := by
    unfold preventEnvSecretProviderChange at hlock
    rw [hsecret] at hlock
    by_contra hne
    rw [if_neg (by decide), if_pos hne] at hlock
    cases hlock
  rw [EnvVar.guarded, EnvVar.guarded, hkept, hsecret, isInternalSecretProvider_eq, isInternalSecretProvider_eq, hsame]

end Hooks

section Histories

variable {c : Option SecretKey} {s t : State} {a : Action}

structure Effect (c : Option SecretKey) (s : State) (a : Action) (t : State) : Prop where
  exists_row : ∃ nonce row, t = record s a.sub row ∧ Prepared c nonce s.original (a.sub.apply s.original) row
  locked : s.original.secret = true →
    (a.sub.apply s.original).secret = true ∧ (a.sub.apply s.original).guarded = s.original.guarded

theorem step_effect (h : step c s a = some t) : Effect c s a t := by
  unfold step at h
  split at h
  · rename_i row hanswer
    cases h
    cases a with
    | create sub nonce =>
      by_cases hrow : s.row = none
      · have horiginal : s.original = {} := by rw [State.original, hrow, getD_none]
        rw [answer, if_pos hrow] at hanswer
        refine ⟨⟨nonce, row, rfl, ?_⟩, ?_⟩
        · rw [horiginal]
          exact prepareEnvSecretRecord_ok (Option.some.inj hanswer)
        · rw [horiginal]
          intro hsecret
          cases hsecret
      · rw [answer, if_neg hrow] at hanswer
        cases hanswer
    | update sub nonce =>
      obtain ⟨original, hrow, hupdate⟩ := map_eq_some_iff.mp hanswer
      have horiginal : s.original = original := by rw [State.original, hrow, getD_some]
      subst horiginal
      obtain ⟨hprepared, hlocked⟩ := update_ok hupdate
      exact ⟨⟨nonce, row, rfl, hprepared⟩, hlocked⟩
  · cases h

structure Inv (c : Option SecretKey) (s : State) : Prop where
  plain : s.original.secret = false →
    (s.original.value = [] ∨ s.original.value = mask ∨ s.last = some s.original.value) ∧ s.confided = []
  hidden : s.original.guarded = true →
    (s.original.value = [] ∨ ∃ p, opened c s.original.value = some p ∧ s.last = some p) ∧
      ∀ t ∈ s.confided, t ≠ [] ∧ opened c t = none

theorem Inv.init : Inv c {} where
  plain _ := ⟨.inl rfl, rfl⟩
  hidden h := by cases h

theorem Inv.safe (hi : Inv c s) : Safe c s := by
  intro row hrow hguarded
  have horiginal : s.original = row := by rw [State.original, mem_def.mp hrow, getD_some]
  subst horiginal
  obtain ⟨hvalue, hconfided⟩ := hi.hidden hguarded
  refine ⟨hvalue, ?_⟩
  intro hmem
  obtain ⟨hne, hnone⟩ := hconfided _ hmem
  obtain hnil | ⟨p, hp, _⟩ := hvalue
  · exact hne hnil
  · exact absurd (hnone.symm.trans hp) (by simp)

variable {sub : Submission}

theorem text_eq_none (h : sub.value = none ∨ sub.value = some [] ∨ sub.value = some mask) : sub.text = none := by
  obtain h | h | h := h <;> simp [Submission.text, h]

variable {v : Text}

theorem text_eq_some (h : sub.value = some v) (hnil : v ≠ []) (hmask : v ≠ mask) : sub.text = some v := by
  simp [Submission.text, h, hnil, hmask]

theorem secret_of_guarded {row : EnvVar} (h : row.guarded = true) : row.secret = true :=
  (Bool.and_eq_true .. |>.mp h).1

theorem last_of_text (hi : Inv c s) (row : EnvVar)
    (hnil : (sub.apply s.original).value ≠ []) (hmask : (sub.apply s.original).value ≠ mask)
    (hnew : s.original.secret = false ∨ sub.value ≠ none) :
    (record s sub row).last = some (sub.apply s.original).value := by
  change sub.text.or s.last = _
  cases hsub : sub.value with
  | some v =>
    have hvalue : (sub.apply s.original).value = v := by rw [Submission.apply, hsub, getD_some]
    rw [hvalue] at hnil hmask ⊢
    rw [text_eq_some hsub hnil hmask, some_or]
  | none =>
    have hvalue : (sub.apply s.original).value = s.original.value := by
      rw [Submission.apply, hsub, getD_none]
    rw [hvalue] at hnil hmask ⊢
    rw [text_eq_none (.inl hsub), none_or]
    have hplain : s.original.secret = false := by
      obtain hplain | hsome := hnew
      · exact hplain
      · exact absurd hsub hsome
    obtain hempty | hsentinel | hlast := (hi.plain hplain).1
    · exact absurd hempty hnil
    · exact absurd hsentinel hmask
    · exact hlast

theorem confided_of_guarded (hi : Inv c s) (he : Effect c s a t)
    (hguarded : (a.sub.apply s.original).guarded = true) : ∀ x ∈ s.confided, x ≠ [] ∧ opened c x = none := by
  cases hsecret : s.original.secret with
  | true =>
    have hkept : s.original.guarded = true := (he.locked hsecret).2.symm.trans hguarded
    exact (hi.hidden hkept).2
  | false =>
    rw [(hi.plain hsecret).2]
    exact List.forall_mem_nil _

variable {k : SecretKey} {nonce : Nat} {original : EnvVar}

theorem cover_preserved_stored
    (hkept : v = original.value ∨ (v = [] ∨ v = mask) ∧ original.value ≠ []) (hsecret : original.secret = true)
    (hopen : original.value ≠ [] → (k.decrypt original.value).isSome = true) :
    cover k nonce (preserved original v) = original.value := by
  have hpreserved : preserved original v = original.value := by
    obtain rfl | ⟨hblank, hne⟩ := hkept
    · exact ite_self _
    · exact if_pos ⟨hblank, hsecret, hne⟩
  rw [hpreserved, cover]
  by_cases hnil : original.value = []
  · exact if_pos (.inl hnil)
  · exact if_pos (.inr (.inr (hopen hnil)))

theorem apply_value_none (original : EnvVar) (h : sub.value = none) :
    (sub.apply original).value = original.value := by
  rw [Submission.apply, h, getD_none]

theorem apply_value_some (h : sub.value = some v) : (sub.apply original).value = v := by
  rw [Submission.apply, h, getD_some]

theorem text_of_blank
    (h : (sub.apply original).value = [] ∨ (sub.apply original).value = mask) : sub.text = none := by
  cases hsub : sub.value with
  | none => exact text_eq_none (.inl hsub)
  | some v =>
    rw [apply_value_some hsub] at h
    obtain rfl | rfl := h
    · exact text_eq_none (.inr (.inl hsub))
    · exact text_eq_none (.inr (.inr hsub))

theorem text_eq_apply (original : EnvVar) {x : Text} (h : sub.text = some x) :
    x = (sub.apply original).value ∧ x ≠ [] := by
  obtain ⟨hsub, hx⟩ := filter_eq_some_iff.mp h
  rw [decide_eq_true_eq] at hx
  exact ⟨(apply_value_some hsub).symm, hx.1⟩

theorem opened_ne_blank (h : opened c v ≠ none) : v ≠ [] ∧ v ≠ mask := by
  cases c with
  | none => exact absurd rfl h
  | some k =>
    obtain ⟨p, hp⟩ := ne_none_iff_exists'.mp h
    constructor
    · rintro rfl
      exact absurd (k.length_lt _ _ hp) (Nat.not_lt_zero _)
    · rintro rfl
      exact absurd (k.decrypt_mask.symm.trans hp) (by simp)

theorem stored_secret (hi : Inv c s) (hguarded : s.original.guarded = true) (hne : s.original.value ≠ []) :
    ∃ p, opened c s.original.value = some p ∧ s.last = some p := by
  obtain hnil | h := (hi.hidden hguarded).1
  · exact absurd hnil hne
  · exact h

theorem value_of_kept (hi : Inv c s) {row : EnvVar} (hk : c = some k)
    (hvalue : row.value = cover k nonce (preserved s.original (sub.apply s.original).value))
    (hguarded : s.original.guarded = true) (hne : s.original.value ≠ []) (htext : sub.text = none)
    (hsame : (sub.apply s.original).value = s.original.value ∨
      ((sub.apply s.original).value = [] ∨ (sub.apply s.original).value = mask) ∧ s.original.value ≠ []) :
    ∃ p, opened c row.value = some p ∧ (record s sub row).last = some p := by
  obtain ⟨p, hp, hlast⟩ := stored_secret hi hguarded hne
  have hopen : (k.decrypt s.original.value).isSome = true := by
    rw [hk] at hp
    exact isSome_iff_exists.mpr ⟨p, hp⟩
  rw [hvalue, cover_preserved_stored hsame (secret_of_guarded hguarded) (fun _ => hopen)]
  exact ⟨p, hp, by rw [record, htext, none_or, hlast]⟩

theorem cover_preserved_text (hblank : ¬ (v = [] ∨ v = mask)) :
    cover k nonce (preserved original v) = if (k.decrypt v).isSome then v else k.encrypt nonce v := by
  rw [preserved, if_neg (fun h => hblank h.1), cover]
  by_cases hopen : (k.decrypt v).isSome = true
  · rw [if_pos hopen, if_pos (.inr (.inr hopen))]
  · rw [if_neg hopen, if_neg]
    rintro (hnil | hmask | hsome)
    · exact hblank (.inl hnil)
    · exact hblank (.inr hmask)
    · exact hopen hsome

theorem new_of_not_opened (hi : Inv c s) (hkept : s.original.secret = true → s.original.guarded = true)
    (hnil : (sub.apply s.original).value ≠ []) (hopen : opened c (sub.apply s.original).value = none) :
    s.original.secret = false ∨ sub.value ≠ none := by
  by_contra hold
  simp only [not_or, Bool.not_eq_false, not_not] at hold
  obtain ⟨hsecret, hsub⟩ := hold
  rw [apply_value_none _ hsub] at hnil hopen
  obtain ⟨p, hp, _⟩ := stored_secret hi (hkept hsecret) hnil
  exact absurd (hopen.symm.trans hp) (by simp)

theorem value_of_clean (hi : Inv c s) (he : Effect c s a t) (hclean : Clean c s a)
    (hguarded : (a.sub.apply s.original).guarded = true) {row : EnvVar}
    (hk : c = some k) (hvalue : row.value = cover k nonce (preserved s.original (a.sub.apply s.original).value)) :
    row.value = [] ∨ ∃ p, opened c row.value = some p ∧ (record s a.sub row).last = some p := by
  obtain ⟨hmask, hopened⟩ := hclean hguarded
  have hkept (hsecret : s.original.secret = true) : s.original.guarded = true :=
    (he.locked hsecret).2.symm.trans hguarded
  by_cases hblank : (a.sub.apply s.original).value = [] ∨ (a.sub.apply s.original).value = mask
  · by_cases hstored : s.original.secret = true ∧ s.original.value ≠ []
    · exact .inr (value_of_kept hi hk hvalue (hkept hstored.1) hstored.2 (text_of_blank hblank)
        (.inr ⟨hblank, hstored.2⟩))
    · have hnil : (a.sub.apply s.original).value = [] := by
        obtain hnil | hsentinel := hblank
        · exact hnil
        · exact absurd (hmask hsentinel) hstored
      left
      rw [hvalue, preserved, if_neg (fun h => hstored h.2), hnil]
      exact if_pos (.inl rfl)
  · right
    have hnil : (a.sub.apply s.original).value ≠ [] := fun h => hblank (.inl h)
    by_cases hopen : opened c (a.sub.apply s.original).value = none
    · refine ⟨(a.sub.apply s.original).value, ?_, last_of_text hi row hnil (fun h => hblank (.inr h))
        (new_of_not_opened hi hkept hnil hopen)⟩
      rw [hk] at hopen
      have hnone : k.decrypt (a.sub.apply s.original).value = none := hopen
      rw [hvalue, cover_preserved_text hblank, hnone, hk]
      exact k.decrypt_encrypt _ _
    · obtain ⟨hsecret, hsub⟩ := hopened hopen
      have hsame := apply_value_none s.original hsub
      rw [hsame] at hnil
      exact value_of_kept hi hk hvalue (hkept hsecret) hnil (text_eq_none (.inl hsub)) (.inl hsame)

theorem inv_step (hi : Inv c s) (hclean : Clean c s a) (h : step c s a = some t) : Inv c t := by
  have he := step_effect h
  obtain ⟨nonce, row, rfl, hprepared⟩ := he.exists_row
  refine ⟨?_, ?_⟩
  · intro hplain
    change row.secret = false at hplain
    have hnew : (a.sub.apply s.original).secret = false := hprepared.secret.symm.trans hplain
    have hold : s.original.secret = false := by
      cases hsecret : s.original.secret with
      | false => rfl
      | true => exact absurd ((he.locked hsecret).1.symm.trans hnew) (by decide)
    have hconfided : (record s a.sub row).confided = [] := by
      rw [record, hplain, (hi.plain hold).2]
      rfl
    refine ⟨?_, hconfided⟩
    change row.value = [] ∨ row.value = mask ∨ _ = some row.value
    rw [hprepared.plain hnew]
    by_cases hnil : (a.sub.apply s.original).value = []
    · exact .inl hnil
    · by_cases hmask : (a.sub.apply s.original).value = mask
      · exact .inr (.inl hmask)
      · exact .inr (.inr (last_of_text hi row hnil hmask (.inl hold)))
  · intro hhidden
    change row.guarded = true at hhidden
    have hguarded : (a.sub.apply s.original).guarded = true := hprepared.guarded.symm.trans hhidden
    obtain ⟨k, hk, hvalue⟩ := hprepared.hidden hguarded
    refine ⟨value_of_clean hi he hclean hguarded hk hvalue, ?_⟩
    intro x hx
    change x ∈ (if row.secret then a.sub.text.toList ++ s.confided else s.confided) at hx
    rw [secret_of_guarded hhidden, if_pos rfl, List.mem_append, mem_toList] at hx
    obtain hx | hx := hx
    · obtain ⟨happly, hne⟩ := text_eq_apply s.original hx
      refine ⟨hne, ?_⟩
      by_contra hopen
      rw [happly] at hopen
      have hsub := ((hclean hguarded).2 hopen).2
      rw [text_eq_none (.inl hsub)] at hx
      cases hx
    · exact confided_of_guarded hi he hguarded x hx

theorem not_safe_step (hi : Inv c s) (hclean : ¬ Clean c s a) (h : step c s a = some t) : ¬ Safe c t := by
  have he := step_effect h
  obtain ⟨nonce, row, rfl, hprepared⟩ := he.exists_row
  intro hsafe
  unfold Clean at hclean
  rw [Classical.not_imp, not_and_or, Classical.not_imp, Classical.not_imp] at hclean
  obtain ⟨hguarded, hclean⟩ := hclean
  obtain ⟨k, hk, hvalue⟩ := hprepared.hidden hguarded
  obtain ⟨hstored, _⟩ := hsafe row rfl (hprepared.guarded.trans hguarded)
  obtain ⟨hmask, hold⟩ | ⟨hopen, hold⟩ := hclean
  · have hrow : row.value = mask := by
      rw [hvalue, hmask, preserved, if_neg (fun h => hold h.2)]
      exact if_pos (.inr (.inl rfl))
    obtain hnil | ⟨p, hp, _⟩ := hstored
    · rw [hrow] at hnil
      exact absurd hnil (by decide)
    · rw [hrow] at hp
      exact (opened_ne_blank (by rw [hp]; simp)).2 rfl
  · obtain ⟨hnil, hmask⟩ := opened_ne_blank hopen
    have hnew : s.original.secret = false ∨ a.sub.value ≠ none := by
      by_contra hboth
      simp only [not_or, Bool.not_eq_false, not_not] at hboth
      exact hold hboth
    have hlast := last_of_text hi row hnil hmask hnew
    have hrow : row.value = (a.sub.apply s.original).value := by
      have hsome : (k.decrypt (a.sub.apply s.original).value).isSome = true := by
        rw [hk] at hopen
        exact isSome_iff_ne_none.mpr hopen
      rw [hvalue, cover_preserved_text (not_or.mpr ⟨hnil, hmask⟩), if_pos hsome]
    obtain hnil' | ⟨p, hp, hp'⟩ := hstored
    · exact hnil (hrow.symm.trans hnil')
    · rw [hlast] at hp'
      cases hp'
      rw [hrow, hk] at hp
      exact k.decrypt_ne_self _ hp

/-- The histories whose rows are safe all along are those of clean requests. -/
theorem staysSafe_iff_clean {as : List Action} (hr : run (step c) {} as = some t) :
    Meets (step c) (StaysSafe c) {} as ↔ Meets (step c) (Clean c) {} as := by
  have hiff (s : State) (a : Action) (t : State) (hi : Inv c s) (h : step c s a = some t) :
      Clean c s a ↔ StaysSafe c s a := by
    constructor
    · intro hclean u hu
      cases h.symm.trans hu
      exact (inv_step hi hclean h).safe
    · intro hsafe
      by_contra hclean
      exact not_safe_step hi hclean h (hsafe t h)
  exact (meets_congr hiff (fun s a t hi hclean h => inv_step hi hclean h) Inv.init hr).symm

end Histories

def markingKey : SecretKey := { marking with decrypt_mask := rfl }

def rotation : List Action :=
  [.create { key := some "TOKEN".toList, secret := some true, value := some "old".toList } 1,
    .update { value := some mask } 2, .update { value := some "new".toList } 3, .update { value := some [] } 4]

theorem rotation_staysSafe : ∃ t, run (step (some markingKey)) {} rotation = some t ∧
    Meets (step (some markingKey)) (StaysSafe (some markingKey)) {} rotation :=
  ⟨_, rfl, (staysSafe_iff_clean rfl).mpr (by decide)⟩

def conversion : List Action :=
  [.create { key := some "TOKEN".toList, value := some "hunter2".toList } 1,
    .update { secret := some true, value := some mask } 2]

/-- The mask is stored in the place of the value. -/
theorem conversion_not_safe : ∃ t, run (step (some markingKey)) {} conversion = some t ∧
    t.row = some ⟨"TOKEN".toList, true, "internal".toList, mask⟩ ∧ ¬ Safe (some markingKey) t := by
  refine ⟨_, rfl, rfl, ?_⟩
  intro h
  obtain ⟨hnil | ⟨p, hp, _⟩, _⟩ := h _ rfl rfl
  · exact absurd hnil (by decide)
  · cases hp

end Wireops.Secrets.EnvVars
