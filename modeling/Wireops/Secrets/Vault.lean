import Wireops.Lib.Descent
import Wireops.Lib.Flow
import Wireops.Policy.Compose

namespace Wireops.Secrets.Vault

open List Lib.Strings Lib.Paths Lib.Descent Lib.Flow Policy.Compose

inductive VaultError where
  | invalid (rawValue : Text)
  | config
  | disabled
  | missing
  | client
  | mount (mount allowedMount : Text)
  | read (path : Text)
  | noSecret (path : Text)
  | noEnvelope (path : Text)
  | noField (field path : Text)
  | notString (field path : Text)
  deriving DecidableEq

/-- The path of the Vault address; a URL with a host has none or one that
starts with a slash. -/
structure BasePath where
  path : Text
  valid : path = [] ∨ rooted path = true

/-- A connection to Vault. No allowed mount means no restriction. -/
structure Conn where
  base : BasePath
  allowedMount : Text

/-- The row of the integrations collection. -/
structure Instance where
  enabled : Bool
  address : Text
  token : Text
  allowedMount : Text

def buildVaultClient (parseAddress : Text → Option BasePath) (load : Option Instance) : Except VaultError Conn :=
  match load with
  | none => .error .config
  | some i =>
    if !i.enabled then .error .disabled
    else if i.address = [] ∨ i.token = [] then .error .missing
    else
      match parseAddress i.address with
      | none => .error .client
      | some base => .ok ⟨base, trim (· = '/') i.allowedMount⟩

def parseVaultReference (rawValue : Text) : Except VaultError (Text × Text) :=
  match cutLast '#' rawValue with
  | none => .error (.invalid rawValue)
  | some (mountPath, field) =>
    if mountPath = [] ∨ field = [] then .error (.invalid rawValue)
    else
      match cut "/data/".toList mountPath with
      | none => .error (.invalid rawValue)
      | some (mount, secretPath) =>
        if mount = [] ∨ secretPath = [] then .error (.invalid rawValue)
        else .ok (mountPath, field)

/-- The restriction looks at the first segment only. -/
def checkMount (c : Conn) (mountPath : Text) : Except VaultError Unit :=
  if c.allowedMount ≠ [] ∧ before '/' mountPath ≠ c.allowedMount then
    .error (.mount (before '/' mountPath) c.allowedMount)
  else .ok ()

def joined (c : Conn) (path : Text) : Text :=
  if c.base.path = [] then "/v1/".toList ++ path else c.base.path ++ '/' :: ("/v1/".toList ++ path)

def requestPath (c : Conn) (path : Text) : Text := clean (joined c path)

inductive Answer where
  | failed
  | none
  | secret (data : List (Text × Value))

def readField (answer : Answer) (mountPath field : Text) : Except VaultError Text :=
  match answer with
  | .failed => .error (.read mountPath)
  | .none => .error (.noSecret mountPath)
  | .secret data =>
    match (data.lookup "data".toList).bind Value.asObj with
    | Option.none => .error (.noEnvelope mountPath)
    | some values =>
      match values.lookup field with
      | Option.none => .error (.noField field mountPath)
      | some (.str s) => .ok s
      | some _ => .error (.notString field mountPath)

def resolve (conn : Except VaultError Conn) (vault : Text → Answer) (rawValue : Text) : Except VaultError Text := do
  let (mountPath, field) ← parseVaultReference rawValue
  let c ← conn
  checkMount c mountPath
  readField (vault (requestPath c mountPath)) mountPath field

/-- What stands before the request to Vault. -/
def accept (c : Conn) (rawValue : Text) : Except VaultError (Text × Text) := do
  let (mountPath, field) ← parseVaultReference rawValue
  checkMount c mountPath
  .ok (mountPath, field)

theorem resolve_eq_accept (c : Conn) (vault : Text → Answer) (rawValue : Text) : resolve (.ok c) vault rawValue =
      accept c rawValue >>= fun r => readField (vault (requestPath c r.1)) r.1 r.2 := by
  unfold resolve accept
  cases parseVaultReference rawValue with
  | error e => rfl
  | ok r =>
    change (checkMount c r.1 >>= fun _ => readField (vault (requestPath c r.1)) r.1 r.2) =
      (checkMount c r.1 >>= fun _ => .ok (r.1, r.2)) >>= _
    cases checkMount c r.1 with
    | error e => rfl
    | ok u => rfl

variable {c : Conn} {raw mountPath field : Text}

theorem accept_ok : accept c raw = .ok (mountPath, field) ↔ parseVaultReference raw = .ok (mountPath, field) ∧
      (c.allowedMount = [] ∨ before '/' mountPath = c.allowedMount) := by
  have hcheck (p : Text) (u : Unit) :
      checkMount c p = .ok u ↔ c.allowedMount = [] ∨ before '/' p = c.allowedMount := by
    unfold checkMount
    by_cases hm : c.allowedMount = [] <;> by_cases hb : before '/' p = c.allowedMount <;> simp [hm, hb]
  unfold accept
  rw [bind_eq_ok_iff]
  constructor
  · rintro ⟨⟨p, f⟩, hparse, h⟩
    obtain ⟨u, hu, hok⟩ := bind_eq_ok_iff.mp h
    cases hok
    exact ⟨hparse, (hcheck _ u).mp hu⟩
  · rintro ⟨hparse, h⟩
    exact ⟨_, hparse, bind_eq_ok_iff.mpr ⟨(), (hcheck _ ()).mpr h, rfl⟩⟩

section Request

theorem joined_append (c : Conn) (path rest : Text) :
    joined c (path ++ '/' :: rest) = joined c path ++ '/' :: rest := by
  unfold joined
  split <;> simp

theorem joined_rooted (c : Conn) (path : Text) : rooted (joined c path) = true := by
  unfold joined
  split
  · rfl
  · next hne =>
    rw [rooted_append hne]
    exact c.base.valid.resolve_left hne

theorem joined_ne_nil (c : Conn) (path : Text) : joined c path ≠ [] := by
  intro h
  have hroot := joined_rooted c path
  rw [h] at hroot
  cases hroot

end Request

/-- Where the mount lies, last element first. -/
def mountPlace (c : Conn) : List Text := (elements (joined c c.allowedMount)).reverse

/-- The requested path is that of the allowed mount or lies below it. -/
def UnderMount (c : Conn) (path : Text) : Prop :=
  elements (requestPath c c.allowedMount) <+: elements (requestPath c path)

/-- What follows the mount leads back to the mount, if it leaves it, and then
never above it. -/
def Returns (c : Conn) (rest : Text) : Prop :=
  ∃ detour down, rest.splitOn '/' = detour ++ down ∧ walk (mountPlace c) detour = mountPlace c ∧
    staysBelow 0 down = true

theorem mountPlace_settled (c : Conn) : Settled (mountPlace c) := by
  intro v hv
  exact elements_settled (joined_rooted c _) v (mem_reverse.mp hv)

theorem underMount_iff (c : Conn) (rest : Text) : UnderMount c (c.allowedMount ++ '/' :: rest) ↔ Returns c rest := by
  have hlong : elements (joined c (c.allowedMount ++ '/' :: rest)) =
      (walk (mountPlace c) (rest.splitOn '/')).reverse := by
    rw [joined_append, elements_append (joined_ne_nil _ _), joined_rooted]
    rfl
  unfold UnderMount requestPath Returns
  rw [elements_clean (joined_rooted c _), elements_clean (joined_rooted c _), hlong,
    ← suffix_walk_iff (mountPlace_settled c), ← reverse_prefix, mountPlace, reverse_reverse]

/-- A reference of the documented form, without dot segments. -/
structure WellFormed (mount raw : Text) : Prop where
  form : ∃ path field, raw = mount ++ ("/data/".toList ++ path) ++ '#' :: field ∧ path ≠ [] ∧ field ≠ [] ∧
    '#' ∉ field ∧ ∀ w ∈ (mount ++ ("/data/".toList ++ path)).splitOn '/', w ≠ ['.'] ∧ w ≠ ['.', '.']

theorem WellFormed.parse {mount : Text} (h : WellFormed mount raw) (hne : mount ≠ []) (hslash : '/' ∉ mount) :
    ∃ rest field, parseVaultReference raw = .ok (mount ++ '/' :: rest, field) := by
  obtain ⟨path, field, rfl, hpath, hfield, hhash, _⟩ := h.form
  obtain ⟨a, b, hcut, hle⟩ := cut_least "/data/".toList mount path
  have hspec := cut_spec hcut
  have ha : a = mount ∧ path = b := by
    obtain ⟨t, rfl, ht⟩ | ⟨t, rfl, ht⟩ := append_eq_append_iff.mp hspec
    · rw [length_append] at hle
      have hnil : t = [] := eq_nil_of_length_eq_zero (by omega)
      subst hnil
      exact ⟨append_nil _, append_cancel_left ht⟩
    · -- the text cut out would start inside the mount
      cases t with
      | nil => exact ⟨(append_nil a).symm, (append_cancel_left ht).symm⟩
      | cons x t =>
        refine absurd (mem_append_right a ?_) hslash
        have hx : '/' = x := (List.cons.inj ht).1
        rw [hx]
        exact mem_cons_self
  rw [ha.1, ← ha.2] at hcut
  refine ⟨"data/".toList ++ path, field, ?_⟩
  unfold parseVaultReference
  rw [cutLast_append _ hhash]
  dsimp only
  rw [if_neg (by simp [hfield]), hcut]
  dsimp only
  rw [if_neg (by simp [hne, hpath])]
  rfl

theorem parse_slash (h : parseVaultReference raw = .ok (mountPath, field)) : '/' ∈ mountPath := by
  unfold parseVaultReference at h
  split at h
  · cases h
  · split at h
    · cases h
    · split at h
      · cases h
      · next hcut =>
        obtain ⟨_, ⟨⟩⟩ := guard_ok h
        rw [cut_spec hcut]
        exact mem_append_right _ mem_cons_self

/-- What the restriction to one mount is for. -/
structure Confined (c : Conn) (raw : Text) : Prop where
  under : ∀ mountPath field, accept c raw = .ok (mountPath, field) → UnderMount c mountPath
  admitted : WellFormed c.allowedMount raw → ∃ r, accept c raw = .ok r

/-- The references that the check of the first segment is right about: with a
mount of several segments those that do not name it, else those that do not
lead out of the mount. -/
def Kept (c : Conn) (raw : Text) : Prop :=
  if '/' ∈ c.allowedMount then ¬ WellFormed c.allowedMount raw
  else ∀ rest field, parseVaultReference raw = .ok (c.allowedMount ++ '/' :: rest, field) → Returns c rest

theorem confined_iff_kept (c : Conn) (hm : c.allowedMount ≠ []) (raw : Text) : Confined c raw ↔ Kept c raw := by
  unfold Kept
  by_cases hslash : '/' ∈ c.allowedMount
  · rw [if_pos hslash]
    -- no first segment equals such a mount, so every reference is refused
    have hrefused (r : Text × Text) : accept c raw ≠ .ok r := by
      intro h
      obtain ⟨hparse, hb⟩ := accept_ok.mp h
      exact ((before_eq_iff (parse_slash hparse)).mp (hb.resolve_left hm)).1 hslash
    constructor
    · intro h hw
      obtain ⟨r, hr⟩ := h.admitted hw
      exact hrefused r hr
    · intro h
      exact ⟨fun p f haccept => absurd haccept (hrefused (p, f)), fun hw => absurd hw h⟩
  · rw [if_neg hslash]
    -- what passes the check is what parses to a path under the mount's segment
    have haccept {rest f : Text} (hparse : parseVaultReference raw = .ok (c.allowedMount ++ '/' :: rest, f)) :
        accept c raw = .ok (c.allowedMount ++ '/' :: rest, f) :=
      accept_ok.mpr ⟨hparse, .inr ((before_eq_iff (parse_slash hparse)).mpr ⟨hslash, rest, rfl⟩)⟩
    constructor
    · intro h rest f hparse
      exact (underMount_iff c rest).mp (h.under _ f (haccept hparse))
    · intro h
      refine ⟨fun p f hp => ?_, fun hw => ?_⟩
      · obtain ⟨hparse, hb⟩ := accept_ok.mp hp
        obtain ⟨_, rest, rfl⟩ := (before_eq_iff (parse_slash hparse)).mp (hb.resolve_left hm)
        exact (underMount_iff c rest).mpr (h rest f hparse)
      · obtain ⟨rest, f, hparse⟩ := hw.parse hm hslash
        exact ⟨_, haccept hparse⟩

def restricted (mount : String) : Conn := ⟨⟨[], .inl rfl⟩, mount.toList⟩

theorem plain_reference_confined :
    (restricted "secret").allowedMount ≠ [] ∧ Confined (restricted "secret") "secret/data/app#PASS".toList := by
  have hm : (restricted "secret").allowedMount ≠ [] := by decide
  refine ⟨hm, (confined_iff_kept _ hm _).mpr ?_⟩
  intro rest field h
  cases h
  exact ⟨[], _, rfl, rfl, by decide⟩

theorem mount_left_and_mount_refused : accept (restricted "secret") "secret/../other/data/app#PASS".toList =
        .ok ("secret/../other/data/app".toList, "PASS".toList) ∧
      requestPath (restricted "secret") "secret/../other/data/app".toList = "/v1/other/data/app".toList ∧
      ¬ UnderMount (restricted "secret") "secret/../other/data/app".toList ∧
      WellFormed "team/kv".toList "team/kv/data/app#PASS".toList ∧
      accept (restricted "team/kv") "team/kv/data/app#PASS".toList =
        .error (.mount "team".toList "team/kv".toList) := by
  refine ⟨by decide, by decide, by unfold UnderMount; decide, ⟨"app".toList, "PASS".toList, ?_⟩, by decide⟩
  decide

end Wireops.Secrets.Vault
