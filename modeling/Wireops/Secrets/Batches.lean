import Wireops.Lib.Rows
import Wireops.Secrets.EnvVars

/-!
# Writing many variables at once

A bulk request writes a stack's variables from a list, a copy from another
stack's. Both load the rows, index them by key and write through the index.
Keys may repeat, so a row may be hidden from the index, which is not renewed
while the rows are written. -/

namespace Wireops.Secrets.Batches

open List Lib.Crypto Lib.Flow Lib.Rows Lib.Strings Secrets.EnvVars

structure App where
  secretKey : Option SecretKey
  accepts : EnvVar → Bool

inductive RequestError where
  | mode
  | emptyKey
  | invalidKey (key : Text)
  | duplicateKey (key : Text)
  | hook (e : HookError)
  | field
  | sops
  | crossRepository

variable (app : App) (nonce : Nat → Nat)

/-- `Save` runs the hooks of a create or an update and then the field checks.
The record of the index is the row as loaded. -/
def saved (nonce : Nat) (record : Option (Row EnvVar)) (sub : Submission) : Except RequestError EnvVar :=
  match (match record with
    | some row => update app.secretKey nonce row.val sub
    | none => create app.secretKey nonce sub) with
  | .error e => .error (.hook e)
  | .ok row => if app.accepts row then .ok row else .error .field

/-- A new record gets the key; a record of the index has it. -/
def save (nonce : Nat) (existing : Table EnvVar) (key : Text) (sub : Submission)
    (rows : List (Row EnvVar)) : Except RequestError (List (Row EnvVar)) := do
  let record := last EnvVar.key existing.rows key
  let row ← saved app nonce record { sub with key := if record.isSome then none else some key }
  return upsert EnvVar.key existing rows key row

structure BulkEnvVar where
  key : Text
  value : Text := []
  secret : Bool := false
  secretProvider : Text := []

structure BulkEnvVarsRequest where
  mode : Text
  vars : List BulkEnvVar

structure BulkEnvVarsResult where
  created : Nat := 0
  updated : Nat := 0
  deleted : Nat := 0

def letter (c : Char) : Bool := ('A' ≤ c && c ≤ 'Z') || ('a' ≤ c && c ≤ 'z') || c = '_'

/-- The texts that match `^[A-Za-z_][A-Za-z0-9_]*$`. -/
def envVarKeyPattern : Text → Bool
  | [] => false
  | c :: cs => letter c && cs.all (fun d => letter d || ('0' ≤ d && d ≤ '9'))

def checkKeys : List Text → List BulkEnvVar → Except RequestError (List Text)
  | seen, [] => .ok seen
  | seen, v :: vars =>
    let key := trimSpace v.key
    if key = [] then .error .emptyKey
    else if !envVarKeyPattern key then .error (.invalidKey key)
    else if key ∈ seen then .error (.duplicateKey key)
    else checkKeys (key :: seen) vars

def parseBulkEnvVarsRequest (body : BulkEnvVarsRequest) : Except RequestError (List Text) :=
  if body.mode ≠ "replace".toList ∧ body.mode ≠ "append".toList then .error .mode
  else checkKeys [] body.vars

def skipValue (record : Option (Row EnvVar)) (v : BulkEnvVar) : Bool :=
  match record with
  | none => false
  | some row => v.value = [] && v.secret && row.val.secret &&
    (row.val.secretProvider = [] || row.val.secretProvider = "internal".toList)

def BulkEnvVar.columns (v : BulkEnvVar) (record : Option (Row EnvVar)) : Submission where
  secret := some v.secret
  secretProvider := some v.secretProvider
  value := if skipValue record v then none else some v.value

def writeVars (existing : Table EnvVar) : List BulkEnvVar → List (Row EnvVar) → BulkEnvVarsResult →
    Except RequestError (List (Row EnvVar) × BulkEnvVarsResult)
  | [], rows, result => .ok (rows, result)
  | v :: vars, rows, result => do
    let key := trimSpace v.key
    let record := last EnvVar.key existing.rows key
    let rows ← save app (nonce vars.length) existing key (v.columns record) rows
    writeVars existing vars rows
      (if record.isSome then { result with updated := result.updated + 1 }
        else { result with created := result.created + 1 })

def runBulkUpsertEnvVars (existing : Table EnvVar) (body : BulkEnvVarsRequest) (seen : List Text) :
    Except RequestError (List (Row EnvVar) × BulkEnvVarsResult) := do
  let (rows, result) ← writeVars app nonce existing body.vars existing.rows {}
  if body.mode = "replace".toList then
    .ok (keep EnvVar.key existing seen rows, { result with deleted := (dropped EnvVar.key existing seen).length })
  else .ok (rows, result)

def bulkUpsertStackEnvVars (existing : Table EnvVar)
    (body : BulkEnvVarsRequest) : Except RequestError (List (Row EnvVar) × BulkEnvVarsResult) := do
  let seen ← parseBulkEnvVarsRequest body
  runBulkUpsertEnvVars app nonce existing body seen

/-- A copy request. `hasSops` is what `stackHasSopsSecretsFile` finds for the source,
if it is not in the target's repository. -/
structure CopyEnvVarsRequest where
  keys : List Text
  overwrite : Bool := false
  sameRepository : Bool := true
  hasSops : Option Bool := some false

def isInternalSecret (row : EnvVar) : Bool :=
  row.secret && (row.secretProvider = [] || row.secretProvider = "internal".toList)

/-- What is written of a source row: an internal secret is encrypted anew, and
the key skipped where it does not decrypt. -/
def carried (nonce : Nat) (src : EnvVar) : Option Submission :=
  if isInternalSecret src then
    match app.secretKey with
    | none => none
    | some k => (k.decrypt src.value).map (fun plaintext =>
        { value := some (k.encrypt nonce plaintext)
          secret := some src.secret
          secretProvider := some src.secretProvider })
  else some { value := some src.value, secret := some src.secret, secretProvider := some src.secretProvider }

variable (source : List (Row EnvVar)) (target : Table EnvVar) (body : CopyEnvVarsRequest)

def sourceByKey (key : Text) : Option (Row EnvVar) :=
  last EnvVar.key (source.filter (fun r => r.val.key ∈ body.keys)) key

def copied (nonce : Nat) (key : Text) : Option Submission :=
  match sourceByKey source body key with
  | none => none
  | some src =>
    if (last EnvVar.key target.rows key).isSome ∧ !body.overwrite then none
    else carried app nonce src.val

structure CopyResult where
  copied : Nat := 0
  skipped : List Text := []

def copyKeys : List Text → List (Row EnvVar) → CopyResult → Except RequestError (List (Row EnvVar) × CopyResult)
  | [], rows, result => .ok (rows, result)
  | key :: keys, rows, result =>
    match copied app source target body (nonce keys.length) key with
    | none => copyKeys keys rows { result with skipped := result.skipped ++ [key] }
    | some sub => do
      let rows ← save app (nonce keys.length) target key sub rows
      copyKeys keys rows { result with copied := result.copied + 1 }

def copyStackEnvVars : Except RequestError (List (Row EnvVar) × CopyResult) :=
  if body.keys = [] then .ok (target.rows, {})
  else if !body.sameRepository ∧ body.hasSops = none then .error .sops
  else if !body.sameRepository ∧ body.hasSops = some true then .error .crossRepository
  else do
    let (rows, result) ← copyKeys app nonce source target body body.keys target.rows {}
    return (rows, { result with skipped := result.skipped.mergeSort (fun a b => decide (a ≤ b)) })

section Keys

variable {app : App} {nonce : Nat} {original record row : EnvVar} {sub : Submission}

theorem normalizeProvider_key (h : normalizeProvider record = .ok row) : row.key = record.key := by
  unfold normalizeProvider at h
  split at h
  · unfold validateSecretProvider at h
    split at h
    · cases h
      rfl
    · cases h
  · split at h
    · cases h
      rfl
    · cases h
      rfl

theorem prepareEnvSecretRecord_key {c : Option SecretKey}
    (h : prepareEnvSecretRecord c nonce original record = .ok row) : row.key = trimSpace record.key := by
  obtain ⟨named, hnamed, hrest⟩ := bind_eq_ok_iff.mp h
  obtain ⟨provided, hprovided, hlast⟩ := bind_eq_ok_iff.mp hrest
  cases normalizeEnvVarKey_ok hnamed
  have hkey := normalizeProvider_key hprovided
  split at hlast
  · split at hlast
    · rw [preserveMaskedSecretValue_eq] at hlast
      obtain ⟨k, -, rfl⟩ := encryptField_ok hlast
      exact hkey
    · split at hlast
      · cases hlast
      · cases hlast
        exact hkey
  · cases hlast
    exact hkey

theorem update_key {c : Option SecretKey} (h : update c nonce original sub = .ok row) :
    row.key = trimSpace (sub.apply original).key := by
  obtain ⟨_, -, h⟩ := bind_eq_ok_iff.mp h
  obtain ⟨_, -, h⟩ := bind_eq_ok_iff.mp h
  exact prepareEnvSecretRecord_key h

theorem save_upsert {existing : Table EnvVar} {key : Text} {rows rows' : List (Row EnvVar)}
    (h : save app nonce existing key sub rows = .ok rows') :
    ∃ row, row.key = trimSpace key ∧ rows' = upsert EnvVar.key existing rows key row := by
  obtain ⟨row, hsaved, h⟩ := bind_eq_ok_iff.mp h
  cases h
  refine ⟨row, ?_, rfl⟩
  unfold saved at hsaved
  split at hsaved
  · cases hsaved
  rename_i row' hhook
  split at hsaved
  · cases hsaved
    split at hhook
    · rename_i r hr
      rw [update_key hhook, hr]
      exact congrArg trimSpace (key_of_last hr)
    · rename_i hr
      rw [hr] at hhook
      exact prepareEnvSecretRecord_key hhook
  · cases hsaved

end Keys

section Requests

variable {app : App} {nonce : Nat → Nat} {source rows rows' : List (Row EnvVar)}
  {existing target : Table EnvVar} {ks : List Text}

/-- The rows once the keys `ks` were saved. -/
def Saved (existing : Table EnvVar) (ks : List Text) (rows : List (Row EnvVar)) : Prop :=
  ∃ f new, Written EnvVar.key trimSpace existing ks rows f new

theorem Saved.save {n : Nat} {key : Text} {sub : Submission} (hs : Saved existing ks rows)
    (h : save app n existing key sub rows = .ok rows') : Saved existing (ks ++ [key]) rows' := by
  obtain ⟨row, hkey, rfl⟩ := save_upsert h
  exact Written.upsert hs hkey

def BulkEnvVarsRequest.requested (body : BulkEnvVarsRequest) : List Text :=
  body.vars.map (fun v => trimSpace v.key)

variable {vars : List BulkEnvVar} {result : BulkEnvVarsResult}

theorem writeVars_saved {result' : BulkEnvVarsResult} (hs : Saved existing ks rows)
    (h : writeVars app nonce existing vars rows result = .ok (rows', result')) :
    Saved existing (ks ++ vars.map (fun v => trimSpace v.key)) rows' := by
  induction vars generalizing ks rows result with
  | nil =>
    cases h
    rw [map_nil, append_nil]
    exact hs
  | cons v vars ih =>
    obtain ⟨rows₁, hsave, h⟩ := bind_eq_ok_iff.mp h
    rw [map_cons, append_cons]
    exact ih (hs.save hsave) h

theorem checkKeys_ok {seen seen' : List Text} (h : checkKeys seen vars = .ok seen') :
    (vars.map (fun v => trimSpace v.key)).Nodup ∧ (∀ k ∈ vars.map (fun v => trimSpace v.key), k ∉ seen) ∧
      ∀ k, k ∈ seen' ↔ k ∈ seen ∨ k ∈ vars.map (fun v => trimSpace v.key) := by
  induction vars generalizing seen with
  | nil =>
    cases h
    simp
  | cons v vars ih =>
    unfold checkKeys at h
    dsimp only at h
    split at h
    · cases h
    split at h
    · cases h
    split at h
    · cases h
    rename_i hnew
    obtain ⟨hnodup, hapart, hmem⟩ := ih h
    rw [map_cons]
    refine ⟨nodup_cons.mpr ⟨fun hk => hapart _ hk mem_cons_self, hnodup⟩, ?_, ?_⟩
    · intro k hk
      rcases mem_cons.mp hk with rfl | hk
      · exact hnew
      · exact fun hseen => hapart k hk (mem_cons_of_mem _ hseen)
    · intro k
      rw [hmem, mem_cons, mem_cons]
      tauto

/-- After a bulk request that replaces, the rows are one for each key it names exactly
when no two rows had the same key. -/
theorem bulk_exact_iff {body : BulkEnvVarsRequest} (hmode : body.mode = "replace".toList)
    (h : bulkUpsertStackEnvVars app nonce existing body = .ok (rows, result)) :
    ((column EnvVar.key rows).Nodup ∧ ∀ k, k ∈ column EnvVar.key rows ↔ k ∈ body.requested) ↔
      (column EnvVar.key existing.rows).Nodup := by
  obtain ⟨seen, hparse, h⟩ := bind_eq_ok_iff.mp h
  obtain ⟨⟨written, result'⟩, hwrite, h⟩ := bind_eq_ok_iff.mp h
  unfold parseBulkEnvVarsRequest at hparse
  split at hparse
  · cases hparse
  obtain ⟨hnodup, -, hseen⟩ := checkKeys_ok hparse
  have hseen : ∀ k, k ∈ seen ↔ k ∈ body.requested := by
    intro k
    rw [hseen, mem_nil_iff, false_or]
    rfl
  dsimp only at h
  rw [if_pos hmode] at h
  cases h
  obtain ⟨f, new, hw⟩ := writeVars_saved ⟨id, [], written_start⟩ hwrite
  rw [keep_congr hseen]
  refine Written.keep_exact_iff hw ?_ hnodup
  intro k hk
  obtain ⟨v, -, rfl⟩ := mem_map.mp hk
  exact trim_trim isSpace v.key

section Copies

variable (app source target) (body : CopyEnvVarsRequest)

def copies : List Text :=
  body.keys.filter (fun key => (copied app source target body 0 key).isSome)

theorem copied_isSome (n : Nat) (key : Text) :
    (copied app source target body n key).isSome = (copied app source target body 0 key).isSome := by
  unfold copied carried
  split
  · rfl
  split
  · rfl
  split
  · split
    · rfl
    · rw [Option.isSome_map, Option.isSome_map]
  · rfl

end Copies

variable {body : CopyEnvVarsRequest} {result : CopyResult}

theorem copyKeys_saved {keys : List Text} {result' : CopyResult} (hs : Saved target ks rows)
    (h : copyKeys app nonce source target body keys rows result = .ok (rows', result')) :
    Saved target (ks ++ keys.filter (fun key => (copied app source target body 0 key).isSome)) rows' := by
  induction keys generalizing ks rows result with
  | nil =>
    cases h
    rw [filter_nil, append_nil]
    exact hs
  | cons key keys ih =>
    have hsome := copied_isSome app source target body (nonce keys.length) key
    unfold copyKeys at h
    split at h
    · rename_i hskip
      rw [hskip] at hsome
      rw [filter_cons_of_neg (by rw [← hsome]; decide)]
      exact ih hs h
    · rename_i sub hcopy
      rw [hcopy] at hsome
      obtain ⟨rows₁, hsave, h⟩ := bind_eq_ok_iff.mp h
      rw [filter_cons_of_pos (by rw [← hsome]; rfl), append_cons]
      exact ih (hs.save hsave) h

theorem copyStackEnvVars_saved (h : copyStackEnvVars app nonce source target body = .ok (rows, result)) :
    Saved target (copies app source target body) rows := by
  unfold copyStackEnvVars at h
  split at h
  · rename_i hnil
    cases h
    rw [copies, hnil]
    exact ⟨id, [], written_start⟩
  split at h
  · cases h
  split at h
  · cases h
  obtain ⟨⟨written, result'⟩, hcopy, h⟩ := bind_eq_ok_iff.mp h
  cases h
  exact copyKeys_saved ⟨id, [], written_start⟩ hcopy

theorem copy_unchanged (h : copyStackEnvVars app nonce source target body = .ok (rows, result)) :
    ∀ r ∈ target.rows, r.val.key ∉ copies app source target body → r ∈ rows := by
  intro r hr hk
  obtain ⟨f, new, hw⟩ := copyStackEnvVars_saved h
  have hsame : f r = r := hw.miss r hr (fun hhit => hk hhit.2)
  rw [hw.rows_eq]
  exact mem_append_left new (mem_map.mpr ⟨r, hr, hsame⟩)

end Requests

theorem one_row_per_key_iff (app : App) (nonce : Nat → Nat) :
    (∀ (existing : Table EnvVar) (body : BulkEnvVarsRequest) (rows : List (Row EnvVar))
      (result : BulkEnvVarsResult), body.mode = "replace".toList →
      bulkUpsertStackEnvVars app nonce existing body = .ok (rows, result) →
      (((column EnvVar.key rows).Nodup ∧ ∀ k, k ∈ column EnvVar.key rows ↔ k ∈ body.requested) ↔
        (column EnvVar.key existing.rows).Nodup)) ∧
    (∀ (source : List (Row EnvVar)) (target : Table EnvVar) (body : CopyEnvVarsRequest)
      (rows : List (Row EnvVar)) (result : CopyResult), (column EnvVar.key target.rows).Nodup →
      copyStackEnvVars app nonce source target body = .ok (rows, result) → (((column EnvVar.key rows).Nodup ∧
          ∀ r ∈ target.rows, r.val.key ∉ copies app source target body → r ∈ rows) ↔
        Apart EnvVar.key trimSpace target (copies app source target body))) := by
  constructor
  · intro existing body rows result hmode h
    exact bulk_exact_iff hmode h
  · intro source target body rows result hnodup h
    obtain ⟨f, new, hw⟩ := copyStackEnvVars_saved h
    rw [hw.nodup_iff hnodup, and_iff_left (copy_unchanged h)]

def plainApp : App := ⟨none, fun _ => true⟩

def plain (id : Nat) (key : String) : Row EnvVar := ⟨id, { key := key.toList }⟩

/-- Of two rows with one key, the one hidden from the index outlives the replacing; and
a key that is copied twice is added twice. -/
theorem hidden_row_kept : (∃ result, bulkUpsertStackEnvVars plainApp id ⟨[plain 1 "A", plain 2 "A"], by decide⟩
      ⟨"replace".toList, [⟨"B".toList, [], false, []⟩]⟩ = .ok ([plain 1 "A", plain 3 "B"], result)) ∧
    ∃ result, copyStackEnvVars plainApp id [plain 1 "A"] ⟨[], by decide⟩
      { keys := ["A".toList, "A".toList] } = .ok ([plain 0 "A", plain 1 "A"], result) :=
  ⟨⟨_, rfl⟩, ⟨_, rfl⟩⟩

theorem distinct_rows_kept : ((column EnvVar.key [plain 2 "B"]).Nodup ∧
      ∀ k, k ∈ column EnvVar.key [plain 2 "B"] ↔ k ∈ ["B".toList]) ∧
    (column EnvVar.key [plain 0 "B", plain 1 "A"]).Nodup :=
  ⟨((one_row_per_key_iff plainApp id).1 ⟨[plain 1 "A"], by decide⟩
      ⟨"replace".toList, [⟨"B".toList, [], false, []⟩]⟩ _ _ rfl rfl).mpr (by decide),
    (((one_row_per_key_iff plainApp id).2 [plain 1 "A"] ⟨[plain 0 "B"], by decide⟩
      { keys := ["A".toList] } _ _ (by decide) rfl).mpr (by decide)).1⟩

end Wireops.Secrets.Batches
