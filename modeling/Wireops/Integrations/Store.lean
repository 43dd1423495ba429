import Wireops.Lib.Crypto
import Wireops.Lib.Sweep
import Wireops.Policy.Compose

namespace Wireops.Integrations.Store

open Option List Lib.Crypto Lib.Flow Lib.Strings Lib.Sweep Policy.Compose

structure ConfigField where
  key : Text
  sensitive : Bool := false
  encrypted : Bool := false

structure Descriptor where
  fields : List ConfigField
  locked : Bool := false

namespace Descriptor

def filterKeys (d : Descriptor) (isMatch : ConfigField → Bool) : List Text :=
  (d.fields.filter isMatch).map (·.key)

def sensitiveKeys (d : Descriptor) : List Text := d.filterKeys (·.sensitive)

def encryptedKeys (d : Descriptor) : List Text := d.filterKeys (·.encrypted)

end Descriptor

abbrev Config := Text → Option Value

structure Row where
  enabled : Bool
  locked : Bool := false
  config : Config

structure Instance where
  enabled : Bool
  config : Config
  locked : Bool

inductive StoreError where
  | decrypt (key : Text)
  | maskUnresolvable (key : Text)
  | secretKey (key : Text)

def maskSentinel : Text := "••••••••".toList

def maskSecret (secret : Text) : Text := if trimSpace secret = [] then [] else maskSentinel

section Items

def itemValue : Value → Option Text
  | .obj kv => (field "value" kv).bind Value.asStr
  | _ => none

def itemKey : Value → Text
  | .obj kv => ((field "key" kv).bind Value.asStr).getD []
  | _ => []

def setField (key : Text) (v : Value) : List (Text × Value) → List (Text × Value)
  | [] => [(key, v)]
  | (k, w) :: fields => if k = key then (k, v) :: fields else (k, w) :: setField key v fields

def setItemValue (s : Text) : Value → Value
  | .obj kv => .obj (setField "value".toList (.str s) kv)
  | v => v

variable {key other : Text} {v w : Value} {fields : List (Text × Value)} {r s : Text}

theorem lookup_setField_self : (setField key v fields).lookup key = some v := by
  induction fields with
  | nil => simp [setField]
  | cons x fields ih =>
    obtain ⟨k, w⟩ := x
    unfold setField
    by_cases hk : k = key
    · simp [hk]
    · have hne : (key == k) = false := beq_eq_false_iff_ne.mpr (Ne.symm hk)
      simp [hk, lookup_cons, hne, ih]

theorem lookup_setField_of_ne (h : other ≠ key) : (setField key v fields).lookup other = fields.lookup other := by
  induction fields with
  | nil =>
    have hne : (other == key) = false := beq_eq_false_iff_ne.mpr h
    simp [setField, lookup_cons, hne]
  | cons x fields ih =>
    obtain ⟨k, w⟩ := x
    unfold setField
    by_cases hk : k = key
    · subst hk
      have hne : (other == k) = false := beq_eq_false_iff_ne.mpr h
      simp [lookup_cons, hne]
    · simp [hk, lookup_cons, ih]

theorem setField_setField : setField key v (setField key w fields) = setField key v fields := by
  induction fields with
  | nil => simp [setField]
  | cons x fields ih =>
    obtain ⟨k, u⟩ := x
    by_cases hk : k = key
    · simp [setField, hk]
    · simp [setField, hk, ih]

theorem setField_self (h : fields.lookup key = some v) : setField key v fields = fields := by
  induction fields with
  | nil => cases h
  | cons x fields ih =>
    obtain ⟨k, w⟩ := x
    by_cases hk : k = key
    · subst hk
      rw [lookup_cons_self] at h
      cases h
      simp [setField]
    · have hne : (key == k) = false := beq_eq_false_iff_ne.mpr (Ne.symm hk)
      rw [lookup_cons, hne] at h
      simp [setField, hk, ih h]

theorem itemValue_eq_some : itemValue v = some s ↔ ∃ kv, v = .obj kv ∧ kv.lookup "value".toList = some (.str s) := by
  constructor
  · intro h
    cases v with
    | obj kv =>
      obtain ⟨u, hu, hs⟩ := bind_eq_some_iff.mp h
      cases u <;> cases hs
      exact ⟨kv, rfl, hu⟩
    | null | bool | number | str | arr => cases h
  · rintro ⟨kv, rfl, h⟩
    exact bind_eq_some_iff.mpr ⟨.str s, h, rfl⟩

theorem itemValue_setItemValue (h : itemValue v = some r) : itemValue (setItemValue s v) = some s := by
  obtain ⟨kv, rfl, _⟩ := itemValue_eq_some.mp h
  exact itemValue_eq_some.mpr ⟨_, rfl, lookup_setField_self⟩

theorem itemKey_setItemValue : itemKey (setItemValue s v) = itemKey v := by
  cases v with
  | obj kv =>
    have h : field "key" (setField "value".toList (.str s) kv) = field "key" kv :=
      lookup_setField_of_ne (by decide)
    simp only [setItemValue, itemKey, h]
  | null | bool | number | str | arr => rfl

theorem setItemValue_setItemValue : setItemValue r (setItemValue s v) = setItemValue r v := by
  cases v with
  | obj kv => exact congrArg Value.obj setField_setField
  | null | bool | number | str | arr => rfl

theorem setItemValue_self (h : itemValue v = some s) : setItemValue s v = v := by
  obtain ⟨kv, rfl, hkv⟩ := itemValue_eq_some.mp h
  exact congrArg Value.obj (setField_self hkv)

end Items

variable (c : Option Cipher)

def openText (key : Text) (s : Text) : Except StoreError Text :=
  if s = [] then .ok []
  else match c.bind (·.decrypt s) with
    | none => .error (.decrypt key)
    | some p => .ok p

def decodeItem (key : Text) (v : Value) : Except StoreError Value :=
  match itemValue v with
  | none => .ok v
  | some s => (openText c key s).map (setItemValue · v)

def decodeValue (key : Text) : Value → Except StoreError Value
  | .str s => (openText c key s).map .str
  | .arr items => (items.mapM (decodeItem c key)).map .arr
  | v => .ok v

def decodeRecord (d : Descriptor) (row : Row) : Except StoreError Instance := do
  let config ← sweep (decodeValue c) d.encryptedKeys row.config
  .ok ⟨row.enabled, config, d.locked || row.locked⟩

/-- `c` is absent when the server has no valid key. -/
def load (d : Descriptor) : Option Row → Except StoreError Instance
  | none => .ok ⟨false, fun _ => none, d.locked⟩
  | some row => decodeRecord c d row

def maskItem (v : Value) : Value :=
  match itemValue v with
  | none => v
  | some s => if s = [] then v else setItemValue (maskSecret s) v

def maskValue : Value → Value
  | .str s => if s = [] then .str s else .str (maskSecret s)
  | .arr items => .arr (items.map maskItem)
  | v => v

def mask (d : Descriptor) (config : Config) : Config := fun key =>
  if key ∈ d.sensitiveKeys then (config key).map maskValue else config key

structure SlotItem where
  value : Value
  pos : Nat
  carried : Bool

/-- A value that is saved, and what of it was carried over. -/
inductive Slot where
  | str (s : Text) (carried : Bool)
  | list (items : List SlotItem)
  | other (v : Value)

namespace Slot

def of : Value → Slot
  | .str s => .str s false
  | .arr items => .list (items.zipIdx.map (fun x => ⟨x.1, x.2, false⟩))
  | v => .other v

def value : Slot → Value
  | .str s _ => .str s
  | .list items => .arr (items.map (·.value))
  | .other v => v

end Slot

def addHeader (m : Text → Option Text) (v : Value) : Text → Option Text :=
  if itemKey v = [] then m
  else match itemValue v with
    | none => m
    | some s => Function.update m (itemKey v) (some s)

/-- The values of the entries by their keys: of entries with one key the last
counts. -/
def existingByHeaderKey (items : List Value) : Text → Option Text :=
  items.foldl addHeader (fun _ => none)

def resolveItem (existing : Text → Option Text) (key : Text) (x : SlotItem) : Except StoreError SlotItem :=
  if itemValue x.value = some maskSentinel then
    match existing (itemKey x.value) with
    | none => .error (.maskUnresolvable key)
    | some r =>
      if r = [] then .error (.maskUnresolvable key)
      else .ok { x with value := setItemValue r x.value, carried := true }
  else .ok x

def itemsOf : Option Value → List Value
  | some (.arr items) => items
  | _ => []

def resolve (stored : Config) (key : Text) : Slot → Except StoreError Slot
  | .str s carried =>
    if s = maskSentinel then
      match stored key with
      | some (.str r) => if r = [] then .error (.maskUnresolvable key) else .ok (.str r true)
      | _ => .error (.maskUnresolvable key)
    else .ok (.str s carried)
  | .list items =>
    (items.mapM (resolveItem (existingByHeaderKey (itemsOf (stored key))) key)).map .list
  | .other v => .ok (.other v)

variable (c : Option Cipher)

def sealText (nonce : Text → Nat) (key : Text) (s : Text) : Except StoreError Text :=
  if s = [] then .ok []
  else match c with
    | none => .error (.secretKey key)
    | some c => .ok (c.encrypt (nonce s) s)

def encryptItem (nonce : Nat → Text → Nat) (key : Text) (x : SlotItem) : Except StoreError SlotItem :=
  if x.carried then .ok x
  else match itemValue x.value with
    | none => .ok x
    | some s => (sealText c (nonce x.pos) key s).map (fun r => { x with value := setItemValue r x.value })

def encrypt (nonce : Text → Nat → Text → Nat) (key : Text) : Slot → Except StoreError Slot
  | .str s carried =>
    if carried then .ok (.str s carried)
    else (sealText c (nonce key 0) key s).map (.str · carried)
  | .list items => (items.mapM (encryptItem c (nonce key) key)).map .list
  | .other v => .ok (.other v)

def storedConfig : Option Row → Config
  | none => fun _ => none
  | some row => row.config

/-- `nonce` is what was drawn for each text that is encrypted, by its key and
its place. -/
def save (d : Descriptor) (nonce : Text → Nat → Text → Nat) (row : Option Row)
    (enabled : Bool) (config : Config) : Except StoreError Row := do
  let slots ← sweep (resolve (storedConfig row)) d.sensitiveKeys (fun key => (config key).map Slot.of)
  let slots ← sweep (encrypt c nonce) d.encryptedKeys slots
  .ok ⟨enabled, (row.map (·.locked)).getD false, fun key => (slots key).map Slot.value⟩

/-- Saving back what the API has shown of a row is accepted, and leaves the
decrypted configuration as it was. -/
def RoundTrips (d : Descriptor) (nonce : Text → Nat → Text → Nat) (row : Option Row) : Prop :=
  ∀ i, load c d row = .ok i → ∃ row' i', save c d nonce row i.enabled (mask d i.config) = .ok row' ∧
      load c d (some row') = .ok i' ∧ i'.config = i.config

/-- A secret text is not all spaces. In a secret list this holds of each entry,
which has the value of the last one with its key. -/
def Recoverable : Value → Prop
  | .str s => s ≠ [] → trimSpace s ≠ []
  | .arr items => ∀ v ∈ items, ∀ s, itemValue v = some s → s ≠ [] →
      trimSpace s ≠ [] ∧ existingByHeaderKey items (itemKey v) = some s
  | _ => True

section Texts

variable {c : Option Cipher} {nonce : Text → Nat} {key r s : Text} {n : Nat}

theorem openText_sealText (h : sealText c nonce key s = .ok r) : openText c key r = .ok s := by
  unfold sealText at h
  split at h
  · rename_i hs
    cases h
    rw [hs]
    rfl
  · cases c with
    | none => cases h
    | some c =>
      cases h
      simp [openText, c.encrypt_ne_nil, c.decrypt_encrypt]

theorem times_openText_nil : times (openText c key) n [] = .ok [] :=
  times_fixed (f := openText c key) rfl n

theorem times_sealText_nil : times (sealText c nonce key) n [] = .ok [] :=
  times_fixed (f := sealText c nonce key) rfl n

theorem eq_nil_of_openText_none (h : openText none key r = .ok s) : s = [] := by
  unfold openText at h
  split at h
  · exact (Except.ok.inj h).symm
  · cases h

theorem times_sealText_of_key (c : Cipher) (n : Nat) (s : Text) :
    ∃ r, times (sealText (some c) nonce key) n s = .ok r ∧ times (openText (some c) key) n r = .ok s := by
  induction n with
  | zero => exact ⟨s, rfl, rfl⟩
  | succ n ih =>
    obtain ⟨r, hseal, hopen⟩ := ih
    have hlast : ∃ t, sealText (some c) nonce key r = .ok t := by
      unfold sealText
      split
      · exact ⟨_, rfl⟩
      · exact ⟨_, rfl⟩
    obtain ⟨t, ht⟩ := hlast
    exact ⟨t, times_snoc_ok.mpr ⟨r, hseal, ht⟩, times_succ_ok.mpr ⟨r, openText_sealText ht, hopen⟩⟩

theorem times_sealText (nonce : Text → Nat) (h : times (openText c key) n r = .ok s) :
    ∃ t, times (sealText c nonce key) n s = .ok t ∧ times (openText c key) n t = .ok s := by
  cases c with
  | some c => exact times_sealText_of_key c n s
  | none =>
    cases n with
    | zero => exact ⟨s, rfl, rfl⟩
    | succ n =>
      obtain ⟨u, _, hlast⟩ := times_snoc_ok.mp h
      cases eq_nil_of_openText_none hlast
      exact ⟨[], times_sealText_nil, times_openText_nil⟩

end Texts

section Entries

variable {c : Option Cipher} {nonce : Nat → Text → Nat} {existing : Text → Option Text}
  {key r s t : Text} {m n : Nat} {v w : Value} {x : SlotItem}

theorem times_decodeItem_none (h : itemValue v = none) : times (decodeItem c key) n v = .ok v := by
  apply times_fixed
  simp only [decodeItem, h]

theorem times_decodeItem_some (h : itemValue v = some s) :
    times (decodeItem c key) n v = (times (openText c key) n s).map (setItemValue · v) := by
  have hvisit (t : Text) : decodeItem c key (setItemValue t v) = (openText c key t).map (setItemValue · v) := by
    simp only [decodeItem, itemValue_setItemValue h, setItemValue_setItemValue]
  have htimes := times_map hvisit n s
  rwa [setItemValue_self h] at htimes

theorem times_decodeItem_ok (hv : itemValue v = some s) : times (decodeItem c key) n v = .ok w ↔
      ∃ t, times (openText c key) n s = .ok t ∧ setItemValue t v = w := by
  rw [times_decodeItem_some hv, map_eq_ok_iff]

theorem times_encryptItem_carried (h : x.carried = true) : times (encryptItem c nonce key) n x = .ok x := by
  apply times_fixed
  simp only [encryptItem, h, if_true]

theorem times_encryptItem_none (h : itemValue x.value = none) : times (encryptItem c nonce key) n x = .ok x := by
  apply times_fixed
  simp only [encryptItem, h, ite_self]

theorem times_encryptItem_some (hc : x.carried = false) (h : itemValue x.value = some s) :
    times (encryptItem c nonce key) n x =
      (times (sealText c (nonce x.pos) key) n s).map (fun r => { x with value := setItemValue r x.value }) := by
  have hvisit (t : Text) : encryptItem c nonce key { x with value := setItemValue t x.value } =
        (sealText c (nonce x.pos) key t).map (fun r => { x with value := setItemValue r x.value }) := by
    simp [encryptItem, hc, itemValue_setItemValue h, setItemValue_setItemValue]
  have htimes := times_map hvisit n s
  rwa [setItemValue_self h] at htimes

theorem resolveItem_of_ne (h : itemValue x.value ≠ some maskSentinel) : resolveItem existing key x = .ok x := by
  simp only [resolveItem, h, if_false]

theorem times_resolveItem_of_ne (h : itemValue x.value ≠ some maskSentinel) :
    times (resolveItem existing key) m x = .ok x :=
  times_fixed (resolveItem_of_ne h) m

def ItemKept (c : Option Cipher) (nonce : Nat → Text → Nat) (existing : Text → Option Text) (key : Text)
    (m n : Nat) (x : SlotItem) (v : Value) : Prop :=
  ∃ y, times (resolveItem existing key) m x = .ok y ∧
    ∃ z, times (encryptItem c nonce key) n y = .ok z ∧ times (decodeItem c key) n z.value = .ok v

theorem encryptItem_decodeItem (h : times (decodeItem c key) n w = .ok v) (pos : Nat) :
    ∃ z, times (encryptItem c nonce key) n ⟨v, pos, false⟩ = .ok z ∧ times (decodeItem c key) n z.value = .ok v := by
  cases hw : itemValue w with
  | none =>
    cases (times_decodeItem_none hw).symm.trans h
    exact ⟨_, times_encryptItem_none hw, times_decodeItem_none hw⟩
  | some r =>
    obtain ⟨s, hs, rfl⟩ := (times_decodeItem_ok hw).mp h
    have hv : itemValue (setItemValue s w) = some s := itemValue_setItemValue hw
    obtain ⟨t, hseal, hopen⟩ := times_sealText (nonce pos) hs
    refine ⟨⟨setItemValue t (setItemValue s w), pos, false⟩, ?_, ?_⟩
    · rw [times_encryptItem_some rfl hv, hseal]
      rfl
    · refine (times_decodeItem_ok (itemValue_setItemValue hv)).mpr ⟨s, hopen, ?_⟩
      rw [setItemValue_setItemValue, setItemValue_setItemValue]

theorem itemKept_of_ne (hne : itemValue v ≠ some maskSentinel) (h : times (decodeItem c key) n w = .ok v)
    (pos : Nat) : ItemKept c nonce existing key m n ⟨v, pos, false⟩ v := by
  obtain ⟨z, hz, hv⟩ := encryptItem_decodeItem h pos
  exact ⟨_, times_resolveItem_of_ne hne, z, hz, hv⟩

section

variable (hv : itemValue v = some s)

include hv

theorem not_itemKept_nil (hs : s ≠ []) (pos : Nat) :
    ¬ ItemKept c nonce existing key m n ⟨setItemValue [] v, pos, false⟩ v := by
  rintro ⟨y, hy, z, hz, hkept⟩
  have hnil : itemValue (setItemValue [] v) = some [] := itemValue_setItemValue hv
  have hne : itemValue (setItemValue [] v) ≠ some maskSentinel := by
    rw [hnil]
    decide
  cases (times_resolveItem_of_ne hne).symm.trans hy
  rw [times_encryptItem_some rfl hnil, times_sealText_nil] at hz
  cases hz
  obtain ⟨t, ht, hset⟩ := (times_decodeItem_ok (itemValue_setItemValue hnil)).mp hkept
  cases times_openText_nil.symm.trans ht
  have hvalue := congrArg itemValue hset
  rw [itemValue_setItemValue (itemValue_setItemValue hnil), hv] at hvalue
  exact hs (Option.some.inj hvalue).symm

theorem resolveItem_masked (pos : Nat) (carried : Bool) :
    resolveItem existing key ⟨setItemValue maskSentinel v, pos, carried⟩ =
      match existing (itemKey v) with
      | none => .error (.maskUnresolvable key)
      | some r =>
        if r = [] then .error (.maskUnresolvable key) else .ok ⟨setItemValue r v, pos, true⟩ := by
  simp only [resolveItem, itemValue_setItemValue hv, if_true, itemKey_setItemValue, setItemValue_setItemValue]

theorem not_itemKept_unresolved (hr : ∀ r, existing (itemKey v) = some r → r = [])
    (pos : Nat) : ¬ ItemKept c nonce existing key (m + 1) n ⟨setItemValue maskSentinel v, pos, false⟩ w := by
  rintro ⟨y, hy, _⟩
  obtain ⟨u, hu, _⟩ := times_succ_ok.mp hy
  rw [resolveItem_masked hv] at hu
  cases hex : existing (itemKey v) with
  | none =>
    rw [hex] at hu
    cases hu
  | some r =>
    rw [hex, hr r hex] at hu
    cases hu

theorem times_resolveItem_masked (hr : existing (itemKey v) = some r) (hne : r ≠ []) (pos : Nat) (y : SlotItem) :
    times (resolveItem existing key) (m + 1) ⟨setItemValue maskSentinel v, pos, false⟩ = .ok y ↔
      y = ⟨setItemValue r v, pos, true⟩ := by
  have hvisit (carried : Bool) : resolveItem existing key ⟨setItemValue maskSentinel v, pos, carried⟩ =
      .ok ⟨setItemValue r v, pos, true⟩ := by
    rw [resolveItem_masked hv, hr]
    exact if_neg hne
  refine times_settled (hvisit false) ?_ m
  by_cases hmask : r = maskSentinel
  · subst hmask
    exact hvisit true
  · have hvalue : itemValue (setItemValue r v) ≠ some maskSentinel := by
      rw [itemValue_setItemValue hv]
      exact fun h => hmask (Option.some.inj h)
    exact resolveItem_of_ne (x := ⟨_, pos, true⟩) hvalue

theorem itemKept_masked (hr : existing (itemKey v) = some r) (hne : r ≠ [])
    (ht : times (openText c key) n r = .ok t) (pos : Nat) :
    ItemKept c nonce existing key (m + 1) n ⟨setItemValue maskSentinel v, pos, false⟩ v ↔ t = s := by
  have hstored : itemValue (setItemValue r v) = some r := itemValue_setItemValue hv
  constructor
  · rintro ⟨y, hy, z, hz, hkept⟩
    rw [times_resolveItem_masked hv hr hne] at hy
    subst hy
    cases (times_encryptItem_carried rfl).symm.trans hz
    obtain ⟨u, hu, hset⟩ := (times_decodeItem_ok hstored).mp hkept
    cases ht.symm.trans hu
    have hvalue := congrArg itemValue hset
    rw [itemValue_setItemValue hstored, hv] at hvalue
    exact Option.some.inj hvalue
  · rintro rfl
    refine ⟨_, (times_resolveItem_masked hv hr hne pos _).mpr rfl, _, times_encryptItem_carried rfl, ?_⟩
    refine (times_decodeItem_ok hstored).mpr ⟨t, ht, ?_⟩
    rw [setItemValue_setItemValue, setItemValue_self hv]

end

end Entries

section Headers

variable {c : Option Cipher} {key r s : Text} {n : Nat} {v w : Value} {items items' : List Value}

/-- What a stored value and the value read from it have in common. -/
def Opened (c : Option Cipher) (key : Text) (n : Nat) (o p : Option Text) : Prop :=
  (o = none ∧ p = none) ∨ ∃ r s, o = some r ∧ p = some s ∧ times (openText c key) n r = .ok s

theorem decodeItem_opened (h : times (decodeItem c key) n v = .ok w) :
    itemKey w = itemKey v ∧ Opened c key n (itemValue v) (itemValue w) := by
  cases hv : itemValue v with
  | none =>
    cases (times_decodeItem_none hv).symm.trans h
    exact ⟨rfl, .inl ⟨rfl, hv⟩⟩
  | some r =>
    obtain ⟨s, hs, rfl⟩ := (times_decodeItem_ok hv).mp h
    exact ⟨itemKey_setItemValue, .inr ⟨r, s, rfl, itemValue_setItemValue hv, hs⟩⟩

theorem addHeader_opened {a b : Text → Option Text} (hab : ∀ k, Opened c key n (a k) (b k))
    (h : times (decodeItem c key) n v = .ok w) (k : Text) : Opened c key n (addHeader a v k) (addHeader b w k) := by
  obtain ⟨hkey, hvalue⟩ := decodeItem_opened h
  unfold addHeader
  rw [hkey]
  split
  · exact hab k
  · obtain ⟨hv, hw⟩ | ⟨r, s, hv, hw, hrs⟩ := hvalue
    · rw [hv, hw]
      exact hab k
    · rw [hv, hw]
      by_cases hk : k = itemKey v
      · subst hk
        simp only [Function.update_self]
        exact .inr ⟨r, s, rfl, rfl, hrs⟩
      · simp only [Function.update_of_ne hk]
        exact hab k

abbrev Decoded (c : Option Cipher) (key : Text) (n : Nat) : List Value → List Value → Prop :=
  List.Forall₂ (fun v w => times (decodeItem c key) n v = .ok w)

theorem existingByHeaderKey_opened (h : Decoded c key n items items') (k : Text) :
    Opened c key n (existingByHeaderKey items k) (existingByHeaderKey items' k) := by
  have hfold {a b : Text → Option Text} (hab : ∀ k, Opened c key n (a k) (b k)) :
      Opened c key n (items.foldl addHeader a k) (items'.foldl addHeader b k) := by
    induction h generalizing a b with
    | nil => exact hab k
    | cons hvw _ ih => exact ih (addHeader_opened hab hvw)
  exact hfold (fun _ => .inl ⟨rfl, rfl⟩)

end Headers

section Values

variable {c : Option Cipher} {nonce : Text → Nat → Text → Nat} {stored : Config} {key r s t : Text}
  {m n : Nat} {v w : Value} {items items' : List Value} {existing existing' : Text → Option Text}

theorem itemKept_shown (hv : ∀ s, itemValue v = some s → s = []) (h : times (decodeItem c key) n w = .ok v)
    (pos : Nat) : ItemKept c (nonce key) existing key m n ⟨maskItem v, pos, false⟩ v := by
  have hmask : maskItem v = v := by
    unfold maskItem
    split
    · rfl
    · rename_i s hs
      exact if_pos (hv s hs)
  rw [hmask]
  refine itemKept_of_ne ?_ h pos
  intro hsentinel
  exact absurd (hv maskSentinel hsentinel) (by decide)

theorem itemKept_hidden (hv : itemValue v = some s) (hs : s ≠ [])
    (hex : Opened c key n (existing (itemKey v)) (existing' (itemKey v))) (pos : Nat) :
    ItemKept c (nonce key) existing key (m + 1) n ⟨setItemValue maskSentinel v, pos, false⟩ v ↔
      existing' (itemKey v) = some s := by
  obtain ⟨hnone, hnone'⟩ | ⟨r, t, hr, ht, hrt⟩ := hex
  · rw [hnone']
    refine iff_of_false (not_itemKept_unresolved hv ?_ pos) (by simp)
    intro r hr
    cases hnone.symm.trans hr
  · rw [ht, Option.some.injEq]
    by_cases hnil : r = []
    · subst hnil
      cases times_openText_nil.symm.trans hrt
      refine iff_of_false (not_itemKept_unresolved hv ?_ pos) (Ne.symm hs)
      intro r' hr'
      cases hr.symm.trans hr'
      rfl
    · exact itemKept_masked hv hr hnil hrt pos

theorem itemKept_maskItem_iff (h : times (decodeItem c key) n w = .ok v)
    (hex : Opened c key n (existing (itemKey v)) (existing' (itemKey v))) (pos : Nat) :
    ItemKept c (nonce key) existing key (m + 1) n ⟨maskItem v, pos, false⟩ v ↔
      ∀ s, itemValue v = some s → s ≠ [] → trimSpace s ≠ [] ∧ existing' (itemKey v) = some s := by
  by_cases hshown : ∀ s, itemValue v = some s → s = []
  · refine iff_of_true (itemKept_shown hshown h pos) ?_
    intro s hv hs
    exact absurd (hshown s hv) hs
  · simp only [not_forall] at hshown
    obtain ⟨s, hv, hs⟩ := hshown
    have hmask : maskItem v = setItemValue (maskSecret s) v := by simp only [maskItem, hv, hs, if_false]
    rw [hmask, maskSecret]
    by_cases htrim : trimSpace s = []
    · rw [if_pos htrim]
      refine iff_of_false (not_itemKept_nil hv hs pos) ?_
      intro hall
      exact (hall s hv hs).1 htrim
    · rw [if_neg htrim, itemKept_hidden hv hs hex]
      constructor
      · intro hlast s' hv' _
        cases hv.symm.trans hv'
        exact ⟨htrim, hlast⟩
      · intro hall
        exact (hall s hv hs).2

def Kept (c : Option Cipher) (nonce : Text → Nat → Text → Nat) (stored : Config) (key : Text) (m n : Nat)
    (x : Slot) (v : Value) : Prop :=
  ∃ y, times (resolve stored key) m x = .ok y ∧
    ∃ z, times (encrypt c nonce key) n y = .ok z ∧ times (decodeValue c key) n z.value = .ok v

theorem times_decodeValue_str : times (decodeValue c key) n (.str r) = .ok v ↔
    ∃ s, times (openText c key) n r = .ok s ∧ .str s = v := by
  rw [times_map (e := Value.str) (g := openText c key) (fun _ => rfl), map_eq_ok_iff]

theorem times_decodeValue_arr : times (decodeValue c key) n (.arr items) = .ok v ↔
    ∃ items', Decoded c key n items items' ∧ .arr items' = v := by
  rw [times_map (e := Value.arr) (g := fun l => l.mapM (decodeItem c key)) (fun _ => rfl), map_eq_ok_iff]
  simp only [times_mapM_ok_iff]

variable {xs : List SlotItem}

theorem times_resolve_list {y : Slot} : times (resolve stored key) m (.list xs) = .ok y ↔
    ∃ ys, List.Forall₂ (fun x y =>
      times (resolveItem (existingByHeaderKey (itemsOf (stored key))) key) m x = .ok y) xs ys ∧ .list ys = y := by
  rw [times_map (e := Slot.list)
    (g := fun l => l.mapM (resolveItem (existingByHeaderKey (itemsOf (stored key))) key)) (fun _ => rfl),
    map_eq_ok_iff]
  simp only [times_mapM_ok_iff]

theorem times_encrypt_list {y : Slot} : times (encrypt c nonce key) n (.list xs) = .ok y ↔
    ∃ ys, List.Forall₂ (fun x y => times (encryptItem c (nonce key) key) n x = .ok y) xs ys ∧ .list ys = y := by
  rw [times_map (e := Slot.list) (g := fun l => l.mapM (encryptItem c (nonce key) key)) (fun _ => rfl), map_eq_ok_iff]
  simp only [times_mapM_ok_iff]

theorem kept_list_iff : Kept c nonce stored key m n (.list xs) (.arr items) ↔
    List.Forall₂ (ItemKept c (nonce key) (existingByHeaderKey (itemsOf (stored key))) key m n) xs items := by
  unfold Kept ItemKept
  rw [forall₂_comp]
  simp only [times_resolve_list]
  constructor
  · rintro ⟨_, ⟨ys, hys, rfl⟩, z, hz, hv⟩
    obtain ⟨zs, hzs, rfl⟩ := times_encrypt_list.mp hz
    obtain ⟨items', hitems, harr⟩ := times_decodeValue_arr.mp hv
    cases harr
    exact ⟨ys, hys, forall₂_comp.mpr ⟨zs, hzs, forall₂_map_left_iff.mp hitems⟩⟩
  · rintro ⟨ys, hys, h⟩
    obtain ⟨zs, hzs, hitems⟩ := forall₂_comp.mp h
    exact ⟨_, ⟨ys, hys, rfl⟩, .list zs, times_encrypt_list.mpr ⟨zs, hzs, rfl⟩,
      times_decodeValue_arr.mpr ⟨items, forall₂_map_left_iff.mpr hitems, rfl⟩⟩

theorem forall₂_zipIdx_iff {P : SlotItem → Value → Prop} (f : Value → Value) (items : List Value) :
    List.Forall₂ P ((items.map f).zipIdx.map (fun x => ⟨x.1, x.2, false⟩)) items ↔
      ∀ x ∈ items.zipIdx, P ⟨f x.1, x.2, false⟩ x.1 := by
  rw [forall₂_map_left_iff, zipIdx_map, forall₂_map_left_iff]
  have hfst (R : Value × Nat → Value → Prop) :
      List.Forall₂ R items.zipIdx items ↔ List.Forall₂ R items.zipIdx (items.zipIdx.map Prod.fst) := by
    rw [zipIdx_map_fst]
  rw [hfst, forall₂_map_right_iff, forall₂_same]
  rfl

theorem exists_decoded_of_mem (h : Decoded c key n items items')
    (hv : v ∈ items') : ∃ w, times (decodeItem c key) n w = .ok v := by
  induction h with
  | nil => cases hv
  | cons hw _ ih =>
    cases hv with
    | head => exact ⟨_, hw⟩
    | tail _ hv => exact ih hv

theorem kept_arr_iff (hstored : stored key = some (.arr items))
    (h : Decoded c key n items items') :
    Kept c nonce stored key (m + 1) n (Slot.of (maskValue (.arr items'))) (.arr items') ↔
      Recoverable (.arr items') := by
  have hentry (v : Value) (hv : v ∈ items') (pos : Nat) :
      ItemKept c (nonce key) (existingByHeaderKey items) key (m + 1) n ⟨maskItem v, pos, false⟩ v ↔
        ∀ s, itemValue v = some s → s ≠ [] → trimSpace s ≠ [] ∧ existingByHeaderKey items' (itemKey v) = some s := by
    obtain ⟨w, hw⟩ := exists_decoded_of_mem h hv
    exact itemKept_maskItem_iff hw (existingByHeaderKey_opened h _) pos
  rw [maskValue, Slot.of, kept_list_iff, hstored, itemsOf, forall₂_zipIdx_iff _ items']
  constructor
  · intro hall v hv
    obtain ⟨pos, hpos, rfl⟩ := mem_iff_getElem.mp hv
    exact (hentry _ hv pos).mp (hall (items'[pos], pos) (mk_mem_zipIdx_iff_getElem?.mpr (by simp [hpos])))
  · intro hall x hx
    have hv : x.1 ∈ items' := fst_mem_of_mem_zipIdx hx
    exact (hentry _ hv x.2).mpr (hall x.1 hv)

theorem kept_arr (h : Decoded c key n items items') :
    Kept c nonce stored key 0 n (Slot.of (.arr items')) (.arr items') := by
  rw [Slot.of, kept_list_iff]
  have hlist := forall₂_zipIdx_iff id items'
    (P := ItemKept c (nonce key) (existingByHeaderKey (itemsOf (stored key))) key 0 n)
  rw [List.map_id] at hlist
  refine hlist.mpr ?_
  intro x hx
  obtain ⟨w, hw⟩ := exists_decoded_of_mem h (fst_mem_of_mem_zipIdx hx)
  obtain ⟨z, hz, hv⟩ := encryptItem_decodeItem hw x.2
  exact ⟨_, rfl, z, hz, hv⟩

theorem encrypt_str (nonce : Text → Nat → Text → Nat) (h : times (openText c key) n r = .ok s) :
    ∃ z, times (encrypt c nonce key) n (.str s false) = .ok z ∧
      times (decodeValue c key) n z.value = .ok (.str s) := by
  obtain ⟨t, hseal, hopen⟩ := times_sealText (nonce key 0) h
  refine ⟨.str t false, ?_, times_decodeValue_str.mpr ⟨s, hopen, rfl⟩⟩
  rw [times_map (e := fun s => Slot.str s false) (g := sealText c (nonce key 0) key) (fun _ => rfl), hseal]
  rfl

theorem times_resolve_str_of_ne (h : s ≠ maskSentinel) :
    times (resolve stored key) m (.str s false) = .ok (.str s false) := by
  apply times_fixed
  simp only [resolve, h, if_false]

theorem times_resolve_str_masked (hstored : stored key = some (.str r)) (hr : r ≠ []) :
    times (resolve stored key) (m + 1) (.str maskSentinel false) = .ok (.str r true) := by
  have hvisit (carried : Bool) : resolve stored key (.str maskSentinel carried) = .ok (.str r true) := by
    simp only [resolve, hstored, if_true, hr, if_false]
  refine (times_settled (hvisit false) ?_ m).mpr rfl
  by_cases hmask : r = maskSentinel
  · subst hmask
    exact hvisit true
  · simp only [resolve, hmask, if_false]

theorem not_kept_nil (hs : s ≠ []) : ¬ Kept c nonce stored key m n (.str [] false) (.str s) := by
  rintro ⟨y, hy, z, hz, hkept⟩
  cases (times_resolve_str_of_ne (by decide)).symm.trans hy
  have hfixed := times_fixed (f := encrypt c nonce key) (v := .str [] false) rfl n
  cases hfixed.symm.trans hz
  obtain ⟨t, ht, hst⟩ := times_decodeValue_str.mp hkept
  cases times_openText_nil.symm.trans ht
  exact hs (Value.str.inj hst).symm

theorem kept_str_iff (hstored : stored key = some (.str r)) (h : times (openText c key) n r = .ok s) :
    Kept c nonce stored key (m + 1) n (Slot.of (maskValue (.str s))) (.str s) ↔ Recoverable (.str s) := by
  by_cases hs : s = []
  · subst hs
    obtain ⟨z, hz, hv⟩ := encrypt_str nonce h
    exact iff_of_true ⟨_, times_resolve_str_of_ne (by decide), z, hz, hv⟩ (fun hnil => absurd rfl hnil)
  · rw [maskValue, if_neg hs, maskSecret]
    by_cases htrim : trimSpace s = []
    · rw [if_pos htrim]
      refine iff_of_false (not_kept_nil hs) ?_
      intro hrec
      exact hrec hs htrim
    · rw [if_neg htrim]
      have hr : r ≠ [] := by
        rintro rfl
        cases times_openText_nil.symm.trans h
        exact hs rfl
      refine iff_of_true ⟨_, times_resolve_str_masked hstored hr, .str r true, ?_, ?_⟩ (fun _ => htrim)
      · exact times_fixed (f := encrypt c nonce key) rfl n
      · exact times_decodeValue_str.mpr ⟨s, h, rfl⟩

theorem kept_other (hv : Slot.of v = .other v) (hdecode : decodeValue c key v = .ok v) :
    Kept c nonce stored key m n (Slot.of v) v := by
  rw [hv]
  exact ⟨_, times_fixed (f := resolve stored key) rfl m, .other v, times_fixed (f := encrypt c nonce key) rfl n,
    times_fixed hdecode n⟩

theorem kept_maskValue_iff (hstored : stored key = some w) (h : times (decodeValue c key) n w = .ok v) :
    Kept c nonce stored key (m + 1) n (Slot.of (maskValue v)) v ↔ Recoverable v := by
  cases w with
  | str r =>
    obtain ⟨s, hs, rfl⟩ := times_decodeValue_str.mp h
    exact kept_str_iff hstored hs
  | arr items =>
    obtain ⟨items', hitems, rfl⟩ := times_decodeValue_arr.mp h
    exact kept_arr_iff hstored hitems
  | null | bool | number | obj =>
    cases (times_fixed (f := decodeValue c key) rfl n).symm.trans h
    exact iff_of_true (kept_other rfl rfl) trivial

theorem kept_of_shown (h : times (decodeValue c key) n w = .ok v) : Kept c nonce stored key 0 n (Slot.of v) v := by
  cases w with
  | str r =>
    obtain ⟨s, hs, rfl⟩ := times_decodeValue_str.mp h
    obtain ⟨z, hz, hv⟩ := encrypt_str nonce hs
    exact ⟨_, rfl, z, hz, hv⟩
  | arr items =>
    obtain ⟨items', hitems, rfl⟩ := times_decodeValue_arr.mp h
    exact kept_arr hitems
  | null | bool | number | obj =>
    cases (times_fixed (f := decodeValue c key) rfl n).symm.trans h
    exact kept_other rfl rfl

end Values

section Rows

variable {c : Option Cipher} {d : Descriptor} {nonce : Text → Nat → Text → Nat} {row : Option Row}
  {enabled : Bool} {config : Config} {i : Instance} {row' : Row}

theorem load_some_ok : load c d (some row') = .ok i ↔
    sweep (decodeValue c) d.encryptedKeys row'.config = .ok i.config ∧
      i.enabled = row'.enabled ∧ i.locked = (d.locked || row'.locked) := by
  change (sweep (decodeValue c) d.encryptedKeys row'.config >>= _) = _ ↔ _
  rw [bind_eq_ok_iff]
  constructor
  · rintro ⟨config, hconfig, hi⟩
    cases hi
    exact ⟨hconfig, rfl, rfl⟩
  · rintro ⟨hconfig, henabled, hlocked⟩
    refine ⟨i.config, hconfig, ?_⟩
    rw [← henabled, ← hlocked]

theorem load_config (h : load c d row = .ok i) (key : Text) :
    visited (decodeValue c key) (d.encryptedKeys.count key) (storedConfig row key) = .ok (i.config key) := by
  cases row with
  | none =>
    cases h
    rfl
  | some row => exact sweep_ok_iff.mp (load_some_ok.mp h).1 key

theorem save_ok : save c d nonce row enabled config = .ok row' ↔
    ∃ y, sweep (resolve (storedConfig row)) d.sensitiveKeys (fun key => (config key).map Slot.of) = .ok y ∧
      ∃ z, sweep (encrypt c nonce) d.encryptedKeys y = .ok z ∧
        row' = ⟨enabled, (row.map (·.locked)).getD false, fun key => (z key).map Slot.value⟩ := by
  change (sweep (resolve (storedConfig row)) d.sensitiveKeys _ >>= _) = _ ↔ _
  simp only [bind_eq_ok_iff, Except.ok.injEq, @eq_comm Row row']

def KeyKept (c : Option Cipher) (d : Descriptor) (nonce : Text → Nat → Text → Nat) (stored config : Config)
    (key : Text) (o : Option Value) : Prop :=
  ∃ y, visited (resolve stored key) (d.sensitiveKeys.count key) ((config key).map Slot.of) = .ok y ∧
    ∃ z, visited (encrypt c nonce key) (d.encryptedKeys.count key) y = .ok z ∧
      visited (decodeValue c key) (d.encryptedKeys.count key) (z.map Slot.value) = .ok o

theorem save_load_iff (config' : Config) :
    (∃ row' i', save c d nonce row enabled config = .ok row' ∧ load c d (some row') = .ok i' ∧
      i'.config = config') ↔ ∀ key, KeyKept c d nonce (storedConfig row) config key (config' key) := by
  constructor
  · rintro ⟨row', i', hsave, hload, rfl⟩ key
    obtain ⟨y, hy, z, hz, rfl⟩ := save_ok.mp hsave
    exact ⟨y key, sweep_ok_iff.mp hy key, z key, sweep_ok_iff.mp hz key, load_config hload key⟩
  · intro h
    choose y hy z hz hkept using h
    let row' : Row := ⟨enabled, (row.map (·.locked)).getD false, fun key => (z key).map Slot.value⟩
    have hsave : save c d nonce row enabled config = .ok row' :=
      save_ok.mpr ⟨y, sweep_ok_iff.mpr hy, z, sweep_ok_iff.mpr hz, rfl⟩
    refine ⟨row', ⟨enabled, config', d.locked || row'.locked⟩, hsave, ?_, rfl⟩
    exact load_some_ok.mpr ⟨sweep_ok_iff.mpr hkept, rfl, rfl⟩

theorem keyKept_some_iff {stored : Config} {key : Text} {v w : Value} (hv : config key = some w) :
    KeyKept c d nonce stored config key (some v) ↔
      Kept c nonce stored key (d.sensitiveKeys.count key) (d.encryptedKeys.count key) (Slot.of w) v := by
  unfold KeyKept Kept
  rw [hv]
  constructor
  · rintro ⟨_, hresolve, _, hencrypt, hdecode⟩
    obtain ⟨y, hy, rfl⟩ := map_eq_ok_iff.mp hresolve
    obtain ⟨z, hz, rfl⟩ := map_eq_ok_iff.mp hencrypt
    obtain ⟨u, hu, hsome⟩ := map_eq_ok_iff.mp hdecode
    cases hsome
    exact ⟨y, hy, z, hz, hu⟩
  · rintro ⟨y, hy, z, hz, hdecode⟩
    exact ⟨some y, map_eq_ok_iff.mpr ⟨y, hy, rfl⟩, some z, map_eq_ok_iff.mpr ⟨z, hz, rfl⟩,
      map_eq_ok_iff.mpr ⟨v, hdecode, rfl⟩⟩

theorem keyKept_mask_iff (h : load c d row = .ok i) (key : Text) :
    KeyKept c d nonce (storedConfig row) (mask d i.config) key (i.config key) ↔
      (key ∈ d.sensitiveKeys → ∀ v ∈ i.config key, Recoverable v) := by
  have hread := load_config h key
  cases hstored : storedConfig row key with
  | none =>
    rw [hstored] at hread
    have hnone : i.config key = none := (Except.ok.inj hread).symm
    have hmask : mask d i.config key = none := by
      simp only [mask, hnone, map_none, ite_self]
    rw [hnone]
    refine iff_of_true ⟨none, ?_, none, rfl, rfl⟩ (fun _ v hv => by cases hv)
    rw [hmask]
    rfl
  | some w =>
    rw [hstored] at hread
    obtain ⟨v, hv, hsome⟩ := map_eq_ok_iff.mp hread
    rw [← hsome]
    by_cases hkey : key ∈ d.sensitiveKeys
    · have hmask : mask d i.config key = some (maskValue v) := by
        simp only [mask, hkey, if_true, ← hsome, map_some]
      obtain ⟨m, hm⟩ := Nat.exists_eq_add_one_of_ne_zero (count_pos_iff.mpr hkey).ne'
      rw [keyKept_some_iff hmask, hm, kept_maskValue_iff hstored hv]
      simp [hkey]
    · have hmask : mask d i.config key = some v := by
        simp only [mask, hkey, if_false, ← hsome]
      rw [keyKept_some_iff hmask, count_eq_zero_of_not_mem hkey]
      exact iff_of_true (kept_of_shown hv) (fun hmem => absurd hmem hkey)

/-- What the API has shown of a row can be saved back without loss if the row's
secrets are recoverable. -/
theorem roundTrips_iff : RoundTrips c d nonce row ↔
    ∀ i, load c d row = .ok i → ∀ key ∈ d.sensitiveKeys, ∀ v ∈ i.config key, Recoverable v := by
  refine forall_congr' fun i => forall_congr' fun h => ?_
  rw [save_load_iff]
  exact forall_congr' fun key => keyKept_mask_iff h key

end Rows

def webhook : Descriptor where
  fields := [⟨"url".toList, false, false⟩, ⟨"secret".toList, true, true⟩, ⟨"headers".toList, true, true⟩,
    ⟨"events".toList, false, false⟩]

def entry (key value : String) : Value :=
  .obj [("key".toList, .str key.toList), ("value".toList, .str value.toList)]

def cookies : Row where
  enabled := true
  config key := if key = "headers".toList then some (.arr [entry "Cookie" "#a=1", entry "Cookie" "#b=2"]) else none

/-- Both headers have the value of the second after the round trip. -/
theorem not_roundTrips_cookies : ¬ RoundTrips (some marking) webhook (fun _ _ _ => 0) (some cookies) := by
  intro h
  obtain ⟨row', i', hsave, hload, hconfig⟩ := h _ rfl
  cases hsave
  cases hload
  have hheaders := congrFun hconfig "headers".toList
  have hvalues := congrArg (fun o => (itemsOf o).map itemValue) hheaders
  exact absurd hvalues (by decide)

end Wireops.Integrations.Store
