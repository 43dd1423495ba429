import Wireops.Lib.Octets

namespace Wireops.Env.File

open Bool List Lib.Octets

inductive EnvError where
  | malformed (entry : Bytes)
  | emptyKey
  | surroundedKey (key : Bytes)
  | invalidKey (key : Bytes) (c : UInt8)

def isInvalidInKey (c : UInt8) : Bool :=
  c = byte '=' || c = byte '\n' || c = byte '\r' || c < 0x20

def validateEnvKey (key : Bytes) : Except EnvError Unit :=
  if key = [] then .error .emptyKey
  else if trimSpace key ≠ key then .error (.surroundedKey key)
  else match key.find? isInvalidInKey with
    | some c => .error (.invalidKey key c)
    | none => .ok ()

def isSpecial (c : UInt8) : Bool :=
  c = byte ' ' || c = byte '\t' || c = byte '"' || c = byte '#' || c = byte '\\' ||
    c = byte '\n' || c = byte '\r'

variable (val : Bytes)

def needsQuote : Bool :=
  val.contains (byte '$') || val.contains (byte '\'') || val.any isSpecial

def escapeByte (c : UInt8) : Bytes :=
  if c = byte '\\' then [byte '\\', byte '\\']
  else if c = byte '"' then [byte '\\', byte '"']
  else if c = byte '$' then [byte '\\', byte '$']
  else if c = byte '\n' then [byte '\\', byte 'n']
  else if c = byte '\r' then [byte '\\', byte 'r']
  else if c = byte '\t' then [byte '\\', byte 't']
  else [c]

def escape : Bytes := val.flatMap escapeByte

def isVerbatim : Bool :=
  val.contains (byte '$') && !val.contains (byte '\'') && !val.contains (byte '\r') &&
    !val.contains (byte '\n') && val.getLast? ≠ some (byte '\\')

def quoteEnvValue : Bytes :=
  if !needsQuote val then val
  else if isVerbatim val then byte '\'' :: val ++ [byte '\'']
  else byte '"' :: escape val ++ [byte '"']

def keyOf (kv : Bytes) : Bytes := kv.takeWhile (· ≠ byte '=')

def valueOf (kv : Bytes) : Bytes := (kv.dropWhile (· ≠ byte '=')).tail

def entryLine (kv : Bytes) : Bytes := keyOf kv ++ byte '=' :: quoteEnvValue (valueOf kv)

def serializeEntry (kv : Bytes) : Except EnvError Bytes :=
  if !kv.contains (byte '=') then .error (.malformed kv)
  else do
    validateEnvKey (keyOf kv)
    .ok (entryLine kv ++ [byte '\n'])

def serializeEnvContent : List Bytes → Except EnvError Bytes
  | [] => .ok []
  | kv :: envVars => do
    let line ← serializeEntry kv
    let content ← serializeEnvContent envVars
    .ok (line ++ content)

structure ValidKey (key : Bytes) : Prop where
  ne_nil : key ≠ []
  trimmed : trimSpace key = key
  bytes : ∀ c ∈ key, isInvalidInKey c = false

theorem validateEnvKey_ok {key : Bytes} : validateEnvKey key = .ok () ↔ ValidKey key := by
  unfold validateEnvKey
  split
  · next hnil => exact ⟨nofun, fun h => absurd hnil h.ne_nil⟩
  · next hne =>
    split
    · next htrim => exact ⟨nofun, fun h => absurd h.trimmed htrim⟩
    · next htrim =>
      cases hfind : key.find? isInvalidInKey with
      | some c =>
        refine ⟨nofun, fun h => ?_⟩
        have hbad := List.find?_some hfind
        rw [h.bytes c (mem_of_find?_eq_some hfind)] at hbad
        cases hbad
      | none =>
        refine ⟨fun _ => ⟨hne, not_not.mp htrim, fun c hc => ?_⟩, fun _ => rfl⟩
        exact eq_false_iff.mpr (List.find?_eq_none.mp hfind c hc)

theorem ValidKey.notMem {key : Bytes} (h : ValidKey key) {c : UInt8} (hc : isInvalidInKey c = true) : c ∉ key := by
  intro hm
  rw [h.bytes c hm] at hc
  cases hc

structure Accepted (kv : Bytes) : Prop where
  separator : byte '=' ∈ kv
  key : ValidKey (keyOf kv)

theorem serializeEntry_ok {kv line : Bytes} :
    serializeEntry kv = .ok line ↔ Accepted kv ∧ line = entryLine kv ++ [byte '\n'] := by
  unfold serializeEntry
  by_cases hsep : byte '=' ∈ kv
  · rw [contains_iff_mem.mpr hsep]
    cases hkey : validateEnvKey (keyOf kv) with
    | error e =>
      refine ⟨nofun, fun h => ?_⟩
      rw [validateEnvKey_ok.mpr h.1.key] at hkey
      cases hkey
    | ok u =>
      refine ⟨fun h => ?_, fun h => congrArg Except.ok h.2.symm⟩
      cases h
      exact ⟨⟨hsep, validateEnvKey_ok.mp hkey⟩, rfl⟩
  · have hno : kv.contains (byte '=') = false := by simpa using hsep
    rw [hno]
    exact ⟨nofun, fun h => absurd h.1.separator hsep⟩

theorem serializeEnvContent_ok {envVars : List Bytes} {content : Bytes}
    (h : serializeEnvContent envVars = .ok content) :
    content = envVars.flatMap (fun kv => entryLine kv ++ [byte '\n']) ∧ ∀ kv ∈ envVars, Accepted kv := by
  induction envVars generalizing content with
  | nil =>
    cases h
    exact ⟨rfl, nofun⟩
  | cons kv envVars ih =>
    rw [serializeEnvContent] at h
    cases hline : serializeEntry kv with
    | error e =>
      rw [hline] at h
      cases h
    | ok line =>
      rw [hline] at h
      cases hrest : serializeEnvContent envVars with
      | error e =>
        rw [hrest] at h
        cases h
      | ok rest =>
        rw [hrest] at h
        cases h
        obtain ⟨hcontent, hall⟩ := ih hrest
        obtain ⟨haccepted, rfl⟩ := serializeEntry_ok.mp hline
        rw [flatMap_cons, ← hcontent]
        exact ⟨rfl, forall_mem_cons.mpr ⟨haccepted, hall⟩⟩

theorem serializeEnvContent_single {kv : Bytes} (h : Accepted kv) :
    serializeEnvContent [kv] = .ok (entryLine kv ++ [byte '\n']) := by
  rw [serializeEnvContent, serializeEntry_ok.mpr ⟨h, rfl⟩]
  exact congrArg Except.ok (append_nil _)

theorem notMem_escape : byte '\n' ∉ escape val := by
  intro h
  obtain ⟨c, _, hc⟩ := mem_flatMap.mp h
  unfold escapeByte at hc
  split at hc
  · exact absurd hc (by decide)
  · split at hc
    · exact absurd hc (by decide)
    · split at hc
      · exact absurd hc (by decide)
      · split at hc
        · exact absurd hc (by decide)
        · next hne =>
          split at hc
          · exact absurd hc (by decide)
          · split at hc
            · exact absurd hc (by decide)
            · exact hne (mem_singleton.mp hc).symm

theorem notMem_of_not_needsQuote {val : Bytes} (h : needsQuote val = false) {c : UInt8}
    (hc : c = byte '$' ∨ c = byte '\'' ∨ isSpecial c = true) : c ∉ val := by
  rw [needsQuote, or_eq_false_iff, or_eq_false_iff, any_eq_false] at h
  intro hm
  obtain rfl | rfl | hc := hc
  · exact absurd (contains_iff_mem.mpr hm) (by rw [h.1.1]; decide)
  · exact absurd (contains_iff_mem.mpr hm) (by rw [h.1.2]; decide)
  · exact h.2 c hm hc

theorem notMem_quoteEnvValue : byte '\n' ∉ quoteEnvValue val := by
  unfold quoteEnvValue
  split
  · next h => exact notMem_of_not_needsQuote (by simpa using h) (.inr (.inr rfl))
  · split
    · next h =>
      simp only [isVerbatim, and_eq_true, not_eq_true'] at h
      have hval : byte '\n' ∉ val := by
        intro hm
        rw [contains_iff_mem.mpr hm] at h
        exact nomatch h.1.2
      simp only [cons_append, mem_cons, mem_append, hval, not_mem_nil]
      decide
    · have hval := notMem_escape val
      simp only [cons_append, mem_cons, mem_append, hval, not_mem_nil]
      decide

theorem notMem_entryLine {kv : Bytes} (h : ValidKey (keyOf kv)) : byte '\n' ∉ entryLine kv := by
  have hval := notMem_quoteEnvValue (valueOf kv)
  have hkey : byte '\n' ∉ keyOf kv := h.notMem rfl
  simp only [entryLine, mem_append, mem_cons, hkey, hval]
  decide

end Wireops.Env.File
