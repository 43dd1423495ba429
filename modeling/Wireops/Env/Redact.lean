import Mathlib.Data.List.Sort
import Wireops.Env.File

namespace Wireops.Env.Redact

open List Lib.Octets Env.File

def minRedactableSecretLen : Nat := 4

variable (value : Bytes)

def unquoted : Option (UInt8 × Bytes) :=
  match value with
  | [] => none
  | quote :: rest =>
    if (quote = byte '\'' || quote = byte '"') && rest.getLast? = some quote then
      some (quote, rest.dropLast)
    else none

def escapedBy (c : UInt8) : Option UInt8 :=
  if c = byte 'n' then some (byte '\n')
  else if c = byte 'r' then some (byte '\r')
  else if c = byte 't' then some (byte '\t')
  else if c = byte '\\' || c = byte '"' || c = byte '$' then some c
  else none

def unescape : Bytes → Bytes
  | [] => []
  | [c] => [c]
  | c :: d :: rest =>
    if c = byte '\\' then
      match escapedBy d with
      | some b => b :: unescape rest
      | none => c :: unescape (d :: rest)
    else c :: unescape (d :: rest)

def decodeEnvValue : Bytes :=
  match unquoted value with
  | none => value
  | some (quote, inner) => if quote = byte '\'' then inner else unescape inner

def serializedForm : Bytes :=
  match unquoted value with
  | none => value
  | some (_, inner) => inner

def valuesOf (encoded : Bytes) : List Bytes :=
  let value := decodeEnvValue encoded
  let form := serializedForm encoded
  (if minRedactableSecretLen ≤ value.length then [value] else []) ++
    (if form ≠ value && minRedactableSecretLen ≤ form.length then [form] else [])

def lineValues (line : Bytes) : List Bytes :=
  let line := trimSpace line
  if line = [] || line.head? = some (byte '#') || !line.contains (byte '=') then []
  else valuesOf (trimSpace (valueOf line))

def isLineEnd (c : UInt8) : Bool := c = byte '\n' || c = byte '\r'

def fields : List Bytes := (value.splitOnP isLineEnd).filter (· ≠ [])

def add (candidates : List Bytes) (value : Bytes) : List Bytes :=
  if minRedactableSecretLen ≤ value.length && !candidates.contains value then
    candidates ++ [value]
  else candidates

/-- A value, then each of its lines as it is and trimmed. -/
def expand : List Bytes :=
  value :: (fields value).flatMap (fun line => [line, trimSpace line])

def redactionCandidates (values : List Bytes) : List Bytes :=
  ((values.flatMap expand).foldl add []).insertionSort (fun x y => y.length ≤ x.length)

def parseEnvValues (data : Bytes) : List Bytes :=
  redactionCandidates ((data.splitOn (byte '\n')).flatMap lineValues)

section Decoding

theorem unescape_cons {c : UInt8} (hc : c ≠ byte '\\') (rest : Bytes) :
    unescape (c :: rest) = c :: unescape rest := by
  cases rest with
  | nil => rfl
  | cons d rest => rw [unescape, if_neg hc]

theorem unescape_escapeByte (c : UInt8) (rest : Bytes) : unescape (escapeByte c ++ rest) = c :: unescape rest := by
  unfold escapeByte
  split
  · next h => subst h; rfl
  · next hback =>
    split
    · next h => subst h; rfl
    · split
      · next h => subst h; rfl
      · split
        · next h => subst h; rfl
        · split
          · next h => subst h; rfl
          · split
            · next h => subst h; rfl
            · exact unescape_cons hback rest

theorem unescape_escape (val : Bytes) : unescape (escape val) = val := by
  induction val with
  | nil => rfl
  | cons c val ih =>
    rw [escape, flatMap_cons, unescape_escapeByte, ← escape, ih]

theorem unquoted_between {quote : UInt8} (h : quote = byte '\'' ∨ quote = byte '"') (inner : Bytes) :
    unquoted (quote :: inner ++ [quote]) = some (quote, inner) := by
  have hquote : (quote = byte '\'' || quote = byte '"') = true := by simpa using h
  simp [unquoted, hquote]

theorem unquoted_eq_none {value : Bytes} (hs : byte '\'' ∉ value) (hd : byte '"' ∉ value) :
    unquoted value = none := by
  cases value with
  | nil => rfl
  | cons quote rest =>
    have hquote : (quote = byte '\'' || quote = byte '"') = false := by
      simp only [mem_cons, not_or] at hs hd
      simp [Ne.symm hs.1, Ne.symm hd.1]
    simp [unquoted, hquote]

theorem decodeEnvValue_quoteEnvValue (val : Bytes) : decodeEnvValue (quoteEnvValue val) = val := by
  unfold quoteEnvValue
  split
  · next h =>
    have hplain : needsQuote val = false := by simpa using h
    rw [decodeEnvValue, unquoted_eq_none (notMem_of_not_needsQuote hplain (.inr (.inl rfl)))
      (notMem_of_not_needsQuote hplain (.inr (.inr rfl)))]
  · split
    · rw [decodeEnvValue, unquoted_between (.inl rfl)]
      rfl
    · rw [decodeEnvValue, unquoted_between (.inr rfl)]
      exact unescape_escape val

end Decoding

section Candidates

theorem mem_foldl_add {values candidates : List Bytes} {c : Bytes} : c ∈ values.foldl add candidates ↔
      c ∈ candidates ∨ c ∈ values ∧ minRedactableSecretLen ≤ c.length := by
  induction values generalizing candidates with
  | nil => simp
  | cons v values ih =>
    have hadd : c ∈ add candidates v ↔ c ∈ candidates ∨ c = v ∧ minRedactableSecretLen ≤ c.length := by
      unfold add
      split
      · next h =>
        rw [Bool.and_eq_true, decide_eq_true_eq] at h
        rw [mem_append, mem_singleton]
        exact or_congr_right ⟨fun hc => ⟨hc, hc ▸ h.1⟩, And.left⟩
      · next h =>
        refine ⟨.inl, ?_⟩
        rintro (hc | ⟨rfl, hlen⟩)
        · exact hc
        · -- the value is long enough, so it was there already
          simpa [hlen] using h
    rw [foldl_cons, ih, hadd, mem_cons]
    tauto

theorem mem_redactionCandidates {values : List Bytes} {c : Bytes} : c ∈ redactionCandidates values ↔
      (∃ v ∈ values, c ∈ expand v) ∧ minRedactableSecretLen ≤ c.length := by
  rw [redactionCandidates, mem_insertionSort, mem_foldl_add, mem_flatMap]
  simp only [not_mem_nil, false_or]

theorem length_le_of_mem_splitOnP {value line : Bytes} (h : line ∈ value.splitOnP isLineEnd) :
    line.length ≤ value.length := by
  induction value generalizing line with
  | nil =>
    rw [splitOnP_nil, mem_singleton] at h
    rw [h]
  | cons c value ih =>
    rw [splitOnP_cons_eq_if_modifyHead] at h
    split at h
    · obtain rfl | h := mem_cons.mp h
      · exact Nat.zero_le _
      · exact Nat.le_succ_of_le (ih h)
    · cases hsplit : value.splitOnP isLineEnd with
      | nil => exact absurd hsplit (splitOnP_ne_nil _ _)
      | cons first lines =>
        rw [hsplit] at h ih
        obtain rfl | h := mem_cons.mp h
        · exact Nat.succ_le_succ (ih mem_cons_self)
        · exact Nat.le_succ_of_le (ih (mem_cons_of_mem _ h))

theorem length_le_of_mem_expand {value c : Bytes} (h : c ∈ expand value) : c.length ≤ value.length := by
  obtain rfl | h := mem_cons.mp h
  · exact Nat.le_refl _
  · obtain ⟨line, hline, hc⟩ := mem_flatMap.mp h
    have hlen := length_le_of_mem_splitOnP (mem_of_mem_filter hline)
    obtain rfl | hc := mem_cons.mp hc
    · exact hlen
    · rw [mem_singleton.mp hc]
      exact Nat.le_trans (length_trimSpace_le line) hlen

end Candidates

section Lines

theorem valueOf_append {key : Bytes} (h : byte '=' ∉ key) (rest : Bytes) :
    valueOf (key ++ byte '=' :: rest) = rest := by
  have hall : ∀ c ∈ key, decide (c ≠ byte '=') = true := by
    intro c hc
    exact decide_eq_true (fun heq => h (heq ▸ hc))
  rw [valueOf, dropWhile_append_of_pos hall]
  simp

theorem trimSpace_append {key : Bytes} (h : trimSpace key = key) (rest : Bytes) :
    trimSpace (key ++ byte '=' :: rest) = key ++ byte '=' :: trimRight rest := by
  rw [trimSpace, trimLeft_append (by decide), trimRight_append (by decide),
    (trimSpace_eq_self.mp h).1]

/-- The text the decoder finds after the key. -/
def encodedOf (kv : Bytes) : Bytes := trimSpace (trimRight (quoteEnvValue (valueOf kv)))

theorem lineValues_entryLine {kv : Bytes} (h : ValidKey (keyOf kv)) : lineValues (entryLine kv) =
      if (keyOf kv).head? = some (byte '#') then [] else valuesOf (encodedOf kv) := by
  obtain ⟨c, key, hkey⟩ := exists_cons_of_ne_nil h.ne_nil
  have hline := trimSpace_append h.trimmed (quoteEnvValue (valueOf kv))
  have hval := valueOf_append (h.notMem rfl) (trimRight (quoteEnvValue (valueOf kv)))
  rw [lineValues, entryLine, hline, hval]
  simp [hkey, encodedOf]

theorem lineValues_of_comment {kv : Bytes} (h : ValidKey (keyOf kv))
    (hc : (keyOf kv).head? = some (byte '#')) : lineValues (entryLine kv) = [] := by
  rw [lineValues_entryLine h, if_pos hc]

theorem mem_parseEnvValues {envVars : List Bytes} {content c : Bytes}
    (h : serializeEnvContent envVars = .ok content) : c ∈ parseEnvValues content ↔
      (∃ kv ∈ envVars, ∃ v ∈ lineValues (entryLine kv), c ∈ expand v) ∧ minRedactableSecretLen ≤ c.length := by
  obtain ⟨rfl, hvalid⟩ := serializeEnvContent_ok h
  have hlines : (envVars.flatMap (fun kv => entryLine kv ++ [byte '\n'])).splitOn (byte '\n') =
      envVars.map entryLine ++ [[]] := by
    clear h
    induction envVars with
    | nil => rfl
    | cons kv envVars ih =>
      rw [forall_mem_cons] at hvalid
      rw [flatMap_cons, append_assoc, singleton_append,
        splitOn_append_cons_self_of_not_mem (notMem_entryLine hvalid.1.key), ih hvalid.2]
      rfl
  have hblank : lineValues [] = [] := rfl
  rw [parseEnvValues, mem_redactionCandidates, hlines]
  simp only [mem_flatMap, mem_append, mem_map, mem_singleton]
  refine and_congr_left (fun _ => ⟨?_, ?_⟩)
  · rintro ⟨v, ⟨line, ⟨kv, hkv, rfl⟩ | rfl, hv⟩, hc⟩
    · exact ⟨kv, hkv, v, hv, hc⟩
    · rw [hblank] at hv
      cases hv
  · rintro ⟨kv, hkv, v, hv, hc⟩
    exact ⟨v, ⟨entryLine kv, .inl ⟨kv, hkv, rfl⟩, hv⟩, hc⟩

end Lines

section Recovery

/-- The line is no comment, and white space around the value, if any, stands
between quotes. -/
structure Readable (kv : Bytes) : Prop where
  key : (keyOf kv).head? ≠ some (byte '#')
  value : needsQuote (valueOf kv) = true ∨ trimSpace (valueOf kv) = valueOf kv

theorem trimSpace_quoteEnvValue {val : Bytes} (h : needsQuote val = true ∨ trimSpace val = val) :
    trimSpace (quoteEnvValue val) = quoteEnvValue val := by
  unfold quoteEnvValue
  split
  · next hplain =>
    refine h.resolve_left (fun hneeds => ?_)
    rw [hneeds] at hplain
    cases hplain
  · split
    · exact trimSpace_between (by decide) (by decide) val
    · exact trimSpace_between (by decide) (by decide) (escape val)

variable {kv : Bytes}

theorem Readable.encodedOf_eq (h : Readable kv) : encodedOf kv = quoteEnvValue (valueOf kv) := by
  have htrim := trimSpace_quoteEnvValue h.value
  rw [encodedOf, (trimSpace_eq_self.mp htrim).2, htrim]

theorem Readable.mem_lineValues (h : Readable kv) (hkey : ValidKey (keyOf kv))
    (hlen : minRedactableSecretLen ≤ (valueOf kv).length) : valueOf kv ∈ lineValues (entryLine kv) := by
  rw [lineValues_entryLine hkey, if_neg h.key, h.encodedOf_eq, valuesOf, decodeEnvValue_quoteEnvValue, if_pos hlen]
  exact mem_append_left _ mem_cons_self

theorem length_lt_of_mem_lineValues {v : Bytes} (hkey : ValidKey (keyOf kv))
    (hplain : needsQuote (valueOf kv) = false) (htrim : trimSpace (valueOf kv) ≠ valueOf kv)
    (h : v ∈ lineValues (entryLine kv)) : v.length < (valueOf kv).length := by
  have hquote : quoteEnvValue (valueOf kv) = valueOf kv := by
    rw [quoteEnvValue, hplain]
    rfl
  have hsub : encodedOf kv <:+: valueOf kv := by
    have hright := trimRight_isPrefix (valueOf kv)
    have hleft := trimLeft_suffix (trimRight (valueOf kv))
    have hboth := trimRight_isPrefix (trimLeft (trimRight (valueOf kv)))
    rw [encodedOf, hquote]
    exact (hboth.isInfix.trans hleft.isInfix).trans hright.isInfix
  have hshort : (encodedOf kv).length < (valueOf kv).length := by
    refine lt_of_le_of_ne hsub.length_le (fun hlen => htrim ?_)
    have hright : trimRight (valueOf kv) = valueOf kv := by
      refine (trimRight_isPrefix _).eq_of_length_le ?_
      have hle := length_trimSpace_le (trimRight (valueOf kv))
      rw [encodedOf, hquote] at hlen
      rwa [hlen] at hle
    have hself := hsub.eq_of_length hlen
    rwa [encodedOf, hquote, hright] at hself
  have hnone : unquoted (encodedOf kv) = none :=
    unquoted_eq_none
      (fun hm => notMem_of_not_needsQuote hplain (.inr (.inl rfl)) (hsub.subset hm))
      (fun hm => notMem_of_not_needsQuote hplain (.inr (.inr rfl)) (hsub.subset hm))
  have hdecode : decodeEnvValue (encodedOf kv) = encodedOf kv := by rw [decodeEnvValue, hnone]
  have hform : serializedForm (encodedOf kv) = encodedOf kv := by rw [serializedForm, hnone]
  rw [lineValues_entryLine hkey] at h
  have hv : v = encodedOf kv := by
    split at h
    · cases h
    · rw [valuesOf, hdecode, hform] at h
      simp only [ne_eq, not_true_eq_false, decide_false, Bool.false_and, Bool.false_eq_true,
        if_false, append_nil, mem_ite_nil_right, mem_singleton] at h
      exact h.2
  rwa [hv]

/-- An entry's value and its lines are redacted in every environment that
holds the entry. -/
def Recovered (kv : Bytes) : Prop :=
  ∀ envVars content, kv ∈ envVars → serializeEnvContent envVars = .ok content →
    minRedactableSecretLen ≤ (valueOf kv).length → valueOf kv ∈ parseEnvValues content ∧
      ∀ line ∈ fields (valueOf kv), minRedactableSecretLen ≤ line.length → line ∈ parseEnvValues content

theorem Readable.recovered (h : Readable kv) : Recovered kv := by
  intro envVars content hkv hok hlen
  have hvalue := h.mem_lineValues ((serializeEnvContent_ok hok).2 kv hkv).key hlen
  refine ⟨?_, fun line hline hlong => ?_⟩
  · exact (mem_parseEnvValues hok).mpr ⟨⟨kv, hkv, _, hvalue, mem_cons_self⟩, hlen⟩
  · refine (mem_parseEnvValues hok).mpr ⟨⟨kv, hkv, _, hvalue, ?_⟩, hlong⟩
    exact mem_cons_of_mem _ (mem_flatMap.mpr ⟨line, hline, mem_cons_self⟩)

theorem readable_of_mem (ha : Accepted kv)
    (h : valueOf kv ∈ parseEnvValues (entryLine kv ++ [byte '\n'])) : Readable kv := by
  rw [mem_parseEnvValues (serializeEnvContent_single ha)] at h
  obtain ⟨⟨kv', hkv, v, hv, hmem⟩, _⟩ := h
  rw [mem_singleton.mp hkv] at hv
  refine ⟨fun hcomment => ?_, ?_⟩
  · rw [lineValues_of_comment ha.key hcomment] at hv
    cases hv
  · by_contra hcut
    rw [not_or, Bool.not_eq_true] at hcut
    have hlt := length_lt_of_mem_lineValues ha.key hcut.1 hcut.2 hv
    have hle := length_le_of_mem_expand hmem
    omega

theorem entry_recovered_iff (kv : Bytes) : Recovered kv ↔
      (Accepted kv → minRedactableSecretLen ≤ (valueOf kv).length → Readable kv) := by
  constructor
  · intro h ha hlen
    have hok := serializeEnvContent_single ha
    exact readable_of_mem ha (h [kv] _ mem_cons_self hok hlen).1
  · intro h envVars content hkv hok hlen
    have ha := (serializeEnvContent_ok hok).2 kv hkv
    exact (h ha hlen).recovered envVars content hkv hok hlen

/-- A key that starts a comment, and a value that ends in a no-break space. -/
theorem accepted_values_unredacted : (serializeEnvContent [text "#TOKEN=hunter2"] = .ok (text "#TOKEN=hunter2\n") ∧
      text "hunter2" ∉ parseEnvValues (text "#TOKEN=hunter2\n")) ∧
    (serializeEnvContent [text "TOKEN=hunter2" ++ [0xc2, 0xa0]] =
        .ok (text "TOKEN=hunter2" ++ [0xc2, 0xa0] ++ text "\n") ∧ text "hunter2" ++ [0xc2, 0xa0] ∉
        parseEnvValues (text "TOKEN=hunter2" ++ [0xc2, 0xa0] ++ text "\n")) := by
  refine ⟨⟨rfl, by decide⟩, ⟨rfl, by decide⟩⟩

end Recovery

end Wireops.Env.Redact
