import Wireops.Env.Redact
import Wireops.Lib.Replace

namespace Wireops.Worker.Output

open List Lib.Octets Lib.Replace Lib.Split Env.Redact

def redactedPlaceholder : Bytes := text "[REDACTED]"

def redactOne (text secret : Bytes) : Bytes :=
  if secret.length < minRedactableSecretLen then text
  else replaceAll id secret redactedPlaceholder text

def redactSecrets (text : Bytes) (secrets : List Bytes) : Bytes :=
  if text = [] || secrets = [] then text else secrets.foldl redactOne text

def markOne (text : List (Marked UInt8)) (secret : Bytes) : List (Marked UInt8) :=
  if secret.length < minRedactableSecretLen then text
  else replaceAll Prod.fst secret (inserted redactedPlaceholder) text

/-- The redacted text with a mark on each byte that came from the input. -/
def provenance (text : Bytes) (secrets : List Bytes) : List (Marked UInt8) :=
  secrets.foldl markOne (original text)

section Lines

def trimNewline (s : Bytes) : Bytes := (s.reverse.dropWhile isLineEnd).reverse

/-- The bytes of the line that is not yet complete, and the lines handed on. -/
structure LineWriter where
  buf : Bytes := []
  lines : List Bytes := []

def LineWriter.write (w : LineWriter) (p : Bytes) : LineWriter :=
  let parts := (w.buf ++ p).splitOn (byte '\n')
  { buf := parts.getLast?.getD [], lines := w.lines ++ parts.dropLast.map trimNewline }

def LineWriter.flush (w : LineWriter) : LineWriter :=
  if w.buf = [] then w else { buf := [], lines := w.lines ++ [trimNewline w.buf] }

def liveLines (writes : List Bytes) : List Bytes :=
  (writes.foldl LineWriter.write {}).flush.lines

theorem LineWriter.write_write (w : LineWriter) (p q : Bytes) : (w.write p).write q = w.write (p ++ q) := by
  obtain ⟨init, last, h⟩ := exists_last (byte '\n') (w.buf ++ p)
  have hne := splitOn_ne_nil (byte '\n') (last ++ q)
  have hfirst : w.write p = { buf := last, lines := w.lines ++ init.map trimNewline } := by
    rw [write, h, List.getLast?_concat, dropLast_concat]
    rfl
  rw [hfirst, write, write, ← append_assoc, splitOn_append h,
    List.getLast?_append_of_ne_nil _ hne, dropLast_append_of_ne_nil hne, map_append,
    append_assoc]

theorem liveLines_eq (writes : List Bytes) : liveLines writes = liveLines [writes.flatten] := by
  have h (p : Bytes) : writes.foldl LineWriter.write (LineWriter.write {} p) =
      LineWriter.write {} (p ++ writes.flatten) := by
    induction writes generalizing p with
    | nil => rw [foldl_nil, flatten_nil, append_nil]
    | cons q writes ih =>
      rw [foldl_cons, LineWriter.write_write, ih, flatten_cons, append_assoc]
  exact congrArg (fun w : LineWriter => w.flush.lines) (h [])

def trimReturns (s : Bytes) : Bytes := (s.reverse.dropWhile (· = byte '\r')).reverse

/-- The lines of a stream; what follows the last newline counts unless it is empty. -/
def linesOf (stream : Bytes) : List Bytes :=
  let parts := stream.splitOn (byte '\n')
  (if parts.getLast?.getD [] = [] then parts.dropLast else parts).map trimReturns

theorem dropWhile_isLineEnd {s : Bytes} (h : byte '\n' ∉ s) : s.dropWhile isLineEnd = s.dropWhile (· = byte '\r') := by
  induction s with
  | nil => rfl
  | cons c s ih =>
    obtain ⟨hc, hs⟩ := not_or.mp (h ∘ mem_cons.mpr)
    simp [dropWhile_cons, isLineEnd, Ne.symm hc, ih hs]

theorem liveLines_singleton (stream : Bytes) : liveLines [stream] = linesOf stream := by
  have hline : ∀ s ∈ stream.splitOn (byte '\n'), trimNewline s = trimReturns s := by
    intro s hs
    have hmem : byte '\n' ∉ s.reverse := fun hmem => by simpa using (splitOnP_part hs).2 _ (mem_reverse.mp hmem)
    exact congrArg reverse (dropWhile_isLineEnd hmem)
  obtain ⟨init, last, h⟩ := exists_last (byte '\n') stream
  have hwrite : LineWriter.write {} stream = { buf := last, lines := init.map trimNewline } := by
    rw [LineWriter.write, nil_append, h, List.getLast?_concat, dropLast_concat]
    rfl
  have hlive : liveLines [stream] = (LineWriter.write {} stream).flush.lines := rfl
  rw [h, forall_mem_append] at hline
  rw [hlive, hwrite, linesOf, h, List.getLast?_concat, dropLast_concat, Option.getD_some, LineWriter.flush]
  split
  · exact map_congr_left hline.1
  · rw [map_append, ← map_congr_left hline.1, map_singleton, ← hline.2 last mem_cons_self]

theorem liveLines_eq_linesOf (writes : List Bytes) : liveLines writes = linesOf writes.flatten := by
  rw [liveLines_eq, liveLines_singleton]

end Lines

section Capped

/-- `written` is what the writer below, which takes every byte, was passed. -/
structure CappedWriter where
  remaining : Nat
  dropped : Bool := false
  written : Bytes := []

variable (limit : Nat)

def limitWriter : CappedWriter := { remaining := limit }

/-- The writer after a write, and the length it reports. -/
def CappedWriter.write (c : CappedWriter) (p : Bytes) : CappedWriter × Nat :=
  if c.remaining = 0 then ({ c with dropped := c.dropped || p ≠ [] }, p.length)
  else if c.remaining < p.length then
    ({ remaining := 0, dropped := true, written := c.written ++ p.take c.remaining }, p.length)
  else ({ c with remaining := c.remaining - p.length, written := c.written ++ p }, p.length)

def CappedWriter.writeAll (c : CappedWriter) : List Bytes → CappedWriter × List Nat
  | [] => (c, [])
  | p :: ps => ((c.write p).1.writeAll ps).map id ((c.write p).2 :: ·)

/-- The writer after any writes that make up `s`. -/
def capped (s : Bytes) : CappedWriter where
  remaining := limit - s.length
  dropped := limit < s.length
  written := s.take limit

theorem capped_write (s p : Bytes) : (capped limit s).write p = (capped limit (s ++ p), p.length) := by
  have hnext : capped limit (s ++ p) = ⟨limit - s.length - p.length, limit < s.length + p.length,
      s.take limit ++ p.take (limit - s.length)⟩ := by
    rw [capped, length_append, Nat.sub_add_eq, take_append]
  rw [hnext, CappedWriter.write]
  split
  · next h =>
    have hfull : limit - s.length = 0 := h
    cases p with
    | nil => simp [capped]
    | cons b p =>
      have hover : limit < s.length + (p.length + 1) := by omega
      simp [capped, hfull, hover]
  · next h =>
    have hroom : limit - s.length ≠ 0 := h
    split
    · next h =>
      have hlong : limit - s.length < p.length := h
      have hover : limit < s.length + p.length := by omega
      simp [capped, hover]
      omega
    · next h =>
      have hshort : p.length ≤ limit - s.length := Nat.not_lt.mp h
      have hkept : limit < s.length ↔ limit < s.length + p.length := by omega
      simp only [capped, hkept, take_of_length_le hshort]

theorem writeAll_capped (s : Bytes) (ps : List Bytes) :
    (capped limit s).writeAll ps = (capped limit (s ++ ps.flatten), ps.map length) := by
  induction ps generalizing s with
  | nil => simp [CappedWriter.writeAll]
  | cons p ps ih => simp [CappedWriter.writeAll, capped_write, ih]

theorem limitWriter_writeAll (ps : List Bytes) :
    ∃ c, (limitWriter limit).writeAll ps = (c, ps.map length) ∧ c.written = ps.flatten.take limit ∧
      (c.dropped = true ↔ limit < ps.flatten.length) := by
  have hstart : limitWriter limit = capped limit [] := by simp [limitWriter, capped]
  rw [hstart, writeAll_capped, nil_append]
  exact ⟨_, rfl, rfl, decide_eq_true_iff⟩

end Capped

/-- What a command run leaves: the lines it handed on while it ran, its output
and its error. -/
structure Ran where
  lines : List Bytes := []
  output : Bytes := []
  err : Option Bytes := none

def runCompose (writes : List Bytes) (err : Option Bytes) : Ran where
  lines := liveLines writes
  output := writes.flatten
  err := err

/-- `prepared` are the secrets of the env file, or why there is no work dir. -/
def runInWorkDir (prepared : Except Bytes (List Bytes)) (onLine : Bool) (ran : Ran) : Ran :=
  match prepared with
  | .error e => { err := some e }
  | .ok secrets =>
    { lines := if onLine then ran.lines.map (redactSecrets · secrets) else []
      output := redactSecrets ran.output secrets
      err := ran.err.map (redactSecrets · secrets) }

section Provenance

variable {secrets values : List Bytes} {c : Bytes}

theorem placeholder_ne_nil : redactedPlaceholder ≠ [] := by decide

theorem map_fst_markOne (s : List (Marked UInt8)) (secret : Bytes) :
    (markOne s secret).map Prod.fst = redactOne (s.map Prod.fst) secret := by
  unfold markOne redactOne
  split
  · rfl
  · have hkey : ∀ a : Marked UInt8, id (Prod.fst a) = Prod.fst a := fun _ => rfl
    have h : (replaceAll Prod.fst secret (inserted redactedPlaceholder) s).map Prod.fst =
        replaceAll id secret ((inserted redactedPlaceholder).map Prod.fst) (s.map Prod.fst) := by
      exact map_replaceAll hkey secret _ s
    rwa [map_fst_inserted] at h

theorem map_fst_foldl (s : List (Marked UInt8)) (secrets : List Bytes) :
    (secrets.foldl markOne s).map Prod.fst = secrets.foldl redactOne (s.map Prod.fst) := by
  induction secrets generalizing s with
  | nil => rfl
  | cons secret secrets ih => rw [foldl_cons, foldl_cons, ih, map_fst_markOne]

theorem foldl_redactOne_nil (secrets : List Bytes) : secrets.foldl redactOne [] = [] := by
  induction secrets with
  | nil => rfl
  | cons secret secrets ih =>
    have hstep : redactOne [] secret = [] := by
      unfold redactOne
      split <;> rfl
    rw [foldl_cons, hstep, ih]

theorem map_fst_provenance (text : Bytes) (secrets : List Bytes) :
    (provenance text secrets).map Prod.fst = redactSecrets text secrets := by
  rw [provenance, map_fst_foldl, map_fst_original, redactSecrets]
  split
  · next hempty =>
    rw [Bool.or_eq_true, decide_eq_true_eq, decide_eq_true_eq] at hempty
    obtain rfl | rfl := hempty
    · exact foldl_redactOne_nil secrets
    · rfl
  · rfl

theorem free_foldl {s : List (Marked UInt8)} (h : Free c s) : Free c (secrets.foldl markOne s) := by
  induction secrets generalizing s with
  | nil => exact h
  | cons secret secrets ih =>
    rw [foldl_cons]
    apply ih
    unfold markOne
    split
    · exact h
    · exact h.replaceAll placeholder_ne_nil

theorem free_provenance (hc : c ∈ secrets) (hlen : minRedactableSecretLen ≤ c.length) (text : Bytes) :
    Free c (provenance text secrets) := by
  unfold provenance
  generalize original text = s
  induction secrets generalizing s with
  | nil => cases hc
  | cons secret secrets ih =>
    rw [foldl_cons]
    obtain rfl | hc := mem_cons.mp hc
    · have hne : c ≠ [] := by
        rintro rfl
        exact absurd hlen (by decide)
      apply free_foldl
      rw [markOne, if_neg (Nat.not_lt.mpr hlen)]
      exact free_replaceAll placeholder_ne_nil hne s
    · exact ih hc _

end Provenance

/-- A text as it is shown: of what came from the input, no stretch holds a value
or one of its lines. -/
structure Concealed (values : List Bytes) (text shown : Bytes) : Prop where
  marked : (provenance text (redactionCandidates values)).map Prod.fst = shown
  whole : ∀ r ∈ runs (provenance text (redactionCandidates values)), ∀ v ∈ values,
    minRedactableSecretLen ≤ v.length → ¬ v <:+: r
  lines : ∀ r ∈ runs (provenance text (redactionCandidates values)), ∀ v ∈ values,
    ∀ line ∈ fields v, minRedactableSecretLen ≤ line.length → ¬ line <:+: r

theorem concealed (values : List Bytes) (text : Bytes) :
    Concealed values text (redactSecrets text (redactionCandidates values)) where
  marked := map_fst_provenance text _
  whole r hr v hv hlen := by
    have hc := mem_redactionCandidates.mpr ⟨⟨v, hv, mem_cons_self⟩, hlen⟩
    exact (free_provenance hc hlen text).not_infix_run hr
  lines r hr v hv line hline hlen := by
    have hexpand : line ∈ expand v :=
      mem_cons_of_mem _ (mem_flatMap.mpr ⟨line, hline, mem_cons_self⟩)
    have hc := mem_redactionCandidates.mpr ⟨⟨v, hv, hexpand⟩, hlen⟩
    exact (free_provenance hc hlen text).not_infix_run hr

/-- All that leaves a run is concealed: the output, the error and each line. -/
structure Discreet (values : List Bytes) (ran shown : Ran) : Prop where
  output : Concealed values ran.output shown.output
  err : ∀ e ∈ shown.err, ∃ raw ∈ ran.err, Concealed values raw e
  lines : ∀ line ∈ shown.lines, ∃ raw ∈ ran.lines, Concealed values raw line

theorem runInWorkDir_discreet (values : List Bytes) (onLine : Bool) (ran : Ran) :
    Discreet values ran (runInWorkDir (.ok (redactionCandidates values)) onLine ran) where
  output := concealed values ran.output
  err e he := by
    obtain ⟨raw, hraw, rfl⟩ := Option.map_eq_some_iff.mp he
    exact ⟨raw, hraw, concealed values raw⟩
  lines line hline := by
    rw [runInWorkDir] at hline
    cases onLine with
    | false => cases hline
    | true =>
      obtain ⟨raw, hraw, rfl⟩ := mem_map.mp hline
      exact ⟨raw, hraw, concealed values raw⟩

/-- Whatever ran, all that leaves it is concealed; of a command of Compose the lines
of its stream are shown, however the stream was cut into writes. -/
theorem redacted_output_discreet (values : List Bytes) (onLine : Bool) :
    (∀ ran, Discreet values ran (runInWorkDir (.ok (redactionCandidates values)) onLine ran)) ∧
      ∀ writes err, (runInWorkDir (.ok (redactionCandidates values)) true (runCompose writes err)).lines =
        (linesOf writes.flatten).map (redactSecrets · (redactionCandidates values)) := by
  refine ⟨runInWorkDir_discreet values onLine, fun writes err => ?_⟩
  rw [← liveLines_singleton, ← liveLines_eq]
  rfl

end Wireops.Worker.Output
