import Wireops.Server.Inbound

namespace Wireops.Server.LiveOutput

open List Lib.Steps Lib.Table Server.Inbound

structure Command where
  commandID : String
  stackID : String
  phase : String
  named : commandID ≠ ""

/-- `seq` is the counter of the running attempt. `goroutines` are those started
for lines of the command and not yet published, in the order of arrival;
`received` is the history of that order. -/
structure State where
  server : Inbound.State := {}
  seq : Int := 0
  received : List CommandOutputMessage := []
  goroutines : List CommandOutputMessage := []

/-- `attempt` runs the command anew under its id, `line` is sent and received,
`publish` lets one goroutine run; `other` is another command's line. -/
inductive Action where
  | tick (d : Nat)
  | attempt
  | line (text : String)
  | publish (i : Nat)
  | other (m : CommandOutputMessage)
  deriving DecidableEq, Repr

def onCommandOutput (s : Inbound.State) (m : CommandOutputMessage) : Inbound.State :=
  if m.commandID = "" then s else publishLine s m

variable (cmd : Command)

def outputLine (seq : Int) (text : String) : CommandOutputMessage :=
  ⟨cmd.commandID, cmd.stackID, cmd.phase, text, seq⟩

def step (s : State) : Action → Option State
  | .tick d => some { s with server := { s.server with now := s.server.now + d } }
  | .attempt => some { s with seq := 0 }
  | .line text => some { s with
      seq := s.seq + 1
      received := s.received ++ [outputLine cmd (s.seq + 1) text]
      goroutines := s.goroutines ++ [outputLine cmd (s.seq + 1) text] }
  | .publish i => s.goroutines[i]?.map fun m =>
      { s with server := onCommandOutput s.server m, goroutines := s.goroutines.eraseIdx i }
  | .other m =>
    if m.commandID = cmd.commandID then none
    else some { s with server := onCommandOutput s.server m }

def shown (m : CommandOutputMessage) : String :=
  (if m.phase = "" then "" else "[" ++ m.phase ++ "] ") ++ m.line ++ "\n"

def transcript : List CommandOutputMessage → String
  | [] => ""
  | m :: ms => shown m ++ transcript ms

def buffer (s : State) : LiveCommand := (s.server.live cmd.commandID).getD {}

def Complete (s : State) : Prop :=
  s.goroutines = [] → (buffer cmd s).output = transcript s.received

/-- The goroutines run in the order they were started in, the command is run once,
and its buffer is not idle when a line of another command is published. -/
def Orderly (s : State) : Action → Prop
  | .publish i => i = 0
  | .attempt => s.received = []
  | .other _ => ∀ lc ∈ s.server.live cmd.commandID, idle s.server.now lc = false
  | .tick _ | .line _ => True

instance (cmd : Command) (s : State) (a : Action) : Decidable (Orderly cmd s a) := by
  unfold Orderly
  split <;> infer_instance

variable {cmd : Command} {s t : State} {m : CommandOutputMessage}

theorem transcript_append (ms ns : List CommandOutputMessage) :
    transcript (ms ++ ns) = transcript ms ++ transcript ns := by
  induction ms with
  | nil => simp [transcript]
  | cons m ms ih => simp [transcript, ih, String.append_assoc]

/-- What has been published is in the buffer. The lines are numbered by their
places among those received. -/
structure Inv (cmd : Command) (s : State) (done : List CommandOutputMessage) : Prop where
  received : s.received = done ++ s.goroutines
  seq : s.seq = s.received.length
  numbered : ∀ (i : Nat) (m : CommandOutputMessage), s.received[i]? = some m →
    m.commandID = cmd.commandID ∧ m.seq = i + 1
  lastSeq : (buffer cmd s).lastSeq = done.length
  output : (transcript done).utf8ByteSize < liveCommandMaxBytes → (buffer cmd s).output = transcript done

theorem onCommandOutput_other {server : Inbound.State} {id : String} (hid : m.commandID ≠ id)
    (hidle : ∀ lc ∈ server.live id, idle server.now lc = false) :
    (onCommandOutput server m).live id = server.live id := by
  unfold onCommandOutput
  split
  · rfl
  · simp only [publishLine, Function.update_of_ne (Ne.symm hid)]
    cases hlc : server.live id with
    | none => rfl
    | some lc => simp [Option.filter, hidle lc hlc]

theorem updatedAt_appendLine (now : Nat) (m : CommandOutputMessage) (lc : LiveCommand) :
    (appendLine now m lc).updatedAt = now := by
  unfold appendLine
  split <;> rfl

theorem onCommandOutput_own {server : Inbound.State} (hne : m.commandID ≠ "") :
    (onCommandOutput server m).live m.commandID =
      some (appendLine server.now m ((server.live m.commandID).getD {})) := by
  simp only [onCommandOutput, if_neg hne, publishLine, Function.update_self]
  simp [Option.filter, idle, updatedAt_appendLine]

theorem appendLine_next (now : Nat) {lc : LiveCommand} (hseq : lc.lastSeq < m.seq) :
    (appendLine now m lc).lastSeq = m.seq ∧ (lc.output.utf8ByteSize < liveCommandMaxBytes →
        (appendLine now m lc).output = lc.output ++ shown m) := by
  simp only [appendLine, if_pos (show m.seq > lc.lastSeq from hseq), true_and]
  intro hroom
  rw [if_pos hroom, shown]
  simp only [String.append_assoc]

theorem utf8ByteSize_transcript_le (ms ns : List CommandOutputMessage) :
    (transcript ms).utf8ByteSize ≤ (transcript (ms ++ ns)).utf8ByteSize := by
  rw [transcript_append, String.utf8ByteSize_append]
  exact Nat.le_add_right _ _

variable {done : List CommandOutputMessage}

theorem init_inv (cmd : Command) : Inv cmd {} [] where
  received := rfl
  seq := rfl
  numbered i m h := by simp at h
  lastSeq := rfl
  output _ := rfl

theorem Inv.of_eq (h : Inv cmd s done) (hr : t.received = s.received)
    (hg : t.goroutines = s.goroutines) (hseq : t.seq = s.seq)
    (hb : t.server.live cmd.commandID = s.server.live cmd.commandID) : Inv cmd t done := by
  have hbuf : buffer cmd t = buffer cmd s := by rw [buffer, buffer, hb]
  exact {
    received := by rw [hr, hg, h.received]
    seq := by rw [hseq, hr, h.seq]
    numbered := by
      rw [hr]
      exact h.numbered
    lastSeq := by rw [hbuf, h.lastSeq]
    output := by
      rw [hbuf]
      exact h.output }

theorem Inv.line (h : Inv cmd s done) (text : String) :
    Inv cmd { s with
      seq := s.seq + 1
      received := s.received ++ [outputLine cmd (s.seq + 1) text]
      goroutines := s.goroutines ++ [outputLine cmd (s.seq + 1) text] } done where
  __ := h
  received := by rw [h.received, append_assoc]
  seq := by simp [h.seq]
  numbered i m hm := by
    rw [List.getElem?_append] at hm
    split at hm
    · exact h.numbered i m hm
    · next hge =>
      rw [List.getElem?_singleton] at hm
      split at hm
      · cases hm
        refine ⟨rfl, ?_⟩
        simp only [outputLine, h.seq]
        omega
      · cases hm

theorem Inv.publish {rest : List CommandOutputMessage} (h : Inv cmd s done) (hg : s.goroutines = m :: rest) :
    Inv cmd { s with server := onCommandOutput s.server m, goroutines := rest } (done ++ [m]) := by
  have hrec : s.received = (done ++ [m]) ++ rest := by
    rw [h.received, hg, append_assoc, singleton_append]
  have hm : s.received[done.length]? = some m := by
    rw [h.received, hg]
    simp
  obtain ⟨hid, hseq⟩ := h.numbered done.length m hm
  have hbuf : buffer cmd { s with server := onCommandOutput s.server m, goroutines := rest } =
      appendLine s.server.now m (buffer cmd s) := by
    rw [buffer, buffer, ← hid, onCommandOutput_own (hid ▸ cmd.named)]
    rfl
  have hlt : (buffer cmd s).lastSeq < m.seq := by
    rw [h.lastSeq, hseq]
    omega
  obtain ⟨hlast, hout⟩ := appendLine_next s.server.now hlt
  exact {
    received := hrec
    seq := h.seq
    numbered := h.numbered
    lastSeq := by simp [hbuf, hlast, hseq]
    output := fun hfit => by
      have hfit' := Nat.lt_of_le_of_lt (utf8ByteSize_transcript_le done [m]) hfit
      have hdone := h.output hfit'
      rw [hbuf, hout (hdone ▸ hfit'), hdone, transcript_append]
      simp [transcript] }

theorem step_inv (s : State) (a : Action) (t : State) (h : ∃ done, Inv cmd s done)
    (hg : Orderly cmd s a) (hs : step cmd s a = some t) : ∃ done, Inv cmd t done := by
  obtain ⟨done, h⟩ := h
  cases a with
  | tick d =>
    cases hs
    exact ⟨done, h.of_eq rfl rfl rfl rfl⟩
  | attempt =>
    cases hs
    have hseq : s.seq = 0 := by
      rw [h.seq, show s.received = [] from hg]
      rfl
    exact ⟨done, h.of_eq rfl rfl hseq.symm rfl⟩
  | line text =>
    cases hs
    exact ⟨done, h.line text⟩
  | publish i =>
    obtain rfl : i = 0 := hg
    obtain ⟨m, hm, rfl⟩ := Option.map_eq_some_iff.mp hs
    obtain ⟨rest, hrest⟩ : ∃ rest, s.goroutines = m :: rest := by
      cases hgo : s.goroutines with
      | nil => simp [hgo] at hm
      | cons m' rest =>
        rw [hgo, List.getElem?_cons_zero] at hm
        cases hm
        exact ⟨rest, rfl⟩
    refine ⟨done ++ [m], ?_⟩
    rw [hrest, eraseIdx_cons_zero]
    exact h.publish hrest
  | other m =>
    obtain ⟨hid, ⟨⟩⟩ := Option.ite_none_left_eq_some.mp hs
    exact ⟨done, h.of_eq rfl rfl rfl (onCommandOutput_other hid hg)⟩

/-- Along an orderly run the live buffer has all lines of the command once their
goroutines have run, as long as they fit in it. -/
theorem orderly_run_complete (cmd : Command) (as : List Action) (s : State)
    (hg : Meets (step cmd) (Orderly cmd) {} as) (h : run (step cmd) {} as = some s)
    (hfit : (transcript s.received).utf8ByteSize < liveCommandMaxBytes) : Complete cmd s := by
  obtain ⟨done, hinv⟩ := run_invariant step_inv ⟨[], init_inv cmd⟩ hg h
  intro hend
  have hdone : s.received = done := by rw [hinv.received, hend, append_nil]
  rw [hdone]
  exact hinv.output (hdone ▸ hfit)

def deploy : Command := ⟨"c1", "s1", "compose_up", by decide⟩

/-- The goroutine of the second line runs first. -/
def overtaken : List Action := [.line "pulling", .line "started", .publish 1, .publish 0]

/-- A second attempt counts its lines from one again. -/
def retried : List Action :=
  [.line "pulling", .line "failed", .publish 0, .publish 0, .attempt, .line "pulling", .line "started",
    .publish 0, .publish 0]

/-- The live buffers after the two runs lack lines, though all were received and
every goroutine has run. -/
theorem lines_lost : (∃ s ∈ run (step deploy) {} overtaken, s.goroutines = [] ∧
        transcript s.received = "[compose_up] pulling\n[compose_up] started\n" ∧
        (buffer deploy s).output = "[compose_up] started\n") ∧ ∃ s ∈ run (step deploy) {} retried, s.goroutines = [] ∧
        transcript s.received = "[compose_up] pulling\n[compose_up] failed\n" ++
          "[compose_up] pulling\n[compose_up] started\n" ∧
        (buffer deploy s).output = "[compose_up] pulling\n[compose_up] failed\n" :=
  ⟨run_reaches (by decide +kernel), run_reaches (by decide +kernel)⟩

def streamed : List Action :=
  [.attempt, .line "pulling", .publish 0, .other ⟨"c2", "s2", "teardown", "removed", 1⟩, .line "started", .publish 0]

theorem orderly_run_complete_streamed :
    Meets (step deploy) (Orderly deploy) {} streamed ∧ ∃ s ∈ run (step deploy) {} streamed,
      (transcript s.received).utf8ByteSize < liveCommandMaxBytes ∧ Complete deploy s := by
  have hg : Meets (step deploy) (Orderly deploy) {} streamed := by decide +kernel
  have hrun : ∃ s ∈ run (step deploy) {} streamed,
      (transcript s.received).utf8ByteSize < liveCommandMaxBytes := run_reaches (by decide +kernel)
  obtain ⟨s, hs, hfit⟩ := hrun
  exact ⟨hg, s, hs, hfit, orderly_run_complete deploy streamed s hg hs hfit⟩

end Wireops.Server.LiveOutput
