import Wireops.Protocol
import Wireops.Lib.Steps

namespace Wireops.Worker.Handlers

open Function Option Protocol

def completedDurableRetention : Nat := 30 * 60 * 1000000000

/-- A cached result, with the number of the execution it came from. -/
structure DurableResultEntry where
  result : CommandResult
  storedAt : Nat
  exec : Nat
  deriving DecidableEq

inductive Outcome where
  | ignored
  | cached (exec : Nat) (result : CommandResult)
  | executed (exec : Nat) (result : CommandResult)
  deriving DecidableEq

/-- Where the handler goroutine of one delivered copy is. Each phase is one
operation on a map shared with the other goroutines. -/
inductive Phase where
  | queued
  | checkActive
  | lookup
  | judge (entry : DurableResultEntry)
  | expire
  | claim
  | activate
  | start
  | running (exec : Nat)
  | store (exec : Nat) (result : CommandResult) (now : Nat)
  | release (exec : Nat) (result : CommandResult)
  | trySweep (exec : Nat) (result : CommandResult)
  | sweep (exec : Nat) (result : CommandResult) (now : Nat)
  | evict (exec : Nat) (result : CommandResult) (now : Nat) (commandID : String)
  | reply (exec : Nat) (result : CommandResult)
  | deactivate (exec : Nat) (result : CommandResult)
  | done (outcome : Outcome) (decidedAt : Nat)
  deriving DecidableEq

/-- `after` is the last execution of the command that had finished when the
handling of the copy began. -/
structure Copy where
  cmd : Command
  phase : Phase := .queued
  after : Option Nat := none

structure Exec where
  cmd : Command
  startedAt : Nat
  finished : Option (Nat × CommandResult) := none

structure Sent where
  result : CommandResult
  exec : Option Nat

structure State where
  now : Nat := 0
  active : String → Bool := fun _ => false
  completed : String → Option DurableResultEntry := fun _ => none
  claimed : String → Bool := fun _ => false
  sweeping : Bool := false
  copies : Nat → Option Copy := fun _ => none
  nextCopy : Nat := 0
  execs : Nat → Option Exec := fun _ => none
  nextExec : Nat := 0
  lastFinished : String → Option Nat := fun _ => none
  outbox : List Sent := []

/-- `advance` is the next operation of a copy's handler; the environment
chooses the result of an execution and the entries a sweep comes across. -/
inductive Action where
  | tick (d : Nat)
  | receive (cmd : Command)
  | refuse (cmd : Command) (draining : Bool)
  | advance (copy : Nat)
  | complete (copy : Nat) (output error : String)
  | pick (copy : Nat) (commandID : String)
  deriving DecidableEq, Repr

/-- The commands whose handlers claim their id. -/
def claims : Command → Bool
  | .deploy _ | .redeploy _ | .teardown _ => true
  | _ => false

def fresh (now : Nat) (entry : DurableResultEntry) : Bool :=
  now - entry.storedAt ≤ completedDurableRetention

namespace State

def setPhase (s : State) (k : Nat) (c : Copy) (p : Phase) : State :=
  { s with copies := update s.copies k (some { c with phase := p }) }

def send (s : State) (r : CommandResult) (exec : Option Nat) : State :=
  { s with outbox := s.outbox ++ [⟨r, exec⟩] }

end State

/-- The queue-depth and draining checks answer without running the handler. -/
def refusal (commandID : String) (draining : Bool) : CommandResult :=
  ⟨commandID, "", "", if draining then "rejected: worker draining" else "rejected: worker overloaded"⟩

variable (s : State) (k : Nat) (c : Copy)

def receive (cmd : Command) : State :=
  { s with
    copies := update s.copies s.nextCopy (some { cmd })
    nextCopy := s.nextCopy + 1 }

def begin_ : State :=
  let c := { c with after := s.lastFinished c.cmd.commandID }
  if s.active c.cmd.commandID then s.setPhase k c (.done .ignored s.now) else s.setPhase k c .lookup

def lookup : State :=
  match s.completed c.cmd.commandID with
  | none => s.setPhase k c .claim
  | some entry => s.setPhase k c (.judge entry)

def judge (entry : DurableResultEntry) : State :=
  if fresh s.now entry then
    (s.setPhase k c (.done (.cached entry.exec entry.result) s.now)).send entry.result
      (some entry.exec)
  else s.setPhase k c .expire

def delete (commandID : String) : State :=
  { s with completed := update s.completed commandID none }

def claim : State :=
  if s.claimed c.cmd.commandID then s.setPhase k c (.done .ignored s.now)
  else { s.setPhase k c .activate with
    claimed := update s.claimed c.cmd.commandID true }

def activate : State :=
  { s.setPhase k c .start with active := update s.active c.cmd.commandID true }

def start : State :=
  { s.setPhase k c (.running s.nextExec) with
    execs := update s.execs s.nextExec (some { cmd := c.cmd, startedAt := s.now })
    nextExec := s.nextExec + 1 }

def store (e : Nat) (r : CommandResult) (now : Nat) : State :=
  { s.setPhase k c (.release e r) with
    completed := update s.completed c.cmd.commandID (some ⟨r, now, e⟩)
    execs := update s.execs e
      ((s.execs e).map (fun x => { x with finished := some (now, r) }))
    lastFinished := update s.lastFinished c.cmd.commandID (some e) }

def release (e : Nat) (r : CommandResult) : State :=
  { s.setPhase k c (.trySweep e r) with
    claimed := update s.claimed c.cmd.commandID false }

def trySweep (e : Nat) (r : CommandResult) : State :=
  if s.sweeping then s.setPhase k c (.reply e r)
  else { s.setPhase k c (.sweep e r s.now) with sweeping := true }

def deactivate (e : Nat) (r : CommandResult) : State :=
  { s.setPhase k c (.done (.executed e r) s.now) with
    active := update s.active c.cmd.commandID false }

def advance : Phase → Option State
  | .queued => some (s.setPhase k c .checkActive)
  | .checkActive => some (begin_ s k c)
  | .lookup => some (lookup s k c)
  | .judge entry => some (judge s k c entry)
  | .expire => some ((delete s c.cmd.commandID).setPhase k c .claim)
  | .claim => some (claim s k c)
  | .activate => some (activate s k c)
  | .start => some (start s k c)
  | .running _ => none
  | .store e r now => some (store s k c e r now)
  | .release e r => some (release s k c e r)
  | .trySweep e r => some (trySweep s k c e r)
  | .sweep e r _ => some { s.setPhase k c (.reply e r) with sweeping := false }
  | .evict e r now commandID => some ((delete s commandID).setPhase k c (.sweep e r now))
  | .reply e r => some ((s.setPhase k c (.deactivate e r)).send r (some e))
  | .deactivate e r => some (deactivate s k c e r)
  | .done _ _ => none

def step : Action → Option State
  | .tick d => some { s with now := s.now + d }
  | .receive cmd => if claims cmd then some (receive s cmd) else none
  | .refuse cmd draining =>
    if claims cmd then
      if cmd.commandID = "" then some s else some (s.send (refusal cmd.commandID draining) none)
    else none
  | .advance k => do
    let c ← s.copies k
    advance s k c c.phase
  | .complete k output error => do
    let c ← s.copies k
    match c.phase with
    | .running e => some (s.setPhase k c (.store e ⟨c.cmd.commandID, "", output, error⟩ s.now))
    | _ => none
  | .pick k commandID => do
    let c ← s.copies k
    match c.phase, s.completed commandID with
    | .sweep e r now, some entry =>
      if fresh now entry then none else some (s.setPhase k c (.evict e r now commandID))
    | _, _ => none

inductive Fires (s : State) : Action → State → Prop where
  | tick (d : Nat) : Fires s (.tick d) { s with now := s.now + d }
  | receive {cmd : Command} (h : claims cmd = true) : Fires s (.receive cmd) (receive s cmd)
  | refuse {cmd : Command} (draining : Bool) (h : claims cmd = true) (hid : cmd.commandID ≠ "") :
    Fires s (.refuse cmd draining) (s.send (refusal cmd.commandID draining) none)
  | refuseSilently {cmd : Command} (draining : Bool) (h : claims cmd = true)
    (hid : cmd.commandID = "") : Fires s (.refuse cmd draining) s
  | advance {k : Nat} {c : Copy} {t : State} (hc : s.copies k = some c)
    (ha : advance s k c c.phase = some t) : Fires s (.advance k) t
  | complete {k e : Nat} {c : Copy} (output error : String) (hc : s.copies k = some c)
    (hp : c.phase = .running e) : Fires s (.complete k output error)
      (s.setPhase k c (.store e ⟨c.cmd.commandID, "", output, error⟩ s.now))
  | pick {k e now : Nat} {c : Copy} {r : CommandResult} {commandID : String}
    {entry : DurableResultEntry} (hc : s.copies k = some c) (hp : c.phase = .sweep e r now)
    (he : s.completed commandID = some entry) (hf : fresh now entry = false) :
    Fires s (.pick k commandID) (s.setPhase k c (.evict e r now commandID))

theorem step_fires {s t : State} {a : Action} (h : step s a = some t) : Fires s a t := by
  cases a with
  | tick d =>
    cases h
    exact .tick d
  | receive cmd =>
    obtain ⟨hcl, ⟨⟩⟩ := ite_none_right_eq_some.mp h
    exact .receive hcl
  | refuse cmd draining =>
    obtain ⟨hcl, h⟩ := ite_none_right_eq_some.mp h
    split at h
    · next hid =>
      cases h
      exact .refuseSilently draining hcl hid
    · next hid =>
      cases h
      exact .refuse draining hcl hid
  | advance k =>
    obtain ⟨c, hc, h⟩ := bind_eq_some_iff.mp h
    exact .advance hc h
  | complete k output error =>
    obtain ⟨c, hc, h⟩ := bind_eq_some_iff.mp h
    split at h
    · next e hp =>
      cases h
      exact .complete output error hc hp
    · cases h
  | pick k commandID =>
    obtain ⟨c, hc, h⟩ := bind_eq_some_iff.mp h
    split at h
    · next e r now entry hp he =>
      obtain ⟨hf, ⟨⟩⟩ := ite_none_left_eq_some.mp h
      exact .pick hc hp he (eq_false_of_ne_true hf)
    · cases h

theorem fresh_iff {now : Nat} {entry : DurableResultEntry} :
    fresh now entry = true ↔ now ≤ entry.storedAt + completedDurableRetention := by
  simp only [fresh, decide_eq_true_eq]
  omega

end Wireops.Worker.Handlers
