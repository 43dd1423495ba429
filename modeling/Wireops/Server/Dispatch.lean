import Mathlib.Data.List.AList
import Wireops.Protocol
import Wireops.Lib.Steps

namespace Wireops.Server.Dispatch

open Option Function Protocol

/-- The entry of the pending table: its channel is named by the `Dispatch` call
that waits on it, and `cmd` is what the envelope closure captured. -/
structure PendingResult where
  call : Nat
  workerID : String
  msgType : MessageType
  commandID : String
  cmd : Command
  deriving DecidableEq, Repr

def PendingResult.envelope (pr : PendingResult) (messageID : String) : Envelope :=
  ⟨pr.msgType, withDispatchMessageID messageID pr.cmd⟩

inductive Reply where
  | result (r : CommandResult)
  | error (text : String)
  deriving DecidableEq

/-- Where a `Dispatch` call is. The connection is the one it read on entry. -/
inductive Phase where
  | register (conn : Option Nat)
  | send (conn : Option Nat)
  | wait
  | unregister (reply : Reply)
  | returned (reply : Reply)
  deriving DecidableEq

structure Call where
  workerID : String
  cmd : Command
  phase : Phase
  /-- The result channel, of capacity one. -/
  ch : Option CommandResult := none
  deriving DecidableEq

/-- Where the handler of one worker connection is. -/
inductive SessionPhase where
  | connected
  | replaying (toReplay : List PendingResult)
  | reading
  | ended
  deriving DecidableEq

structure Session where
  workerID : String
  phase : SessionPhase
  deriving DecidableEq

/-- One `WriteMessage` of a command, successful or not. -/
structure Write where
  call : Nat
  session : Nat
  env : Envelope
  ok : Bool

structure State where
  connections : String → Option Nat := fun _ => none
  pending : AList (fun _ : String => PendingResult) := ∅
  calls : Nat → Option Call := fun _ => none
  nextCall : Nat := 0
  sessions : Nat → Option Session := fun _ => none
  nextSession : Nat := 0
  writes : List Write := []

/-- The steps of the command channel. The environment chooses message ids,
write failures, the order of a range over the pending map and the moment a
context ends. -/
inductive Action where
  | dispatch (workerID : String) (cmd : Command)
  | register (call : Nat)
  | marshalFail (call : Nat)
  | send (call : Nat) (messageID : String) (ok : Bool)
  | queue (call : Nat)
  | receive (call : Nat)
  | giveUp (call : Nat) (text : String)
  | unregister (call : Nat)
  | connect (workerID : String)
  | snapshot (session : Nat) (order : List PendingResult)
  | resend (session : Nat) (messageID : String) (ok : Bool)
  | skipReplay (session : Nat)
  | read (session : Nat)
  | result (session : Nat) (r : CommandResult)
  | disconnect (session : Nat)
  | disconnectWorker (workerID : String)
  deriving DecidableEq, Repr

namespace State

variable (s : State)

def setCall (k : Nat) (c : Call) : State :=
  { s with calls := update s.calls k (some c) }

def setSession (n : Nat) (x : Session) : State :=
  { s with sessions := update s.sessions n (some x) }

theorem setCall_self (k : Nat) (c : Call) : (s.setCall k c).calls k = some c :=
  update_self ..

theorem setCall_of_ne {i k : Nat} (c : Call) (h : i ≠ k) : (s.setCall k c).calls i = s.calls i :=
  update_of_ne h ..

theorem setSession_self (n : Nat) (x : Session) : (s.setSession n x).sessions n = some x :=
  update_self ..

theorem setSession_of_ne {m n : Nat} (x : Session) (h : m ≠ n) : (s.setSession n x).sessions m = s.sessions m :=
  update_of_ne h ..

def write (w : Write) : State :=
  { s with writes := s.writes ++ [w] }

def pendingFor (workerID : String) : List PendingResult :=
  (s.pending.entries.map (fun e => e.2)).filter (fun pr => pr.workerID = workerID)

end State

def durable (cmd : Command) : Bool := cmd.msgType.any isDurableCommand

variable (s : State) (r : CommandResult)

/-- The type switch and the fail-fast check on entry. -/
def enter (workerID : String) (cmd : Command) : Phase :=
  match cmd.msgType with
  | none => .returned (.error ("unknown or malformed container action command ID: " ++ cmd.commandID))
  | some ty =>
    if !isDurableCommand ty && (s.connections workerID).isNone then
      .returned (.error ("worker " ++ workerID ++ " is not connected"))
    else .register (s.connections workerID)

def open_ (c : Call) : State :=
  { s.setCall s.nextCall c with nextCall := s.nextCall + 1 }

def register (k : Nat) (c : Call) (ty : MessageType) (conn : Option Nat) : State :=
  { s.setCall k { c with phase := .send conn } with
    pending := s.pending.insert c.cmd.commandID ⟨k, c.workerID, ty, c.cmd.commandID, c.cmd⟩ }

/-- A failed write of a durable command falls through to the wait. -/
def afterSend (c : Call) (ok : Bool) : Phase :=
  if ok || durable c.cmd then .wait
  else .unregister (.error ("failed to send command to worker " ++ c.workerID))

def send (k : Nat) (c : Call) (ty : MessageType) (conn : Nat) (messageID : String) (ok : Bool) : State :=
  (s.setCall k { c with phase := afterSend c ok }).write
    ⟨k, conn, ⟨ty, withDispatchMessageID messageID c.cmd⟩, ok⟩

def unregister (k : Nat) (c : Call) (reply : Reply) : State :=
  { s.setCall k { c with phase := .returned reply } with
    pending := s.pending.erase c.cmd.commandID }

def connect (workerID : String) : State :=
  { s.setSession s.nextSession ⟨workerID, .connected⟩ with
    connections := update s.connections workerID (some s.nextSession)
    nextSession := s.nextSession + 1 }

def resend (n : Nat) (x : Session) (pr : PendingResult) (rest : List PendingResult)
    (messageID : String) (ok : Bool) : State :=
  (s.setSession n { x with phase := .replaying rest }).write
    ⟨pr.call, n, pr.envelope messageID, ok⟩

def target : Option (Nat × Call) := do
  let pr ← s.pending.lookup r.commandID
  let c ← s.calls pr.call
  if c.ch.isNone then some (pr.call, c) else none

/-- The non-blocking send on the result channel of the pending entry. -/
def deliver : State :=
  match target s r with
  | none => s
  | some (k, c) => s.setCall k { c with ch := some r }

/-- The deferred cleanup of the connection handler: a stale handler leaves the
worker's newer connection. -/
def disconnect (n : Nat) (x : Session) : State :=
  let s := s.setSession n { x with phase := .ended }
  if s.connections x.workerID = some n then
    { s with connections := update s.connections x.workerID none }
  else s

def step : Action → Option State
  | .dispatch workerID cmd => some (open_ s { workerID, cmd, phase := enter s workerID cmd })
  | .register k => do
    let c ← s.calls k
    match c.phase, c.cmd.msgType with
    | .register conn, some ty => some (register s k c ty conn)
    | _, _ => none
  | .marshalFail k => do
    let c ← s.calls k
    match c.phase with
    | .send (some _) =>
      some (s.setCall k { c with phase := .unregister (.error "failed to marshal command") })
    | _ => none
  | .send k messageID ok => do
    let c ← s.calls k
    match c.phase, c.cmd.msgType with
    | .send (some conn), some ty => some (send s k c ty conn messageID ok)
    | _, _ => none
  | .queue k => do
    let c ← s.calls k
    match c.phase with
    | .send none => some (s.setCall k { c with phase := .wait })
    | _ => none
  | .receive k => do
    let c ← s.calls k
    match c.phase, c.ch with
    | .wait, some r => some (s.setCall k { c with phase := .unregister (.result r), ch := none })
    | _, _ => none
  | .giveUp k text => do
    let c ← s.calls k
    match c.phase with
    | .wait => some (s.setCall k { c with phase := .unregister (.error text) })
    | _ => none
  | .unregister k => do
    let c ← s.calls k
    match c.phase with
    | .unregister reply => some (unregister s k c reply)
    | _ => none
  | .connect workerID => some (connect s workerID)
  | .snapshot n order => do
    let x ← s.sessions n
    match x.phase with
    | .connected =>
      if order.Perm (s.pendingFor x.workerID) then
        some (s.setSession n { x with phase := .replaying order })
      else none
    | _ => none
  | .resend n messageID ok => do
    let x ← s.sessions n
    match x.phase with
    | .replaying (pr :: rest) => some (resend s n x pr rest messageID ok)
    | _ => none
  | .skipReplay n => do
    let x ← s.sessions n
    match x.phase with
    | .replaying (_ :: rest) => some (s.setSession n { x with phase := .replaying rest })
    | _ => none
  | .read n => do
    let x ← s.sessions n
    match x.phase with
    | .replaying [] => some (s.setSession n { x with phase := .reading })
    | _ => none
  | .result n r => do
    let x ← s.sessions n
    match x.phase with
    | .reading => some (deliver s r)
    | _ => none
  | .disconnect n => do
    let x ← s.sessions n
    match x.phase with
    | .reading => some (disconnect s n x)
    | _ => none
  | .disconnectWorker workerID =>
    some { s with connections := update s.connections workerID none }

/-- What each action needs of the state it is taken in, and what it leaves. -/
inductive Fires (s : State) : Action → State → Prop where
  | dispatch (workerID : String) (cmd : Command) :
    Fires s (.dispatch workerID cmd) (open_ s { workerID, cmd, phase := enter s workerID cmd })
  | register {k : Nat} {c : Call} {conn : Option Nat} {ty : MessageType}
    (hc : s.calls k = some c) (hp : c.phase = .register conn) (ht : c.cmd.msgType = some ty) :
    Fires s (.register k) (register s k c ty conn)
  | marshalFail {k : Nat} {c : Call} {conn : Nat}
    (hc : s.calls k = some c) (hp : c.phase = .send (some conn)) : Fires s (.marshalFail k)
      (s.setCall k { c with phase := .unregister (.error "failed to marshal command") })
  | send {k : Nat} {c : Call} {conn : Nat} {ty : MessageType} (messageID : String) (ok : Bool)
    (hc : s.calls k = some c) (hp : c.phase = .send (some conn)) (ht : c.cmd.msgType = some ty) :
    Fires s (.send k messageID ok) (send s k c ty conn messageID ok)
  | queue {k : Nat} {c : Call} (hc : s.calls k = some c) (hp : c.phase = .send none) :
    Fires s (.queue k) (s.setCall k { c with phase := .wait })
  | receive {k : Nat} {c : Call} {r : CommandResult}
    (hc : s.calls k = some c) (hp : c.phase = .wait) (hr : c.ch = some r) :
    Fires s (.receive k) (s.setCall k { c with phase := .unregister (.result r), ch := none })
  | giveUp {k : Nat} {c : Call} (text : String) (hc : s.calls k = some c) (hp : c.phase = .wait) :
    Fires s (.giveUp k text) (s.setCall k { c with phase := .unregister (.error text) })
  | unregister {k : Nat} {c : Call} {reply : Reply}
    (hc : s.calls k = some c) (hp : c.phase = .unregister reply) : Fires s (.unregister k) (unregister s k c reply)
  | connect (workerID : String) : Fires s (.connect workerID) (connect s workerID)
  | snapshot {n : Nat} {x : Session} {order : List PendingResult} (hx : s.sessions n = some x)
    (hp : x.phase = .connected) (ho : order.Perm (s.pendingFor x.workerID)) :
    Fires s (.snapshot n order) (s.setSession n { x with phase := .replaying order })
  | resend {n : Nat} {x : Session} {pr : PendingResult} {rest : List PendingResult}
    (messageID : String) (ok : Bool) (hx : s.sessions n = some x)
    (hp : x.phase = .replaying (pr :: rest)) : Fires s (.resend n messageID ok) (resend s n x pr rest messageID ok)
  | skipReplay {n : Nat} {x : Session} {pr : PendingResult} {rest : List PendingResult}
    (hx : s.sessions n = some x) (hp : x.phase = .replaying (pr :: rest)) :
    Fires s (.skipReplay n) (s.setSession n { x with phase := .replaying rest })
  | read {n : Nat} {x : Session} (hx : s.sessions n = some x) (hp : x.phase = .replaying []) :
    Fires s (.read n) (s.setSession n { x with phase := .reading })
  | result {n : Nat} {x : Session} (r : CommandResult)
    (hx : s.sessions n = some x) (hp : x.phase = .reading) : Fires s (.result n r) (deliver s r)
  | disconnect {n : Nat} {x : Session} (hx : s.sessions n = some x) (hp : x.phase = .reading) :
    Fires s (.disconnect n) (disconnect s n x)
  | disconnectWorker (workerID : String) : Fires s (.disconnectWorker workerID)
      { s with connections := update s.connections workerID none }

theorem step_fires {s t : State} {a : Action} (h : step s a = some t) : Fires s a t := by
  cases a with
  | dispatch workerID cmd =>
    cases h
    exact .dispatch workerID cmd
  | connect workerID =>
    cases h
    exact .connect workerID
  | disconnectWorker workerID =>
    cases h
    exact .disconnectWorker workerID
  | register k | marshalFail k | queue k | receive k | giveUp k _ | unregister k | send k _ _ =>
    obtain ⟨c, hc, h⟩ := bind_eq_some_iff.mp h
    split at h
    · cases h
      constructor <;> assumption
    · cases h
  | snapshot n order =>
    obtain ⟨x, hx, h⟩ := bind_eq_some_iff.mp h
    split at h
    · split at h
      · cases h
        constructor <;> assumption
      · cases h
    · cases h
  | resend n _ _ | skipReplay n | read n | result n _ | disconnect n =>
    obtain ⟨x, hx, h⟩ := bind_eq_some_iff.mp h
    split at h
    · cases h
      constructor <;> assumption
    · cases h

theorem target_spec {s : State} {r : CommandResult} {k : Nat} {c : Call} (h : target s r = some (k, c)) :
    ∃ pr, s.pending.lookup r.commandID = some pr ∧ pr.call = k ∧ s.calls k = some c ∧ c.ch = none := by
  obtain ⟨pr, hpr, h⟩ := bind_eq_some_iff.mp h
  obtain ⟨d, hd, h⟩ := bind_eq_some_iff.mp h
  split at h
  · next hch =>
    cases h
    exact ⟨pr, hpr, rfl, hd, isNone_iff_eq_none.mp hch⟩
  · cases h

theorem deliver_eq : deliver s r = { s with calls := (deliver s r).calls } := by
  unfold deliver
  split <;> rfl

theorem disconnect_eq (n : Nat) (x : Session) : disconnect s n x =
    { s.setSession n { x with phase := .ended } with connections := (disconnect s n x).connections } := by
  unfold disconnect
  dsimp only
  split <;> rfl

theorem deliver_cases :
    deliver s r = s ∨ ∃ k c, s.calls k = some c ∧ deliver s r = s.setCall k { c with ch := some r } := by
  unfold deliver
  split
  · exact .inl rfl
  · next k c h =>
    obtain ⟨_, _, _, hc, _⟩ := target_spec h
    exact .inr ⟨k, c, hc, rfl⟩

end Wireops.Server.Dispatch
