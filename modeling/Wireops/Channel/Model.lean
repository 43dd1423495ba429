import Wireops.Server.Dispatch
import Wireops.Worker.Results

namespace Wireops.Channel.Model

open Function Option Protocol Server Worker

/-- The server and its workers. `read` counts the messages taken off each
connection. The last three tables are history: the executions the worker had
begun when a call was made, and where the result on its channel and the one it
took came from. -/
structure State where
  server : Dispatch.State := {}
  worker : String → Handlers.State := fun _ => {}
  read : Nat → Nat := fun _ => 0
  begun : Nat → Nat := fun _ => 0
  inbox : Nat → Option (String × Option Nat) := fun _ => none
  used : Nat → Option (String × Option Nat) := fun _ => none

/-- A worker takes the next message off a connection and schedules or refuses
it; the server reads one result out of the worker's spool. -/
inductive Action where
  | server (a : Dispatch.Action)
  | deliver (session : Nat) (draining : Option Bool)
  | work (workerID : String) (a : Handlers.Action)
  | report (session : Nat) (i : Nat)
  deriving DecidableEq, Repr

def wire (sv : Dispatch.State) (n : Nat) : List Command :=
  (sv.writes.filter (fun w => w.session = n && w.ok)).map (fun w => w.env.payload)

/-- Results reach the server through `report` only. Of the commands, deploy, redeploy and
teardown may be dispatched: those whose handlers claim their id. -/
def allowed : Dispatch.Action → Bool
  | .result _ _ => false
  | .dispatch _ cmd => Handlers.claims cmd
  | _ => true

def internal : Handlers.Action → Bool
  | .receive _ | .refuse _ _ => false
  | _ => true

variable (s : State) (workerID : String) (w : Handlers.State)

def record (a : Dispatch.Action) (sv : Dispatch.State) : State :=
  match a with
  | .dispatch workerID _ =>
    { s with
      server := sv
      begun := update s.begun s.server.nextCall (s.worker workerID).nextExec }
  | .receive k => { s with server := sv, used := update s.used k (s.inbox k) }
  | _ => { s with server := sv }

def setWorker : State :=
  { s with worker := update s.worker workerID w }

theorem setWorker_self : (setWorker s workerID w).worker workerID = w :=
  Function.update_self ..

def arrival (cmd : Command) : Option Bool → Handlers.Action
  | none => .receive cmd
  | some draining => .refuse cmd draining

def take (n : Nat) (workerID : String) (w : Handlers.State) : State :=
  { setWorker s workerID w with read := update s.read n (s.read n + 1) }

def drop (i : Nat) : Handlers.State := { w with outbox := w.outbox.eraseIdx i }

def note (m : Handlers.Sent) : Nat → Option (String × Option Nat) :=
  match Dispatch.target s.server m.result with
  | none => s.inbox
  | some (k, _) => update s.inbox k (some (workerID, m.exec))

def report (i : Nat) (m : Handlers.Sent) : State :=
  { setWorker s workerID (drop (s.worker workerID) i) with
    server := Dispatch.deliver s.server m.result
    inbox := note s workerID m }

def step (s : State) : Action → Option State
  | .server a =>
    if allowed a then (Dispatch.step s.server a).map (record s a) else none
  | .deliver n draining => do
    let x ← s.server.sessions n
    let cmd ← (wire s.server n)[s.read n]?
    let w ← Handlers.step (s.worker x.workerID) (arrival cmd draining)
    some (take s n x.workerID w)
  | .work workerID a =>
    if internal a then (Handlers.step (s.worker workerID) a).map (setWorker s workerID) else none
  | .report n i => do
    let x ← s.server.sessions n
    match x.phase, (s.worker x.workerID).outbox[i]? with
    | .reading, some m => some (report s x.workerID i m)
    | _, _ => none

inductive Fires (s : State) : Action → State → Prop where
  | server {a : Dispatch.Action} {sv : Dispatch.State} (ha : allowed a = true)
    (h : Dispatch.Fires s.server a sv) : Fires s (.server a) (record s a sv)
  | deliver {n : Nat} {draining : Option Bool} {x : Dispatch.Session} {cmd : Command}
    {w : Handlers.State} (hx : s.server.sessions n = some x)
    (hm : (wire s.server n)[s.read n]? = some cmd)
    (h : Handlers.step (s.worker x.workerID) (arrival cmd draining) = some w) :
    Fires s (.deliver n draining) (take s n x.workerID w)
  | work {workerID : String} {a : Handlers.Action} {w : Handlers.State} (ha : internal a = true)
    (h : Handlers.step (s.worker workerID) a = some w) : Fires s (.work workerID a) (setWorker s workerID w)
  | report {n i : Nat} {x : Dispatch.Session} {m : Handlers.Sent}
    (hx : s.server.sessions n = some x) (hp : x.phase = .reading)
    (hm : (s.worker x.workerID).outbox[i]? = some m) : Fires s (.report n i) (report s x.workerID i m)

theorem step_fires {s t : State} {a : Action} (h : step s a = some t) : Fires s a t := by
  cases a with
  | server a =>
    obtain ⟨ha, h⟩ := ite_none_right_eq_some.mp h
    obtain ⟨sv, hsv, rfl⟩ := map_eq_some_iff.mp h
    exact .server ha (Dispatch.step_fires hsv)
  | deliver n draining =>
    obtain ⟨x, hx, h⟩ := bind_eq_some_iff.mp h
    obtain ⟨cmd, hm, h⟩ := bind_eq_some_iff.mp h
    obtain ⟨w, hw, h⟩ := bind_eq_some_iff.mp h
    cases h
    exact .deliver hx hm hw
  | work workerID a =>
    obtain ⟨ha, h⟩ := ite_none_right_eq_some.mp h
    obtain ⟨w, hw, rfl⟩ := map_eq_some_iff.mp h
    exact .work ha hw
  | report n i =>
    obtain ⟨x, hx, h⟩ := bind_eq_some_iff.mp h
    split at h
    · next hp hm =>
      cases h
      exact .report hx hp hm
    · cases h

def online (session : Nat) : List Action :=
  [.server (.connect workerID), .server (.snapshot session []), .server (.read session)]

def sent (session call : Nat) (messageID : String) : List Action :=
  [.server (.register call), .server (.send call messageID true), .deliver session none]

def executed (copy : Nat) (error : String) : List Action :=
  List.replicate 6 (Action.work workerID (.advance copy)) ++ [Action.work workerID (.complete copy "" error)] ++
    List.replicate 6 (Action.work workerID (.advance copy))

def cached (copy : Nat) : List Action :=
  List.replicate 4 (.work workerID (.advance copy))

def answered (session call : Nat) : List Action :=
  [.report session 0, .server (.receive call), .server (.unregister call)]

end Wireops.Channel.Model
