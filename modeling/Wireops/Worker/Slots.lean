import Mathlib.Logic.Function.Basic

namespace Wireops.Worker.Slots

inductive Semaphore where
  | heavy | light | interactive
  deriving DecidableEq, Repr

structure Limits where
  heavy : Nat
  light : Nat
  interactive : Nat
  maxQueueDepth : Nat

def Limits.capacity (lim : Limits) : Semaphore → Nat
  | .heavy => lim.heavy
  | .light => lim.light
  | .interactive => lim.interactive

/-- The slots that are taken and the counter of queued tasks, which all calls of
`TryScheduleThrottled` share. -/
structure Load where
  slots : Semaphore → Nat := fun _ => 0
  queuedTasks : Int := 0

namespace Load

def take (l : Load) (c : Semaphore) : Load :=
  { l with slots := Function.update l.slots c (l.slots c + 1) }

def free (l : Load) (c : Semaphore) : Load :=
  { l with slots := Function.update l.slots c (l.slots c - 1) }

def queue (l : Load) (d : Int) : Load := { l with queuedTasks := l.queuedTasks + d }

end Load

/-- Where the goroutine of an accepted task is with its slot. One that found
none free waits, counted as queued until it has taken one. -/
inductive Seat where
  | waiting | counted | held | freed
  deriving DecidableEq

/-- The operations of a call of `TryScheduleThrottled` on what it shares. -/
inductive Attempt where
  | trySlot | checkQueue | enqueue | recheck | withdraw
  deriving DecidableEq

inductive Verdict where
  | goesOn (p : Attempt)
  | accepted (seat : Seat)
  | rejected

section

variable (lim : Limits) (c : Semaphore) (l : Load)

def hasSlot : Bool := l.slots c < lim.capacity c

def isQueueFull : Bool := lim.maxQueueDepth ≤ l.queuedTasks

def attempt : Attempt → Verdict × Load
  | .trySlot => if hasSlot lim c l then (.accepted .held, l.take c) else (.goesOn .checkQueue, l)
  | .checkQueue => (if isQueueFull lim l then .rejected else .goesOn .enqueue, l)
  | .enqueue => (.goesOn .recheck, l.queue 1)
  -- other calls may have queued since the first look at the counter
  | .recheck => (if lim.maxQueueDepth < l.queuedTasks then .goesOn .withdraw else .accepted .waiting, l)
  | .withdraw => (.rejected, l.queue (-1))

/-- The send of `RunThrottled`. -/
def runThrottled : Option Load := if hasSlot lim c l then some (l.take c) else none

def Seat.advance : Seat → Option (Seat × Load)
  | .waiting => (runThrottled lim c l).map (.counted, ·)
  | .counted => some (.held, l.queue (-1))
  | .held | .freed => none

end

def attempts (lim : Limits) (c : Semaphore) : Nat → Load → Attempt → Option (Seat × Load)
  | 0, _, _ => none
  | n + 1, l, p =>
    match attempt lim c l p with
    | (.goesOn q, l) => attempts lim c n l q
    | (.accepted seat, l) => some (seat, l)
    | (.rejected, _) => none

/-- A call that no other one interrupts. -/
def tryScheduleThrottled (lim : Limits) (c : Semaphore) (l : Load) : Option (Seat × Load) :=
  attempts lim c 5 l .trySlot

end Wireops.Worker.Slots
