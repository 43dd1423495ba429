import Mathlib.Data.List.Basic
import Wireops.Lib.Steps
import Wireops.Lib.Table

namespace Wireops.Sync.Pending

open Option Function List Lib.Steps Lib.Table

inductive Trigger where
  | cron | manual | webhook | migrate
  deriving DecidableEq, Repr

structure Record where
  id : Nat
  stack : String
  trigger : Trigger
  created : Nat
  deriving DecidableEq

/-- Where a triggered sync is: waiting for a slot, about to try its stack's
lock, past it, inside `queuePendingReconcile`, or on its way out. -/
inductive Phase where
  | queued
  | ready
  | locked
  | listing
  | removing (existing : List Record)
  | closing
  | done
  deriving DecidableEq

/-- `replayed` says that the sync was triggered for a pending reconcile. -/
structure SyncRun where
  stack : String
  trigger : Trigger
  replayed : Bool := false
  phase : Phase := .queued

/-- `TriggerPendingReconciles` of one worker: `events` keeps the latest record
of each stack. -/
inductive Sweep where
  | listing (workerID : String)
  | scanning (workerID : String) (records events : List Record)
  | firing (events : List Record)

inductive Holder where
  | sync (i : Nat)
  | other
  deriving DecidableEq

/-- `passes` lists the stacks whose reconciles got past the lock, in order, and
`removed` each removed record's stack with the number of passes before. -/
structure State where
  now : Nat := 0
  connected : String → Bool := fun _ => false
  pending : List Record := []
  nextRecord : Nat := 0
  slotsUsed : Nat := 0
  holder : String → Option Holder := fun _ => none
  syncs : Nat → Option SyncRun := fun _ => none
  nextSync : Nat := 0
  sweeps : Nat → Option Sweep := fun _ => none
  nextSweep : Nat := 0
  stopped : Bool := false
  passes : List String := []
  removed : List (String × Nat) := []

/-- `hold` and `release` are the rollbacks, forced redeploys, transfers and
probes that take the stack's lock; `fail` is a database error in
`queuePendingReconcile`, `abort` one in `TriggerPendingReconciles`. -/
inductive Action where
  | tick (d : Nat)
  | connect (workerID : String)
  | disconnect (workerID : String)
  | trigger (stackID : String) (trigger : Trigger)
  | acquire (i : Nat)
  | giveUp (i : Nat)
  | tryLock (i : Nat)
  | check (i : Nat) (repoChanged : Bool)
  | list (i : Nat)
  | remove (i : Nat)
  | save (i : Nat)
  | fail (i : Nat)
  | finish (i : Nat)
  | hold (stackID : String)
  | release (stackID : String)
  | fetch (j : Nat)
  | scan (j : Nat)
  | fire (j k : Nat)
  | abort (j : Nat)
  | shutdown
  deriving DecidableEq, Repr

namespace State

def setPhase (s : State) (i : Nat) (x : SyncRun) (p : Phase) : State :=
  { s with syncs := update s.syncs i (some { x with phase := p }) }

def setHolder (s : State) (stackID : String) (h : Option Holder) : State :=
  { s with holder := update s.holder stackID h }

def setSweep (s : State) (j : Nat) (w : Option Sweep) : State :=
  { s with sweeps := update s.sweeps j w }

def triggerSync (s : State) (x : SyncRun) : State :=
  { s with syncs := update s.syncs s.nextSync (some x), nextSync := s.nextSync + 1 }

/-- Deleting a row that is already gone has no effect. -/
def delete (s : State) (r : Record) : State :=
  { s with
    pending := s.pending.filter (· ≠ r)
    removed := if r ∈ s.pending then s.removed ++ [(r.stack, s.passes.length)] else s.removed }

end State

variable (workerOf : String → Option String) (slots : Nat)

variable (s : State)

def connect (workerID : String) : State :=
  let t := { s with connected := update s.connected workerID true }
  if s.stopped then t
  else { t.setSweep s.nextSweep (some (.listing workerID)) with nextSweep := s.nextSweep + 1 }

/-- The head of `ReconcileStack`: a lock that is taken ends the call. -/
def tryLock (i : Nat) (x : SyncRun) : State :=
  match s.holder x.stack with
  | some _ => { s.setPhase i x .done with slotsUsed := s.slotsUsed - 1 }
  | none => { (s.setPhase i x .locked).setHolder x.stack (some (.sync i)) with
      passes := s.passes ++ [x.stack] }

/-- Whether the reconcile of an offline worker's stack is queued. -/
def queues (x : SyncRun) (repoChanged : Bool) : Bool := repoChanged || x.trigger ≠ .cron

def check (i : Nat) (x : SyncRun) (repoChanged : Bool) : Option State := do
  let workerID ← workerOf x.stack
  if !s.connected workerID && queues x repoChanged then some (s.setPhase i x .listing)
  else some (s.setPhase i x .closing)

def save (i : Nat) (x : SyncRun) : State :=
  { s.setPhase i x .closing with
    pending := s.pending ++ [⟨s.nextRecord, x.stack, x.trigger, s.now⟩]
    nextRecord := s.nextRecord + 1 }

def finish (i : Nat) (x : SyncRun) : State :=
  { (s.setPhase i x .done).setHolder x.stack none with slotsUsed := s.slotsUsed - 1 }

def scan (j : Nat) (workerID : String) (r : Record) (rest events : List Record) : State :=
  if workerOf r.stack ≠ some workerID then s.setSweep j (some (.scanning workerID rest events))
  else match events.find? (·.stack = r.stack) with
    | none => s.setSweep j (some (.scanning workerID rest (events ++ [r])))
    | some existing =>
      if existing.created < r.created then
        (s.delete existing).setSweep j
          (some (.scanning workerID rest (events.filter (· ≠ existing) ++ [r])))
      else (s.delete r).setSweep j (some (.scanning workerID rest events))

/-- The second loop takes the stacks in any order. -/
def fire (j k : Nat) (events : List Record) (r : Record) : State :=
  ((s.delete r).triggerSync { stack := r.stack, trigger := r.trigger, replayed := true }).setSweep j
    (some (.firing (events.eraseIdx k)))

def step : Action → Option State
  | .tick d => some { s with now := s.now + d }
  | .connect workerID => some (connect s workerID)
  | .disconnect workerID =>
    some { s with connected := update s.connected workerID false }
  | .trigger stackID trigger => some (s.triggerSync { stack := stackID, trigger })
  | .acquire i => do
    let x ← s.syncs i
    if x.phase = .queued ∧ s.slotsUsed < slots then
      some { s.setPhase i x .ready with slotsUsed := s.slotsUsed + 1 }
    else none
  | .giveUp i => do
    let x ← s.syncs i
    if x.phase = .queued ∧ s.stopped then some (s.setPhase i x .done) else none
  | .tryLock i => do
    let x ← s.syncs i
    if x.phase = .ready then some (tryLock s i x) else none
  | .check i repoChanged => do
    let x ← s.syncs i
    if x.phase = .locked then check workerOf s i x repoChanged else none
  | .list i => do
    let x ← s.syncs i
    if x.phase = .listing then
      some (s.setPhase i x (.removing (s.pending.filter (·.stack = x.stack))))
    else none
  | .remove i => do
    let x ← s.syncs i
    match x.phase with
    | .removing (r :: rs) => some ((s.delete r).setPhase i x (.removing rs))
    | _ => none
  | .save i => do
    let x ← s.syncs i
    if x.phase = .removing [] then some (save s i x) else none
  | .fail i => do
    let x ← s.syncs i
    match x.phase with
    | .listing | .removing _ => some (s.setPhase i x .closing)
    | _ => none
  | .finish i => do
    let x ← s.syncs i
    if x.phase = .locked ∨ x.phase = .closing then some (finish s i x) else none
  | .hold stackID =>
    if s.holder stackID = none then some (s.setHolder stackID (some .other)) else none
  | .release stackID =>
    if s.holder stackID = some .other then some (s.setHolder stackID none) else none
  | .fetch j => do
    match ← s.sweeps j with
    | .listing workerID => some (s.setSweep j (some (.scanning workerID s.pending [])))
    | _ => none
  | .scan j => do
    match ← s.sweeps j with
    | .scanning _ [] events => some (s.setSweep j (some (.firing events)))
    | .scanning workerID (r :: rest) events => some (scan workerOf s j workerID r rest events)
    | _ => none
  | .fire j k => do
    match ← s.sweeps j with
    | .firing events =>
      let r ← events[k]?
      some (fire s j k events r)
    | _ => none
  | .abort j => some (s.setSweep j none)
  | .shutdown => some { s with stopped := true }

def inside : Phase → Bool
  | .locked | .listing | .removing _ | .closing => true
  | _ => false

def waiting : Phase → Bool
  | .queued | .ready => true
  | _ => false

inductive Fires (workerOf : String → Option String) (slots : Nat) (s : State) : Action → State → Prop where
  | tick (d : Nat) : Fires workerOf slots s (.tick d) { s with now := s.now + d }
  | connect (workerID : String) : Fires workerOf slots s (.connect workerID) (connect s workerID)
  | disconnect (workerID : String) : Fires workerOf slots s (.disconnect workerID)
      { s with connected := update s.connected workerID false }
  | trigger (stackID : String) (trigger : Trigger) : Fires workerOf slots s
      (.trigger stackID trigger) (s.triggerSync { stack := stackID, trigger })
  | acquire {i : Nat} {x : SyncRun} (hx : s.syncs i = some x) (hp : x.phase = .queued) :
    Fires workerOf slots s (.acquire i) { s.setPhase i x .ready with slotsUsed := s.slotsUsed + 1 }
  | giveUp {i : Nat} {x : SyncRun} (hx : s.syncs i = some x) (hp : x.phase = .queued)
    (hs : s.stopped = true) : Fires workerOf slots s (.giveUp i) (s.setPhase i x .done)
  | tryLock {i : Nat} {x : SyncRun} (hx : s.syncs i = some x) (hp : x.phase = .ready) :
    Fires workerOf slots s (.tryLock i) (tryLock s i x)
  | check {i : Nat} {x : SyncRun} (repoChanged : Bool) {p : Phase} (hx : s.syncs i = some x)
    (hp : x.phase = .locked) (hq : p = .listing ∨ p = .closing) :
    Fires workerOf slots s (.check i repoChanged) (s.setPhase i x p)
  | list {i : Nat} {x : SyncRun} (hx : s.syncs i = some x) (hp : x.phase = .listing) :
    Fires workerOf slots s (.list i)
      (s.setPhase i x (.removing (s.pending.filter (·.stack = x.stack))))
  | remove {i : Nat} {x : SyncRun} {r : Record} {rs : List Record} (hx : s.syncs i = some x)
    (hp : x.phase = .removing (r :: rs)) : Fires workerOf slots s (.remove i)
      ((s.delete r).setPhase i x (.removing rs))
  | save {i : Nat} {x : SyncRun} (hx : s.syncs i = some x) (hp : x.phase = .removing []) :
    Fires workerOf slots s (.save i) (save s i x)
  | fail {i : Nat} {x : SyncRun} (hx : s.syncs i = some x) :
    Fires workerOf slots s (.fail i) (s.setPhase i x .closing)
  | finish {i : Nat} {x : SyncRun} (hx : s.syncs i = some x) (hp : inside x.phase = true)
    (hr : ∀ rs, x.phase ≠ .removing rs) : Fires workerOf slots s (.finish i) (finish s i x)
  | hold {stackID : String} (hh : s.holder stackID = none) : Fires workerOf slots s (.hold stackID)
      (s.setHolder stackID (some .other))
  | release {stackID : String} (hh : s.holder stackID = some .other) :
    Fires workerOf slots s (.release stackID) (s.setHolder stackID none)
  | fetch {j : Nat} {workerID : String} (hj : s.sweeps j = some (.listing workerID)) :
    Fires workerOf slots s (.fetch j) (s.setSweep j (some (.scanning workerID s.pending [])))
  | scanned {j : Nat} {workerID : String} {events : List Record}
    (hj : s.sweeps j = some (.scanning workerID [] events)) :
    Fires workerOf slots s (.scan j) (s.setSweep j (some (.firing events)))
  | scan {j : Nat} {workerID : String} {r : Record} {rest events : List Record}
    (hj : s.sweeps j = some (.scanning workerID (r :: rest) events)) :
    Fires workerOf slots s (.scan j) (scan workerOf s j workerID r rest events)
  | fire {j k : Nat} {events : List Record} {r : Record} (hj : s.sweeps j = some (.firing events))
    (hr : events[k]? = some r) : Fires workerOf slots s (.fire j k) (fire s j k events r)
  | abort (j : Nat) : Fires workerOf slots s (.abort j) (s.setSweep j none)
  | shutdown : Fires workerOf slots s .shutdown { s with stopped := true }

variable {workerOf slots} {s t : State} {i j k : Nat} {x : SyncRun} {a : Action}

theorem check_fires {repoChanged : Bool} (hx : s.syncs i = some x) (hp : x.phase = .locked)
    (h : check workerOf s i x repoChanged = some t) : Fires workerOf slots s (.check i repoChanged) t := by
  obtain ⟨w, _, h⟩ := bind_eq_some_iff.mp h
  split at h
  · cases h
    exact .check repoChanged hx hp (.inl rfl)
  · cases h
    exact .check repoChanged hx hp (.inr rfl)

theorem step_fires (h : step workerOf slots s a = some t) : Fires workerOf slots s a t := by
  cases a with
  | tick d => cases h; exact .tick d
  | connect workerID => cases h; exact .connect workerID
  | disconnect workerID => cases h; exact .disconnect workerID
  | trigger stackID trigger => cases h; exact .trigger stackID trigger
  | acquire i =>
    obtain ⟨x, hx, h⟩ := bind_eq_some_iff.mp h
    split at h
    · next hc => cases h; exact .acquire hx hc.1
    · cases h
  | giveUp i =>
    obtain ⟨x, hx, h⟩ := bind_eq_some_iff.mp h
    split at h
    · next hc => cases h; exact .giveUp hx hc.1 hc.2
    · cases h
  | tryLock i | list i | remove i | save i =>
    obtain ⟨x, hx, h⟩ := bind_eq_some_iff.mp h
    split at h
    · cases h
      constructor <;> assumption
    · cases h
  | check i repoChanged =>
    obtain ⟨x, hx, h⟩ := bind_eq_some_iff.mp h
    split at h
    · next hp => exact check_fires hx hp h
    · cases h
  | fail i =>
    obtain ⟨x, hx, h⟩ := bind_eq_some_iff.mp h
    split at h
    · cases h; exact .fail hx
    · cases h; exact .fail hx
    · cases h
  | finish i =>
    obtain ⟨x, hx, h⟩ := bind_eq_some_iff.mp h
    obtain ⟨hp, ⟨⟩⟩ := ite_none_right_eq_some.mp h
    obtain hp | hp := hp
    · exact .finish hx (hp ▸ rfl) (by simp [hp])
    · exact .finish hx (hp ▸ rfl) (by simp [hp])
  | hold stackID | release stackID =>
    obtain ⟨_, ⟨⟩⟩ := ite_none_right_eq_some.mp h
    constructor
    assumption
  | fetch j =>
    obtain ⟨w, hw, h⟩ := bind_eq_some_iff.mp h
    split at h
    · cases h; exact .fetch hw
    · cases h
  | scan j =>
    obtain ⟨w, hw, h⟩ := bind_eq_some_iff.mp h
    split at h
    · cases h; exact .scanned hw
    · cases h; exact .scan hw
    · cases h
  | fire j k =>
    obtain ⟨w, hw, h⟩ := bind_eq_some_iff.mp h
    split at h
    · obtain ⟨r, hr, h⟩ := bind_eq_some_iff.mp h
      cases h
      exact .fire hw hr
    · cases h
  | abort j => cases h; exact .abort j
  | shutdown => cases h; exact .shutdown

/-- The sync stands for a removed record: it was triggered for one and has yet
to try the lock, or it is replacing one. -/
def Owing (x : SyncRun) : Prop :=
  (x.replayed = true ∧ waiting x.phase = true) ∨ ∃ rs, x.phase = .removing rs

/-- A reconcile of the stack is on its way. -/
def Standing (s : State) (stackID : String) : Prop :=
  (∃ r ∈ s.pending, r.stack = stackID) ∨ ∃ i x, s.syncs i = some x ∧ x.stack = stackID ∧ Owing x

/-- Every record removed so far was removed for a reconcile of its stack: one
that began later has got past the lock, or one is still on its way. -/
def NoneDropped (s : State) : Prop :=
  ∀ stackID n, (stackID, n) ∈ s.removed → stackID ∈ s.passes.drop n ∨ Standing s stackID

/-- No shutdown, no database error while a reconcile is queued, and no sync
triggered for a pending reconcile finds the lock taken. -/
def Unhindered (s : State) : Action → Prop
  | .tryLock i => (s.syncs i).elim True
      (fun x => x.replayed = true → s.holder x.stack = none)
  | .fail _ | .shutdown => False
  | _ => True

instance (s : State) : (a : Action) → Decidable (Unhindered s a)
  | .tryLock i =>
    match h : s.syncs i with
    | none => .isTrue (by rw [Unhindered, h]; trivial)
    | some x => decidable_of_iff (x.replayed = true → s.holder x.stack = none)
        (by rw [Unhindered, h]; rfl)
  | .fail _ | .shutdown => .isFalse id
  | .tick _ | .connect _ | .disconnect _ | .trigger _ _ | .acquire _ | .giveUp _ | .check _ _
  | .list _ | .remove _ | .save _ | .finish _ | .hold _ | .release _ | .fetch _ | .scan _
  | .fire _ _ | .abort _ => .isTrue trivial

def Distinct (rs : List Record) : Prop := rs.Pairwise (fun a b => a.stack ≠ b.stack)

structure Inv (s : State) : Prop where
  running : s.stopped = false
  unused : ∀ i, s.nextSync ≤ i → s.syncs i = none
  held : ∀ i x, s.syncs i = some x → inside x.phase = true → s.holder x.stack = some (.sync i)
  removing : ∀ i x rs, s.syncs i = some x → x.phase = .removing rs →
    (∀ r ∈ rs, r.stack = x.stack) ∧ ∀ r ∈ s.pending, r.stack = x.stack → r ∈ rs
  pending : Distinct s.pending
  snapshot : ∀ j w rs es, s.sweeps j = some (.scanning w rs es) → Distinct (es ++ rs)
  stamped : ∀ stackID n, (stackID, n) ∈ s.removed → n ≤ s.passes.length
  kept : NoneDropped s

def Served (s : State) (stackID : String) : Prop :=
  ∀ n, (stackID, n) ∈ s.removed → stackID ∈ s.passes.drop n

theorem inv_init : Inv {} where
  running := rfl
  unused _ _ := rfl
  held _ _ h := nomatch h
  removing _ _ _ h := nomatch h
  pending := .nil
  snapshot _ _ _ _ h := nomatch h
  stamped _ _ h := nomatch h
  kept _ _ h := nomatch h

theorem mem_removed_delete {r : Record} {stackID : String} {n : Nat} (h : (stackID, n) ∈ (s.delete r).removed) :
    (stackID, n) ∈ s.removed ∨ (stackID = r.stack ∧ n = s.passes.length) := by
  unfold State.delete at h
  split at h
  · obtain h | h := mem_append.mp h
    · exact .inl h
    · exact .inr (Prod.mk.inj (mem_singleton.mp h))
  · exact .inl h

namespace Inv

variable {p : Phase} {r : Record} {stackID : String}

section

variable (h : Inv s)

include h

theorem bookkeeping (now slotsUsed nextSweep : Nat) (connected : String → Bool) :
    Inv { s with now, slotsUsed, nextSweep, connected } :=
  { h with }

theorem setPhase (hx : s.syncs i = some x) (hin : inside p = true → s.holder x.stack = some (.sync i))
    (hrem : ∀ rs, p = .removing rs → (∀ r ∈ rs, r.stack = x.stack) ∧ ∀ r ∈ s.pending, r.stack = x.stack → r ∈ rs)
    (how : (Owing x → Owing { x with phase := p }) ∨ Served s x.stack) : Inv (s.setPhase i x p) where
  __ := h
  unused := unused_change h.unused hx
  held := forall_update_some h.held hin
  removing i' y rs hy hp := by
    obtain ⟨rfl, rfl⟩ | ⟨_, hy⟩ := update_some_cases hy
    · exact hrem rs hp
    · exact h.removing i' y rs hy hp
  kept st n hm := by
    obtain hd | hp | ⟨i', y, hy, hst, ho⟩ := h.kept st n hm
    · exact .inl hd
    · exact .inr (.inl hp)
    · by_cases hi : i' = i
      · subst hi
        cases hx.symm.trans hy
        obtain how | hserved := how
        · exact .inr (.inr ⟨i', _, update_self .., hst, how ho⟩)
        · subst hst
          exact .inl (hserved n hm)
      · exact .inr (.inr ⟨i', y, (update_of_ne hi ..).trans hy, hst, ho⟩)

theorem setHolder {o : Option Holder}
    (hfree : ∀ i y, s.syncs i = some y → inside y.phase = true → y.stack ≠ stackID) :
    Inv (s.setHolder stackID o) where
  __ := h
  held i y hy hp := (update_of_ne (hfree i y hy hp) ..).trans (h.held i y hy hp)

theorem setSweep {o : Option Sweep} (ho : ∀ w rs es, o = some (.scanning w rs es) → Distinct (es ++ rs)) :
    Inv (s.setSweep j o) where
  __ := h
  snapshot j' w rs es hj := by
    have hj : update s.sweeps j o j' = some (.scanning w rs es) := hj
    by_cases hne : j' = j
    · rw [hne, update_self] at hj
      exact ho w rs es hj
    · rw [update_of_ne hne] at hj
      exact h.snapshot j' w rs es hj

theorem triggerSync (hp : x.phase = .queued) : Inv (s.triggerSync x) where
  __ := h
  unused := unused_fill h.unused
  held := by
    refine forall_update_some h.held (fun hin => ?_)
    rw [hp] at hin
    cases hin
  removing i y rs hy hr := by
    obtain ⟨rfl, rfl⟩ | ⟨_, hy⟩ := update_some_cases hy
    · cases hp.symm.trans hr
    · exact h.removing i y rs hy hr
  kept st n hm := by
    obtain hd | hr | ⟨i, y, hy, hst, ho⟩ := h.kept st n hm
    · exact .inl hd
    · exact .inr (.inl hr)
    · exact .inr (.inr ⟨i, y, update_kept (h.unused _ (Nat.le_refl _)) hy, hst, ho⟩)

theorem delete (hx : s.syncs i = some x) (hst : x.stack = r.stack) (ho : Owing x) : Inv (s.delete r) where
  __ := h
  removing i y rs hy hp := by
    obtain ⟨hstack, hall⟩ := h.removing i y rs hy hp
    exact ⟨hstack, fun r' hr' => hall r' (mem_of_mem_filter hr')⟩
  pending := h.pending.filter _
  stamped st n hm := by
    obtain hm | ⟨rfl, rfl⟩ := mem_removed_delete hm
    · exact h.stamped st n hm
    · exact Nat.le_refl _
  kept st n hm := by
    obtain hm | ⟨rfl, rfl⟩ := mem_removed_delete hm
    · obtain hd | ⟨r', hr', hst'⟩ | hs := h.kept st n hm
      · exact .inl hd
      · by_cases heq : r' = r
        · subst heq
          exact .inr (.inr ⟨i, x, hx, hst.trans hst', ho⟩)
        · exact .inr (.inl ⟨r', mem_filter.mpr ⟨hr', decide_eq_true heq⟩, hst'⟩)
      · exact .inr (.inr hs)
    · exact .inr (.inr ⟨i, x, hx, hst, ho⟩)

theorem pass (stackID : String) : Inv { s with passes := s.passes ++ [stackID] } where
  __ := h
  stamped st n hm := by
    have hle := h.stamped st n hm
    rw [length_append]
    omega
  kept st n hm := by
    obtain hd | hs := h.kept st n hm
    · rw [drop_append]
      exact .inl (mem_append_left _ hd)
    · exact .inr hs

theorem served_pass (stackID : String) : Served { s with passes := s.passes ++ [stackID] } stackID := by
  intro n hm
  have hle : n ≤ s.passes.length := h.stamped stackID n hm
  rw [drop_append_of_le_length hle]
  exact mem_append_right _ mem_cons_self

section

variable (hx : s.syncs i = some x)

include hx

theorem alone (hp : inside x.phase = true) {y : SyncRun}
    {i' : Nat} (hy : s.syncs i' = some y) (hq : inside y.phase = true) (hst : y.stack = x.stack) : i' = i := by
  have hi := h.held i x hx hp
  rw [← hst, h.held i' y hy hq] at hi
  cases hi
  rfl

theorem tryLock (hp : x.phase = .ready)
    (hg : x.replayed = true → s.holder x.stack = none) : Inv (tryLock s i x) := by
  unfold Pending.tryLock
  split
  · next hh =>
    have hinv : Inv (s.setPhase i x .done) := by
      refine h.setPhase hx nofun nofun (.inl ?_)
      rintro (⟨hr, _⟩ | ⟨rs, hr⟩)
      · cases (hg hr).symm.trans hh
      · cases hp.symm.trans hr
    exact hinv.bookkeeping ..
  · next hh =>
    have hfree : ∀ i y, s.syncs i = some y → inside y.phase = true → y.stack ≠ x.stack := by
      rintro i' y hy hin heq
      cases hh.symm.trans (heq ▸ h.held i' y hy hin)
    refine ((h.pass x.stack).setHolder hfree).setPhase hx (fun _ => ?_) nofun
      (.inr (h.served_pass x.stack))
    exact update_self ..

theorem save (hp : x.phase = .removing []) : Inv (save s i x) where
  __ := h
  unused := unused_change h.unused hx
  held := forall_update_some h.held (fun _ => h.held i x hx (hp ▸ rfl))
  removing i' y rs hy hr := by
    obtain ⟨rfl, rfl⟩ | ⟨hne, hy⟩ := update_some_cases hy
    · cases hr
    · obtain ⟨hstack, hall⟩ := h.removing i' y rs hy hr
      refine ⟨hstack, fun r hm hst => ?_⟩
      obtain hm | hm := mem_append.mp hm
      · exact hall r hm hst
      · cases mem_singleton.mp hm
        exact absurd (h.alone hx (hp ▸ rfl) hy (hr ▸ rfl) hst.symm) hne
  pending := by
    refine pairwise_append.mpr ⟨h.pending, pairwise_singleton .., ?_⟩
    intro r hr r' hr' heq
    cases mem_singleton.mp hr'
    cases (h.removing i x [] hx hp).2 r hr heq
  kept st n hm := by
    obtain hd | ⟨r, hr, hst⟩ | ⟨i', y, hy, hst, ho⟩ := h.kept st n hm
    · exact .inl hd
    · exact .inr (.inl ⟨r, mem_append_left _ hr, hst⟩)
    · by_cases hi : i' = i
      · subst hi
        cases hx.symm.trans hy
        exact .inr (.inl ⟨_, mem_append_right _ mem_cons_self, hst⟩)
      · exact .inr (.inr ⟨i', y, (update_of_ne hi ..).trans hy, hst, ho⟩)

theorem finish (hp : inside x.phase = true)
    (hr : ∀ rs, x.phase ≠ .removing rs) : Inv (finish s i x) := by
  have hdone : Inv (s.setPhase i x .done) := by
    refine h.setPhase hx nofun nofun (.inl ?_)
    rintro (⟨_, hw⟩ | ⟨rs, hrs⟩)
    · cases hph : x.phase <;> simp_all [inside, waiting]
    · exact absurd hrs (hr rs)
  have hfree : ∀ i' y, (s.setPhase i x .done).syncs i' = some y → inside y.phase = true → y.stack ≠ x.stack := by
    intro i' y hy hin hst
    obtain ⟨rfl, rfl⟩ | ⟨hne, hy⟩ := update_some_cases hy
    · cases hin
    · exact hne (h.alone hx hp hy hin hst)
  exact (hdone.setHolder hfree).bookkeeping ..

end

theorem scan {w : String} {rest events : List Record}
    (hj : s.sweeps j = some (.scanning w (r :: rest) events)) : Inv (scan workerOf s j w r rest events) := by
  have hd := h.snapshot j w _ _ hj
  unfold Pending.scan
  split
  · refine h.setSweep ?_
    rintro _ _ _ ⟨rfl, rfl, rfl⟩
    exact hd.sublist ((sublist_cons_self ..).append_left _)
  · split
    · refine h.setSweep ?_
      rintro _ _ _ ⟨rfl, rfl, rfl⟩
      rw [append_assoc]
      exact hd
    · next existing hf =>
      have hst : existing.stack = r.stack := by simpa using List.find?_some hf
      have hne := (pairwise_append.mp hd).2.2 existing (mem_of_find?_eq_some hf) r
        mem_cons_self
      exact absurd hst hne

theorem fire {events : List Record} : Inv (fire s j k events r) := by
  refine Inv.setSweep ?_ nofun
  exact (h.triggerSync (x := { stack := r.stack, trigger := r.trigger, replayed := true }) rfl).delete
    (update_self ..) rfl (.inl ⟨rfl, rfl⟩)

end

end Inv

theorem step_inv (s : State) (a : Action) (t : State) (hs : Inv s) (hg : Unhindered s a)
    (h : step workerOf slots s a = some t) : Inv t := by
  cases step_fires h with
  | tick | disconnect => exact hs.bookkeeping ..
  | connect workerID =>
    unfold connect
    split
    · exact hs.bookkeeping ..
    · have hinv : Inv (s.setSweep s.nextSweep (some (.listing workerID))) := hs.setSweep nofun
      exact hinv.bookkeeping ..
  | trigger stackID trigger => exact hs.triggerSync rfl
  | @acquire i x hx hp =>
    have hinv : Inv (s.setPhase i x .ready) := by
      refine hs.setPhase hx nofun nofun (.inl ?_)
      rintro (⟨hr, _⟩ | ⟨rs, hr⟩)
      · exact .inl ⟨hr, rfl⟩
      · cases hp.symm.trans hr
    exact hinv.bookkeeping ..
  | giveUp hx hp hstop => cases hs.running.symm.trans hstop
  | tryLock hx hp =>
    rw [Unhindered, hx] at hg
    exact hs.tryLock hx hp hg
  | @check i x repoChanged p hx hp hq =>
    refine hs.setPhase hx (fun _ => hs.held i x hx (hp ▸ rfl)) ?_ (.inl ?_)
    · rintro rs rfl
      obtain hq | hq := hq <;> cases hq
    · rintro (⟨_, hw⟩ | ⟨rs, hr⟩)
      · rw [hp] at hw
        cases hw
      · cases hp.symm.trans hr
  | @list i x hx hp =>
    refine hs.setPhase hx (fun _ => hs.held i x hx (hp ▸ rfl)) ?_ (.inl (fun _ => .inr ⟨_, rfl⟩))
    rintro _ ⟨rfl⟩
    exact ⟨fun r hr => of_decide_eq_true (mem_filter.mp hr).2,
      fun r hr hst => mem_filter.mpr ⟨hr, decide_eq_true hst⟩⟩
  | @remove i x r rs hx hp =>
    obtain ⟨hstack, hall⟩ := hs.removing i x _ hx hp
    have hdel := hs.delete hx (hstack r mem_cons_self).symm (.inr ⟨_, hp⟩)
    refine hdel.setPhase hx (fun _ => hs.held i x hx (hp ▸ rfl)) ?_ (.inl (fun _ => .inr ⟨_, rfl⟩))
    rintro _ ⟨rfl⟩
    refine ⟨fun r' hr' => hstack r' (mem_cons_of_mem r hr'), fun r' hr' hst => ?_⟩
    obtain ⟨hm, hne⟩ := mem_filter.mp hr'
    obtain rfl | hm := mem_cons.mp (hall r' hm hst)
    · exact absurd rfl (of_decide_eq_true hne)
    · exact hm
  | save hx hp => exact hs.save hx hp
  | fail => exact hg.elim
  | finish hx hp hr => exact hs.finish hx hp hr
  | hold hh | release hh =>
    refine hs.setHolder ?_
    rintro i y hy hin rfl
    cases hh.symm.trans (hs.held i y hy hin)
  | fetch hj =>
    refine hs.setSweep ?_
    rintro _ _ _ ⟨rfl, rfl, rfl⟩
    exact hs.pending
  | scanned | abort => exact hs.setSweep nofun
  | scan hj => exact hs.scan hj
  | fire hj hr => exact hs.fire
  | shutdown => exact hg.elim

theorem unhindered_none_dropped {as : List Action} {t : State} (hg : Meets (step workerOf slots) Unhindered {} as)
    (hr : run (step workerOf slots) {} as = some t) : NoneDropped t :=
  (run_invariant step_inv inv_init hg hr).kept

def onWorker (_ : String) : Option String := some "w"

def queuedOffline : List Action :=
  [.trigger "s" .manual, .acquire 0, .tryLock 0, .check 0 true, .list 0, .save 0, .finish 0]

/-- A periodic sync that finds nothing to do still holds the lock when the
worker comes back. -/
def replayedUnderLock : List Action :=
  queuedOffline ++ [Action.trigger "s" .cron, .acquire 1, .tryLock 1, .check 1 false, .connect "w",
    .fetch 0, .scan 0, .scan 0, .fire 0 0, .acquire 2, .tryLock 2, .finish 1]

theorem pending_dropped_under_lock : ∃ t ∈ run (step onWorker 2) {} replayedUnderLock,
    t.pending = [] ∧ t.removed = [("s", 2)] ∧ t.passes = ["s", "s"] ∧
      (∀ i < t.nextSync, ∃ x ∈ t.syncs i, x.phase = .done) ∧ ¬ NoneDropped t := by
  refine ⟨_, rfl, rfl, rfl, rfl, by decide, fun h => ?_⟩
  obtain hd | ⟨r, hr, _⟩ | ⟨i, x, hx, _, ho⟩ := h "s" 2 (by decide)
  · cases hd
  · cases hr
  · match i with
    | 0 | 1 | 2 =>
      cases hx
      obtain ⟨_, hw⟩ | ⟨rs, hrs⟩ := ho
      · cases hw
      · cases hrs
    | n + 3 => cases hx

def replayedAlone : List Action :=
  queuedOffline ++ [Action.connect "w", .fetch 0, .scan 0, .scan 0, .fire 0 0, .acquire 1, .tryLock 1]

theorem pending_replayed : ∃ t ∈ run (step onWorker 2) {} replayedAlone,
    t.removed = [("s", 1)] ∧ t.passes = ["s", "s"] ∧ NoneDropped t :=
  ⟨_, rfl, rfl, rfl, @unhindered_none_dropped onWorker 2 replayedAlone _ (by decide) rfl⟩

end Wireops.Sync.Pending
