import Mathlib.Data.List.Basic
import Wireops.Lib.Steps
import Wireops.Lib.Table

namespace Wireops.Sync.Worktree

open Bool Option Function List Lib.Steps Lib.Table

/-- The working tree of the repository. Resets that overlap, or fail half way,
leave it torn. -/
inductive Tree where
  | at (sha : String)
  | moving (i : Nat)
  | torn
  deriving DecidableEq

def Tree.commit : Tree → Option String
  | .at sha => some sha
  | _ => none

/-- The operations on a repository. `fetchedSHA` is what `ensureRepoFetched`
returned to the reconcile. -/
inductive Kind where
  | fetch
  | clone
  | reconcile (fetchedSHA : String)
  | rollback (commitSHA : String)
  | redeploy
  deriving DecidableEq, Repr

/-- `reading` has settled on the commit it will record, and carries what was
checked out at each of its reads. -/
inductive Phase where
  | ready
  | locked
  | rlocked
  | moving (sha : String)
  | moved (sha : String)
  | reading (sha : String) (reads : List (Option String))
  | rendered
  | done
  deriving DecidableEq

structure Op where
  kind : Kind
  phase : Phase := .ready

structure Revision where
  commitSHA : String
  reads : List (Option String)
  deriving DecidableEq

structure State where
  tree : Tree := .torn
  headRef : String := ""
  lastCommitSHA : String := ""
  writer : Option Nat := none
  readers : List Nat := []
  ops : Nat → Option Op := fun _ => none
  next : Nat := 0
  revisions : List Revision := []

/-- `reset` and `land` are the two ends of a hard reset or clone, and `miss` one
that fails; `pick` settles on the commit to record. -/
inductive Action where
  | launch (kind : Kind)
  | lock (i : Nat)
  | reset (i : Nat) (sha : String)
  | land (i : Nat)
  | miss (i : Nat)
  | abandon (i : Nat)
  | save (i : Nat) (ok : Bool)
  | rlock (i : Nat)
  | pick (i : Nat)
  | read (i : Nat)
  | record (i : Nat)
  | stop (i : Nat)
  | deployed (i : Nat)
  deriving DecidableEq, Repr

def exclusive : Kind → Bool
  | .fetch | .rollback _ => true
  | _ => false

def shared : Kind → Bool
  | .reconcile _ => true
  | _ => false

variable (s : State) (i : Nat) (x : Op)

def State.setPhase (p : Phase) : State :=
  { s with ops := update s.ops i (some { x with phase := p }) }

/-- A fetch or a clone moves to the remote's commit, a rollback to its own; the
background clone does so without the lock. -/
def canReset (sha : String) : Bool :=
  match x.kind, x.phase with
  | .fetch, .locked => true
  | .clone, .ready => true
  | .rollback commitSHA, .locked => sha = commitSHA
  | _, _ => false

def reset (sha : String) : State :=
  { s.setPhase i x (.moving sha) with
    headRef := sha
    tree := match s.tree with
      | .moving _ => .torn
      | _ => .moving i }

def land (sha : String) : State :=
  { s.setPhase i x (if x.kind = .clone then .done else .moved sha) with
    tree := if s.tree = .moving i then .at sha else .torn }

/-- A fetch tries again under the lock it holds; a rollback gives up. -/
def miss : State :=
  if x.kind = .fetch then { s.setPhase i x .locked with tree := .torn }
  else { s.setPhase i x .done with
    tree := .torn
    writer := if exclusive x.kind then none else s.writer }

/-- A reconcile reloads the commit under its read lock, a forced redeploy takes
it from the record, a rollback has its own and releases the write lock. -/
def pick : Option State :=
  match x.kind, x.phase with
  | .reconcile fetchedSHA, .rlocked =>
    some (s.setPhase i x
      (.reading (if s.lastCommitSHA = "" then fetchedSHA else s.lastCommitSHA) []))
  | .redeploy, .ready => some (s.setPhase i x (.reading s.lastCommitSHA []))
  | .rollback commitSHA, .moved _ =>
    some { s.setPhase i x (.reading commitSHA []) with writer := none }
  | _, _ => none

def release : List Nat :=
  if shared x.kind then s.readers.erase i else s.readers

def record (sha : String) (reads : List (Option String)) : State :=
  { s.setPhase i x (if exclusive x.kind then .rendered else .done) with
    readers := release s i x
    revisions := s.revisions ++ [⟨sha, reads⟩] }

def stop : Option State :=
  match x.phase with
  | .ready | .rlocked | .reading _ _ | .rendered =>
    some { s.setPhase i x .done with readers := release s i x }
  | _ => none

def step : Action → Option State
  | .launch kind =>
    some { s with ops := update s.ops s.next (some { kind }), next := s.next + 1 }
  | .lock i => do
    let x ← s.ops i
    if exclusive x.kind ∧ x.phase = .ready ∧ s.writer = none ∧ s.readers = [] then
      some { s.setPhase i x .locked with writer := some i }
    else none
  | .reset i sha => do
    let x ← s.ops i
    if canReset x sha then some (reset s i x sha) else none
  | .land i => do
    let x ← s.ops i
    match x.phase with
    | .moving sha => some (land s i x sha)
    | _ => none
  | .miss i => do
    let x ← s.ops i
    match x.phase with
    | .moving _ => some (miss s i x)
    | _ => none
  | .abandon i => do
    let x ← s.ops i
    if exclusive x.kind ∧ x.phase = .locked then some { s.setPhase i x .done with writer := none }
    else none
  | .save i ok => do
    let x ← s.ops i
    match x.kind, x.phase with
    | .fetch, .moved _ => some { s.setPhase i x .done with
        writer := none
        lastCommitSHA := if ok then s.headRef else s.lastCommitSHA }
    | _, _ => none
  | .rlock i => do
    let x ← s.ops i
    if shared x.kind ∧ x.phase = .ready ∧ s.writer = none then
      some { s.setPhase i x .rlocked with readers := i :: s.readers }
    else none
  | .pick i => do
    let x ← s.ops i
    pick s i x
  | .read i => do
    let x ← s.ops i
    match x.phase with
    | .reading sha reads => some (s.setPhase i x (.reading sha (reads ++ [s.tree.commit])))
    | _ => none
  | .record i => do
    let x ← s.ops i
    match x.phase with
    | .reading sha reads => some (record s i x sha reads)
    | _ => none
  | .stop i => do
    let x ← s.ops i
    stop s i x
  | .deployed i => do
    let x ← s.ops i
    match x.kind, x.phase with
    | .rollback commitSHA, .rendered =>
      some { s.setPhase i x .done with lastCommitSHA := commitSHA }
    | _, _ => none

inductive Fires (s : State) : Action → State → Prop where
  | launch (kind : Kind) : Fires s (.launch kind)
    { s with ops := update s.ops s.next (some { kind }), next := s.next + 1 }
  | lock {i : Nat} {x : Op} (hx : s.ops i = some x) (hk : exclusive x.kind = true)
    (hp : x.phase = .ready) (hw : s.writer = none) (hr : s.readers = []) :
    Fires s (.lock i) { s.setPhase i x .locked with writer := some i }
  | reset {i : Nat} {x : Op} {sha : String} (hx : s.ops i = some x) (hcan : canReset x sha = true) :
    Fires s (.reset i sha) (reset s i x sha)
  | land {i : Nat} {x : Op} {sha : String} (hx : s.ops i = some x) (hp : x.phase = .moving sha) :
    Fires s (.land i) (land s i x sha)
  | miss {i : Nat} {x : Op} {sha : String} (hx : s.ops i = some x) (hp : x.phase = .moving sha) :
    Fires s (.miss i) (miss s i x)
  | abandon {i : Nat} {x : Op} (hx : s.ops i = some x) (hk : exclusive x.kind = true)
    (hp : x.phase = .locked) : Fires s (.abandon i) { s.setPhase i x .done with writer := none }
  | save {i : Nat} {x : Op} {sha : String} (ok : Bool) (hx : s.ops i = some x) (hk : x.kind = .fetch)
    (hp : x.phase = .moved sha) : Fires s (.save i ok) { s.setPhase i x .done with
      writer := none
      lastCommitSHA := if ok then s.headRef else s.lastCommitSHA }
  | rlock {i : Nat} {x : Op} (hx : s.ops i = some x) (hk : shared x.kind = true)
    (hp : x.phase = .ready) (hw : s.writer = none) :
    Fires s (.rlock i) { s.setPhase i x .rlocked with readers := i :: s.readers }
  | pick {i : Nat} {x : Op} {t : State} (hx : s.ops i = some x) (h : pick s i x = some t) : Fires s (.pick i) t
  | read {i : Nat} {x : Op} {sha : String} {reads : List (Option String)} (hx : s.ops i = some x)
    (hp : x.phase = .reading sha reads) : Fires s (.read i) (s.setPhase i x (.reading sha (reads ++ [s.tree.commit])))
  | record {i : Nat} {x : Op} {sha : String} {reads : List (Option String)} (hx : s.ops i = some x)
    (hp : x.phase = .reading sha reads) : Fires s (.record i) (record s i x sha reads)
  | stop {i : Nat} {x : Op} {t : State} (hx : s.ops i = some x) (h : stop s i x = some t) : Fires s (.stop i) t
  | deployed {i : Nat} {x : Op} {commitSHA : String} (hx : s.ops i = some x)
    (hk : x.kind = .rollback commitSHA) (hp : x.phase = .rendered) :
    Fires s (.deployed i) { s.setPhase i x .done with lastCommitSHA := commitSHA }

theorem step_fires {s t : State} {a : Action} (h : step s a = some t) : Fires s a t := by
  cases a with
  | launch kind =>
    cases h
    exact .launch kind
  | lock i =>
    obtain ⟨x, hx, h⟩ := bind_eq_some_iff.mp h
    obtain ⟨⟨hkind, hphase, hwriter, hreaders⟩, h⟩ := ite_none_right_eq_some.mp h
    cases h
    exact .lock hx hkind hphase hwriter hreaders
  | rlock i =>
    obtain ⟨x, hx, h⟩ := bind_eq_some_iff.mp h
    obtain ⟨⟨hkind, hphase, hwriter⟩, h⟩ := ite_none_right_eq_some.mp h
    cases h
    exact .rlock hx hkind hphase hwriter
  | abandon i =>
    obtain ⟨x, hx, h⟩ := bind_eq_some_iff.mp h
    obtain ⟨⟨hkind, hphase⟩, h⟩ := ite_none_right_eq_some.mp h
    cases h
    exact .abandon hx hkind hphase
  | reset i sha | land i | miss i | save i ok | read i | record i | deployed i =>
    obtain ⟨x, hx, h⟩ := bind_eq_some_iff.mp h
    split at h
    · cases h
      constructor <;> assumption
    · cases h
  | pick i =>
    obtain ⟨x, hx, h⟩ := bind_eq_some_iff.mp h
    exact .pick hx h
  | stop i =>
    obtain ⟨x, hx, h⟩ := bind_eq_some_iff.mp h
    exact .stop hx h

/-- Every recorded revision was rendered from files read while its own commit
was checked out. -/
def Consistent : Prop :=
  ∀ rev ∈ s.revisions, ∀ c ∈ rev.reads, c = some rev.commitSHA

/-- The operation is at work on the tree, and the lock of the repository does
not keep one of the other kind from it. -/
def exposed (k : Kind) (y : Op) : Bool :=
  match y.phase with
  | .moving _ => !(exclusive k && exclusive y.kind)
  | .moved _ => !exclusive k
  | .reading _ _ => !(exclusive k && shared y.kind)
  | _ => false

def recorded : Option String :=
  match x.kind, x.phase with
  | .reconcile fetchedSHA, .rlocked =>
    some (if s.lastCommitSHA = "" then fetchedSHA else s.lastCommitSHA)
  | .redeploy, .ready => some s.lastCommitSHA
  | _, _ => none

/-- The tree is moved only while no operation that the lock leaves exposed is at
work on it, and the recorded commit is relied on only while it is checked out. -/
def Undisturbed : Action → Prop
  | .reset i _ => (s.ops i).elim True (fun x =>
      ∀ j < s.next, j ≠ i → (s.ops j).all (fun y => !exposed x.kind y) = true)
  | .pick i => (s.ops i).elim True (fun x => (recorded s x).all (fun sha => s.tree = .at sha) = true)
  | _ => True

instance (s : State) : (a : Action) → Decidable (Undisturbed s a)
  | .reset i _ =>
    match h : s.ops i with
    | none => .isTrue (by rw [Undisturbed, h]; trivial)
    | some x => decidable_of_iff
        (∀ j < s.next, j ≠ i → (s.ops j).all (fun y => !exposed x.kind y) = true)
        (by rw [Undisturbed, h]; rfl)
  | .pick i =>
    match h : s.ops i with
    | none => .isTrue (by rw [Undisturbed, h]; trivial)
    | some x => decidable_of_iff ((recorded s x).all (fun sha => s.tree = .at sha) = true)
        (by rw [Undisturbed, h]; rfl)
  | .launch _ | .lock _ | .land _ | .miss _ | .abandon _ | .save _ _ | .rlock _ | .read _
  | .record _ | .stop _ | .deployed _ => .isTrue trivial

def needs : Phase → Option Tree
  | .moving _ => some (.moving i)
  | .moved sha | .reading sha _ => some (.at sha)
  | _ => none

def holdsWrite : Bool :=
  match x.phase with
  | .locked | .moving _ | .moved _ => exclusive x.kind
  | _ => false

def holdsRead : Bool :=
  match x.phase with
  | .rlocked | .reading _ _ => shared x.kind
  | _ => false

def Sound (k : Kind) : Phase → Prop
  | .moving sha => (k ≠ .clone → exclusive k = true) ∧ ∀ c, k = .rollback c → sha = c
  | .moved sha => exclusive k = true ∧ ∀ c, k = .rollback c → sha = c
  | .reading sha reads => ∀ c ∈ reads, c = some sha
  | _ => True

structure Inv (s : State) : Prop where
  unused : ∀ i, s.next ≤ i → s.ops i = none
  write : ∀ i x, s.ops i = some x → holdsWrite x = true → s.writer = some i
  read : ∀ i x, s.ops i = some x → holdsRead x = true → i ∈ s.readers
  apart : ∀ i, s.writer = some i → s.readers = []
  tree : ∀ i x w, s.ops i = some x → needs i x.phase = some w → s.tree = w
  busy : ∀ i, s.tree = .moving i → ∃ x sha, s.ops i = some x ∧ x.phase = .moving sha
  sound : ∀ i x, s.ops i = some x → Sound x.kind x.phase
  consistent : Consistent s

theorem inv_init : Inv {} where
  unused _ _ := rfl
  write _ _ h := nomatch h
  read _ _ h := nomatch h
  apart _ h := nomatch h
  tree _ _ _ h := nomatch h
  busy _ h := nomatch h
  sound _ _ h := nomatch h
  consistent _ h := nomatch h

/-- Who is in a phase that needs a lock holds it, and the write lock excludes
the others. -/
structure Locked (s : State) : Prop where
  write : ∀ i x, s.ops i = some x → holdsWrite x = true → s.writer = some i
  read : ∀ i x, s.ops i = some x → holdsRead x = true → i ∈ s.readers
  apart : ∀ i, s.writer = some i → s.readers = []

variable {s t : State} {i : Nat} {x : Op} {p : Phase}

theorem Inv.locked (hs : Inv s) : Locked s := { hs with }

structure Moves (s t : State) (i : Nat) (x : Op) (p : Phase) : Prop where
  before : s.ops i = some x
  after : t.ops = update s.ops i (some { x with phase := p })
  next : t.next = s.next

section

variable (h : Moves s t i x p)

include h

theorem Moves.cases {j : Nat} {y : Op} (hy : t.ops j = some y) :
    (j = i ∧ y = { x with phase := p }) ∨ (j ≠ i ∧ s.ops j = some y) :=
  update_some_cases (h.after ▸ hy)

theorem Moves.self : t.ops i = some { x with phase := p } := by
  rw [h.after, update_self]

theorem Moves.of_ne {j : Nat} (hj : j ≠ i) : t.ops j = s.ops j := by
  rw [h.after, update_of_ne hj]

theorem Moves.unused (hs : ∀ i, s.next ≤ i → s.ops i = none) (j : Nat)
    (hj : t.next ≤ j) : t.ops j = none := by
  have hnone := hs j (h.next ▸ hj)
  have hne : j ≠ i := by
    rintro rfl
    cases hnone.symm.trans h.before
  rw [h.of_ne hne, hnone]

end

structure Locks (t : State) (i : Nat) (x : Op) (p : Phase) (s : State) : Prop where
  write : holdsWrite { x with phase := p } = true → t.writer = some i
  others : ∀ j, j ≠ i → s.writer = some j → t.writer = some j
  read : holdsRead { x with phase := p } = true → i ∈ t.readers
  readers : ∀ j, j ≠ i → j ∈ s.readers → j ∈ t.readers
  apart : ∀ j, t.writer = some j → t.readers = []

theorem Locked.moves (hs : Locked s) (h : Moves s t i x p) (hl : Locks t i x p s) : Locked t where
  write j y hy hw := by
    obtain ⟨rfl, rfl⟩ | ⟨hne, hy⟩ := h.cases hy
    · exact hl.write hw
    · exact hl.others j hne (hs.write j y hy hw)
  read j y hy hr := by
    obtain ⟨rfl, rfl⟩ | ⟨hne, hy⟩ := h.cases hy
    · exact hl.read hr
    · exact hl.readers j hne (hs.read j y hy hr)
  apart := hl.apart

section Locks

variable (hs : Locked s) (hx : s.ops i = some x)

include hs hx

theorem locks_same (hp : holdsWrite { x with phase := p } = true → holdsWrite x = true)
    (hq : holdsRead { x with phase := p } = true → holdsRead x = true) (hw : t.writer = s.writer := by rfl)
    (hr : t.readers = s.readers := by rfl) : Locks t i x p s where
  write h := hw.trans (hs.write i x hx (hp h))
  others _ _ h := hw.trans h
  read h := hr ▸ hs.read i x hx (hq h)
  readers _ _ h := hr ▸ h
  apart j h := hr.trans (hs.apart j (hw ▸ h))

theorem locks_unlock (hold : holdsWrite x = true) (hw : t.writer = none := by rfl)
    (hr : t.readers = s.readers := by rfl) (hp : holdsWrite { x with phase := p } = false := by rfl)
    (hq : holdsRead { x with phase := p } = false := by rfl) : Locks t i x p s where
  write h := nomatch hp.symm.trans h
  others j hne h := by
    rw [hs.write i x hx hold] at h
    exact absurd (Option.some.inj h).symm hne
  read h := nomatch hq.symm.trans h
  readers _ _ h := hr ▸ h
  apart j h := nomatch hw.symm.trans h

omit hx in
theorem locks_release (hw : t.writer = s.writer := by rfl) (hr : t.readers = release s i x := by rfl)
    (hp : holdsWrite { x with phase := p } = false := by rfl)
    (hq : holdsRead { x with phase := p } = false := by rfl) : Locks t i x p s where
  write h := nomatch hp.symm.trans h
  others _ _ h := hw.trans h
  read h := nomatch hq.symm.trans h
  readers j hne h := by
    rw [hr, release]
    split
    · exact (mem_erase_of_ne hne).mpr h
    · exact h
  apart j h := by
    rw [hr, release, hs.apart j (hw ▸ h)]
    split <;> rfl

end Locks

theorem canReset_cases {sha : String} (h : canReset x sha = true) :
    (exclusive x.kind = true ∧ x.phase = .locked ∧ ∀ c, x.kind = .rollback c → sha = c) ∨
      (x.kind = .clone ∧ x.phase = .ready) := by
  unfold canReset at h
  split at h
  · next hk hp =>
    rw [hk]
    exact .inl ⟨rfl, hp, nofun⟩
  · next hk hp => exact .inr ⟨hk, hp⟩
  · next c hk hp =>
    rw [hk]
    refine .inl ⟨rfl, hp, ?_⟩
    rintro _ ⟨rfl⟩
    exact of_decide_eq_true h
  · cases h

namespace Locked

theorem launch (hs : Locked s) (k : Kind) :
    Locked { s with ops := update s.ops s.next (some { kind := k }), next := s.next + 1 } where
  write := forall_update_some hs.write nofun
  read := forall_update_some hs.read nofun
  apart := hs.apart

section

variable (hs : Locked s) (hx : s.ops i = some x)

include hs hx

theorem miss {sha : String} (hm : x.phase = .moving sha) : Locked (miss s i x) := by
  unfold Worktree.miss
  split
  · next hk =>
    refine hs.moves ⟨hx, rfl, rfl⟩ (locks_same hs hx (fun _ => ?_) nofun)
    simp only [holdsWrite, hm, hk, exclusive]
  · refine hs.moves (p := .done) ⟨hx, rfl, rfl⟩ ?_
    by_cases hk : exclusive x.kind = true
    · exact locks_unlock hs hx (by simp only [holdsWrite, hm, hk]) (if_pos hk)
    · exact locks_same hs hx nofun nofun (if_neg hk)

theorem land {sha : String} (hm : x.phase = .moving sha) : Locked (land s i x sha) := by
  unfold Worktree.land
  split
  · exact hs.moves ⟨hx, rfl, rfl⟩ (locks_same hs hx nofun nofun)
  · refine hs.moves ⟨hx, rfl, rfl⟩ (locks_same hs hx (fun hw => ?_) nofun)
    simpa only [holdsWrite, hm] using hw

theorem pick (h : pick s i x = some t) : Locked t := by
  unfold Worktree.pick at h
  split at h
  · next f hk hp =>
    cases h
    refine hs.moves ⟨hx, rfl, rfl⟩ (locks_same hs hx nofun (fun _ => ?_))
    simp only [holdsRead, hk, hp, shared]
  · next hk hp =>
    cases h
    refine hs.moves ⟨hx, rfl, rfl⟩ (locks_same hs hx nofun (fun hr => ?_))
    simp only [holdsRead, hk, shared] at hr
    cases hr
  · next c sha hk hp =>
    cases h
    refine hs.moves ⟨hx, rfl, rfl⟩ (locks_unlock hs hx ?_ rfl rfl rfl ?_)
    · simp only [holdsWrite, hp, hk, exclusive]
    · simp only [holdsRead, hk, shared]
  · cases h

theorem stop (h : stop s i x = some t) : Locked t := by
  unfold Worktree.stop at h
  split at h <;> cases h <;>
    exact hs.moves ⟨hx, rfl, rfl⟩ (locks_release hs)

end

theorem step {a : Action} (hs : Locked s) (h : step s a = some t) : Locked t := by
  cases step_fires h with
  | launch kind => exact hs.launch kind
  | @lock i _ hx _ _ hw hr =>
    refine hs.moves ⟨hx, rfl, rfl⟩
      ⟨fun _ => rfl, fun j _ hw' => ?_, nofun, fun _ _ hr => hr, fun _ _ => hr⟩
    cases hw.symm.trans hw'
  | reset hx hcan =>
    refine hs.moves ⟨hx, rfl, rfl⟩ (locks_same hs hx (fun hw => ?_) nofun)
    obtain ⟨hk, hp, _⟩ | ⟨hk, _⟩ := canReset_cases hcan
    · simp only [holdsWrite, hp, hk]
    · simp only [holdsWrite, hk, exclusive] at hw
      cases hw
  | land hx hp => exact hs.land hx hp
  | miss hx hp => exact hs.miss hx hp
  | @abandon i x hx hk hp =>
    have hold : holdsWrite x = true := by simp only [holdsWrite, hp, hk]
    exact hs.moves ⟨hx, rfl, rfl⟩ (locks_unlock hs hx hold)
  | @save i x _ ok hx hk hp =>
    have hold : holdsWrite x = true := by simp only [holdsWrite, hp, hk, exclusive]
    exact hs.moves ⟨hx, rfl, rfl⟩ (locks_unlock hs hx hold)
  | @rlock i _ hx _ _ hw =>
    refine hs.moves ⟨hx, rfl, rfl⟩ ⟨nofun, fun _ _ hw => hw, fun _ => mem_cons_self,
      fun _ _ hr => mem_cons_of_mem i hr, fun j hw' => ?_⟩
    cases hw.symm.trans hw'
  | pick hx h => exact hs.pick hx h
  | read hx hp =>
    refine hs.moves ⟨hx, rfl, rfl⟩ (locks_same hs hx nofun (fun hr => ?_))
    simpa only [holdsRead, hp] using hr
  | record hx hp =>
    unfold record
    split <;> exact hs.moves ⟨hx, rfl, rfl⟩ (locks_release hs)
  | stop hx h => exact hs.stop hx h
  | deployed hx _ _ =>
    exact hs.moves ⟨hx, rfl, rfl⟩ (locks_same hs hx nofun nofun)

end Locked

structure Holds (t : State) (i : Nat) (p : Phase) (s : State) : Prop where
  self : ∀ w, needs i p = some w → t.tree = w
  others : ∀ j y w, j ≠ i → s.ops j = some y → needs j y.phase = some w → t.tree = w
  busy : ∀ j, t.tree = .moving j → (j = i ∧ ∃ sha, p = .moving sha) ∨ (j ≠ i ∧ s.tree = .moving j)

structure Calm (s : State) : Prop where
  unused : ∀ i, s.next ≤ i → s.ops i = none
  tree : ∀ i x w, s.ops i = some x → needs i x.phase = some w → s.tree = w
  busy : ∀ i, s.tree = .moving i → ∃ x sha, s.ops i = some x ∧ x.phase = .moving sha
  sound : ∀ i x, s.ops i = some x → Sound x.kind x.phase
  consistent : Consistent s

theorem Inv.moves (hs : Inv s) (h : Moves s t i x p) (ht : Holds t i p s) (hp : Sound x.kind p)
    (hc : Consistent t) : Calm t where
  unused := h.unused hs.unused
  tree j y w hy hn := by
    obtain ⟨rfl, rfl⟩ | ⟨hne, hy⟩ := h.cases hy
    · exact ht.self w hn
    · exact ht.others j y w hne hy hn
  busy j hj := by
    obtain ⟨rfl, sha, rfl⟩ | ⟨hne, hj⟩ := ht.busy j hj
    · exact ⟨_, sha, h.self, rfl⟩
    · obtain ⟨y, sha, hy, hph⟩ := hs.busy j hj
      exact ⟨y, sha, (h.of_ne hne).trans hy, hph⟩
  sound j y hy := by
    obtain ⟨rfl, rfl⟩ | ⟨_, hy⟩ := h.cases hy
    · exact hp
    · exact hs.sound j y hy
  consistent := hc

section Steps

variable (hs : Inv s) (hx : s.ops i = some x)

include hs hx

theorem holds_same {q : Phase} (hq : x.phase = q) (hp : ∀ w, needs i p = some w → s.tree = w)
    (hold : ∀ sha, q ≠ .moving sha := by rintro _ ⟨⟩) (ht : t.tree = s.tree := by rfl) : Holds t i p s where
  self w h := ht.trans (hp w h)
  others j y w _ hy hn := ht.trans (hs.tree j y w hy hn)
  busy j h := by
    refine .inr ⟨?_, ht ▸ h⟩
    rintro rfl
    obtain ⟨y, sha, hy, hph⟩ := hs.busy j (ht ▸ h)
    cases hx.symm.trans hy
    exact hold sha (hq.symm.trans hph)

theorem alone {sha : String} (hm : x.phase = .moving sha) {j : Nat} {y : Op} (hne : j ≠ i)
    (hy : s.ops j = some y) : needs j y.phase = none := by
  have hmv : s.tree = .moving i := hs.tree i x _ hx (by rw [hm]; rfl)
  cases hn : needs j y.phase with
  | none => rfl
  | some w =>
    have hw := (hs.tree j y w hy hn).symm.trans hmv
    subst hw
    cases hph : y.phase <;> rw [hph] at hn <;> cases hn
    exact absurd rfl hne

theorem holds_moved {sha : String} (hm : x.phase = .moving sha)
    (hp : ∀ w, needs i p = some w → t.tree = w) (ht : ∀ j, t.tree ≠ .moving j) : Holds t i p s where
  self := hp
  others j y w hne hy hn := by
    rw [alone hs hx hm hne hy] at hn
    cases hn
  busy j h := absurd h (ht j)

end Steps

theorem unexposed {sha : String} (hs : Inv s) (hx : s.ops i = some x) (hcan : canReset x sha = true)
    (hg : ∀ j < s.next, j ≠ i → (s.ops j).all (fun y => !exposed x.kind y) = true) {j : Nat} {y : Op}
    (hne : j ≠ i) (hy : s.ops j = some y) : needs j y.phase = none := by
  have hlt : j < s.next := by
    refine Nat.lt_of_not_le (fun hle => ?_)
    cases (hs.unused j hle).symm.trans hy
  have hsafe := hg j hlt hne
  rw [hy, all_some, not_eq_true'] at hsafe
  have hlock : exclusive x.kind = true → s.writer = some i := by
    intro hk
    obtain ⟨_, hp, _⟩ | ⟨hc, _⟩ := canReset_cases hcan
    · exact hs.write i x hx (by simp only [holdsWrite, hp, hk])
    · rw [hc] at hk
      cases hk
  cases hph : y.phase with
  | moving sha' =>
    simp only [exposed, hph, not_eq_false', and_eq_true] at hsafe
    have hj := hs.write j y hy (by simp only [holdsWrite, hph, hsafe.2])
    exact absurd (Option.some.inj (hj.symm.trans (hlock hsafe.1))) hne
  | moved sha' =>
    simp only [exposed, hph, not_eq_false'] at hsafe
    have hk := hs.sound j y hy
    rw [hph] at hk
    have hj := hs.write j y hy (by simp only [holdsWrite, hph, hk.1])
    exact absurd (Option.some.inj (hj.symm.trans (hlock hsafe))) hne
  | reading sha' reads =>
    simp only [exposed, hph, not_eq_false', and_eq_true] at hsafe
    have hj := hs.read j y hy (by simp only [holdsRead, hph, hsafe.2])
    rw [hs.apart i (hlock hsafe.1)] at hj
    cases hj
  | ready | locked | rlocked | rendered | done => rfl

namespace Inv

variable {sha : String}

section

variable (hs : Inv s) (hx : s.ops i = some x)

include hs hx

theorem reset (hcan : canReset x sha = true)
    (hg : ∀ j < s.next, j ≠ i → (s.ops j).all (fun y => !exposed x.kind y) = true) : Calm (reset s i x sha) := by
  have hstill : ∀ k, s.tree ≠ .moving k := by
    intro k hk
    obtain ⟨y, sha', hy, hph⟩ := hs.busy k hk
    by_cases hki : k = i
    · subst hki
      cases hx.symm.trans hy
      obtain ⟨_, hp, _⟩ | ⟨_, hp⟩ := canReset_cases hcan <;> cases hp.symm.trans hph
    · have hnone := unexposed hs hx hcan hg hki hy
      rw [hph] at hnone
      cases hnone
  have htree : (Worktree.reset s i x sha).tree = .moving i := by
    unfold Worktree.reset
    split
    · next k hk => exact absurd hk (hstill k)
    · rfl
  refine hs.moves ⟨hx, rfl, rfl⟩ ⟨?_, ?_, ?_⟩ ?_ hs.consistent
  · rintro _ ⟨rfl⟩
    exact htree
  · intro j y w hne hy hn
    cases (unexposed hs hx hcan hg hne hy).symm.trans hn
  · intro j hj
    cases htree.symm.trans hj
    exact .inl ⟨rfl, sha, rfl⟩
  · obtain ⟨hk, _, hsha⟩ | ⟨hk, _⟩ := canReset_cases hcan
    · exact ⟨fun _ => hk, hsha⟩
    · exact ⟨fun hne => absurd hk hne, fun c hc => nomatch hk.symm.trans hc⟩

theorem land (hm : x.phase = .moving sha) : Calm (land s i x sha) := by
  have hmv : s.tree = .moving i := hs.tree i x _ hx (by rw [hm]; rfl)
  have hsound := hs.sound i x hx
  rw [hm] at hsound
  unfold Worktree.land
  rw [if_pos hmv]
  split
  · exact hs.moves ⟨hx, rfl, rfl⟩ (holds_moved hs hx hm nofun nofun) trivial hs.consistent
  · next hk =>
    refine hs.moves ⟨hx, rfl, rfl⟩ (holds_moved hs hx hm ?_ nofun) ⟨hsound.1 hk, hsound.2⟩ hs.consistent
    rintro _ ⟨rfl⟩
    rfl

theorem miss (hm : x.phase = .moving sha) : Calm (miss s i x) := by
  have htorn := fun p t (hp : needs i p = none) (ht : t.tree = .torn) =>
    @holds_moved s t i x p hs hx sha hm (fun w hw => nomatch hp.symm.trans hw)
      (fun j hj => nomatch ht.symm.trans hj)
  unfold Worktree.miss
  split <;> exact hs.moves ⟨hx, rfl, rfl⟩ (htorn _ _ rfl rfl) trivial hs.consistent

theorem leave {q : Phase} (hq : x.phase = q) (h : Moves s t i x p) (hc : Consistent t)
    (hold : ∀ sha, q ≠ .moving sha := by rintro _ ⟨⟩) (ht : t.tree = s.tree := by rfl)
    (hn : needs i p = none := by rfl) (hp : Sound x.kind p := by trivial) : Calm t :=
  hs.moves h (holds_same hs hx hq (fun _ hw => nomatch hn.symm.trans hw) hold ht) hp hc

theorem settle {q : Phase} (hq : x.phase = q) (hat : s.tree = .at sha) (h : Moves s t i x (.reading sha []))
    (hc : Consistent t) (hold : ∀ sha, q ≠ .moving sha := by rintro _ ⟨⟩) (ht : t.tree = s.tree := by rfl) :
    Calm t := by
  refine hs.moves h (holds_same hs hx hq ?_ hold ht) (fun _ h => nomatch h) hc
  rintro _ ⟨rfl⟩
  exact hat

theorem pick (hg : (recorded s x).all (fun sha => s.tree = .at sha) = true) (h : pick s i x = some t) : Calm t := by
  unfold Worktree.pick at h
  split at h
  · next f hk hp =>
    cases h
    simp only [recorded, hk, hp, all_some, decide_eq_true_eq] at hg
    exact hs.settle hx hp hg ⟨hx, rfl, rfl⟩ hs.consistent
  · next hk hp =>
    cases h
    simp only [recorded, hk, hp, all_some, decide_eq_true_eq] at hg
    exact hs.settle hx hp hg ⟨hx, rfl, rfl⟩ hs.consistent
  · next c sha hk hp =>
    cases h
    have hsound := hs.sound i x hx
    rw [hp] at hsound
    have ht : s.tree = .at c := by
      rw [hs.tree i x (.at sha) hx (by rw [hp]; rfl), hsound.2 c hk]
    exact hs.settle hx hp ht ⟨hx, rfl, rfl⟩ hs.consistent
  · cases h

variable {reads : List (Option String)}

theorem readOnce (hp : x.phase = .reading sha reads) :
    Calm (s.setPhase i x (.reading sha (reads ++ [s.tree.commit]))) := by
  have ht : s.tree = .at sha := hs.tree i x _ hx (by rw [hp]; rfl)
  have hsound := hs.sound i x hx
  rw [hp] at hsound
  refine hs.moves ⟨hx, rfl, rfl⟩ (holds_same hs hx hp ?_) ?_ hs.consistent
  · rintro _ ⟨rfl⟩
    exact ht
  · intro c hc
    obtain hc | hc := mem_append.mp hc
    · exact hsound c hc
    · rw [mem_singleton.mp hc, ht]
      rfl

theorem record (hp : x.phase = .reading sha reads) : Calm (record s i x sha reads) := by
  have hsound := hs.sound i x hx
  rw [hp] at hsound
  have hc : Consistent (Worktree.record s i x sha reads) := by
    intro rev hrev
    obtain hrev | hrev := mem_append.mp hrev
    · exact hs.consistent rev hrev
    · cases mem_singleton.mp hrev
      exact hsound
  by_cases hk : exclusive x.kind = true
  · have hops : (Worktree.record s i x sha reads).ops = (s.setPhase i x .rendered).ops := by
      rw [Worktree.record, if_pos hk]
    exact hs.leave hx hp ⟨hx, hops, rfl⟩ hc
  · have hops : (Worktree.record s i x sha reads).ops = (s.setPhase i x .done).ops := by
      rw [Worktree.record, if_neg hk]
    exact hs.leave hx hp ⟨hx, hops, rfl⟩ hc

theorem stop (h : stop s i x = some t) : Calm t := by
  unfold Worktree.stop at h
  split at h
  · next hp => cases h; exact hs.leave hx hp ⟨hx, rfl, rfl⟩ hs.consistent
  · next hp => cases h; exact hs.leave hx hp ⟨hx, rfl, rfl⟩ hs.consistent
  · next hp => cases h; exact hs.leave hx hp ⟨hx, rfl, rfl⟩ hs.consistent
  · next hp => cases h; exact hs.leave hx hp ⟨hx, rfl, rfl⟩ hs.consistent
  · cases h

end

theorem launch (hs : Inv s) (k : Kind) :
    Calm { s with ops := update s.ops s.next (some { kind := k }), next := s.next + 1 } where
  __ := hs
  unused := unused_fill hs.unused
  tree j y w hy hn := by
    obtain ⟨rfl, rfl⟩ | ⟨_, hy⟩ := update_some_cases hy
    · cases hn
    · exact hs.tree j y w hy hn
  busy j hj := by
    obtain ⟨y, sha, hy, hp⟩ := hs.busy j hj
    exact ⟨y, sha, update_kept (hs.unused _ (Nat.le_refl _)) hy, hp⟩
  sound := forall_update_some hs.sound trivial

end Inv

theorem step_inv (s : State) (a : Action) (t : State) (hs : Inv s) (hg : Undisturbed s a)
    (h : step s a = some t) : Inv t := by
  have hcalm : Calm t := by
    cases step_fires h with
    | launch kind => exact hs.launch kind
    | reset hx hcan =>
      rw [Undisturbed, hx] at hg
      exact hs.reset hx hcan hg
    | land hx hp => exact hs.land hx hp
    | miss hx hp => exact hs.miss hx hp
    | lock hx _ hp | abandon hx _ hp | save _ hx _ hp | rlock hx _ hp | deployed hx _ hp =>
      exact hs.leave hx hp ⟨hx, rfl, rfl⟩ hs.consistent
    | pick hx h =>
      rw [Undisturbed, hx] at hg
      exact hs.pick hx hg h
    | read hx hp => exact hs.readOnce hx hp
    | record hx hp => exact hs.record hx hp
    | stop hx h => exact hs.stop hx h
  exact { hs.locked.step h, hcalm with }

theorem undisturbed_consistent {as : List Action} {t : State} (hg : Meets step Undisturbed {} as)
    (hr : run step {} as = some t) : Consistent t :=
  (run_invariant step_inv inv_init hg hr).consistent

def fetched (i : Nat) (sha : String) : List Action :=
  [.launch .fetch, .lock i, .reset i sha, .land i, .save i true]

def rolledBack (i : Nat) (sha : String) : List Action :=
  [.launch (.rollback sha), .lock i, .reset i sha, .land i, .pick i, .read i, .record i]

def redeployed (i : Nat) : List Action := [.launch .redeploy, .pick i, .read i, .record i]

/-- The deploy of the rollback fails, so the record keeps the commit of the
fetch. -/
theorem redeploy_after_failed_rollback :
    ∃ t ∈ run step {} (fetched 0 "c2" ++ rolledBack 1 "c1" ++ [.stop 1] ++ redeployed 2),
      t.tree = .at "c1" ∧ t.revisions = [⟨"c1", [some "c1"]⟩, ⟨"c2", [some "c1"]⟩] ∧ ¬ Consistent t := by
  refine ⟨_, rfl, rfl, rfl, fun h => ?_⟩
  exact absurd (h ⟨"c2", [some "c1"]⟩ (by decide) (some "c1") (by decide)) (by decide)

/-- The deploy of the rollback succeeds; a reconcile and a forced redeploy
follow. -/
def redeployedAfterRollback : List Action :=
  fetched 0 "c2" ++ [Action.launch (.reconcile "c2"), .rlock 1, .pick 1, .read 1, .record 1] ++
    rolledBack 2 "c1" ++ [Action.deployed 2] ++ redeployed 3

theorem redeploy_after_rollback : ∃ t ∈ run step {} redeployedAfterRollback,
    t.revisions = [⟨"c2", [some "c2"]⟩, ⟨"c1", [some "c1"]⟩, ⟨"c1", [some "c1"]⟩] ∧ Consistent t :=
  ⟨_, rfl, rfl, @undisturbed_consistent redeployedAfterRollback _ (by decide) rfl⟩

end Wireops.Sync.Worktree
