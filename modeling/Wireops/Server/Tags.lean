import Mathlib.Data.List.AList
import Wireops.Lib.Steps
import Wireops.Lib.Table

namespace Wireops.Server.Tags

open Function List Lib.Steps Lib.Table

abbrev TagMap := AList (fun _ : String => List String)

inductive Phase where
  | registered | serving | ended
  deriving DecidableEq

/-- One `RunSession` of a worker: it registers with its tags and then connects;
`serving` lasts until the deferred cleanup. -/
structure Session where
  workerID : String
  tags : List String
  phase : Phase
  deriving DecidableEq

structure State where
  connections : String → Option Nat := fun _ => none
  workerTags : TagMap := ∅
  sessions : List Session := []

inductive Action where
  | register (workerID : String) (tags : List String)
  | connect (n : Nat)
  | cleanup (n : Nat)
  | disconnectWorker (workerID : String)
  deriving DecidableEq, Repr

namespace State

def setPhase (s : State) (n : Nat) (x : Session) (p : Phase) : State :=
  { s with sessions := s.sessions.set n { x with phase := p } }

def drop (s : State) (workerID : String) : State :=
  { s with
    connections := update s.connections workerID none
    workerTags := s.workerTags.erase workerID }

def isConnected (s : State) (workerID : String) : Bool := (s.connections workerID).isSome

end State

variable (s : State) (workerID : String)

def setWorkerTags (tags : List String) : State :=
  { s with workerTags := s.workerTags.insert workerID tags }

/-- The last thing a successful `handleRegister` does is to store the tags. -/
def handleRegister (tags : List String) : State :=
  { setWorkerTags s workerID tags with sessions := s.sessions ++ [⟨workerID, tags, .registered⟩] }

def cleanup (n : Nat) (x : Session) : State :=
  if s.connections x.workerID = some n then (s.setPhase n x .ended).drop x.workerID
  else s.setPhase n x .ended

def step : Action → Option State
  | .register workerID tags => some (handleRegister s workerID tags)
  | .connect n => do
    let x ← s.sessions[n]?
    if x.phase = .registered then
      some { s.setPhase n x .serving with
        connections := update s.connections x.workerID (some n) }
    else none
  | .cleanup n => do
    let x ← s.sessions[n]?
    if x.phase = .serving then some (cleanup s n x) else none
  | .disconnectWorker workerID => some (s.drop workerID)

def workerHasAllTags (workerTags required : List String) : Bool :=
  required.all (fun t => workerTags.contains t)

/-- The tags are a snapshot, and `connected` is what `IsConnected` then says of
its workers, one after the other. -/
def getWorkersByTags (snapshot : TagMap) (connected : String → Bool) (tags : List String) : List String :=
  if tags = [] then []
  else (snapshot.entries.filter (fun e => connected e.1 && workerHasAllTags e.2 tags)).map (fun e => e.1)

/-- A query that takes its snapshot while the connection of a session is
installed, and asks whether the worker is connected while it still is, finds the
worker by any of the tags that the session registered with. -/
def Served : Prop :=
  ∀ n x, s.sessions[n]? = some x → s.connections x.workerID = some n →
    ∀ connected : String → Bool, connected x.workerID = true →
      ∀ tags, tags ≠ [] → tags ⊆ x.tags → x.workerID ∈ getWorkersByTags s.workerTags connected tags

def Current (n : Nat) (x : Session) : Prop :=
  x.phase = .registered ∨ s.connections x.workerID = some n

instance (s : State) (n : Nat) (x : Session) : Decidable (Current s n x) :=
  inferInstanceAs (Decidable (_ ∨ _))

def Settled : Prop :=
  ∀ x ∈ s.sessions, x.workerID = workerID → x.phase ≠ .registered

instance (s : State) (workerID : String) : Decidable (Settled s workerID) :=
  inferInstanceAs (Decidable (∀ x ∈ s.sessions, _))

/-- A worker is dropped only while no session of it waits for its connection, and
a registration declares the tags of the sessions that are current. -/
def Steady : Action → Prop
  | .register workerID tags => ∀ n < s.sessions.length, ∀ x ∈ s.sessions[n]?,
      x.workerID = workerID → Current s n x → x.tags ⊆ tags
  | .cleanup n => ∀ x ∈ s.sessions[n]?, s.connections x.workerID = some n → Settled s x.workerID
  | .disconnectWorker workerID => Settled s workerID
  | .connect _ => True

instance (s : State) (a : Action) : Decidable (Steady s a) := by
  unfold Steady
  split <;> infer_instance

/-- The stored tags of a worker cover those of its current sessions. -/
def Covered : Prop :=
  ∀ n x, s.sessions[n]? = some x → Current s n x → ∃ tags, s.workerTags.lookup x.workerID = some tags ∧ x.tags ⊆ tags

variable {s t : State} {n : Nat} {x : Session} {p : Phase} {workerID : String}

theorem mem_getWorkersByTags {snapshot : TagMap} {connected : String → Bool} {stored tags : List String}
    (hs : snapshot.lookup workerID = some stored) (hc : connected workerID = true) (hne : tags ≠ [])
    (hsub : tags ⊆ stored) : workerID ∈ getWorkersByTags snapshot connected tags := by
  have hall : workerHasAllTags stored tags = true := by
    simp only [workerHasAllTags, all_eq_true, contains_iff_mem]
    exact fun tag htag => hsub htag
  have hmem : (⟨workerID, stored⟩ : (_ : String) × List String) ∈ snapshot.entries :=
    AList.mem_lookup_iff.mp hs
  rw [getWorkersByTags, if_neg hne, mem_map]
  exact ⟨⟨workerID, stored⟩, mem_filter.mpr ⟨hmem, by simp [hc, hall]⟩, rfl⟩

theorem served_of_covered (h : Covered s) : Served s := by
  intro n x hx hinst connected hc tags hne hsub
  obtain ⟨stored, hs, hcover⟩ := h n x hx (.inr hinst)
  exact mem_getWorkersByTags hs hc hne (List.Subset.trans hsub hcover)

theorem setPhase_cases {m : Nat} {y : Session} (hx : s.sessions[n]? = some x)
    (hy : (s.setPhase n x p).sessions[m]? = some y) :
    (m = n ∧ y = { x with phase := p }) ∨ (m ≠ n ∧ s.sessions[m]? = some y) := by
  by_cases hm : m = n
  · subst hm
    have hlt := (List.getElem?_eq_some_iff.mp hx).1
    simp only [State.setPhase, List.getElem?_set_self hlt, Option.some.injEq] at hy
    exact .inl ⟨rfl, hy.symm⟩
  · simp only [State.setPhase, List.getElem?_set_ne (Ne.symm hm)] at hy
    exact .inr ⟨hm, hy⟩

theorem handleRegister_covered {tags : List String} (hc : Covered s)
    (hg : Steady s (.register workerID tags)) : Covered (handleRegister s workerID tags) := by
  intro m y hy hcur
  simp only [handleRegister, setWorkerTags, List.getElem?_append] at hy ⊢
  by_cases hw : y.workerID = workerID
  · refine ⟨tags, by rw [hw, AList.lookup_insert], ?_⟩
    split at hy
    · next hlt => exact hg m hlt y hy hw hcur
    · rw [List.getElem?_singleton] at hy
      split at hy
      · cases hy
        exact List.Subset.refl _
      · cases hy
  · rw [AList.lookup_insert_ne hw]
    split at hy
    · exact hc m y hy hcur
    · rw [List.getElem?_singleton] at hy
      split at hy
      · cases hy
        exact absurd rfl hw
      · cases hy

theorem connect_covered (hx : s.sessions[n]? = some x) (hp : x.phase = .registered) (hc : Covered s) :
    Covered { s.setPhase n x .serving with
      connections := update s.connections x.workerID (some n) } := by
  intro m y hy hcur
  obtain ⟨rfl, rfl⟩ | ⟨hm, hy⟩ := setPhase_cases hx hy
  · exact hc m x hx (.inl hp)
  · refine hc m y hy (hcur.imp_right fun h => ?_)
    obtain ⟨_, h⟩ | ⟨_, h⟩ := update_cases h
    · exact absurd (Option.some.inj h) (Ne.symm hm)
    · exact h

theorem drop_covered (hs : Settled s workerID) (hc : Covered s) : Covered (s.drop workerID) := by
  intro m y hy hcur
  have hw : y.workerID ≠ workerID := by
    rintro rfl
    obtain hreg | hconn := hcur
    · exact hs y (mem_of_getElem? hy) rfl hreg
    · simp [State.drop] at hconn
  have hcur' : Current s m y := by
    refine hcur.imp_right fun h => ?_
    simpa only [State.drop, Function.update_of_ne hw] using h
  obtain ⟨tags, ht, hsub⟩ := hc m y hy hcur'
  exact ⟨tags, by rw [State.drop, AList.lookup_erase_ne hw, ht], hsub⟩

theorem ended_covered (hx : s.sessions[n]? = some x) (hc : Covered s) : Covered (s.setPhase n x .ended) := by
  intro m y hy hcur
  obtain ⟨rfl, rfl⟩ | ⟨hm, hy⟩ := setPhase_cases hx hy
  · obtain hreg | hconn := hcur
    · cases hreg
    · exact hc m x hx (.inr hconn)
  · exact hc m y hy hcur

theorem ended_settled (hs : Settled s workerID) : Settled (s.setPhase n x .ended) workerID := by
  intro y hy hw
  obtain hy | rfl := mem_or_eq_of_mem_set hy
  · exact hs y hy hw
  · exact Phase.noConfusion

theorem cleanup_covered (hx : s.sessions[n]? = some x) (hc : Covered s) (hg : Steady s (.cleanup n)) :
    Covered (cleanup s n x) := by
  unfold cleanup
  split
  · next h => exact drop_covered (ended_settled (hg x hx h)) (ended_covered hx hc)
  · exact ended_covered hx hc

theorem step_covered (s : State) (a : Action) (t : State) (hc : Covered s) (hg : Steady s a)
    (h : step s a = some t) : Covered t := by
  cases a with
  | register workerID tags =>
    cases h
    exact handleRegister_covered hc hg
  | connect n =>
    obtain ⟨x, hx, h⟩ := Option.bind_eq_some_iff.mp h
    split at h
    · next hp =>
      cases h
      exact connect_covered hx hp hc
    · cases h
  | cleanup n =>
    obtain ⟨x, hx, h⟩ := Option.bind_eq_some_iff.mp h
    split at h
    · cases h
      exact cleanup_covered hx hc hg
    · cases h
  | disconnectWorker workerID =>
    cases h
    exact drop_covered hg hc

/-- Along a steady run every connected worker is found by its tags. -/
theorem steady_run_served (as : List Action) (s : State) (hg : Meets step Steady {} as)
    (h : run step {} as = some s) : Served s := by
  have hinit : Covered {} := by
    intro n x hx
    simp at hx
  exact served_of_covered (run_invariant step_covered hinit hg h)

/-- The worker comes back, and the cleanup of its first connection is late. -/
def reconnect : List Action :=
  [.register "w1" ["gpu"], .connect 0, .register "w1" ["gpu"], .cleanup 0, .connect 1]

/-- The late cleanup deletes the tags of the new registration: the worker is
connected and found by none of its tags. -/
theorem reconnected_unfound : ∃ s ∈ run step {} reconnect,
    s.connections "w1" = some 1 ∧ s.sessions[1]? = some ⟨"w1", ["gpu"], .serving⟩ ∧
      getWorkersByTags s.workerTags s.isConnected ["gpu"] = [] :=
  run_reaches (by decide)

def replaced : List Action :=
  [.register "w1" ["gpu", "eu"], .connect 0, .register "w1" ["gpu", "eu"], .connect 1, .cleanup 0]

theorem steady_run_served_replaced : Meets step Steady {} replaced ∧ ∃ s ∈ run step {} replaced,
      s.connections "w1" = some 1 ∧ Served s := by
  have hg : Meets step Steady {} replaced := by decide
  have hrun : ∃ s ∈ run step {} replaced, s.connections "w1" = some 1 := run_reaches (by decide)
  obtain ⟨s, hs, hconn⟩ := hrun
  exact ⟨hg, s, hs, hconn, steady_run_served replaced s hg hs⟩

end Wireops.Server.Tags
