import Wireops.Sync.Worktree

namespace Wireops.Sync.SharedTree

open List Lib.Steps Lib.Table Sync.Worktree

/-- A repository that two stacks share: one is rolled back, the other is synced
by its ticker. `head` is what the last completed fetch saw, `disturbed` that
the tree was moved or the recorded commit changed since, `renders` the second
stack's revisions, each with the head at the time. -/
structure State where
  repo : Worktree.State := {}
  head : String := ""
  disturbed : Bool := true
  renders : List (Revision × String) := []

/-- A periodic sync goes by the recorded commit of a repository that was
fetched; commits have names. -/
def admitted (s : Worktree.State) : Action → Bool
  | .launch .fetch | .launch (.rollback _) => true
  | .launch (.reconcile fetchedSHA) => fetchedSHA ≠ "" && fetchedSHA = s.lastCommitSHA
  | .launch .clone | .launch .redeploy => false
  | .reset _ sha => sha ≠ ""
  | _ => true

def rendersOf (s : State) (i : Nat) : List (Revision × String) :=
  match s.repo.ops i with
  | some ⟨.reconcile _, .reading sha reads⟩ => [(⟨sha, reads⟩, s.head)]
  | _ => []

def note (s : State) (a : Action) (t : Worktree.State) : State where
  repo := t
  head := match a with
    | .save _ true => t.lastCommitSHA
    | _ => s.head
  disturbed := match a with
    | .reset _ _ | .deployed _ => true
    | .save _ true => false
    | _ => s.disturbed
  renders := match a with
    | .record i => s.renders ++ rendersOf s i
    | _ => s.renders

def step (s : State) (a : Action) : Option State :=
  if admitted s.repo a then (Worktree.step s.repo a).map (note s a) else none

/-- The ticker's sync renders and records the head of the last completed fetch. -/
def AtHead (s : State) : Prop :=
  ∀ rev head, (rev, head) ∈ s.renders → rev.commitSHA = head ∧ ∀ c ∈ rev.reads, c = some head

def isReconcile (s : Worktree.State) (i : Nat) : Bool :=
  (s.ops i).any (fun x => shared x.kind)

/-- A sync settles on its commit only while nothing but the last completed
fetch has touched the repository. -/
def Settled (s : State) : Action → Prop
  | .pick i => isReconcile s.repo i = true → s.disturbed = false
  | _ => True

instance (s : State) (a : Action) : Decidable (Settled s a) := by
  unfold Settled
  split <;> infer_instance

/-- What the repository is for an operation at work on it. -/
def Fits (s : State) (i : Nat) (x : Op) : Prop :=
  match x.phase with
  | .moving sha => exclusive x.kind = true ∧ sha ≠ "" ∧ s.repo.headRef = sha ∧ s.repo.tree = .moving i
  | .moved sha => exclusive x.kind = true ∧ sha ≠ "" ∧ s.repo.headRef = sha ∧ s.repo.tree = .at sha
  | .reading sha reads => shared x.kind = true →
    sha = s.head ∧ s.repo.tree = .at s.head ∧ ∀ c ∈ reads, c = some s.head
  | _ => True

structure Inv (s : State) : Prop where
  unused : ∀ i, s.repo.next ≤ i → s.repo.ops i = none
  locked : Locked s.repo
  kinds : ∀ i x, s.repo.ops i = some x → exclusive x.kind = true ∨ shared x.kind = true
  fits : ∀ i x, s.repo.ops i = some x → Fits s i x
  busy : ∀ i, s.repo.tree = .moving i → ∃ x sha, s.repo.ops i = some x ∧ x.phase = .moving sha
  clean : s.disturbed = false → s.head ≠ "" ∧ s.repo.tree = .at s.head ∧ s.repo.lastCommitSHA = s.head
  atHead : AtHead s

theorem inv_init : Inv {} where
  unused _ _ := rfl
  locked := Worktree.inv_init.locked
  kinds _ _ h := nomatch h
  fits _ _ h := nomatch h
  busy _ h := nomatch h
  clean h := nomatch h
  atHead _ _ h := nomatch h

variable {s t : State} {i : Nat} {x : Op} {p : Phase}

theorem Fits.congr {j : Nat} {y : Op} (h : Fits s j y) (ht : t.repo.tree = s.repo.tree)
    (hr : t.repo.headRef = s.repo.headRef) (hh : t.head = s.head) : Fits t j y := by
  unfold Fits at h ⊢
  rw [ht, hr, hh]
  exact h

theorem fits_alone (hs : Inv s) (hx : s.repo.ops i = some x) (hw : holdsWrite x = true) {j : Nat}
    {y : Op} (hne : j ≠ i) (hy : s.repo.ops j = some y) : Fits t j y := by
  have hfits := hs.fits j y hy
  have hwriter := hs.locked.write i x hx hw
  unfold Fits at hfits ⊢
  cases hph : y.phase with
  | moving sha | moved sha =>
    rw [hph] at hfits
    have hj := hs.locked.write j y hy (by simp only [holdsWrite, hph, hfits.1])
    exact absurd (Option.some.inj (hj.symm.trans hwriter)) hne
  | reading sha reads =>
    intro hsh
    have hj := hs.locked.read j y hy (by simp only [holdsRead, hph, hsh])
    rw [hs.locked.apart i hwriter] at hj
    cases hj
  | ready | locked | rlocked | rendered | done => trivial

/-- One operation has moved on; the rest is as the step left it. -/
structure After (s t : State) (i : Nat) (x : Op) (p : Phase) : Prop where
  locked : Locked t.repo
  self : Fits t i { x with phase := p }
  others : ∀ j y, j ≠ i → s.repo.ops j = some y → Fits t j y
  busy : ∀ j, t.repo.tree = .moving j → (j = i ∧ ∃ sha, p = .moving sha) ∨ (j ≠ i ∧ s.repo.tree = .moving j)
  clean : t.disturbed = false → t.head ≠ "" ∧ t.repo.tree = .at t.head ∧ t.repo.lastCommitSHA = t.head
  atHead : AtHead t

theorem Inv.moves (hs : Inv s) (h : Moves s.repo t.repo i x p) (ha : After s t i x p) : Inv t where
  __ := ha
  unused := h.unused hs.unused
  kinds j y hy := by
    obtain ⟨rfl, rfl⟩ | ⟨_, hy⟩ := h.cases hy
    · exact hs.kinds j x h.before
    · exact hs.kinds j y hy
  fits j y hy := by
    obtain ⟨rfl, rfl⟩ | ⟨hne, hy⟩ := h.cases hy
    · exact ha.self
    · exact ha.others j y hne hy
  busy j hj := by
    obtain ⟨rfl, sha, rfl⟩ | ⟨hne, hj⟩ := ha.busy j hj
    · exact ⟨_, sha, h.self, rfl⟩
    · obtain ⟨y, sha, hy, hph⟩ := hs.busy j hj
      exact ⟨y, sha, (h.of_ne hne).trans hy, hph⟩

theorem busy_same {q : Phase} (hs : Inv s) (hx : s.repo.ops i = some x) (hq : x.phase = q)
    (hm : ∀ sha, q ≠ .moving sha) (ht : t.repo.tree = s.repo.tree) (j : Nat) (hj : t.repo.tree = .moving j) :
    (j = i ∧ ∃ sha, p = .moving sha) ∨ (j ≠ i ∧ s.repo.tree = .moving j) := by
  rw [ht] at hj
  refine .inr ⟨?_, hj⟩
  rintro rfl
  obtain ⟨y, sha, hy, hph⟩ := hs.busy j hj
  cases hx.symm.trans hy
  exact hm sha (hq.symm.trans hph)

theorem Inv.moves_same {q : Phase} (hs : Inv s) (h : Moves s.repo t.repo i x p) (hl : Locked t.repo)
    (hq : x.phase = q) (hself : Fits t i { x with phase := p }) (hat : AtHead t)
    (hm : ∀ sha, q ≠ .moving sha := by rintro _ ⟨⟩)
    (ht : t.repo.tree = s.repo.tree := by rfl) (hr : t.repo.headRef = s.repo.headRef := by rfl)
    (hc : t.repo.lastCommitSHA = s.repo.lastCommitSHA := by rfl) (hh : t.head = s.head := by rfl)
    (hd : t.disturbed = s.disturbed := by rfl) : Inv t := by
  refine hs.moves h ⟨hl, hself, fun j y _ hy => (hs.fits j y hy).congr ht hr hh,
    busy_same hs h.before hq hm ht, ?_, hat⟩
  rw [hd, hh, ht, hc]
  exact hs.clean

variable {sha : String}

section

variable (hs : Inv s) (hx : s.repo.ops i = some x)

include hs hx

theorem Inv.disturbed_of_moving (hp : x.phase = .moving sha) : s.disturbed = true := by
  have hfits := hs.fits i x hx
  rw [Fits, hp] at hfits
  refine Bool.of_not_eq_false (fun hd => ?_)
  cases hfits.2.2.2.symm.trans (hs.clean hd).2.1

theorem Inv.reset (hcan : canReset x sha = true) (hsha : sha ≠ "") (hl : Locked (reset s.repo i x sha)) :
    Inv (note s (.reset i sha) (reset s.repo i x sha)) := by
  obtain ⟨hk, hp, _⟩ | ⟨hk, _⟩ := canReset_cases hcan
  · have hw : holdsWrite x = true := by simp only [holdsWrite, hp, hk]
    have hstill : ∀ k, s.repo.tree ≠ .moving k := by
      intro k hmv
      obtain ⟨y, sha', hy, hph⟩ := hs.busy k hmv
      by_cases hki : k = i
      · subst hki
        cases hx.symm.trans hy
        cases hp.symm.trans hph
      · have hidle := @fits_alone s {} i x hs hx hw k y hki hy
        rw [Fits, hph] at hidle
        cases hidle.2.2.2
    have htree : (Worktree.reset s.repo i x sha).tree = .moving i := by
      unfold Worktree.reset
      split
      · next k hmv => exact absurd hmv (hstill k)
      · rfl
    refine hs.moves ⟨hx, rfl, rfl⟩ ⟨hl, ⟨hk, hsha, rfl, htree⟩,
      fun j y hne hy => fits_alone hs hx hw hne hy, fun j hj => ?_, (fun h => by cases h), hs.atHead⟩
    cases htree.symm.trans hj
    exact .inl ⟨rfl, sha, rfl⟩
  · have hno := hs.kinds i x hx
    rw [hk] at hno
    obtain hno | hno := hno <;> cases hno

theorem Inv.land (hp : x.phase = .moving sha)
    (hl : Locked (land s.repo i x sha)) : Inv (note s (.land i) (land s.repo i x sha)) := by
  have hfits := hs.fits i x hx
  rw [Fits, hp] at hfits
  obtain ⟨hk, hsha, href, hmv⟩ := hfits
  have hw : holdsWrite x = true := by simp only [holdsWrite, hp, hk]
  have hclone : x.kind ≠ .clone := fun h => by rw [h] at hk; cases hk
  have hland : Worktree.land s.repo i x sha = { s.repo.setPhase i x (.moved sha) with tree := .at sha } := by
    rw [Worktree.land, if_neg hclone, if_pos hmv]
  rw [hland] at hl ⊢
  refine hs.moves ⟨hx, rfl, rfl⟩ ⟨hl, ⟨hk, hsha, href, rfl⟩,
    fun j y hne hy => fits_alone hs hx hw hne hy, fun _ h => (by cases h), fun hd => ?_, hs.atHead⟩
  cases (hs.disturbed_of_moving hx hp).symm.trans hd

theorem Inv.miss (hp : x.phase = .moving sha)
    (hl : Locked (miss s.repo i x)) : Inv (note s (.miss i) (miss s.repo i x)) := by
  have hfits := hs.fits i x hx
  rw [Fits, hp] at hfits
  have hw : holdsWrite x = true := by simp only [holdsWrite, hp, hfits.1]
  have hdist := hs.disturbed_of_moving hx hp
  unfold Worktree.miss at hl ⊢
  split at hl
  · next hk =>
    rw [if_pos hk]
    refine hs.moves ⟨hx, rfl, rfl⟩ ⟨hl, trivial, fun j y hne hy => fits_alone hs hx hw hne hy,
      fun _ h => (by cases h), fun hd => ?_, hs.atHead⟩
    cases hdist.symm.trans hd
  · next hk =>
    rw [if_neg hk]
    refine hs.moves (p := .done) ⟨hx, rfl, rfl⟩ ⟨hl, trivial,
      fun j y hne hy => fits_alone hs hx hw hne hy, fun _ h => (by cases h), fun hd => ?_, hs.atHead⟩
    cases hdist.symm.trans hd

end

variable {u : Worktree.State}

theorem Inv.save (hs : Inv s) (hx : s.repo.ops i = some x) (hk : x.kind = .fetch)
    (hp : x.phase = .moved sha) {ok : Bool}
    (hu : u = { s.repo.setPhase i x .done with
      writer := none, lastCommitSHA := if ok then s.repo.headRef else s.repo.lastCommitSHA })
    (hl : Locked u) : Inv (note s (.save i ok) u) := by
  subst hu
  have hfits := hs.fits i x hx
  rw [Fits, hp] at hfits
  obtain ⟨_, hsha, href, htree⟩ := hfits
  have hw : holdsWrite x = true := by simp only [holdsWrite, hp, hk, exclusive]
  cases ok with
  | true =>
    refine hs.moves ⟨hx, rfl, rfl⟩ ⟨hl, trivial, fun j y hne hy => fits_alone hs hx hw hne hy,
      busy_same hs hx hp (by rintro _ ⟨⟩) rfl, fun _ => ⟨?_, ?_, rfl⟩, hs.atHead⟩
    · exact href ▸ hsha
    · exact htree.trans (congrArg Tree.at href.symm)
  | false => exact hs.moves_same ⟨hx, rfl, rfl⟩ hl hp trivial hs.atHead

theorem Inv.pick (hs : Inv s) (hx : s.repo.ops i = some x)
    (hd : isReconcile s.repo i = true → s.disturbed = false) (h : pick s.repo i x = some u)
    (hl : Locked u) : Inv (note s (.pick i) u) := by
  unfold Worktree.pick at h
  split at h
  · next f hk hp =>
    cases h
    have hrec : isReconcile s.repo i = true := by rw [isReconcile, hx, Option.any_some, hk]; rfl
    obtain ⟨hne, htree, hlast⟩ := hs.clean (hd hrec)
    rw [if_neg (hlast ▸ hne)] at hl ⊢
    refine hs.moves_same ⟨hx, rfl, rfl⟩ hl hp (fun _ => ?_) hs.atHead
    exact ⟨hlast, htree, fun _ h => nomatch h⟩
  · next hk _ =>
    have hno := hs.kinds i x hx
    rw [hk] at hno
    obtain hno | hno := hno <;> cases hno
  · next c sha hk hp =>
    cases h
    refine hs.moves_same ⟨hx, rfl, rfl⟩ hl hp (fun hsh => ?_) hs.atHead
    rw [hk] at hsh
    cases hsh
  · cases h

variable {reads : List (Option String)}

theorem Inv.readOnce (hs : Inv s) (hx : s.repo.ops i = some x) (hp : x.phase = .reading sha reads)
    (hu : u = s.repo.setPhase i x (.reading sha (reads ++ [s.repo.tree.commit]))) (hl : Locked u) :
    Inv (note s (.read i) u) := by
  subst hu
  have hfits := hs.fits i x hx
  rw [Fits, hp] at hfits
  refine hs.moves_same ⟨hx, rfl, rfl⟩ hl hp (fun hsh => ?_) hs.atHead
  obtain ⟨hsha, htree, hreads⟩ := hfits hsh
  refine ⟨hsha, htree, fun c hc => ?_⟩
  obtain hc | hc := mem_append.mp hc
  · exact hreads c hc
  · rw [mem_singleton.mp hc, htree]
    rfl

theorem rendersOf_atHead (hs : Inv s) {rev : Revision} {head : String}
    (h : (rev, head) ∈ rendersOf s i) : rev.commitSHA = head ∧ ∀ c ∈ rev.reads, c = some head := by
  unfold rendersOf at h
  split at h
  · next f sha reads hx =>
    obtain ⟨rfl, rfl⟩ := Prod.mk.inj (mem_singleton.mp h)
    have hfits := hs.fits i _ hx
    obtain ⟨hsha, _, hreads⟩ := hfits rfl
    exact ⟨hsha, hreads⟩
  · cases h

theorem Inv.record (hs : Inv s) (hx : s.repo.ops i = some x) (hp : x.phase = .reading sha reads)
    (hl : Locked (record s.repo i x sha reads)) : Inv (note s (.record i) (record s.repo i x sha reads)) := by
  have hat : AtHead (note s (.record i) (Worktree.record s.repo i x sha reads)) := by
    intro rev head hm
    obtain hm | hm := mem_append.mp hm
    · exact hs.atHead rev head hm
    · exact rendersOf_atHead hs hm
  by_cases hk : exclusive x.kind = true
  · refine hs.moves_same (p := .rendered) ⟨hx, ?_, rfl⟩ hl hp trivial hat
    rw [note, Worktree.record, if_pos hk]
    rfl
  · refine hs.moves_same (p := .done) ⟨hx, ?_, rfl⟩ hl hp trivial hat
    rw [note, Worktree.record, if_neg hk]
    rfl

theorem Inv.stop (hs : Inv s) (hx : s.repo.ops i = some x)
    (h : stop s.repo i x = some u) (hl : Locked u) : Inv (note s (.stop i) u) := by
  unfold Worktree.stop at h
  split at h
  · next hp => cases h; exact hs.moves_same ⟨hx, rfl, rfl⟩ hl hp trivial hs.atHead
  · next hp => cases h; exact hs.moves_same ⟨hx, rfl, rfl⟩ hl hp trivial hs.atHead
  · next hp => cases h; exact hs.moves_same ⟨hx, rfl, rfl⟩ hl hp trivial hs.atHead
  · next hp => cases h; exact hs.moves_same ⟨hx, rfl, rfl⟩ hl hp trivial hs.atHead
  · cases h

theorem Inv.launch (hs : Inv s) {kind : Kind} (ha : admitted s.repo (.launch kind) = true)
    (hu : u = { s.repo with
      ops := Function.update s.repo.ops s.repo.next (some { kind }), next := s.repo.next + 1 })
    (hl : Locked u) : Inv (note s (.launch kind) u) := by
  subst hu
  refine ⟨unused_fill hs.unused, hl, forall_update_some hs.kinds ?_,
    forall_update_some (fun j y hy => (hs.fits j y hy).congr rfl rfl rfl) trivial, fun j hj => ?_, hs.clean, hs.atHead⟩
  · cases kind with
    | fetch | rollback => exact .inl rfl
    | reconcile => exact .inr rfl
    | clone | redeploy => cases ha
  · obtain ⟨y, sha, hy, hp⟩ := hs.busy j hj
    exact ⟨y, sha, update_kept (hs.unused _ (Nat.le_refl _)) hy, hp⟩

theorem step_inv (s : State) (a : Action) (t : State) (hs : Inv s) (ha : Settled s a)
    (h : step s a = some t) : Inv t := by
  obtain ⟨hadm, h⟩ := Option.ite_none_right_eq_some.mp h
  obtain ⟨u, hu, rfl⟩ := Option.map_eq_some_iff.mp h
  have hl := hs.locked.step hu
  clear h
  cases Worktree.step_fires hu with
  | launch kind => exact hs.launch hadm rfl hl
  | lock hx _ hp | abandon hx _ hp | rlock hx _ hp =>
    exact hs.moves_same ⟨hx, rfl, rfl⟩ hl hp trivial hs.atHead
  | reset hx hcan => exact hs.reset hx hcan (of_decide_eq_true hadm) hl
  | land hx hp => exact hs.land hx hp hl
  | miss hx hp => exact hs.miss hx hp hl
  | save ok hx hk hp => exact hs.save hx hk hp rfl hl
  | pick hx h => exact hs.pick hx ha h hl
  | read hx hp => exact hs.readOnce hx hp rfl hl
  | record hx hp => exact hs.record hx hp hl
  | stop hx h => exact hs.stop hx h hl
  | deployed hx _ hp =>
    exact hs.moves ⟨hx, rfl, rfl⟩ ⟨hl, trivial, fun j y _ hy => (hs.fits j y hy).congr rfl rfl rfl,
      busy_same hs hx hp nofun rfl, nofun, hs.atHead⟩

theorem settled_atHead {as : List Action} {t : State} (hg : Meets step Settled {} as)
    (hr : run step {} as = some t) : AtHead t :=
  (run_invariant step_inv inv_init hg hr).atHead

def ticked (i : Nat) (fetchedSHA : String) : List Action :=
  [.launch (.reconcile fetchedSHA), .rlock i, .pick i, .read i, .record i]

/-- After the rollback of the first stack the second one is rendered at its
commit; where the deploy of the rollback failed, from its files. -/
theorem rollback_rendered_by_other_stack :
    (∃ t ∈ run step {} (fetched 0 "c2" ++ rolledBack 1 "c1" ++ [.deployed 1] ++ ticked 2 "c1"),
      t.renders = [(⟨"c1", [some "c1"]⟩, "c2")]) ∧
    (∃ t ∈ run step {} (fetched 0 "c2" ++ rolledBack 1 "c1" ++ [.stop 1] ++ ticked 2 "c2"),
      t.renders = [(⟨"c2", [some "c1"]⟩, "c2")]) :=
  ⟨⟨_, rfl, rfl⟩, _, rfl, rfl⟩

def fetchedAfterRollback : List Action :=
  fetched 0 "c2" ++ rolledBack 1 "c1" ++ [Action.deployed 1] ++ fetched 2 "c3" ++ ticked 3 "c3"

theorem fetched_after_rollback_atHead : ∃ t ∈ run step {} fetchedAfterRollback,
    t.renders = [(⟨"c3", [some "c3"]⟩, "c3")] ∧ AtHead t :=
  ⟨_, rfl, rfl, @settled_atHead fetchedAfterRollback _ (by decide) rfl⟩

end Wireops.Sync.SharedTree
