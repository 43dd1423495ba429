import Wireops.Sync.Revisions

namespace Wireops.Sync.Convergence

open Option List Lib.Flow Lib.Steps Sync.Reconcile Sync.Stages Sync.Frame
open Sync.Checks Sync.Revisions

/-- The commit labels of the containers, each once and in the order they are
seen in. -/
def distinctCommitSHAs (containers : List Revision) : List String :=
  containers.foldl (fun commits k =>
    if k.commitSHA = "" || k.commitSHA ∈ commits then commits else commits ++ [k.commitSHA]) []

def inspectResultFor (commits : List String) : InspectResult where
  commitSHA := commits.head?.getD ""
  commitSHAs := commits

/-- What the worker answers. It leaves the set out when it is older than the
field or the inspection fails. -/
def inspects (o : Answers) (containers : List Revision) : Bool :=
  o.inspected.commitSHAs = [] || o.inspected = inspectResultFor (distinctCommitSHAs containers)

/-- What `docker compose up` leaves of the containers of before, and how many it
creates, in all the attempts of a deploy. -/
structure Host where
  kept : List Revision := []
  created : Nat := 0

/-- The containers made by an execution are made from the file it deploys. -/
def created (o : Answers) (s : Stack) (op : Operation) (d : Store) (n : Nat) : List Revision :=
  match atDeploy o s op with
  | .ok r => ((d.files r.version).map (List.replicate n)).getD []
  | .error _ => []

def timesOut (o : Answers) : Bool := deployLoop o.attempts 1 maxRetries = .failed .timeout

/-- The render that a deploy which timed out is recorded at. -/
def converged (o : Answers) (s : Stack) (op : Operation) : Option Revision :=
  match op, atDeploy o s op with
  | .reconcile, .ok r =>
    if !s.isLocal && timesOut o && (convergeAfterTimeout o r.remoteSHA r.lastSHA).isSome then
      some ⟨r.version, r.checksum, r.remoteSHA⟩
    else none
  | _, _ => none

/-- A container is known by the revision it was created from. `reports` notes
each record that was converged, with the containers there were then. -/
structure State where
  stack : Stack := {}
  store : Store := {}
  containers : List Revision := []
  reports : List (Revision × List Revision) := []

inductive Action where
  | execute (op : Operation) (o : Answers) (w : StoreAnswers) (u : Host)
  | migrate
  | remove (kept : List Revision)

def step (s : State) : Action → Option State
  | .execute op o w u =>
    let store := storeAfter o w s.stack op s.store
    let containers := u.kept ++ created o s.stack op store u.created
    if o.revisionStored = w.stored ∧ u.kept.Sublist s.containers ∧ inspects o containers then
      some
        { stack := (execute o s.stack op).run.db
          store
          containers
          reports := s.reports ++ ((converged o s.stack op).map fun f => (f, containers)).toList }
    else none
  | .migrate => some { s with stack := migrateStack s.stack }
  | .remove kept => if kept.Sublist s.containers then some { s with containers := kept } else none

/-- Every container there was when the record was converged had been created from
the render recorded. -/
def Verified (s : State) : Prop := ∀ f ks, (f, ks) ∈ s.reports → ∀ k ∈ ks, k = f

/-- When a sync of another commit than the deployed one times out and its
containers can be checked, each container from before it that has the label of
that commit, or none, was created from the recorded revision, and the render
leaves that revision as it is. -/
def Distinct (s : State) : Action → Prop
  | .execute op o _ _ => op = .reconcile → timesOut o = true → o.check.skipped = false →
      attempted o ≠ s.stack.deployedCommit → ∀ k ∈ s.containers,
        k.commitSHA = attempted o ∨ k.commitSHA = "" →
          o.rendered = s.stack.checksum ∧ s.store.files (currentVersion s.stack) = some k
  | .migrate | .remove _ => True

instance (s : State) (a : Action) : Decidable (Distinct s a) := by
  cases a with
  | execute => exact @instDecidableForall _ _ _ (@instDecidableForall _ _ _ inferInstance)
  | _ => exact .isTrue trivial

variable {o : Answers} {w : StoreAnswers} {s : Stack} {op : Operation} {d : Store} {ks : List Revision}
  {c : String}

section Labels

theorem mem_foldl_commitSHAs (commits : List String) : c ∈ ks.foldl (fun commits k =>
        if k.commitSHA = "" || k.commitSHA ∈ commits then commits else commits ++ [k.commitSHA])
      commits ↔ c ∈ commits ∨ c ≠ "" ∧ ∃ k ∈ ks, k.commitSHA = c := by
  induction ks generalizing commits with
  | nil => simp
  | cons k ks ih =>
    rw [foldl_cons, ih]
    split
    · next hseen =>
      rw [Bool.or_eq_true, decide_eq_true_eq, decide_eq_true_eq] at hseen
      grind
    · next hnew =>
      rw [Bool.or_eq_true, decide_eq_true_eq, decide_eq_true_eq, not_or] at hnew
      grind

theorem mem_distinctCommitSHAs : c ∈ distinctCommitSHAs ks ↔ c ≠ "" ∧ ∃ k ∈ ks, k.commitSHA = c := by
  rw [distinctCommitSHAs, mem_foldl_commitSHAs]
  simp

theorem agreedRevision_labels (hi : inspects o ks = true) (hc : c ≠ "") (ha : agreedRevision o.inspected = c) :
    (∃ k ∈ ks, k.commitSHA = c) ∧ ∀ k ∈ ks, k.commitSHA = c ∨ k.commitSHA = "" := by
  have hsingle : o.inspected.commitSHAs = [c] := by
    unfold agreedRevision at ha
    split at ha
    · next sha hsha => rw [hsha, ha]
    · exact absurd ha.symm hc
  have hset : distinctCommitSHAs ks = [c] := by
    rw [inspects, hsingle, Bool.or_eq_true, decide_eq_true_eq, decide_eq_true_eq] at hi
    obtain hi | hi := hi
    · cases hi
    · rw [hi] at hsingle
      exact hsingle
  constructor
  · exact (mem_distinctCommitSHAs.mp (by rw [hset]; exact mem_singleton_self c)).2
  · intro k hk
    by_cases hno : k.commitSHA = ""
    · exact .inr hno
    · have hmem := mem_distinctCommitSHAs.mpr ⟨hno, k, hk, rfl⟩
      rw [hset] at hmem
      exact .inl (mem_singleton.mp hmem)

end Labels

section Files

/-- The file of the recorded version is the one of the recorded checksum. -/
def Filed (x : Head) (d : Store) : Prop := ∀ c, x.checksum = some c →
  ∃ f, d.files x.current = some f ∧ f.version = x.current ∧ f.checksum = c

variable {force : Bool} {sha : String}

theorem storeRevision_same (h : Filed (head s) d) (hnew : newRevision o force s = none) :
    storeRevision o w force sha s d = d := by
  unfold storeRevision
  cases hc : o.rendered with
  | none => rfl
  | some c =>
    obtain ⟨f, hf, _⟩ := h c (newRevision_same hc hnew).2
    rw [hnew]
    rw [show d.files (currentVersion s) = some f from hf]
    rfl

theorem storeRevision_new {n : Nat} (hst : w.stored = true) (hnew : newRevision o force s = some (n, c)) :
    (storeRevision o w force sha s d).files n = some ⟨n, c, sha⟩ := by
  rw [StoreAnswers.stored, Bool.and_eq_true, decide_eq_true_eq, decide_eq_true_eq] at hst
  rw [storeRevision, (newRevision_some hnew).2, hnew, hst.1, hst.2]
  exact Function.update_self n _ _

section

variable (h : Filed (head s) d) (hw : o.revisionStored = w.stored)

include h hw

theorem storeRevision_filed : Filed (headAfter o force s) (storeRevision o w force sha s d) := by
  cases hnew : newRevision o force s with
  | none =>
    rw [headAfter_of_none hnew, storeRevision_same h hnew]
    exact h
  | some x =>
    obtain ⟨n, c⟩ := x
    have hn := (newRevision_some hnew).1
    cases hrec : records o with
    | true =>
      have hst : w.stored = true := by
        rw [records, Bool.and_eq_true, hw] at hrec
        exact hrec.1
      have hpos := nextVersion_pos force s
      rw [← hn] at hpos
      have hcur : (headAfter o force s).current = n := by
        rw [headAfter_of_records hnew hrec]
        exact if_neg (Nat.ne_of_gt hpos)
      intro c' hc'
      rw [headAfter_of_records hnew hrec] at hc'
      rw [hcur]
      exact ⟨_, storeRevision_new hst hnew, rfl, Option.some.inj hc'⟩
    | false =>
      rw [headAfter_of_not_records hrec]
      intro c' hc'
      obtain ⟨f, hf, hfv, hfc⟩ := h c' hc'
      refine ⟨f, storeRevision_files (fun m e hm => ?_) hf, hfv, hfc⟩
      -- the revision that is not recorded has a version above the file's
      have hsum : s.checksum = some c' := hc'
      rw [(newRevision_some hm).1, nextVersion, hsum, isSome_some, Bool.or_true, if_pos rfl]
      exact Nat.ne_of_lt (Nat.lt_succ_self _)

theorem storeAfter_filed : Filed (finalHead o s op) (storeAfter o w s op d) := by
  have hopen := atRender_after o s op
  unfold finalHead storeAfter
  cases hr : atRender o s op with
  | error e => exact h
  | ok r =>
    rw [hr] at hopen
    rw [← headAfter_congr hopen.stack]
    refine storeRevision_filed ?_ hw
    rw [hopen.stack]
    exact h

theorem deployed_file {t : Run}
    (ht : atDeploy o s op = .ok t) : ∃ f, (storeAfter o w s op d).files t.version = some f ∧
      f.version = t.version ∧ f.checksum = t.checksum := by
  obtain ⟨r, hr, hrend⟩ := atDeploy_rendered ht
  have hfiled := @storeAfter_filed o w s op d h hw
  rw [finalHead, hr] at hfiled
  rw [hrend.version_current]
  exact hfiled _ hrend.recorded

end

theorem storeAfter_same (h : Filed (head s) d) (hnew : newRevision o (parts o s op).force s = none) :
    storeAfter o w s op d = d := by
  have hopen := atRender_after o s op
  unfold storeAfter
  split
  · next r hr =>
    rw [hr] at hopen
    refine storeRevision_same ?_ ?_
    · rw [hopen.stack]
      exact h
    · rw [newRevision_congr hopen.stack, hnew]
  · rfl

end Files

section Reports

theorem converged_some {f : Revision} (h : converged o s op = some f) :
    op = .reconcile ∧ s.isLocal = false ∧ timesOut o = true ∧ ∃ t, atDeploy o s op = .ok t ∧
      (convergeAfterTimeout o t.remoteSHA t.lastSHA).isSome = true ∧ f = ⟨t.version, t.checksum, t.remoteSHA⟩ := by
  unfold converged at h
  split at h
  · next t ht =>
    split at h
    · next hconv =>
      rw [Bool.and_eq_true, Bool.and_eq_true, Bool.not_eq_true'] at hconv
      exact ⟨rfl, hconv.1.1, hconv.1.2, t, ht, hconv.2, (Option.some.inj h).symm⟩
    · cases h
  · cases h

theorem convergeAfterTimeout_agreed {previousSHA : String}
    (h : (convergeAfterTimeout o c previousSHA).isSome = true) :
    (c ≠ "" ∧ o.check.skipped = false ∧ c ≠ previousSHA) ∧ agreedRevision o.inspected = c := by
  unfold convergeAfterTimeout at h
  split at h
  · cases h
  · next hno =>
    split at h
    · next ha =>
      refine ⟨?_, ha⟩
      simpa [and_assoc] using hno
    · cases h

variable {s : State} {u : Host}

/-- The containers that agree on the attempted commit were all created from the
file that was deployed. -/
theorem converged_verified {f : Revision} (hfiled : Filed (head s.stack) s.store)
    (hw : o.revisionStored = w.stored) (hd : Distinct s (.execute op o w u))
    (hk : u.kept.Sublist s.containers) (hf : converged o s.stack op = some f)
    (hks : ks = u.kept ++ created o s.stack op (storeAfter o w s.stack op s.store) u.created)
    (hi : inspects o ks = true) : ∀ k ∈ ks, k = f := by
  obtain ⟨rfl, hl, hout, t, ht, hconv, rfl⟩ := converged_some hf
  obtain ⟨⟨hc, hchecked, hprev⟩, hagreed⟩ := convergeAfterTimeout_agreed hconv
  obtain ⟨⟨k₀, hk₀, hlabel⟩, hlabels⟩ := agreedRevision_labels hi hc hagreed
  obtain ⟨g, hg, hgv, hgc⟩ := deployed_file hfiled hw ht
  obtain ⟨r, hr, hrend⟩ := atDeploy_rendered ht
  obtain ⟨hremote, hlast⟩ := atRender_commits hl hr
  have hcommit : t.remoteSHA = attempted o := hrend.remoteSHA.trans hremote
  rw [hcommit, hrend.lastSHA, hlast] at hprev
  have hall : ∀ k ∈ ks, k = g := by
    intro k hmem
    have hmem' := hmem
    rw [hks, mem_append] at hmem'
    obtain hkept | hnew := hmem'
    · have hbefore := hlabels k hmem
      rw [hcommit] at hbefore
      obtain ⟨hsame, hfile⟩ := hd rfl hout hchecked hprev k (hk.subset hkept) hbefore
      have hnone := newRevision_recorded hsame
      rw [← @force_eq_false o s.stack .reconcile |>.mpr rfl] at hnone
      rw [storeAfter_same hfiled hnone, hrend.version, renderedVersion, hnone] at hg
      exact Option.some.inj (hfile.symm.trans hg)
    · rw [created, ht] at hnew
      dsimp only at hnew
      rw [hg] at hnew
      exact eq_of_mem_replicate hnew
  have hg' : g = ⟨t.version, t.checksum, t.remoteSHA⟩ := by
    rw [hall k₀ hk₀] at hlabel
    rw [← hgv, ← hgc, ← hlabel]
  exact fun k hmem => (hall k hmem).trans hg'

end Reports

section Invariant

structure Inv (s : State) : Prop where
  filed : s.stack.isLocal = false → Filed (head s.stack) s.store
  verified : Verified s

theorem inv_init (isLocal : Bool) : Inv { stack := { isLocal } } := ⟨nofun, nofun⟩

theorem step_inv (s : State) (a : Action) (t : State) (hs : Inv s) (ha : Distinct s a)
    (h : step s a = some t) : Inv t := by
  cases a with
  | execute op o w u =>
    dsimp only [step] at h
    obtain ⟨hguard, h⟩ := ite_none_right_eq_some.mp h
    obtain ⟨hw, hk, hi⟩ := hguard
    obtain rfl := Option.some.inj h
    refine ⟨fun hl => ?_, fun f ks hmem => ?_⟩
    · have hlocal : s.stack.isLocal = false := (@execute_version o s.stack op).2.symm.trans hl
      show Filed (head (execute o s.stack op).run.db) _
      rw [execute_head hlocal]
      exact storeAfter_filed (hs.filed hlocal) hw
    · rcases mem_append.mp hmem with hmem | hmem
      · exact hs.verified f ks hmem
      · rw [mem_toList, map_eq_some_iff] at hmem
        obtain ⟨g, hg, heq⟩ := hmem
        cases heq
        have hlocal := (converged_some hg).2.1
        exact converged_verified (hs.filed hlocal) hw ha hk hg rfl hi
  | migrate =>
    obtain rfl := Option.some.inj h
    exact ⟨nofun, hs.verified⟩
  | remove kept =>
    dsimp only [step] at h
    split at h
    · obtain rfl := Option.some.inj h
      exact ⟨hs.filed, hs.verified⟩
    · cases h

end Invariant

theorem distinct_verified {isLocal : Bool} {as : List Action} {t : State}
    (hg : Meets step Distinct { stack := { isLocal } } as)
    (hr : run step { stack := { isLocal } } as = some t) : Verified t :=
  (run_invariant step_inv (inv_init isLocal) hg hr).verified

def synced (commitSHA checksum : String) (result : Option Reason) (inspected : List String) (u : Host) : Action :=
  .execute .reconcile
    { fetched := some commitSHA, rendered := some checksum, attempts := fun _ => { result },
      inspected := inspectResultFor inspected } {} u

/-- The second deploy fails after it has recreated the containers. The third
renders another revision of the commit and times out before it recreates any,
and the record moves to it. -/
theorem other_revision_converged : ∃ t ∈ run step {}
    [synced "c1" "a" none [] { created := 2 },
      synced "c2" "b" (some .other) [] { created := 2 },
      synced "c2" "b'" (some .timeout) ["c2"] { kept := [⟨2, "b", "c2"⟩, ⟨2, "b", "c2"⟩] }],
    t.stack.deployedVersion = 3 ∧ t.stack.deployedChecksum = some "b'" ∧
      t.reports = [(⟨3, "b'", "c2"⟩, [⟨2, "b", "c2"⟩, ⟨2, "b", "c2"⟩])] :=
  run_reaches (by decide +kernel)

/-- A first deploy times out twice and gets to one container each time; the first
inspection fails. -/
def createdByTwo : List Action :=
  [synced "c1" "a" (some .timeout) [] { created := 1 },
    synced "c1" "a" (some .timeout) ["c1"] { kept := [⟨1, "a", "c1"⟩], created := 1 }]

theorem created_by_two_verified : ∃ t ∈ run step {} createdByTwo,
    t.reports = [(⟨1, "a", "c1"⟩, [⟨1, "a", "c1"⟩, ⟨1, "a", "c1"⟩])] ∧ Verified t := by
  have hrun : ∃ t ∈ run step {} createdByTwo,
      t.reports = [(⟨1, "a", "c1"⟩, [⟨1, "a", "c1"⟩, ⟨1, "a", "c1"⟩])] :=
    run_reaches (by decide +kernel)
  obtain ⟨t, ht, hrep⟩ := hrun
  exact ⟨t, ht, hrep, @distinct_verified false createdByTwo t (by decide +kernel) ht⟩

end Wireops.Sync.Convergence
