import Wireops.Lib.Steps
import Wireops.Sync.Frame

namespace Wireops.Sync.Revisions

open Option List Lib.Flow Lib.Steps Sync.Reconcile Sync.Stages Sync.Frame

/-- What the renderer writes of a revision, into the service metadata of its
file and into its row of `stack_revisions`. -/
structure Revision where
  version : Nat
  checksum : String
  commitSHA : String
  deriving DecidableEq

/-- How the write of a file ends; one that fails may leave anything behind. -/
inductive Write where
  | done
  | failed (left : Option Revision)
  deriving DecidableEq

/-- How the save of a row ends. The removal of the file after a failure may fail
too, which is ignored. -/
inductive Insert where
  | stored
  | failed (removed : Bool)
  deriving DecidableEq

structure StoreAnswers where
  write : Write := .done
  row : Insert := .stored

def StoreAnswers.stored (w : StoreAnswers) : Bool := w.write = .done && w.row = .stored

/-- The rendered files of a stack by version, and its revision rows. -/
structure Store where
  files : Nat → Option Revision := fun _ => none
  rows : List Revision := []

def Store.write (d : Store) (version : Nat) (file : Option Revision) : Store :=
  { d with files := Function.update d.files version file }

def Write.result (w : Write) (f : Revision) : Option Revision :=
  match w with
  | .done => some f
  | .failed left => left

def storeRevision (o : Answers) (w : StoreAnswers) (force : Bool) (commitSHA : String) (s : Stack)
    (d : Store) : Store :=
  match o.rendered with
  | none => d
  | some checksum =>
    match newRevision o force s with
    | none =>
      -- the file of an unchanged revision is written again when it is missing
      let f := ⟨currentVersion s, checksum, commitSHA⟩
      if (d.files (currentVersion s)).isNone then d.write (currentVersion s) (w.write.result f) else d
    | some (version, _) =>
      let f := ⟨version, checksum, commitSHA⟩
      match w.write, w.row with
      | .failed left, _ => d.write version left
      | .done, .failed removed => d.write version (if removed then none else some f)
      | .done, .stored => { d.write version (some f) with rows := d.rows ++ [f] }

/-- `deployed` notes each version that was deployed, with the checksum its file
had then. -/
structure State where
  stack : Stack := {}
  store : Store := {}
  deployed : List (Nat × String) := []

inductive Action where
  | execute (op : Operation) (o : Answers) (w : StoreAnswers)
  | migrate

def storeAfter (o : Answers) (w : StoreAnswers) (s : Stack) (op : Operation) (d : Store) : Store :=
  match atRender o s op with
  | .ok r => storeRevision o w (parts o s op).force ((parts o s op).commitSHA r) r.stack d
  | .error _ => d

def landed (o : Answers) (s : Stack) (op : Operation) (d : Store) : List (Nat × String) :=
  match atDeploy o s op with
  | .ok r =>
    if deploySucceeds o s r op then ((d.files r.version).map fun f => (r.version, f.checksum)).toList
    else []
  | .error _ => []

def step (s : State) : Action → Option State
  | .execute op o w =>
    if o.revisionStored ≠ w.stored then none
    else
      let store := storeAfter o w s.stack op s.store
      some
        { stack := (execute o s.stack op).run.db
          store
          deployed := s.deployed ++ landed o s.stack op store }
  | .migrate => some { s with stack := migrateStack s.stack }

/-- The file of every deployed version still has the checksum it was deployed
with, and rows of one version have one checksum. -/
structure Immutable (s : State) : Prop where
  files : ∀ version checksum, (version, checksum) ∈ s.deployed →
    (s.store.files version).map (·.checksum) = some checksum
  rows : ∀ a ∈ s.store.rows, ∀ b ∈ s.store.rows, a.version = b.version → a.checksum = b.checksum

def Bumps (s : Stack) (op : Operation) : Prop :=
  op = .reconcile → s.checksum = none → s.currentVersion = 0

instance (s : Stack) (op : Operation) : Decidable (Bumps s op) :=
  inferInstanceAs (Decidable (op = .reconcile → s.checksum = none → s.currentVersion = 0))

/-- One of the two saves after the render succeeds, unless the render fails to
store a revision or, in a sync, finds the recorded checksum again. -/
def Recorded (s : Stack) (op : Operation) (o : Answers) : Prop :=
  o.saves .render = true ∨ o.saves .mark = true ∨ o.revisionStored = false ∨ op = .reconcile ∧ o.rendered = s.checksum

instance (s : Stack) (op : Operation) (o : Answers) : Decidable (Recorded s op o) :=
  inferInstanceAs (Decidable (_ ∨ _ ∨ _ ∨ _ ∧ _))

/-- The execution makes a new version of what it changes, and records it. -/
def Fresh (s : State) : Action → Prop
  | .execute op o _ => Bumps s.stack op ∧ Recorded s.stack op o
  | .migrate => True

instance (s : State) (a : Action) : Decidable (Fresh s a) := by
  unfold Fresh
  split <;> infer_instance

variable {o : Answers} {w : StoreAnswers} {s : Stack} {op : Operation} {d : Store} {force : Bool}
  {sha : String} {v : Nat} {f : Revision}

section Store

theorem write_files_of_ne {n : Nat} (h : v ≠ n) (file : Option Revision) : (d.write n file).files v = d.files v :=
  Function.update_of_ne h _ _

theorem storeRevision_files (hv : ∀ n c, newRevision o force s = some (n, c) → v ≠ n)
    (hf : d.files v = some f) : (storeRevision o w force sha s d).files v = some f := by
  unfold storeRevision
  split
  · exact hf
  · split
    · dsimp only
      split
      · next hmissing =>
        have hne : v ≠ currentVersion s := by
          rintro rfl
          rw [hf] at hmissing
          cases hmissing
        rw [write_files_of_ne hne, hf]
      · exact hf
    · next n c hnew =>
      have hne := hv n c hnew
      split
      · rw [write_files_of_ne hne, hf]
      · rw [write_files_of_ne hne, hf]
      · exact (write_files_of_ne hne _).trans hf

theorem storeRevision_rows : (storeRevision o w force sha s d).rows = d.rows ∨
    ∃ n c, newRevision o force s = some (n, c) ∧ w.stored = true ∧
      (storeRevision o w force sha s d).rows = d.rows ++ [⟨n, c, sha⟩] := by
  unfold storeRevision
  split
  · exact .inl rfl
  · next c hc =>
    split
    · dsimp only
      split <;> exact .inl rfl
    · next n c' hnew =>
      obtain rfl := Option.some.inj (hc.symm.trans (newRevision_some hnew).2)
      split
      · exact .inl rfl
      · exact .inl rfl
      · next hw hr => exact .inr ⟨n, c, hnew, by rw [StoreAnswers.stored, hw, hr]; rfl, rfl⟩

end Store

section Versions

theorem nextVersion_fresh (h : force = false → s.checksum = none → s.currentVersion = 0) :
    s.currentVersion < nextVersion force s := by
  have hcur : s.currentVersion ≤ currentVersion s := by
    show (head s).version ≤ (head s).current
    unfold Head.current
    split <;> omega
  by_cases hbump : (force || s.checksum.isSome) = true
  · rw [nextVersion, if_pos hbump]
    omega
  · rw [nextVersion, if_neg hbump]
    rw [Bool.or_eq_true, not_or] at hbump
    have hzero := h (Bool.eq_false_iff.mpr hbump.1) (not_isSome_iff_eq_none.mp hbump.2)
    have hpos : 0 < currentVersion s := (head s).current_pos
    omega

theorem force_eq_false : (parts o s op).force = false ↔ op = .reconcile := by
  cases op with
  | reconcile =>
    refine iff_of_true ?_ rfl
    rw [parts]
    split <;> rfl
  | rollback commitSHA => exact iff_of_false (by simp [parts, rollbackParts]) (by simp)
  | forceRedeploy pauseAfter => exact iff_of_false (by simp [parts, forceRedeployParts]) (by simp)

end Versions

section Execution

theorem Bumps.fresh (hb : Bumps s op) {n : Nat} {c : String}
    (h : newRevision o (parts o s op).force s = some (n, c)) : s.currentVersion < n := by
  rw [(newRevision_some h).1]
  exact nextVersion_fresh (fun hforce => hb (force_eq_false.mp hforce))

theorem finalHead_version_le (hb : Bumps s op) : s.currentVersion ≤ (finalHead o s op).version := by
  unfold finalHead
  split
  · cases hnew : newRevision o (parts o s op).force s with
    | none =>
      rw [headAfter_of_none hnew]
      exact Nat.le_refl _
    | some x =>
      cases hrec : records o with
      | true =>
        rw [headAfter_of_records hnew hrec]
        exact Nat.le_of_lt (hb.fresh hnew)
      | false =>
        rw [headAfter_of_not_records hrec]
        exact Nat.le_refl _
  · exact Nat.le_refl _

theorem storeAfter_files (hb : Bumps s op) (hv : v ≤ s.currentVersion) (hf : d.files v = some f) :
    (storeAfter o w s op d).files v = some f := by
  have hopen := atRender_after o s op
  unfold storeAfter
  split
  · next r hr =>
    rw [hr] at hopen
    refine storeRevision_files (fun n c hnew => ?_) hf
    rw [newRevision_congr hopen.stack] at hnew
    have hlt := hb.fresh hnew
    omega
  · exact hf

theorem Recorded.records {x : Nat × String} (h : Recorded s op o) (hst : o.revisionStored = true)
    (hnew : newRevision o (parts o s op).force s = some x) : records o = true := by
  obtain hsave | hmark | hno | ⟨rfl, hsame⟩ := h
  · rw [Frame.records, hst, hsave]
    rfl
  · rw [Frame.records, hst, hmark, Bool.or_true]
    rfl
  · rw [hst] at hno
    cases hno
  · rw [force_eq_false.mpr rfl, newRevision_recorded hsame] at hnew
    cases hnew

theorem storeAfter_rows (hb : Bumps s op) (hrec : Recorded s op o) (hw : o.revisionStored = w.stored) :
    (storeAfter o w s op d).rows = d.rows ∨ ∃ g, (storeAfter o w s op d).rows = d.rows ++ [g] ∧
      s.currentVersion < g.version ∧ g.version = (finalHead o s op).version := by
  have hopen := atRender_after o s op
  unfold storeAfter finalHead
  cases hr : atRender o s op with
  | error e => exact .inl rfl
  | ok r =>
    rw [hr] at hopen
    refine storeRevision_rows.imp_right ?_
    rintro ⟨n, c, hnew, hst, hrows⟩
    rw [newRevision_congr hopen.stack] at hnew
    refine ⟨_, hrows, hb.fresh hnew, ?_⟩
    rw [headAfter_of_records hnew (hrec.records (hw.trans hst) hnew)]

theorem landed_mem (hs : (head s).Sound) {c : String} (h : (v, c) ∈ landed o s op d) :
    v = (finalHead o s op).version ∧ (d.files v).map (·.checksum) = some c := by
  unfold landed at h
  split at h
  · next t ht =>
    obtain ⟨r, hr, hrend⟩ := atDeploy_rendered ht
    split at h
    · rw [mem_toList, map_eq_some_iff] at h
      obtain ⟨f, hf, hvc⟩ := h
      cases hvc
      refine ⟨?_, by rw [hf]; rfl⟩
      rw [hrend.version_eq hs, finalHead, hr]
    · cases h
  · cases h

end Execution

section Invariant

structure Inv (s : State) : Prop extends Immutable s where
  sound : (head s.stack).Sound
  deployed : ∀ version checksum, (version, checksum) ∈ s.deployed → version ≤ s.stack.currentVersion
  versions : ∀ f ∈ s.store.rows, f.version ≤ s.stack.currentVersion

theorem inv_init (isLocal : Bool) : Inv { stack := { isLocal } } where
  files := nofun
  rows := nofun
  sound := nofun
  deployed := nofun
  versions := nofun

theorem Inv.execute {s : State} (hs : Inv s) (ha : Fresh s (.execute op o w)) (hw : o.revisionStored = w.stored) :
    Inv { stack := (Stages.execute o s.stack op).run.db
          store := storeAfter o w s.stack op s.store
          deployed := s.deployed ++ landed o s.stack op (storeAfter o w s.stack op s.store) } := by
  obtain ⟨hb, hrec⟩ := ha
  have hle := finalHead_version_le (o := o) hb
  have hver := (@execute_version o s.stack op).1
  have hrows := storeAfter_rows (d := s.store) hb hrec hw
  refine { files := ?_, rows := ?_, sound := execute_sound hs.sound, deployed := ?_, versions := ?_ }
  · intro v c h
    rcases mem_append.mp h with h | h
    · obtain ⟨f, hf, rfl⟩ := map_eq_some_iff.mp (hs.files v c h)
      rw [storeAfter_files hb (hs.deployed v _ h) hf]
      rfl
    · exact (landed_mem hs.sound h).2
  · rcases hrows with hrows | ⟨g, hrows, hfresh, _⟩
    · rw [hrows]
      exact hs.rows
    · -- the new row shares its version with no other one
      have hne : ∀ a ∈ s.store.rows, a.version ≠ g.version := by
        intro a ha
        have hle := hs.versions a ha
        omega
      rw [hrows]
      intro a ha b hb heq
      rw [mem_append, mem_singleton] at ha hb
      rcases ha with ha | rfl <;> rcases hb with hb | rfl
      · exact hs.rows a ha b hb heq
      · exact absurd heq (hne a ha)
      · exact absurd heq.symm (hne b hb)
      · rfl
  · intro v c h
    show v ≤ (Stages.execute o s.stack op).run.db.currentVersion
    rw [hver]
    rcases mem_append.mp h with h | h
    · exact Nat.le_trans (hs.deployed v c h) hle
    · exact Nat.le_of_eq (landed_mem hs.sound h).1
  · intro f hf
    show f.version ≤ (Stages.execute o s.stack op).run.db.currentVersion
    rw [hver]
    rcases hrows with hrows | ⟨g, hrows, _, hg⟩
    · rw [hrows] at hf
      exact Nat.le_trans (hs.versions f hf) hle
    · rw [hrows, mem_append, mem_singleton] at hf
      rcases hf with hf | rfl
      · exact Nat.le_trans (hs.versions f hf) hle
      · exact Nat.le_of_eq hg

theorem step_inv (s : State) (a : Action) (t : State) (hs : Inv s) (ha : Fresh s a)
    (h : step s a = some t) : Inv t := by
  cases a with
  | execute op o w =>
    dsimp only [step] at h
    split at h
    · cases h
    · next hw =>
      obtain rfl := Option.some.inj h
      exact hs.execute ha (not_not.mp hw)
  | migrate =>
    obtain rfl := Option.some.inj h
    exact ⟨⟨hs.files, hs.rows⟩, nofun, hs.deployed, hs.versions⟩

end Invariant

theorem fresh_immutable {isLocal : Bool} {as : List Action} {t : State}
    (hg : Meets step Fresh { stack := { isLocal } } as)
    (hr : run step { stack := { isLocal } } as = some t) : Immutable t :=
  (run_invariant step_inv (inv_init isLocal) hg hr).toImmutable

def synced (commitSHA checksum : String) (w : StoreAnswers) : Action :=
  .execute .reconcile
    { fetched := some commitSHA, rendered := some checksum, revisionStored := w.stored } w

def unsaved (commitSHA checksum : String) : Action :=
  .execute .reconcile
    { fetched := some commitSHA, rendered := some checksum, saves := fun site => site = .start } {}

/-- After a migration the first render takes the deployed version: its file is
replaced and, when the row cannot be stored, removed. A revision whose record
was not saved gets a second row. -/
theorem deployed_version_replaced : (∃ t ∈ run step {} [synced "c1" "a" {}, .migrate, synced "d1" "b" {}],
      t.deployed = [(1, "a"), (1, "b")] ∧ t.store.files 1 = some ⟨1, "b", "d1"⟩ ∧
        t.store.rows = [⟨1, "a", "c1"⟩, ⟨1, "b", "d1"⟩]) ∧
    (∃ t ∈ run step {} [synced "c1" "a" {}, .migrate, synced "d1" "b" { row := .failed true }],
      t.deployed = [(1, "a")] ∧ t.stack.deployedVersion = 1 ∧ t.store.files 1 = none) ∧
    (∃ t ∈ run step {} [synced "c1" "a" {}, unsaved "c2" "b", synced "c3" "c" {}],
      t.store.rows = [⟨1, "a", "c1"⟩, ⟨2, "b", "c2"⟩, ⟨2, "c", "c3"⟩]) := by
  refine ⟨?_, ?_, ?_⟩
  · exact run_reaches (by decide +kernel)
  · exact run_reaches (by decide +kernel)
  · exact run_reaches (by decide +kernel)

def redeployedAfterMigration : List Action :=
  [synced "c1" "a" {}, .migrate,
    .execute (.forceRedeploy false) { freshSHA := "d1", rendered := some "b" } {},
    synced "d2" "c" { row := .failed true }]

theorem redeployed_after_migration_immutable : ∃ t ∈ run step {} redeployedAfterMigration,
    t.deployed = [(1, "a"), (2, "b")] ∧ Immutable t := by
  have hrun : ∃ t ∈ run step {} redeployedAfterMigration, t.deployed = [(1, "a"), (2, "b")] :=
    run_reaches (by decide +kernel)
  obtain ⟨t, ht, hdep⟩ := hrun
  exact ⟨t, ht, hdep, @fresh_immutable false redeployedAfterMigration t (by decide +kernel) ht⟩

end Wireops.Sync.Revisions
