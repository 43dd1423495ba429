import Wireops.Sync.Stages

namespace Wireops.Sync.Pausing

open List Lib.Flow Sync.Reconcile Sync.Stages

/-- A stage of `ReconcileStack`, with the status that it sets when the execution goes
on, and whether it reads the record again. -/
structure Part where
  stage : Stage Run Finish
  sets : Option Status := none
  rereads : Bool := false

variable (o : Answers)

def persist (status : Status) (r : Run) : Except Finish Run :=
  let r := r.setStatus status
  if o.saves .complete then .ok (r.save true) else .error ⟨.saveFailed, r⟩

def updateSyncLog (r : Run) : Except Finish Run := if o.logUpdated then .ok r else fail o r

def gitFlow : List Part :=
  [⟨enter o, none, false⟩, ⟨requireSecret o o.secretBackends, none, false⟩, ⟨start o, some .syncing, false⟩,
    ⟨require o o.repoFound, none, false⟩, ⟨fetch o, none, false⟩, ⟨require o o.repoReloaded, none, false⟩,
    ⟨require o o.workerResolved, none, false⟩, ⟨checkOnline o, none, false⟩, ⟨checkContainer o, none, false⟩,
    ⟨waitForRunningJobs o, none, false⟩, ⟨reloadSHA o, none, false⟩, ⟨require o o.workDir, none, false⟩,
    ⟨require o o.composeFile, none, false⟩, ⟨requireSecret o o.envVars, none, false⟩,
    ⟨requireSecret o o.sops, none, false⟩, ⟨clearSecretError o, none, false⟩, ⟨reload o, none, true⟩,
    ⟨fun r => generateRevision o false r.remoteSHA r, none, false⟩, ⟨checkUnchanged o, none, false⟩,
    ⟨createSyncLog o, none, false⟩, ⟨deploy o, none, false⟩,
    ⟨fun r => persist o o.check.verdict.status (recordDeployed r.remoteSHA r.checksum r),
      some o.check.verdict.status, false⟩,
    ⟨updateSyncLog o, none, false⟩]

def localFlow : List Part :=
  let c := o.fileChecksum.getD ""
  [⟨enter o, none, false⟩, ⟨requireSecret o o.secretBackends, none, false⟩, ⟨require o o.importPath, none, false⟩,
    ⟨require o o.workerResolved, none, false⟩, ⟨checkLocalOnline o, none, false⟩, ⟨start o, some .syncing, false⟩,
    ⟨readFile o, none, false⟩, ⟨requireSecret o o.envVars, none, false⟩, ⟨clearSecretError o, none, false⟩,
    ⟨generateRevision o false "imported", none, false⟩, ⟨createSyncLog o, none, false⟩,
    ⟨deployOnce o, none, false⟩, ⟨fun r => persist o o.check.verdict.status
        (recordDeployed "imported" c { r with stack := { r.stack with checksum := some c } }),
      some o.check.verdict.status, false⟩,
    ⟨updateSyncLog o, none, false⟩]

def flow (s : Stack) : List Part := if s.isLocal then localFlow o else gitFlow o

theorem chain_saveDeployed (status : Status) (f : Run → Run) (ms : List (Stage Run Finish)) :
    chain (ms ++ [fun r => saveDeployed o status (f r)]) =
      chain (ms ++ [fun r => persist o status (f r), updateSyncLog o]) := by
  have hsplit (r : Run) : saveDeployed o status r = persist o status r >>= updateSyncLog o := by
    unfold saveDeployed persist
    cases o.saves .complete <;> rfl
  rw [chain_append, chain_append]
  refine congrArg (seq _) (funext fun r => ?_)
  simp only [chain, seq, hsplit]
  cases persist o status (f r) <;> rfl

theorem seq_reconcileGit : seq (enter o) (reconcileGit o) = chain ((gitFlow o).map Part.stage) :=
  chain_saveDeployed o o.check.verdict.status (fun r => recordDeployed r.remoteSHA r.checksum r)
    (((gitFlow o).map Part.stage).take 21)

theorem seq_reconcileLocal : seq (enter o) (reconcileLocal o) = chain ((localFlow o).map Part.stage) :=
  chain_saveDeployed o o.check.verdict.status (fun r => recordDeployed "imported" (o.fileChecksum.getD "")
      { r with stack := { r.stack with checksum := some (o.fileChecksum.getD "") } })
    (((localFlow o).map Part.stage).take 12)

theorem reconcileStack_eq_flow (s : Stack) :
    reconcileStack o s = finishOf (chain ((flow o s).map Part.stage) { db := s, stack := s }) := by
  unfold reconcileStack flow
  split
  · rw [seq_reconcileLocal]
  · rw [seq_reconcileGit]

/-- A save writes the columns changed since the copy was loaded or saved. Of
those, others may have changed only the status. -/
def columns (loaded : Status) (row saved : Stack) : Stack :=
  { saved with status := if saved.status = loaded then row.status else saved.status }

def meet (r r' : Run) : Run := { r' with db := columns r.stack.status r.db r'.db }

def shared (m : Stage Run Finish) : Stage Run Finish := fun r =>
  match m r with
  | .ok r' => .ok (meet r r')
  | .error f => .error ⟨f.exit, meet r f.run⟩

def pause (r : Run) : Run := { r with db := { r.db with status := .paused } }

/-- The execution, with the pause saved after some of its stages. -/
def interleaved (s : Stack) (k : Nat) : Finish :=
  match chain (((flow o s).take k).map Part.stage) { db := s, stack := s } with
  | .error f => ⟨f.exit, pause f.run⟩
  | .ok r => finishOf (chain (((flow o s).drop k).map (fun p => shared p.stage)) (pause r))

/-- No execution of the list, one after the other, comes to its deploy. -/
def Rests : Stack → List Answers → Prop
  | _, [] => True
  | s, o :: os => (∀ r, atDeploy o s .reconcile ≠ .ok r) ∧ Rests (reconcileStack o s).run.db os

/-- The stack is paused when the execution has returned, and later ones do not deploy
it. -/
structure Kept (o : Answers) (s : Stack) (k : Nat) : Prop where
  status : (interleaved o s k).run.db.status = .paused
  rests : ∀ os, Rests (interleaved o s k).run.db os

def isSkipped : Exit → Bool
  | .skipped .. => true
  | _ => false

/-- The exit leaves the status in the row; a status that was put back counts as
written where the record was read again. -/
def Silent (reread : Bool) (r : Run) (f : Finish) : Prop :=
  f.run.db.status = r.db.status ∧ (reread && isSkipped f.exit) = false

def Unwritten : Bool → List Part → Run → Prop
  | _, [], _ => True
  | reread, p :: ps, r =>
    match p.stage r with
    | .ok u => u.db.status = r.db.status ∧ Unwritten (p.rereads || reread) ps u
    | .error f => Silent reread r f

/-- The execution, left alone, would not write the status any more. -/
def Spared (s : Stack) (k : Nat) : Prop :=
  match chain (((flow o s).take k).map Part.stage) { db := s, stack := s } with
  | .error _ => True
  | .ok r => Unwritten false ((flow o s).drop k) r

section Simulation

variable {r u : Run} {p : Part} {ps : List Part} {reread : Bool}

/-- An execution that is left alone, between two stages. -/
structure Clean (r : Run) : Prop where
  synced : r.db.status = r.stack.status
  status : r.stack.status ≠ .paused
  prev : r.prevStatus ≠ .paused

/-- The execution whose stack was paused. Its copy has the status it had, or the one
it has read again. -/
def underPause (reread : Bool) (r : Run) : Run :=
  { r with
    db := { r.db with status := .paused }
    stack := { r.stack with status := if reread then .paused else r.stack.status } }

/-- What a stage does under the pause, by what it does when left alone. -/
inductive Follows (sets : Option Status) (rereads reread : Bool) (r : Run) :
    Except Finish Run → Except Finish Run → Prop where
  | goes {u : Run} (hclean : Clean u) (hset : u.stack.status = sets.getD r.stack.status)
    (hdb : u.db.status = r.db.status) : Follows sets rereads reread r (.ok u) (.ok (underPause (rereads || reread) u))
  | rewrites {u : Run} (hclean : Clean u) (hset : u.stack.status = sets.getD r.stack.status)
    (hdb : u.db.status ≠ r.db.status) : Follows sets rereads reread r (.ok u) (.ok u)
  | ends {f : Finish} {v : Run} (hne : f.run.db.status ≠ .paused)
    (hv : v.db.status = .paused ↔ Silent reread r f) : Follows sets rereads reread r (.error f) (.error ⟨f.exit, v⟩)

/-- The stage under the pause follows the stage left alone. -/
def FitsAt (reread : Bool) (p : Part) : Prop :=
  ∀ r, Clean r → ((p.rereads || reread) = true → r.stack.status = .syncing) →
    Follows p.sets p.rereads reread r (p.stage r) (shared p.stage (underPause reread r))

/-- The parts fit, those after a second reading whether it came before the pause or
after it. -/
def Fits : Bool → List Part → Prop
  | _, [] => True
  | reread, p :: ps => (FitsAt false p ∧ (reread = true → FitsAt true p)) ∧ Fits (p.rereads || reread) ps

/-- The record is read again only in the status `syncing`. -/
def Expects : Status → List Part → Prop
  | _, [] => True
  | st, p :: ps => (p.rereads = true → st = .syncing) ∧ Expects (p.sets.getD st) ps

theorem Fits.mono (h : Fits reread ps) : Fits false ps := by
  induction ps generalizing reread with
  | nil => trivial
  | cons p ps ih =>
    refine ⟨⟨h.1.1, fun hr => by cases hr⟩, ?_⟩
    cases hp : p.rereads with
    | false => exact ih h.2
    | true =>
      have := h.2
      rwa [hp, Bool.true_or] at this

theorem Fits.at (h : Fits reread (p :: ps)) : FitsAt reread p := by
  cases reread with
  | false => exact h.1.1
  | true => exact h.1.2 rfl

theorem shared_eq (m : Stage Run Finish) (h : r.db.status = r.stack.status) : shared m r = m r := by
  have hcolumns (saved : Stack) : columns r.stack.status r.db saved = saved := by
    unfold columns
    split
    · next hst => rw [h, ← hst]
    · rfl
  unfold shared
  cases hm : m r with
  | ok u => exact congrArg (fun db => Except.ok { u with db := db }) (hcolumns u.db)
  | error f => exact congrArg (fun db => Except.error (Finish.mk f.exit { f.run with db := db })) (hcolumns f.run.db)

theorem FitsAt.after (h : FitsAt false p) (hclean : Clean r) (hre : p.rereads = true → r.stack.status = .syncing) :
    After (fun u => Clean u ∧ u.stack.status = p.sets.getD r.stack.status) (fun f => f.run.db.status ≠ .paused)
      (p.stage r) := by
  have hfollows := h r hclean (by rwa [Bool.or_false])
  generalize p.stage r = x, shared p.stage (underPause false r) = y at hfollows ⊢
  cases hfollows with
  | goes hc hset _ | rewrites hc hset _ => exact ⟨hc, hset⟩
  | ends hne _ => exact hne

theorem never_paused (hclean : Clean r) (hfits : Fits reread ps) (hexpects : Expects r.stack.status ps) :
    (finishOf (chain (ps.map (fun p => shared p.stage)) r)).run.db.status ≠ .paused := by
  induction ps generalizing r reread with
  | nil =>
    have hne := hclean.status
    rwa [← hclean.synced] at hne
  | cons p ps ih =>
    have hafter := hfits.1.1.after hclean hexpects.1
    rw [map_cons, chain, seq, shared_eq _ hclean.synced]
    cases hstage : p.stage r with
    | ok u =>
      rw [hstage] at hafter
      exact ih hafter.1 hfits.2 (hafter.2 ▸ hexpects.2)
    | error f =>
      rw [hstage] at hafter
      exact hafter

theorem paused_iff_unwritten (hclean : Clean r) (hre : reread = true → r.stack.status = .syncing)
    (hfits : Fits reread ps) (hexpects : Expects r.stack.status ps) :
    (finishOf (chain (ps.map (fun p => shared p.stage)) (underPause reread r))).run.db.status = .paused ↔
      Unwritten reread ps r := by
  induction ps generalizing r reread with
  | nil => exact iff_of_true rfl trivial
  | cons p ps ih =>
    have hsyncing : (p.rereads || reread) = true → r.stack.status = .syncing := by
      rw [Bool.or_eq_true]
      exact fun h => h.elim hexpects.1 hre
    have hfollows := hfits.at r hclean hsyncing
    rw [map_cons, chain, seq, Unwritten]
    generalize p.stage r = x, shared p.stage (underPause reread r) = y at hfollows ⊢
    cases hfollows with
    | @goes u hc hset hdb =>
      have hkept : (p.rereads || reread) = true → u.stack.status = .syncing := fun hr => by
        rw [← hc.synced, hdb, hclean.synced]
        exact hsyncing hr
      exact (ih hc hkept hfits.2 (hset ▸ hexpects.2)).trans (and_iff_right hdb).symm
    | rewrites hc hset hdb =>
      have hne := never_paused hc hfits.2 (hset ▸ hexpects.2)
      exact iff_of_false hne (fun h => hdb h.1)
    | ends _ hv => exact hv

end Simulation

section Ends

variable {r u r₁ : Run} {X : Status} {exit : Exit} {sets : Option Status} {rereads reread : Bool}

theorem columns_self (loaded : Status) (row : Stack) : columns loaded row row = row := by
  unfold columns
  split <;> rfl

theorem meet_of_db (r : Run) {v : Run} (h : v.db = r.db) : meet r v = v := by
  rw [meet, h, columns_self, ← h]

theorem goes_unsaved (hclean : Clean r) (hdb : u.db = r.db) (hst : u.stack.status = r.stack.status)
    (hprev : u.prevStatus = r.prevStatus) : Follows none rereads reread r (.ok u)
      (.ok (meet (underPause reread r) (underPause (rereads || reread) u))) := by
  have hmeet : meet (underPause reread r) (underPause (rereads || reread) u) = underPause (rereads || reread) u :=
    meet_of_db _ (congrArg (fun db : Stack => { db with status := .paused }) hdb)
  rw [hmeet]
  refine .goes ⟨?_, hst.trans_ne hclean.status, hprev.trans_ne hclean.prev⟩ hst (congrArg Stack.status hdb)
  rw [hdb, hst, hclean.synced]

theorem goes_saved (hclean : Clean r) (hdb : u.db = u.stack) (hst : u.stack.status = r.stack.status)
    (hprev : u.prevStatus = r.prevStatus) : Follows none false reread r (.ok u)
      (.ok (meet (underPause reread r) { underPause reread u with db := (underPause reread u).stack })) := by
  have hmeet : meet (underPause reread r) { underPause reread u with db := (underPause reread u).stack } =
      underPause reread u := by
    unfold meet columns underPause
    rw [hst, if_pos rfl, hdb]
  rw [hmeet]
  refine .goes ⟨congrArg Stack.status hdb, hst.trans_ne hclean.status, hprev.trans_ne hclean.prev⟩ hst ?_
  rw [hdb, hst, hclean.synced]

theorem moves_saved (hclean : Clean r) (hprev : r₁.prevStatus ≠ .paused)
    (hX : X ≠ .paused) (hre : reread = true → r.stack.status = .syncing ∧ X ≠ .syncing) :
    Follows (some X) false reread r (.ok ((r₁.setStatus X).save true))
      (.ok (meet (underPause reread r) (((underPause reread r₁).setStatus X).save true))) := by
  have hc : Clean ((r₁.setStatus X).save true) := ⟨rfl, hX, hprev⟩
  by_cases hsame : X = r.db.status
  · cases reread with
    | true =>
      obtain ⟨hsyncing, hne⟩ := hre rfl
      rw [hclean.synced, hsyncing] at hsame
      exact absurd hsame hne
    | false =>
      have hmeet : meet (underPause false r) (((underPause false r₁).setStatus X).save true) =
          underPause false ((r₁.setStatus X).save true) := by
        have hst : X = r.stack.status := hsame.trans hclean.synced
        simp [meet, columns, underPause, Run.setStatus, Run.save, hst]
      rw [hmeet]
      exact .goes hc rfl hsame
  · have hmeet : meet (underPause reread r) (((underPause reread r₁).setStatus X).save true) =
        (r₁.setStatus X).save true := by
      have hne : X ≠ (if reread then .paused else r.stack.status) := by
        split
        · exact hX
        · rw [← hclean.synced]
          exact hsame
      simp [meet, columns, underPause, Run.setStatus, Run.save, hne]
    rw [hmeet]
    exact .rewrites hc rfl (fun h => hsame h)

theorem ends_saved (ok : Bool) (hclean : Clean r) (hdb : r₁.db = r.db)
    (hX : X ≠ .paused) (hexit : ok = false → isSkipped exit = false)
    (hre : reread = true → r.stack.status = .syncing ∧ (X ≠ .syncing ∨ isSkipped exit = true)) :
    Follows sets rereads reread r (.error ⟨exit, (r₁.setStatus X).save ok⟩)
      (.error ⟨exit, meet (underPause reread r) (((underPause reread r₁).setStatus X).save ok)⟩) := by
  cases ok with
  | false =>
    have hmeet : meet (underPause reread r) (((underPause reread r₁).setStatus X).save false) =
        ((underPause reread r₁).setStatus X).save false :=
      meet_of_db _ (congrArg (fun db : Stack => { db with status := .paused }) hdb)
    rw [hmeet]
    refine .ends ?_ (iff_of_true rfl ⟨congrArg Stack.status hdb, ?_⟩)
    · show r₁.db.status ≠ .paused
      rw [hdb, hclean.synced]
      exact hclean.status
    · rw [hexit rfl, Bool.and_false]
  | true =>
    refine .ends hX ?_
    -- the row keeps the pause when the saved status is the one that the copy had
    show (if X = (if reread then .paused else r.stack.status) then .paused else X) = Status.paused ↔
      X = r.db.status ∧ (reread && isSkipped exit) = false
    rw [hclean.synced]
    cases reread with
    | false => simp [hX]
    | true =>
      obtain ⟨hsyncing, hne⟩ := hre rfl
      simp [hX, hsyncing]
      exact fun h => hne.resolve_left (fun hne => hne h)

theorem ends_unsaved {v : Run} (hclean : Clean r) (hdb : r₁.db = r.db)
    (hv : v.db = (underPause reread r).db) (hexit : isSkipped exit = false) :
    Follows sets rereads reread r (.error ⟨exit, r₁⟩) (.error ⟨exit, meet (underPause reread r) v⟩) := by
  rw [meet_of_db _ hv]
  refine .ends ?_ (iff_of_true ?_ ⟨congrArg Stack.status hdb, ?_⟩)
  · rw [hdb, hclean.synced]
    exact hclean.status
  · rw [hv]
    rfl
  · rw [hexit, Bool.and_false]

end Ends

section Fits

variable {o : Answers} {X : Status} {exit : Exit} {rereads reread : Bool} {sets : Option Status} {f : Run → Run}

/-- A change of the record that neither reads nor writes the status. -/
structure Steady (reread : Bool) (f : Run → Run) : Prop where
  db : ∀ r, (f r).db = r.db
  status : ∀ r, (f r).stack.status = r.stack.status
  prev : ∀ r, (f r).prevStatus = r.prevStatus
  pause : ∀ r, f (underPause reread r) = underPause reread (f r)

theorem FitsAt.reads {α : Type} (c : Run → α) (m : α → Stage Run Finish)
    (hc : ∀ r, c (underPause reread r) = c r) (h : ∀ a, FitsAt reread ⟨m a, sets, rereads⟩) :
    FitsAt reread ⟨fun r => m (c r) r, sets, rereads⟩ := by
  intro r hclean hre
  have hfollows := h (c r) r hclean hre
  have hshared : shared (m (c r)) (underPause reread r) = shared (fun r => m (c r) r) (underPause reread r) := by
    unfold shared
    beta_reduce
    rw [hc]
  rwa [hshared] at hfollows

theorem FitsAt.ite {c : Run → Prop} [DecidablePred c] {m m' : Stage Run Finish}
    (hc : ∀ r, c (underPause reread r) = c r) (h : FitsAt reread ⟨m, sets, rereads⟩)
    (h' : FitsAt reread ⟨m', sets, rereads⟩) : FitsAt reread ⟨fun r => if c r then m r else m' r, sets, rereads⟩ := by
  have hm (a : Bool) : FitsAt reread ⟨fun r => bif a then m r else m' r, sets, rereads⟩ := by
    cases a with
    | true => exact h
    | false => exact h'
  have hdecide : ∀ r, decide (c (underPause reread r)) = decide (c r) := fun r => by simp only [hc]
  have hbif := FitsAt.reads (fun r => decide (c r)) (fun a r => bif a then m r else m' r) hdecide hm
  simpa only [Bool.cond_decide] using hbif

theorem FitsAt.go (hf : Steady reread f) : FitsAt reread ⟨fun r => .ok (f r), none, false⟩ := by
  intro r hclean _
  have hfollows : Follows none false reread r (.ok (f r)) (.ok (meet (underPause reread r) _)) :=
    goes_unsaved hclean (hf.db r) (hf.status r) (hf.prev r)
  rwa [Bool.false_or, ← hf.pause] at hfollows

theorem FitsAt.goSaved (hf : Steady reread f) (ok : Bool) :
    FitsAt reread ⟨fun r => .ok ((f r).save ok), none, false⟩ := by
  cases ok with
  | false => exact FitsAt.go hf
  | true =>
    intro r hclean _
    have hfollows : Follows none false reread r (.ok ((f r).save true)) (.ok (meet (underPause reread r) _)) :=
      goes_saved hclean rfl (hf.status r) (hf.prev r)
    have hpause : { underPause reread ((f r).save true) with db := (underPause reread ((f r).save true)).stack } =
        (f (underPause reread r)).save true := by
      rw [hf.pause]
      rfl
    rwa [hpause] at hfollows

theorem FitsAt.stop (hdb : ∀ r, (f r).db = r.db) (hexit : isSkipped exit = false) :
    FitsAt reread ⟨fun r => .error ⟨exit, f r⟩, sets, rereads⟩ :=
  fun r hclean _ => ends_unsaved hclean (hdb r) (hdb _) hexit

theorem FitsAt.mark (hdb : ∀ r, (f r).db = r.db)
    (hpause : ∀ r, f (underPause reread r) = underPause reread (f r)) (hX : X ≠ .paused) (hX' : X ≠ .syncing) :
    FitsAt reread ⟨fun r => .error ⟨.failed, markError o X (f r)⟩, sets, false⟩ := by
  intro r hclean hre
  have hsaved : Follows sets false reread r (.error ⟨.failed, markError o X (f r)⟩)
      (.error ⟨.failed, meet (underPause reread r) (markError o X (underPause reread (f r)))⟩) :=
    ends_saved (o.saves .mark) hclean (hdb r) hX (fun _ => rfl) (fun h => ⟨hre h, .inl hX'⟩)
  rwa [← hpause] at hsaved

theorem FitsAt.fail (hdb : ∀ r, (f r).db = r.db) (hpause : ∀ r, f (underPause reread r) = underPause reread (f r)) :
    FitsAt reread ⟨fun r => Reconcile.fail o (f r), sets, false⟩ :=
  FitsAt.mark hdb hpause (by decide) (by decide)

theorem Steady.id (reread : Bool) : Steady reread (fun r => r) :=
  ⟨fun _ => rfl, fun _ => rfl, fun _ => rfl, fun _ => rfl⟩

theorem Steady.setSecretError (reread secretError : Bool) : Steady reread (fun r => r.setSecretError secretError) :=
  ⟨fun _ => rfl, fun _ => rfl, fun _ => rfl, fun _ => rfl⟩

theorem Steady.recordDeployed {commitSHA checksum : Run → String}
    (hcommit : ∀ r, commitSHA (underPause reread r) = commitSHA r)
    (hchecksum : ∀ r, checksum (underPause reread r) = checksum r) :
    Steady reread (fun r => recordDeployed (commitSHA r) (checksum r) r) := by
  refine ⟨fun _ => rfl, fun _ => rfl, fun _ => rfl, fun r => ?_⟩
  rw [hcommit, hchecksum]
  rfl

theorem FitsAt.skip : FitsAt reread ⟨.ok, none, false⟩ := FitsAt.go (Steady.id reread)

theorem FitsAt.failAt : FitsAt reread ⟨Reconcile.fail o, sets, false⟩ :=
  FitsAt.fail (fun _ => rfl) (fun _ => rfl)

variable (o)

theorem require_fits (ok : Bool) : FitsAt reread ⟨require o ok, none, false⟩ := by
  cases ok with
  | true => exact FitsAt.skip
  | false => exact FitsAt.failAt

theorem requireSecret_fits (ok : Bool) : FitsAt reread ⟨requireSecret o ok, none, false⟩ := by
  cases ok with
  | true => exact FitsAt.skip
  | false => exact FitsAt.fail (fun _ => rfl) (fun _ => rfl)

theorem clearSecretError_fits : FitsAt reread ⟨clearSecretError o, none, false⟩ :=
  FitsAt.ite (fun _ => rfl) (FitsAt.goSaved (Steady.setSecretError reread false) _) FitsAt.skip

theorem enter_fits : FitsAt false ⟨enter o, none, false⟩ := by
  unfold enter
  cases o.found with
  | false => exact FitsAt.stop (fun _ => rfl) rfl
  | true =>
    simp only [Bool.not_true, Bool.false_eq_true, if_false]
    exact FitsAt.ite (fun _ => rfl) (FitsAt.stop (fun _ => rfl) rfl)
      (FitsAt.ite (fun _ => rfl) (FitsAt.stop (fun _ => rfl) rfl) FitsAt.skip)

theorem effectivePrevStatus_ne_paused {s : Stack} (h : s.status ≠ .paused) : effectivePrevStatus s ≠ .paused := by
  unfold effectivePrevStatus
  split
  · decide
  · exact h

theorem start_fits : FitsAt false ⟨start o, some .syncing, false⟩ := by
  unfold start
  cases o.saves .start with
  | false => exact FitsAt.stop (fun _ => rfl) rfl
  | true =>
    intro r hclean _
    have hprev := effectivePrevStatus_ne_paused hclean.status
    exact @moves_saved r { r with prevStatus := effectivePrevStatus r.stack } _ _ hclean hprev (by decide)
      (fun h => by cases h)

theorem persist_fits (hf : Steady reread f) (hX : X ≠ .paused) (hX' : X ≠ .syncing) :
    FitsAt reread ⟨fun r => persist o X (f r), some X, false⟩ := by
  unfold persist
  cases o.saves .complete with
  | false => exact FitsAt.stop hf.db rfl
  | true =>
    intro r hclean hre
    have hmoves : Follows (some X) false reread r (.ok (((f r).setStatus X).save true))
        (.ok (meet (underPause reread r) (((underPause reread (f r)).setStatus X).save true))) :=
      moves_saved hclean ((hf.prev r).trans_ne hclean.prev) hX (fun h => ⟨hre h, hX'⟩)
    rwa [← hf.pause] at hmoves

theorem updateSyncLog_fits : FitsAt reread ⟨updateSyncLog o, none, false⟩ := by
  unfold updateSyncLog
  cases o.logUpdated with
  | true => exact FitsAt.skip
  | false => exact FitsAt.failAt

theorem restore_fits (why : Skip) : FitsAt reread ⟨restore o why, none, false⟩ := by
  unfold restore
  cases o.saves .restore with
  | false => exact FitsAt.stop (fun _ => rfl) rfl
  | true =>
    intro r hclean hre
    exact ends_saved true hclean rfl hclean.prev (fun h => by cases h) (fun h => ⟨hre h, .inr rfl⟩)

theorem queuePending_fits : FitsAt false ⟨queuePending o, none, false⟩ := by
  unfold queuePending
  cases o.queued with
  | false => exact FitsAt.failAt
  | true =>
    simp only [Bool.not_true, Bool.false_eq_true, if_false]
    refine FitsAt.ite (fun _ => rfl) ?_ (FitsAt.stop (fun _ => rfl) rfl)
    cases o.saves .pending with
    | false => exact FitsAt.stop (fun _ => rfl) rfl
    | true =>
      intro r hclean _
      exact ends_saved true hclean rfl (by decide) (fun _ => rfl) (fun h => by cases h)

theorem fetch_fits : FitsAt false ⟨fetch o, none, false⟩ := by
  unfold fetch
  cases o.fetched with
  | none => exact FitsAt.failAt
  | some sha => exact FitsAt.go ⟨fun _ => rfl, fun _ => rfl, fun _ => rfl, fun _ => rfl⟩

theorem checkOnline_fits : FitsAt false ⟨checkOnline o, none, false⟩ := by
  unfold checkOnline
  cases o.online with
  | true => exact FitsAt.skip
  | false =>
    simp only [Bool.false_eq_true, if_false]
    exact FitsAt.ite (fun _ => rfl) (queuePending_fits o) (restore_fits o .offline)

theorem checkLocalOnline_fits : FitsAt false ⟨checkLocalOnline o, none, false⟩ := by
  unfold checkLocalOnline
  cases o.online with
  | true => exact FitsAt.skip
  | false => exact queuePending_fits o

theorem checkContainer_fits : FitsAt false ⟨checkContainer o, none, false⟩ :=
  FitsAt.ite (fun _ => rfl) (restore_fits o .container) FitsAt.skip

theorem waitForRunningJobs_fits : FitsAt reread ⟨waitForRunningJobs o, none, false⟩ := by
  unfold waitForRunningJobs
  cases o.wait with
  | proceed => exact FitsAt.skip
  | cancelled => exact FitsAt.stop (fun _ => rfl) rfl
  | timedOut => exact FitsAt.failAt

theorem reloadSHA_fits : FitsAt reread ⟨reloadSHA o, none, false⟩ :=
  FitsAt.go ⟨fun _ => rfl, fun _ => rfl, fun _ => rfl, fun _ => rfl⟩

theorem reload_fits : FitsAt false ⟨reload o, none, true⟩ := by
  unfold reload
  cases o.reloaded with
  | false => exact FitsAt.stop (fun _ => rfl) rfl
  | true =>
    intro r hclean _
    exact @goes_unsaved _ _ true _ hclean rfl hclean.synced rfl

theorem readFile_fits : FitsAt false ⟨readFile o, none, false⟩ := by
  unfold readFile
  cases o.fileChecksum with
  | none => exact FitsAt.failAt
  | some c => exact FitsAt.ite (fun _ => rfl) (restore_fits o (.localFile c)) FitsAt.skip

theorem generateRevision_fits (force : Bool) {commitSHA : Run → String}
    (hcommit : ∀ r, commitSHA (underPause reread r) = commitSHA r) :
    FitsAt reread ⟨fun r => generateRevision o force (commitSHA r) r, none, false⟩ := by
  refine FitsAt.reads commitSHA (fun commitSHA => generateRevision o force commitSHA) hcommit (fun commitSHA => ?_)
  unfold generateRevision
  cases o.rendered with
  | none => exact FitsAt.failAt
  | some checksum =>
    refine FitsAt.ite (fun _ => rfl) (FitsAt.go ⟨fun _ => rfl, fun _ => rfl, fun _ => rfl, fun _ => rfl⟩) ?_
    cases o.revisionStored with
    | false => exact FitsAt.failAt
    | true =>
      cases o.saves .render with
      | false => exact FitsAt.fail (fun _ => rfl) (fun _ => rfl)
      | true =>
        simp only [Bool.not_true, Bool.false_eq_true, if_false, if_true]
        refine FitsAt.goSaved ?_ true
        exact ⟨fun _ => rfl, fun _ => rfl, fun _ => rfl, fun _ => rfl⟩

theorem checkUnchanged_fits : FitsAt reread ⟨checkUnchanged o, none, false⟩ :=
  have hrestore := FitsAt.reads Run.checksum (fun c => restore o (.compose c)) (fun _ => rfl)
    (fun c => restore_fits o (.compose c))
  FitsAt.ite (fun _ => rfl) hrestore FitsAt.skip

theorem createSyncLog_fits : FitsAt reread ⟨createSyncLog o, none, false⟩ := by
  unfold createSyncLog
  cases o.logCreated with
  | true => exact FitsAt.skip
  | false => exact FitsAt.stop (fun _ => rfl) rfl

theorem verdict_ne (v : Verdict) : v.status ≠ .paused ∧ v.status ≠ .syncing := by cases v <;> decide

theorem deployFailed_fits (reason : Reason) : FitsAt reread ⟨deployFailed o reason, none, false⟩ := by
  let outcome (found : Option Verdict) (r : Run) : Except Finish Run :=
    found.elim (fail o r) (fun verdict => .error ⟨.failed,
      markError o (if o.logUpdated then verdict.status else .error) (recordDeployed r.remoteSHA r.checksum r)⟩)
  have hstage : deployFailed o reason = fun r =>
      outcome (if reason = .timeout then convergeAfterTimeout o r.remoteSHA r.lastSHA else none) r := by
    funext r
    unfold deployFailed
    cases (if reason = .timeout then convergeAfterTimeout o r.remoteSHA r.lastSHA else none) <;> rfl
  rw [hstage]
  refine FitsAt.reads _ outcome (fun _ => rfl) (fun found => ?_)
  cases found with
  | none => exact FitsAt.failAt
  | some verdict =>
    have hne : (if o.logUpdated then verdict.status else .error) ≠ .paused ∧
        (if o.logUpdated then verdict.status else .error) ≠ .syncing := by
      split
      · exact verdict_ne verdict
      · decide
    exact FitsAt.mark (fun _ => rfl) (fun _ => rfl) hne.1 hne.2

theorem deploy_fits : FitsAt reread ⟨deploy o, none, false⟩ := by
  unfold deploy
  cases deployLoop o.attempts 1 maxRetries with
  | success => exact FitsAt.skip
  | failed reason => exact deployFailed_fits o reason
  | unreadable | unlogged => exact FitsAt.failAt
  | cancelled => exact FitsAt.stop (fun _ => rfl) rfl

theorem deployOnce_fits : FitsAt reread ⟨deployOnce o, none, false⟩ :=
  FitsAt.ite (fun _ => rfl) FitsAt.skip FitsAt.failAt

theorem gitFlow_fits : Fits false (gitFlow o) := by
  have hverdict := verdict_ne o.check.verdict
  have once {p : Part} (h : FitsAt false p) : FitsAt false p ∧ (false = true → FitsAt true p) :=
    ⟨h, fun h => by cases h⟩
  have both {p : Part} (h : ∀ reread, FitsAt reread p) : FitsAt false p ∧ (true = true → FitsAt true p) :=
    ⟨h false, fun _ => h true⟩
  exact ⟨once (enter_fits o), once (requireSecret_fits o _), once (start_fits o), once (require_fits o _),
    once (fetch_fits o), once (require_fits o _), once (require_fits o _), once (checkOnline_fits o),
    once (checkContainer_fits o), once (waitForRunningJobs_fits o), once (reloadSHA_fits o),
    once (require_fits o _), once (require_fits o _), once (requireSecret_fits o _),
    once (requireSecret_fits o _), once (clearSecretError_fits o), once (reload_fits o),
    both (fun _ => generateRevision_fits o false (fun _ => rfl)), both (fun _ => checkUnchanged_fits o),
    both (fun _ => createSyncLog_fits o), both (fun _ => deploy_fits o),
    both (fun _ => persist_fits o (Steady.recordDeployed (fun _ => rfl) (fun _ => rfl)) hverdict.1 hverdict.2),
    both (fun _ => updateSyncLog_fits o), trivial⟩

theorem localFlow_fits : Fits false (localFlow o) := by
  have hverdict := verdict_ne o.check.verdict
  have once {p : Part} (h : FitsAt false p) : FitsAt false p ∧ (false = true → FitsAt true p) :=
    ⟨h, fun h => by cases h⟩
  exact ⟨once (enter_fits o), once (requireSecret_fits o _), once (require_fits o _), once (require_fits o _),
    once (checkLocalOnline_fits o), once (start_fits o), once (readFile_fits o),
    once (requireSecret_fits o _), once (clearSecretError_fits o),
    once (generateRevision_fits o false (fun _ => rfl)), once (createSyncLog_fits o), once (deployOnce_fits o),
    once (persist_fits o ⟨fun _ => rfl, fun _ => rfl, fun _ => rfl, fun _ => rfl⟩ hverdict.1 hverdict.2),
    once (updateSyncLog_fits o), trivial⟩

theorem flow_fits (s : Stack) : Fits false (flow o s) := by
  unfold flow
  split
  · exact localFlow_fits o
  · exact gitFlow_fits o

theorem flow_expects (s : Stack) (st : Status) : Expects st (flow o s) := by
  unfold flow
  split <;> simp [localFlow, gitFlow, Expects]

end Fits

section Exits

variable {o : Answers} {s : Stack} {r v : Run} {f : Finish} {p : Part} {reread : Bool}

/-- The answers with which an exit leaves the status in the row. The exits of `enter`
never write it. -/
def Unsaved (o : Answers) (reread : Bool) (r : Run) (f : Finish) : Prop :=
  match f.exit with
  | .cancelled => o.wait = .cancelled ∨ deployLoop o.attempts 1 maxRetries = .cancelled
  | .logFailed => o.logCreated = false
  | .vanished => o.reloaded = false
  | .saveFailed => o.saves .start = false ∨ o.saves .pending = false ∨ o.saves .complete = false
  | .unrestored _ => o.saves .restore = false
  | .failed => o.saves .mark = false ∨ f.run.stack.status = r.db.status
  | .queued => r.db.status = .error ∨ r.db.status = .pending
  | .skipped _ restored => restored = r.db.status ∧ reread = false
  | .notFound | .paused | .secretError | .repoUnsaved | .deployed => True

theorem silent_mark (st : Status) (hdb : v.db = r.db) :
    Silent reread r ⟨.failed, markError o st v⟩ ↔ Unsaved o reread r ⟨.failed, markError o st v⟩ := by
  cases hmark : o.saves .mark <;> simp [Silent, Unsaved, isSkipped, markError, Run.save, Run.setStatus, hmark, hdb]

theorem silent_fail (h : fail o v = .error f) (hdb : v.db = r.db) : Silent reread r f ↔ Unsaved o reread r f := by
  cases h
  exact silent_mark .error hdb

theorem silent_restore {why : Skip} (h : restore o why r = .error f) : Silent reread r f ↔ Unsaved o reread r f := by
  unfold restore at h
  cases hrestore : o.saves .restore <;> rw [hrestore] at h <;> cases h <;>
    simp [Silent, Unsaved, isSkipped, Run.save, Run.setStatus, hrestore]

theorem silent_queuePending (hsync : r.db.status = r.stack.status) (h : queuePending o r = .error f) :
    Silent reread r f ↔ Unsaved o reread r f := by
  unfold queuePending shouldMarkPendingOnQueue at h
  repeat' split at h
  · exact silent_fail h rfl
  all_goals
    cases h
    simp_all [Silent, Unsaved, isSkipped, Run.save, Run.setStatus, @eq_comm Status .pending]

theorem silent_deployFailed {reason : Reason} (h : deployFailed o reason r = .error f) :
    Silent reread r f ↔ Unsaved o reread r f := by
  unfold deployFailed at h
  split at h
  · cases h
    exact silent_mark _ rfl
  · exact silent_fail h rfl

/-- The exits that leave the status in the row, by the answers that lead to them. -/
theorem silent_iff_unsaved (hp : p ∈ flow o s) (hsync : r.db.status = r.stack.status)
    (hend : p.stage r = .error f) : Silent reread r f ↔ Unsaved o reread r f := by
  have hstage : p.stage ∈ (localFlow o ++ gitFlow o).map Part.stage := by
    unfold flow at hp
    split at hp <;> exact mem_map_of_mem (by simp [hp])
  generalize p.stage = m at hstage hend
  simp only [localFlow, gitFlow, cons_append, nil_append, map_cons, map_nil, mem_cons, not_mem_nil] at hstage
  repeat' obtain rfl | hstage := hstage
  all_goals
    simp only [enter, requireSecret, require, start, fetch, checkOnline, checkLocalOnline, readFile, checkContainer,
      waitForRunningJobs, reloadSHA, clearSecretError, reload, generateRevision, checkUnchanged, createSyncLog,
      deploy, deployOnce, persist, updateSyncLog] at hend
    (repeat' split at hend) <;> first
    | exact silent_fail hend rfl
    | exact silent_restore hend
    | exact silent_queuePending hsync hend
    | exact silent_deployFailed hend
    | cases hend <;> simp_all [Silent, Unsaved, isSkipped, Run.setStatus, recordDeployed]

end Exits

section Runs

variable {o : Answers} {s : Stack} {k : Nat} {r : Run} {ps : List Part}

theorem Fits.drop (h : Fits false ps) (k : Nat) : Fits false (ps.drop k) := by
  induction ps generalizing k with
  | nil => simpa using h
  | cons p ps ih =>
    cases k with
    | zero => exact h
    | succ k => exact ih h.2.mono k

theorem clean_after_take {u : Run} (hclean : Clean r) (hfits : Fits false ps) (hexpects : Expects r.stack.status ps)
    (hchain : chain ((ps.take k).map Part.stage) r = .ok u) : Clean u ∧ Expects u.stack.status (ps.drop k) := by
  induction ps generalizing k r with
  | nil =>
    rw [take_nil, map_nil, chain] at hchain
    cases hchain
    rw [drop_nil]
    exact ⟨hclean, trivial⟩
  | cons p ps ih =>
    cases k with
    | zero =>
      cases hchain
      exact ⟨hclean, hexpects⟩
    | succ k =>
      rw [take_succ_cons, map_cons, chain, seq, bind_eq_ok_iff] at hchain
      obtain ⟨v, hstage, hrest⟩ := hchain
      have hafter := hfits.1.1.after hclean hexpects.1
      rw [hstage] at hafter
      exact ih hafter.1 hfits.2.mono (hafter.2 ▸ hexpects.2) hrest

theorem enter_paused (o : Answers) (h : s.status = .paused) :
    ∃ exit, enter o { db := s, stack := s } = .error ⟨exit, { db := s, stack := s }⟩ := by
  unfold enter
  cases o.found with
  | false => exact ⟨.notFound, rfl⟩
  | true => exact ⟨.paused, if_pos h⟩

theorem chain_paused (o : Answers) (h : s.status = .paused) (ms : List (Stage Run Finish)) :
    ∃ exit, chain (enter o :: ms) { db := s, stack := s } = .error ⟨exit, { db := s, stack := s }⟩ := by
  obtain ⟨exit, henter⟩ := enter_paused o h
  refine ⟨exit, ?_⟩
  rw [chain, seq, henter]
  rfl

theorem flow_enter (o : Answers) (s : Stack) : ∃ ps, flow o s = ⟨enter o, none, false⟩ :: ps := by
  unfold flow
  split
  · exact ⟨_, rfl⟩
  · exact ⟨_, rfl⟩

theorem not_atDeploy_of_paused (h : s.status = .paused) : atDeploy o s .reconcile ≠ .ok r := by
  have hopening : ∃ ms, (parts o s .reconcile).opening ++
      (parts o s .reconcile).render o :: (parts o s .reconcile).middle = enter o :: ms := by
    cases hl : s.isLocal with
    | true | false =>
      rw [parts, hl]
      exact ⟨_, rfl⟩
  obtain ⟨ms, hms⟩ := hopening
  obtain ⟨exit, hend⟩ := chain_paused o h ms
  rw [atDeploy, hms]
  intro hr
  cases hend.symm.trans hr

theorem reconcileStack_of_paused (h : s.status = .paused) : (reconcileStack o s).run.db = s := by
  obtain ⟨ps, hps⟩ := flow_enter o s
  obtain ⟨exit, hend⟩ := chain_paused o h (ps.map Part.stage)
  rw [reconcileStack_eq_flow, hps, map_cons, hend]
  rfl

theorem rests_of_paused (h : s.status = .paused) (os : List Answers) : Rests s os := by
  induction os with
  | nil => trivial
  | cons o os ih =>
    refine ⟨fun r => not_atDeploy_of_paused h, ?_⟩
    rw [reconcileStack_of_paused h]
    exact ih

theorem kept_iff_status : Kept o s k ↔ (interleaved o s k).run.db.status = .paused :=
  ⟨Kept.status, fun h => ⟨h, rests_of_paused h⟩⟩

theorem pause_self (h : s.status = .paused) : pause { db := s, stack := s } = { db := s, stack := s } := by
  unfold pause
  rw [← h]

theorem paused_twice (h : s.status = .paused) (hchain : chain (((flow o s).take k).map Part.stage)
    { db := s, stack := s } = .ok r) :
    (finishOf (chain (((flow o s).drop k).map (fun p => shared p.stage)) (pause r))).run.db.status = .paused ∧
      Unwritten false ((flow o s).drop k) r := by
  obtain ⟨ps, hps⟩ := flow_enter o s
  rw [hps] at hchain ⊢
  cases k with
  | succ k =>
    obtain ⟨exit, hend⟩ := chain_paused o h ((ps.take k).map Part.stage)
    cases hend.symm.trans hchain
  | zero =>
    cases hchain
    obtain ⟨exit, henter⟩ := enter_paused o h
    rw [pause_self h, drop_zero, map_cons, chain, seq, shared_eq _ rfl, Unwritten]
    simp only [henter]
    exact ⟨h, rfl, rfl⟩

end Runs

/-- A pause lasts exactly when the execution that is under way has no status left to
write. -/
theorem pause_kept_iff (o : Answers) (s : Stack) (k : Nat) : Kept o s k ↔ Spared o s k := by
  rw [kept_iff_status]
  unfold interleaved Spared
  cases hchain : chain (((flow o s).take k).map Part.stage) { db := s, stack := s } with
  | error f => exact iff_of_true rfl trivial
  | ok r =>
    by_cases hpaused : s.status = .paused
    · obtain ⟨hstatus, hunwritten⟩ := paused_twice hpaused hchain
      exact iff_of_true hstatus hunwritten
    · have hstart : Clean { db := s, stack := s } := ⟨rfl, hpaused, fun h => by cases h⟩
      obtain ⟨hclean, hexpects⟩ := clean_after_take hstart (flow_fits o s) (flow_expects o s _) hchain
      exact paused_iff_unwritten hclean (fun h => by cases h) ((flow_fits o s).drop k) hexpects

/-- The stack is paused while its revision is deployed. The save that ends the
deploy makes it active, and the next commit is deployed. -/
theorem paused_stack_deployed : let o : Answers := { fetched := some "c1", rendered := some "v1" }
    let later : Answers := { fetched := some "c2", rendered := some "v2" }
    let row := (interleaved o {} 5).run.db
    row.status = .active ∧ (∃ r, atDeploy later row .reconcile = .ok r) ∧ ¬ Kept o {} 5 := by
  intro o later row
  have hactive : row.status = .active := by decide +kernel
  have hdeploys : (atDeploy later row .reconcile).isOk = true := by decide +kernel
  refine ⟨hactive, ?_, fun hkept => ?_⟩
  · cases hr : atDeploy later row .reconcile with
    | ok r => exact ⟨r, rfl⟩
    | error f =>
      rw [hr] at hdeploys
      cases hdeploys
  · cases hactive.symm.trans hkept.status

end Wireops.Sync.Pausing
