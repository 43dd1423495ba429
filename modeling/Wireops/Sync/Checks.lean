import Wireops.Sync.Stages

namespace Wireops.Sync.Checks

open Lib.Flow Sync.Reconcile Sync.Stages

variable {o : Answers} {r : Run} {P : Run → Prop} {E : Finish → Prop}

/-- The exits that leave the record as it is stored. -/
def plain : Exit → Bool
  | .failed | .skipped .. | .unrestored _ | .deployed => false
  | .notFound | .paused | .secretError | .saveFailed | .queued | .cancelled | .vanished
  | .logFailed | .repoUnsaved => true

inductive Outcome (o : Answers) (r : Run) : Except Finish Run → Prop where
  | pass : Outcome o r (.ok r)
  | fail : Outcome o r (fail o r)
  | failSecret : Outcome o r (fail o (r.setSecretError true))
  | stop {exit : Exit} (h : plain exit = true) : Outcome o r (.error ⟨exit, r⟩)

def Check (o : Answers) (m : Stage Run Finish) : Prop := ∀ r, Outcome o r (m r)

/-- What `E` has to allow for the checks that are made in `P`. -/
structure Rules (o : Answers) (P : Run → Prop) (E : Finish → Prop) : Prop where
  fail : ∀ {r}, P r → E ⟨.failed, markError o .error r⟩
  failSecret : ∀ {r}, P r → E ⟨.failed, markError o .error (r.setSecretError true)⟩
  stop : ∀ {r exit}, P r → plain exit = true → E ⟨exit, r⟩

theorem Check.after {m : Stage Run Finish} {Q : Run → Prop} (hm : Check o m) (h : Rules o P E)
    (hP : P r) (hQ : Q r) : After Q E (m r) := by
  have hout := hm r
  generalize m r = x at hout ⊢
  cases hout with
  | pass => exact hQ
  | fail => exact h.fail hP
  | failSecret => exact h.failSecret hP
  | stop hx => exact h.stop hP hx

theorem Check.triple {m : Stage Run Finish} (hm : Check o m) (h : Rules o P E) : Triple P m P E :=
  fun _ hP => hm.after h hP hP

theorem check_checkFound : Check o (checkFound o) := by
  intro r
  unfold checkFound
  split
  · exact .pass
  · exact .stop rfl

theorem check_enter : Check o (enter o) := by
  intro r
  unfold enter
  split
  · exact .stop rfl
  · split
    · exact .stop rfl
    · split
      · exact .stop rfl
      · exact .pass

theorem check_require (ok : Bool) : Check o (require o ok) := by
  intro r
  cases ok with
  | true => exact .pass
  | false => exact .fail

theorem check_requireSecret (ok : Bool) : Check o (requireSecret o ok) := by
  intro r
  cases ok with
  | true => exact .pass
  | false => exact .failSecret

theorem check_waitForRunningJobs : Check o (waitForRunningJobs o) := by
  intro r
  unfold waitForRunningJobs
  split
  · exact .pass
  · exact .stop rfl
  · exact .fail

theorem check_createSyncLog : Check o (createSyncLog o) := by
  intro r
  unfold createSyncLog
  split
  · exact .pass
  · exact .stop rfl

theorem check_deployOnce : Check o (deployOnce o) := by
  intro r
  unfold deployOnce
  dsimp only
  split
  · exact .pass
  · exact .fail

theorem check_saveRepo : Check o (saveRepo o) := by
  intro r
  unfold saveRepo
  split
  · exact .pass
  · exact .stop rfl

section Opening

variable {Q : Run → Prop} {n : Stage Run Finish} {a b c d : Bool}
  (hcheck : ∀ {m}, Check o m → Triple P m P E)

include hcheck

theorem triple_begin (hstart : Triple P (start o) P E) (hn : Triple P n Q E) :
    Triple P (seq (checkFound o) (seq (requireSecret o a) (seq (start o)
      (seq (require o b) (seq (require o c) (seq (require o d) n)))))) Q E := by
  refine (hcheck check_checkFound).seq ((hcheck (check_requireSecret a)).seq (hstart.seq ?_))
  exact (hcheck (check_require b)).seq ((hcheck (check_require c)).seq ((hcheck (check_require d)).seq hn))

theorem triple_secrets (hclear : Triple P (clearSecretError o) P E) (hn : Triple P n Q E) :
    Triple P (seq (requireSecret o a) (seq (requireSecret o b)
      (seq (clearSecretError o) (seq (require o c) n)))) Q E := by
  refine (hcheck (check_requireSecret a)).seq ((hcheck (check_requireSecret b)).seq (hclear.seq ?_))
  exact (hcheck (check_require c)).seq hn

end Opening

/-- The opening of a sync from a repository, by what holds between the stages that
are more than checks. -/
theorem triple_gitOpening {P₁ P₂ P₃ P₄ P₅ P₆ : Run → Prop} (h₁ : Rules o P₁ E) (h₂ : Rules o P₂ E)
    (h₃ : Rules o P₃ E) (h₄ : Rules o P₄ E) (h₅ : Rules o P₅ E)
    (hstart : Triple P₁ (start o) P₂ E) (hfetch : Triple P₂ (fetch o) P₃ E)
    (honline : Triple P₃ (checkOnline o) P₃ E) (hcontainer : Triple P₃ (checkContainer o) P₄ E)
    (hsha : Triple P₄ (reloadSHA o) P₅ E) (hclear : Triple P₅ (clearSecretError o) P₅ E)
    (hreload : Triple P₅ (reload o) P₆ E) : Triple P₁ (chain (gitParts o).opening.tail) P₆ E := by
  refine ((check_requireSecret _).triple h₁).seq (hstart.seq ?_)
  refine ((check_require _).triple h₂).seq (hfetch.seq ?_)
  refine ((check_require _).triple h₃).seq (((check_require _).triple h₃).seq ?_)
  refine honline.seq (hcontainer.seq ((check_waitForRunningJobs.triple h₄).seq (hsha.seq ?_)))
  refine ((check_require _).triple h₅).seq (((check_require _).triple h₅).seq ?_)
  refine ((check_requireSecret _).triple h₅).seq (((check_requireSecret _).triple h₅).seq ?_)
  exact hclear.seq (hreload.seq fun _ h => h)

end Wireops.Sync.Checks
