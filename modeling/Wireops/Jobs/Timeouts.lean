import Wireops.Jobs.ConfigStaging
import Wireops.Lib.Durations

/-!
# The time limit of a job

The timeout of a definition is checked as a text, goes to the worker as a number of
seconds and is a duration again there.
-/

namespace Wireops.Jobs.Timeouts

open Lib.Strings Lib.Floats Lib.Durations
open ConfigStaging (Definition)

def Accepted (d : Definition) : Prop := d.validate (fun timeout => (parseDuration timeout).isOk) = []

def timeoutSecs (timeout : Text) : Int64 :=
  if timeout = [] then 0
  else match parseDuration timeout with
    | .ok d => int (seconds d)
    | .error _ => 0

/-- The limit that the worker puts on the run. -/
def runJobTimeout (timeoutSeconds : Int64) : Int64 :=
  if 0 < timeoutSeconds then timeoutSeconds * second else 10 * 60 * second

def timeLimit (d : Definition) : Int64 := runJobTimeout (timeoutSecs d.resources.timeout)

/-- The limit is off the timeout by less than a second. -/
def Kept (d : Definition) : Prop := ∃ timeout, parseDuration d.resources.timeout = .ok timeout ∧
  |(timeLimit d).toInt - timeout.toInt| < 1000000000

variable {d : Definition} {timeout : Int64}

theorem parseDuration_of_accepted (h : Accepted d) :
    d.resources.timeout ≠ [] ∧ ∃ timeout, parseDuration d.resources.timeout = .ok timeout := by
  simp only [Accepted, Definition.validate, List.append_eq_nil_iff] at h
  have htimeout := h.1.2
  split at htimeout
  · cases htimeout
  · next hne =>
    refine ⟨hne, ?_⟩
    cases hparse : parseDuration d.resources.timeout with
    | error => simp [hparse, Except.isOk, Except.toBool] at htimeout
    | ok timeout => exact ⟨timeout, rfl⟩

theorem toInt_runJobTimeout (h : ¬ timeout < second) :
    (runJobTimeout (int (seconds timeout))).toInt = 1000000000 * trunc (seconds timeout) := by
  have hlow := le_toInt_of_second h
  obtain ⟨hge, -, hfew⟩ := @trunc_seconds timeout (by omega)
  have hint : (int (seconds timeout)).toInt = trunc (seconds timeout) := toInt_int (by omega) (by omega)
  have hpos : 0 < int (seconds timeout) := by
    rw [Int64.lt_iff_toInt_lt, hint, Int64.toInt_zero]
    omega
  rw [runJobTimeout, if_pos hpos, toInt_mul_second, hint]
  apply Int.bmod_eq_of_le <;> omega

theorem timeLimit_eq (hne : d.resources.timeout ≠ []) (h : parseDuration d.resources.timeout = .ok timeout) :
    timeLimit d = runJobTimeout (int (seconds timeout)) := by
  rw [timeLimit, timeoutSecs, if_neg hne, h]

theorem near_of_second_le (h : ¬ timeout < second) :
    |(runJobTimeout (int (seconds timeout))).toInt - timeout.toInt| < 1000000000 := by
  have hlow := le_toInt_of_second h
  obtain ⟨hge, hle, -⟩ := @trunc_seconds timeout (by omega)
  rw [toInt_runJobTimeout h, abs_lt]
  by_cases hwhole : timeout.toInt = 1000000000 * (timeout.toInt / 1000000000)
  · rw [seconds_whole hwhole, trunc_intCast]
    omega
  · omega

/-- Less than a second is cut to none, or below, and the default is ten minutes. -/
theorem far_of_lt_second (h : timeout < second) :
    1000000000 ≤ |(runJobTimeout (int (seconds timeout))).toInt - timeout.toInt| := by
  obtain ⟨hlow, hhigh⟩ := trunc_seconds_of_lt h
  have hint : (int (seconds timeout)).toInt = trunc (seconds timeout) := Int64.toInt_ofInt_of_le (by omega) (by omega)
  have hnot : ¬ 0 < int (seconds timeout) := by
    rw [Int64.lt_iff_toInt_lt, hint, Int64.toInt_zero]
    omega
  rw [Int64.lt_iff_toInt_lt] at h
  have hlt : timeout.toInt < 1000000000 := h
  have hten : (10 * 60 * second).toInt = 600000000000 := by decide
  rw [runJobTimeout, if_neg hnot, hten]
  exact le_trans (by omega) (le_abs_self _)

/-- A timeout is kept exactly if it is a second or more, however long it is. -/
theorem kept_iff_second_le (hd : Accepted d) :
    Kept d ↔ ∀ timeout, parseDuration d.resources.timeout = .ok timeout → ¬ timeout < second := by
  obtain ⟨hne, timeout, hparse⟩ := parseDuration_of_accepted hd
  have hlimit := timeLimit_eq hne hparse
  constructor
  · rintro ⟨t, hp, hnear⟩ t' hp' hlt
    cases hp.symm.trans hp'
    cases hp.symm.trans hparse
    rw [hlimit] at hnear
    exact absurd hnear (not_lt.mpr (far_of_lt_second hlt))
  · intro h
    refine ⟨timeout, hparse, ?_⟩
    rw [hlimit]
    exact near_of_second_le (h timeout hparse)

def jobWith (timeout : Text) : Definition where
  name := "job".toList
  description := "a job".toList
  cron := "@daily".toList
  image := "busybox".toList
  resources := ⟨"1".toList, "64m".toList, timeout⟩
  configs := []

theorem kept_iff_second_le_ninety : Accepted (jobWith "90s".toList) ∧ Kept (jobWith "90s".toList) := by
  have hd : Accepted (jobWith "90s".toList) := rfl
  have hparse : parseDuration "90s".toList = .ok 90000000000 := by decide
  refine ⟨hd, (kept_iff_second_le hd).mpr fun timeout h => ?_⟩
  cases hparse.symm.trans h
  decide

/-- Half a second is accepted, and the job may run for ten minutes. -/
theorem half_unkept : Accepted (jobWith "500ms".toList) ∧ ¬ Kept (jobWith "500ms".toList) ∧
    timeLimit (jobWith "500ms".toList) = 10 * 60 * second := by
  have hparse : parseDuration "500ms".toList = .ok 500000000 := by decide
  have hlimit : timeLimit (jobWith "500ms".toList) = 10 * 60 * second := by decide +kernel
  refine ⟨rfl, ?_, hlimit⟩
  rintro ⟨timeout, h, hnear⟩
  cases hparse.symm.trans h
  rw [hlimit] at hnear
  revert hnear
  decide

end Wireops.Jobs.Timeouts
