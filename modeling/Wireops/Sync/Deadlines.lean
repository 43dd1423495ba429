import Wireops.Lib.Durations

/-!
# The deadline of a deploy

A deploy has the time that the server gives to a pull and the time that the
stack, or else the server, gives to bringing it up. The stack's goes from a
text of its definition to a duration, to seconds, to a number of its record and
back to a duration. -/

namespace Wireops.Sync.Deadlines

open Lib.Strings Lib.Floats Lib.Durations

structure Definition where
  version : Text := "wireops.v1".toList
  name : Text
  timeout : Text := []
  interval : Option Text := none

inductive Problem where
  | versionRequired
  | unsupportedVersion (version : Text)
  | nameRequired
  | timeoutInvalid (fault : Fault)
  | timeoutTooShort
  | intervalInvalid (fault : Fault)
  | intervalTooShort

def durationProblems (text : Text) (invalid : Fault → Problem) (tooShort : Problem) : List Problem :=
  if text = [] then []
  else match parseDuration text with
    | .error fault => [invalid fault]
    | .ok d => if d < second then [tooShort] else []

def Definition.validate (d : Definition) : List Problem :=
  (if d.version = [] then [.versionRequired]
    else if d.version ≠ "wireops.v1".toList then [.unsupportedVersion d.version] else []) ++
  (if d.name = [] then [.nameRequired] else []) ++ durationProblems d.timeout .timeoutInvalid .timeoutTooShort ++
  durationProblems (d.interval.getD []) .intervalInvalid .intervalTooShort

structure Schedule where
  deployTimeoutSeconds : Int64 := 0
  syncIntervalSeconds : Int64 := 0

/-- The seconds of a duration that was checked before. -/
def resolved (text : Text) : Int64 :=
  if text = [] then 0
  else match parseDuration text with
    | .error _ => int (seconds 0)
    | .ok d => int (seconds d)

def finalizeDefinition (d : Definition) : Except (List Problem) Schedule :=
  if d.validate ≠ [] then .error d.validate
  else .ok ⟨resolved d.timeout, resolved (d.interval.getD [])⟩

def stored (n : Int64) : Int64 := int (float64 n.toInt)

inductive Field where
  | deployTimeoutSeconds
  | syncIntervalSeconds

structure Change where
  field : Field
  before : Int64
  after : Int64

def Schedule.set (row : Schedule) (c : Change) : Schedule :=
  match c.field with
  | .deployTimeoutSeconds => { row with deployTimeoutSeconds := stored c.after }
  | .syncIntervalSeconds => { row with syncIntervalSeconds := stored c.after }

variable (env : Env) (stack : Schedule)

def scheduleChangesFor (d : Schedule) : Schedule × List Change :=
  let candidates := [⟨.deployTimeoutSeconds, stack.deployTimeoutSeconds, d.deployTimeoutSeconds⟩,
    ⟨.syncIntervalSeconds, stack.syncIntervalSeconds, d.syncIntervalSeconds⟩]
  let changes := candidates.filter (fun c : Change => c.before ≠ c.after)
  (changes.foldl Schedule.set stack, changes)

structure Env where
  pullTimeout : Text := []
  deployTimeout : Text := []

def digits (s : Text) : Option Nat :=
  if s ≠ [] ∧ s.all Char.isDigit then some (s.foldl (fun n c => n * 10 + (c.toNat - '0'.toNat)) 0) else none

def atoi (s : Text) : Option Int64 :=
  match s with
  | '-' :: s => (digits s).bind (fun n => if n ≤ limit then some (Int64.ofInt (-n)) else none)
  | '+' :: s => (digits s).bind (fun n => if n < limit then some (Int64.ofInt n) else none)
  | s => (digits s).bind (fun n => if n < limit then some (Int64.ofInt n) else none)

/-- How many seconds a variable says, if it says a positive number. -/
def configured (raw : Text) (defaultSeconds : Int64) : Int64 :=
  if trimSpace raw = [] then defaultSeconds
  else match atoi (trimSpace raw) with
    | some val => if 0 < val then val else defaultSeconds
    | none => defaultSeconds

def getPullTimeout : Int64 := configured env.pullTimeout (30 * 60) * second

def getDeployTimeout : Int64 := configured env.deployTimeout (5 * 60) * second

def deployUpTimeoutSeconds : Int64 :=
  if 0 < stack.deployTimeoutSeconds then stack.deployTimeoutSeconds
  else int (seconds (getDeployTimeout env))

def withDeployTimeout : Int64 :=
  getPullTimeout env + deployUpTimeoutSeconds env stack * second

def pullSeconds : ℤ := (configured env.pullTimeout (30 * 60)).toInt

def upSeconds : ℤ :=
  if 0 < stack.deployTimeoutSeconds then stack.deployTimeoutSeconds.toInt
  else (configured env.deployTimeout (5 * 60)).toInt

def Exact : Prop :=
  0 < (withDeployTimeout env stack).toInt ∧
    (withDeployTimeout env stack).toInt = 1000000000 * (pullSeconds env + upSeconds env stack)

/-- The whole seconds of the longest duration. -/
def maxSeconds : ℤ := 9223372036

variable {env : Env} {stack schedule : Schedule} {d : Definition} {n : ℤ}

theorem configured_pos (raw : Text) {defaultSeconds : Int64} (h : 0 < defaultSeconds) :
    0 < (configured raw defaultSeconds).toInt := by
  rw [← Int64.toInt_zero, ← Int64.lt_iff_toInt_lt]
  unfold configured
  split_ifs
  · exact h
  · split
    · split_ifs <;> assumption
    · exact h

theorem upSeconds_pos (env : Env) (stack : Schedule) : 0 < upSeconds env stack := by
  unfold upSeconds
  split
  · next h => rwa [Int64.lt_iff_toInt_lt, Int64.toInt_zero] at h
  · exact configured_pos _ (by decide)

theorem toInt_withDeployTimeout (env : Env) (stack : Schedule) : (withDeployTimeout env stack).toInt =
    (1000000000 * (pullSeconds env + (deployUpTimeoutSeconds env stack).toInt)).bmod (2 ^ 64) := by
  rw [withDeployTimeout, getPullTimeout, Int64.toInt_add, toInt_mul_second, toInt_mul_second, Int.bmod_add_bmod,
    Int.add_bmod_bmod, mul_add, pullSeconds]

theorem bmod_nanoseconds (hpos : 0 < n) (h : n ≤ maxSeconds) : (1000000000 * n).bmod (2 ^ 64) = 1000000000 * n := by
  unfold maxSeconds at h
  apply Int.bmod_eq_of_le <;> omega

theorem toInt_deployUpTimeoutSeconds (h : upSeconds env stack ≤ maxSeconds) :
    (deployUpTimeoutSeconds env stack).toInt = upSeconds env stack := by
  unfold deployUpTimeoutSeconds
  unfold upSeconds at h ⊢
  split
  · rfl
  · next hnone =>
    rw [if_neg hnone] at h
    have hpos := configured_pos env.deployTimeout (show (0 : Int64) < 5 * 60 by decide)
    have hduration : (getDeployTimeout env).toInt = 1000000000 * (configured env.deployTimeout (5 * 60)).toInt := by
      rw [getDeployTimeout, toInt_mul_second, bmod_nanoseconds hpos h]
    unfold maxSeconds at h
    rw [int, seconds_whole hduration, trunc_intCast, toInt_int hpos (by omega)]

theorem exact_iff (env : Env) (stack : Schedule) :
    Exact env stack ↔ pullSeconds env + upSeconds env stack ≤ maxSeconds := by
  have hpull : 0 < pullSeconds env := configured_pos _ (by decide)
  have hup := upSeconds_pos env stack
  constructor
  · rintro ⟨-, htotal⟩
    have hlt := (withDeployTimeout env stack).toInt_lt
    unfold maxSeconds
    omega
  · intro h
    have htotal : (withDeployTimeout env stack).toInt = 1000000000 * (pullSeconds env + upSeconds env stack) := by
      rw [toInt_withDeployTimeout, toInt_deployUpTimeoutSeconds (by omega), bmod_nanoseconds (by omega) h]
    exact ⟨by omega, htotal⟩

def declaredSeconds (env : Env) (d : Definition) : ℤ :=
  if d.timeout = [] then (configured env.deployTimeout (5 * 60)).toInt
  else match parseDuration d.timeout with
    | .ok duration => trunc (seconds duration)
    | .error _ => 0

theorem stored_eq {n : Int64} (h : |n.toInt| < 2 ^ 53) : stored n = n := by
  rw [stored, float64_intCast h, int, trunc_intCast, Int64.ofInt_toInt]

theorem scheduleChangesFor_timeout (stack schedule : Schedule) (h : |schedule.deployTimeoutSeconds.toInt| < 2 ^ 53) :
    (scheduleChangesFor stack schedule).1.deployTimeoutSeconds = schedule.deployTimeoutSeconds := by
  by_cases htimeout : stack.deployTimeoutSeconds = schedule.deployTimeoutSeconds <;>
    by_cases hinterval : stack.syncIntervalSeconds = schedule.syncIntervalSeconds <;>
    simp [scheduleChangesFor, htimeout, hinterval, Schedule.set, stored_eq h]

theorem parseDuration_of_accepted {text : Text} {invalid : Fault → Problem} {tooShort : Problem}
    (h : durationProblems text invalid tooShort = []) (hne : text ≠ []) :
    ∃ duration, parseDuration text = .ok duration ∧ ¬ duration < second := by
  rw [durationProblems, if_neg hne] at h
  cases hparse : parseDuration text with
  | error fault => simp [hparse] at h
  | ok duration => exact ⟨duration, rfl, fun hlt => by simp [hparse, hlt] at h⟩

theorem finalizeDefinition_ok (h : finalizeDefinition d = .ok schedule) :
    d.validate = [] ∧ schedule = ⟨resolved d.timeout, resolved (d.interval.getD [])⟩ := by
  unfold finalizeDefinition at h
  split at h
  · cases h
  · next haccepted =>
    cases h
    exact ⟨not_not.mp haccepted, rfl⟩

theorem toInt_resolved (env : Env) (h : d.validate = []) (hne : d.timeout ≠ []) :
    (resolved d.timeout).toInt = declaredSeconds env d ∧ 0 < (resolved d.timeout).toInt ∧
      (resolved d.timeout).toInt ≤ 2 ^ 34 := by
  simp only [Definition.validate, List.append_eq_nil_iff] at h
  obtain ⟨duration, hparse, hlong⟩ := parseDuration_of_accepted h.1.2 hne
  obtain ⟨hone, hfew⟩ := seconds_bounds hlong
  have hresolved : (resolved d.timeout).toInt = trunc (seconds duration) := by
    rw [resolved, if_neg hne, hparse]
    exact toInt_int hone hfew
  rw [declaredSeconds, if_neg hne, hparse]
  exact ⟨hresolved, by omega, by omega⟩

theorem upSeconds_eq (env : Env) (stack : Schedule) (h : finalizeDefinition d = .ok schedule) :
    upSeconds env (scheduleChangesFor stack schedule).1 = declaredSeconds env d := by
  obtain ⟨haccepted, rfl⟩ := finalizeDefinition_ok h
  by_cases hne : d.timeout = []
  · have hzero : resolved d.timeout = 0 := if_pos hne
    rw [upSeconds, scheduleChangesFor_timeout stack _ (by simp [hzero])]
    rw [declaredSeconds, if_pos hne, if_neg (by simp [hzero])]
  · obtain ⟨hdeclared, hpos, hfew⟩ := toInt_resolved env haccepted hne
    have hsmall : |(resolved d.timeout).toInt| < 2 ^ 53 := by
      rw [abs_of_pos hpos]
      omega
    have hset : 0 < resolved d.timeout := by rwa [Int64.lt_iff_toInt_lt, Int64.toInt_zero]
    rw [upSeconds, scheduleChangesFor_timeout stack ⟨resolved d.timeout, _⟩ hsmall]
    rw [if_pos hset, hdeclared]

/-- The deadline is the sum of the two timeouts where nanoseconds of 64 bits have room
for it, whatever the record has and whichever definition it has it from. -/
theorem deadline_exact_iff (env : Env) :
    (∀ stack, Exact env stack ↔ pullSeconds env + upSeconds env stack ≤ maxSeconds) ∧
      ∀ d schedule stack, finalizeDefinition d = .ok schedule → (Exact env (scheduleChangesFor stack schedule).1 ↔
          pullSeconds env + declaredSeconds env d ≤ maxSeconds) := by
  refine ⟨exact_iff env, fun d schedule stack h => ?_⟩
  rw [exact_iff, upSeconds_eq env stack h]

theorem finalizeDefinition_of_accepted (h : d.validate = []) :
    finalizeDefinition d = .ok ⟨resolved d.timeout, resolved (d.interval.getD [])⟩ :=
  if_neg (not_not.mpr h)

theorem declaredSeconds_whole {duration : Int64} (hne : d.timeout ≠ [])
    (hparse : parseDuration d.timeout = .ok duration) (hwhole : duration.toInt = 1000000000 * n) :
    declaredSeconds env d = n := by
  rw [declaredSeconds, if_neg hne, hparse]
  dsimp only
  rw [seconds_whole hwhole, trunc_intCast]

def fiveMinutes : Definition := { name := ['w'], timeout := ['5', 'm'] }

theorem deadline_exact_iff_fiveMinutes : Exact {} ⟨300, 0⟩ ∧
    ∃ schedule, finalizeDefinition fiveMinutes = .ok schedule ∧ Exact {} (scheduleChangesFor {} schedule).1 := by
  have haccepted : fiveMinutes.validate = [] := by decide +kernel
  have hok := finalizeDefinition_of_accepted haccepted
  have hdeclared : declaredSeconds {} fiveMinutes = 300 :=
    declaredSeconds_whole (by decide) (show parseDuration ['5', 'm'] = .ok 300000000000 by decide +kernel) (by decide)
  have hexact := deadline_exact_iff {}
  refine ⟨(hexact.1 _).mpr (by decide), _, hok, (hexact.2 _ _ _ hok).mpr ?_⟩
  rw [hdeclared]
  decide

def longest : Definition := { name := ['w'], timeout := "2562047h47m16s".toList }

/-- It is accepted, and a deploy that has it is over before it starts. A record may have
a timeout that leaves little more than the pull's. -/
theorem deadline_overflows : longest.validate = [] ∧ (∃ schedule, finalizeDefinition longest = .ok schedule ∧
      ∀ stack, (withDeployTimeout {} (scheduleChangesFor stack schedule).1).toInt < 0) ∧
    withDeployTimeout {} ⟨18446744074, 0⟩ = 1800290448384 := by
  have haccepted : longest.validate = [] := by decide +kernel
  have hok := finalizeDefinition_of_accepted haccepted
  have hdeclared : declaredSeconds {} longest = maxSeconds :=
    declaredSeconds_whole (by decide)
      (show parseDuration "2562047h47m16s".toList = .ok 9223372036000000000 by decide +kernel) (by decide)
  refine ⟨haccepted, ⟨_, hok, fun stack => ?_⟩, by decide⟩
  have hup := upSeconds_eq {} stack hok
  rw [toInt_withDeployTimeout, toInt_deployUpTimeoutSeconds (by rw [hup, hdeclared]), hup, hdeclared]
  decide

end Wireops.Sync.Deadlines
