import Wireops.Lib.Floats
import Wireops.Lib.Strings

/-!
# Durations

A duration counts nanoseconds in 64 bits. Its text is a sign and a sum of decimal numbers,
each with a unit.
-/

namespace Wireops.Lib.Durations

open Lib.Strings Lib.Floats

def second : Int64 := 1000000000

def seconds (d : Int64) : ℚ :=
  float64 (float64 (d.toInt.tdiv 1000000000) + float64 (float64 (d.toInt.tmod 1000000000) / 1000000000))

def int (q : ℚ) : Int64 := Int64.ofInt (trunc q)

inductive Fault where
  | invalid
  | missingUnit
  | unknownUnit (u : Text)
  deriving DecidableEq

def limit : Nat := 9223372036854775808

def leadingInt (x : Nat) : Text → Option (Nat × Text)
  | [] => some (x, [])
  | c :: s =>
    if !c.isDigit then some (x, c :: s)
    else if x > limit / 10 then none
    else
      let x := x * 10 + (c.toNat - '0'.toNat)
      if x > limit then none else leadingInt x s

/-- The scale is a power of ten that the floating point format has. -/
def leadingFraction (x scale : Nat) (overflow : Bool) : Text → Nat × Nat × Text
  | [] => (x, scale, [])
  | c :: s =>
    if !c.isDigit then (x, scale, c :: s)
    else if overflow then leadingFraction x scale true s
    else if x > (limit - 1) / 10 then leadingFraction x scale true s
    else
      let y := x * 10 + (c.toNat - '0'.toNat)
      if y > limit then leadingFraction x scale true s else leadingFraction y (scale * 10) false s

def unitMap (u : Text) : Option Nat :=
  if u = ['n', 's'] then some 1
  else if u = ['u', 's'] ∨ u = ['µ', 's'] ∨ u = ['μ', 's'] then some 1000
  else if u = ['m', 's'] then some 1000000
  else if u = ['s'] then some 1000000000
  else if u = ['m'] then some 60000000000
  else if u = ['h'] then some 3600000000000
  else none

def inNumber (c : Char) : Bool := c = '.' || c.isDigit

def fraction (s : Text) : Nat × Nat × Bool × Text :=
  match s with
  | '.' :: t =>
    let (f, scale, rest) := leadingFraction 0 1 false t
    (f, scale, rest.length ≠ t.length, rest)
  | s => (0, 1, false, s)

def term (s : Text) : Except Fault (Nat × Text) :=
  if !(s.head?.any inNumber) then .error .invalid
  else match leadingInt 0 s with
    | none => .error .invalid
    | some (v, rest) =>
      let pre := rest.length ≠ s.length
      let (f, scale, post, rest) := fraction rest
      if !pre && !post then .error .invalid
      else
        let u := rest.takeWhile (fun c => !inNumber c)
        if u = [] then .error .missingUnit
        else match unitMap u with
          | none => .error (.unknownUnit u)
          | some unit =>
            if v > limit / unit then .error .invalid
            else
              let v := v * unit
              if f = 0 then .ok (v, rest.dropWhile (fun c => !inNumber c))
              else
                let v := v + (trunc (float64 (float64 f * float64 (unit / scale)))).toNat
                if v > limit then .error .invalid
                else .ok (v, rest.dropWhile (fun c => !inNumber c))

/-- The sum of the terms of a text with at most so many, in 64 bits. -/
def terms : Nat → Nat → Text → Except Fault Nat
  | _, d, [] => .ok d
  | 0, _, _ :: _ => .error .invalid
  | n + 1, d, c :: s =>
    match term (c :: s) with
    | .error e => .error e
    | .ok (v, rest) =>
      let d := (d + v) % 18446744073709551616
      if d > limit then .error .invalid else terms n d rest

def parseDuration (s : Text) : Except Fault Int64 :=
  let (neg, s) := match s with
    | '-' :: s => (true, s)
    | '+' :: s => (false, s)
    | s => (false, s)
  if s = ['0'] then .ok 0
  else if s = [] then .error .invalid
  else match terms s.length 0 s with
    | .error e => .error e
    | .ok d =>
      if neg then .ok (Int64.ofInt (-d))
      else if d > limit - 1 then .error .invalid
      else .ok (Int64.ofInt d)

variable {s rest : Text} {n : ℤ} {d : Int64}

theorem leadingInt_length {x v : Nat} (h : leadingInt x s = some (v, rest)) : rest.length ≤ s.length := by
  induction s generalizing x with
  | nil => simp_all [leadingInt]
  | cons c s ih => grind [leadingInt]

theorem leadingFraction_length (x scale : Nat) (overflow : Bool) (s : Text) :
    (leadingFraction x scale overflow s).2.2.length ≤ s.length := by
  induction s generalizing x scale overflow with
  | nil => simp [leadingFraction]
  | cons c s ih => grind [leadingFraction]

theorem fraction_length (s : Text) : (fraction s).2.2.2.length ≤ s.length := by
  unfold fraction
  split
  · exact (leadingFraction_length ..).trans (Nat.le_succ _)
  · exact le_rfl

theorem length_dropWhile_lt {p : Char → Bool} (h : s.takeWhile p ≠ []) : (s.dropWhile p).length < s.length := by
  have hsum := congrArg List.length (@List.takeWhile_append_dropWhile _ p s)
  rw [List.length_append] at hsum
  have hpos := List.length_pos_iff.mpr h
  omega

/-- A term has a unit at least, so that what is left is shorter. -/
theorem term_length {v : Nat} (h : term s = .ok (v, rest)) : rest.length < s.length := by
  unfold term at h
  split at h
  · cases h
  · split at h
    · cases h
    · next v' rest' hint =>
      have hlen := (fraction_length rest').trans (leadingInt_length hint)
      have hdrop := @length_dropWhile_lt (fraction rest').2.2.2 (fun c => !inNumber c)
      grind

/-- A text has no more terms than characters, so that its length is enough. -/
theorem terms_eq {n m d : Nat} (hn : s.length ≤ n) (hm : s.length ≤ m) : terms n d s = terms m d s := by
  induction n generalizing m d s with
  | zero => simp_all [terms]
  | succ n ih =>
    cases s with
    | nil => simp only [terms]
    | cons c s =>
      cases m with
      | zero => cases hm
      | succ m =>
        simp only [terms]
        cases hterm : term (c :: s) with
        | error => rfl
        | ok p =>
          have hlt := @term_length _ p.2 p.1 hterm
          grind

theorem toInt_mul_second (n : Int64) : (n * second).toInt = (1000000000 * n.toInt).bmod (2 ^ 64) := by
  rw [Int64.toInt_mul, mul_comm]
  rfl

theorem toInt_int (hn : 0 < n) (h : n ≤ 2 ^ 34) : (Int64.ofInt n).toInt = n :=
  Int64.toInt_ofInt_of_le (by omega) (by omega)

theorem seconds_whole (hd : d.toInt = 1000000000 * n) : seconds d = n := by
  have hn : |n| < 2 ^ 53 := by
    have := d.le_toInt
    have := d.toInt_lt
    rw [abs_lt]
    omega
  rw [seconds, hd, Int.mul_tdiv_cancel_left n (by decide), Int.mul_tmod_right, Int.cast_zero, float64_zero,
    zero_div, float64_zero, add_zero, float64_intCast hn, float64_intCast hn]

/-- The seconds are between the whole ones and a part of the next, if what is left of the
duration is at most that part. -/
theorem seconds_between {j : ℕ} {b : ℤ} (hd : 0 ≤ d.toInt) (hj : j ≤ 52) (hb : b ≤ 2 ^ j)
    (hfit : d.toInt / 1000000000 * 2 ^ j + 2 ^ j < 2 ^ 53) (h : d.toInt % 1000000000 * 2 ^ j ≤ b * 1000000000) :
    (d.toInt / 1000000000 : ℤ) ≤ seconds d ∧ seconds d * 2 ^ j ≤ (d.toInt / 1000000000 * 2 ^ j + b : ℤ) := by
  have hlt := d.toInt_lt
  obtain ⟨s, hs⟩ : ∃ s, d.toInt / 1000000000 = s := ⟨_, rfl⟩
  obtain ⟨r, hr⟩ : ∃ r, d.toInt % 1000000000 = r := ⟨_, rfl⟩
  have hseconds : seconds d = float64 (s + float64 (r / 1000000000)) := by
    rw [seconds, Int.tdiv_eq_ediv_of_nonneg hd, Int.tmod_eq_emod_of_nonneg hd, hs, hr]
    rw [float64_intCast, float64_intCast] <;> (rw [abs_lt]; omega)
  have hpart : (r : ℚ) / 1000000000 * 2 ^ j ≤ b := by
    rw [div_mul_eq_mul_div, div_le_iff₀ (by norm_num)]
    rw [hr] at h
    exact_mod_cast h
  have hnonneg : (0 : ℚ) ≤ (r : ℚ) / 1000000000 := div_nonneg (Int.cast_nonneg (by omega)) (by norm_num)
  have hpow : 0 ≤ s * 2 ^ j := mul_nonneg (by omega) (by positivity)
  rw [hs] at hfit
  obtain ⟨hlow, hhigh⟩ := float64_between hj le_rfl (Int.cast_zero.trans_le hnonneg) hpart (by omega)
  rw [hs, hseconds]
  apply float64_between hj (by omega)
  · rw [Int.cast_zero] at hlow
    linarith
  · push_cast
    linarith
  · omega

/-- There are no more of them than nanoseconds of 64 bits have room for. -/
theorem trunc_seconds (h : 0 ≤ d.toInt) : d.toInt / 1000000000 ≤ trunc (seconds d) ∧
    trunc (seconds d) ≤ d.toInt / 1000000000 + 1 ∧ trunc (seconds d) ≤ 9223372036 := by
  have hlt := d.toInt_lt
  obtain ⟨hge, hle⟩ := @seconds_between d 0 1 h (by decide) (by decide) (by omega) (by omega)
  have htrunc : trunc (seconds d) ≤ seconds d := trunc_le (le_trans (Int.cast_nonneg (by omega)) hge)
  have hnext : trunc (seconds d) ≤ d.toInt / 1000000000 + 1 := by
    rw [pow_zero, mul_one, pow_zero, mul_one] at hle
    exact_mod_cast htrunc.trans hle
  refine ⟨le_trunc (by omega) hge, hnext, ?_⟩
  by_cases hlast : d.toInt / 1000000000 = 9223372036
  · -- Seven eighths of a second are more than what is left of the longest.
    have heighths := (@seconds_between d 3 7 h (by decide) (by decide) (by omega) (by omega)).2
    have : trunc (seconds d) * 2 ^ 3 ≤ d.toInt / 1000000000 * 2 ^ 3 + 7 := by
      exact_mod_cast (mul_le_mul_of_nonneg_right htrunc (by norm_num)).trans heighths
    omega
  · omega

theorem seconds_nonpos (h : d.toInt < 0) : -9223372037 ≤ seconds d ∧ seconds d ≤ 0 := by
  have hlow := d.le_toInt
  obtain ⟨m, hm⟩ : ∃ m, d.toInt = -m := ⟨-d.toInt, by omega⟩
  obtain ⟨s, hs⟩ : ∃ s, m / 1000000000 = s := ⟨_, rfl⟩
  obtain ⟨r, hr⟩ : ∃ r, m % 1000000000 = r := ⟨_, rfl⟩
  have hseconds : seconds d = float64 (-s + float64 (-r / 1000000000)) := by
    rw [seconds, hm, Int.neg_tdiv, Int.neg_tmod, Int.tdiv_eq_ediv_of_nonneg (by omega),
      Int.tmod_eq_emod_of_nonneg (by omega), hs, hr, float64_intCast, float64_intCast]
    · push_cast
      rfl
    all_goals rw [abs_lt]; omega
  have hs0 : (0 : ℚ) ≤ s := by exact_mod_cast (by omega : 0 ≤ s)
  have hs1 : (s : ℚ) ≤ 9223372036 := by exact_mod_cast (by omega : s ≤ 9223372036)
  have hr0 : -(r : ℚ) / 1000000000 ≤ 0 := by
    have : (0 : ℚ) ≤ r := by exact_mod_cast (by omega : 0 ≤ r)
    linarith
  have hr1 : -1 ≤ -(r : ℚ) / 1000000000 := by
    have : (r : ℚ) ≤ 1000000000 := by exact_mod_cast (by omega : r ≤ 1000000000)
    linarith
  obtain ⟨hlow, hhigh⟩ := float64_within (m := -1) (n := 0) (by norm_num) (by norm_num)
    (by simpa using hr1) (by simpa using hr0)
  rw [hseconds]
  simpa using float64_within (m := -9223372037) (n := 0) (by norm_num) (by norm_num)
    (by push_cast at hlow ⊢; linarith) (by push_cast at hhigh ⊢; linarith)

theorem trunc_seconds_of_lt (h : d < second) : -9223372037 ≤ trunc (seconds d) ∧ trunc (seconds d) ≤ 0 := by
  rw [Int64.lt_iff_toInt_lt] at h
  change d.toInt < 1000000000 at h
  by_cases hneg : d.toInt < 0
  · obtain ⟨hlow, hhigh⟩ := seconds_nonpos hneg
    exact trunc_bounds (by exact_mod_cast hlow) (by linarith)
  · obtain ⟨hlow, hhigh⟩ := @seconds_between d 30 (2 ^ 30 - 1) (by omega) (by decide) (by omega) (by omega) (by omega)
    have hzero : d.toInt / 1000000000 = 0 := by omega
    rw [hzero] at hlow hhigh
    push_cast at hlow hhigh
    exact trunc_bounds (by push_cast; linarith) (by linarith)

theorem le_toInt_of_second (h : ¬ d < second) : 1000000000 ≤ d.toInt := by
  rw [Int64.lt_iff_toInt_lt] at h
  exact not_lt.mp h

/-- A duration of at least a second has at least one, and few enough to be exact. -/
theorem seconds_bounds (h : ¬ d < second) : 1 ≤ trunc (seconds d) ∧ trunc (seconds d) ≤ 2 ^ 34 := by
  have hlow := le_toInt_of_second h
  have hhigh := d.toInt_lt
  obtain ⟨hge, hle, -⟩ := @trunc_seconds d (by omega)
  omega

end Wireops.Lib.Durations
