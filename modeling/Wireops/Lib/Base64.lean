import Wireops.Lib.Octets

namespace Wireops.Lib.Base64

open Option List Lib.Octets

def alphabet : Bytes := text "ABCDEFGHIJKLMNOPQRSTUVWXYZabcdefghijklmnopqrstuvwxyz0123456789+/"

def digit (n : Nat) : UInt8 := alphabet.getD n 0

def pad : UInt8 := byte '='

def encode : Bytes → Bytes
  | [] => []
  | [a] => [digit (a.toNat / 4), digit (a.toNat % 4 * 16), pad, pad]
  | [a, b] =>
    [digit (a.toNat / 4), digit (a.toNat % 4 * 16 + b.toNat / 16), digit (b.toNat % 16 * 4), pad]
  | a :: b :: c :: s =>
    digit (a.toNat / 4) :: digit (a.toNat % 4 * 16 + b.toNat / 16) ::
      digit (b.toNat % 16 * 4 + c.toNat / 64) :: digit (c.toNat % 64) :: encode s

def value (c : UInt8) : Option Nat := alphabet.idxOf? c

def group (w x y z : UInt8) : Option Bytes := do
  let w ← value w
  let x ← value x
  let first := UInt8.ofNat (w * 4 + x / 16)
  if y = pad then
    if z = pad then some [first] else none
  else
    let y ← value y
    let second := UInt8.ofNat (x % 16 * 16 + y / 4)
    if z = pad then some [first, second]
    else
      let z ← value z
      some [first, second, UInt8.ofNat (y % 4 * 64 + z)]

def decode : Bytes → Option Bytes
  | [] => some []
  | w :: x :: y :: z :: s => do
    let front ← group w x y z
    if z = pad ∧ s ≠ [] then none
    else
      let rest ← decode s
      some (front ++ rest)
  | _ => none

theorem digits_sound : (List.range 64).all (fun n => value (digit n) == some n && digit n != pad) = true := by
  decide +kernel

theorem value_digit {n : Nat} (h : n < 64) : value (digit n) = some n := by
  have hn := all_eq_true.mp digits_sound n (mem_range.mpr h)
  exact beq_iff_eq.mp (Bool.and_eq_true_iff.mp hn).1

theorem digit_ne_pad {n : Nat} (h : n < 64) : digit n ≠ pad := by
  have hn := all_eq_true.mp digits_sound n (mem_range.mpr h)
  exact bne_iff_ne.mp (Bool.and_eq_true_iff.mp hn).2

section Group

variable {w x y z : Nat}

theorem group_one (hw : w < 64) (hx : x < 64) :
    group (digit w) (digit x) pad pad = some [UInt8.ofNat (w * 4 + x / 16)] := by
  rw [group, value_digit hw, value_digit hx]
  rfl

theorem group_two (hw : w < 64) (hx : x < 64) (hy : y < 64) : group (digit w) (digit x) (digit y) pad =
      some [UInt8.ofNat (w * 4 + x / 16), UInt8.ofNat (x % 16 * 16 + y / 4)] := by
  rw [group, value_digit hw, value_digit hx, value_digit hy]
  dsimp only [bind_eq_bind, bind_some]
  rw [if_neg (digit_ne_pad hy), if_pos rfl]

theorem group_three (hw : w < 64) (hx : x < 64) (hy : y < 64) (hz : z < 64) :
    group (digit w) (digit x) (digit y) (digit z) =
      some [UInt8.ofNat (w * 4 + x / 16), UInt8.ofNat (x % 16 * 16 + y / 4), UInt8.ofNat (y % 4 * 64 + z)] := by
  rw [group, value_digit hw, value_digit hx, value_digit hy, value_digit hz]
  dsimp only [bind_eq_bind, bind_some]
  rw [if_neg (digit_ne_pad hy), if_neg (digit_ne_pad hz)]

end Group

section Back

variable (a b c : UInt8) {n : Nat}

theorem first_back (hn : n < 16) : UInt8.ofNat (a.toNat / 4 * 4 + (a.toNat % 4 * 16 + n) / 16) = a := by
  have h : a.toNat / 4 * 4 + (a.toNat % 4 * 16 + n) / 16 = a.toNat := by omega
  rw [h, UInt8.ofNat_toNat]

theorem second_back (hn : n < 4) :
    UInt8.ofNat ((a.toNat % 4 * 16 + b.toNat / 16) % 16 * 16 + (b.toNat % 16 * 4 + n) / 4) = b := by
  have hb := b.toNat_lt
  have h : (a.toNat % 4 * 16 + b.toNat / 16) % 16 * 16 + (b.toNat % 16 * 4 + n) / 4 = b.toNat := by
    omega
  rw [h, UInt8.ofNat_toNat]

theorem third_back : UInt8.ofNat ((b.toNat % 16 * 4 + c.toNat / 64) % 4 * 64 + c.toNat % 64) = c := by
  have hc := c.toNat_lt
  have h : (b.toNat % 16 * 4 + c.toNat / 64) % 4 * 64 + c.toNat % 64 = c.toNat := by omega
  rw [h, UInt8.ofNat_toNat]

end Back

theorem decode_cons {w x y z : UInt8} {s front rest : Bytes} (hgroup : group w x y z = some front)
    (hz : z = pad → s = []) (hrest : decode s = some rest) :
    decode (w :: x :: y :: z :: s) = some (front ++ rest) := by
  have hopen : ¬ (z = pad ∧ s ≠ []) := fun h => h.2 (hz h.1)
  rw [decode, hgroup, hrest]
  dsimp only [bind_eq_bind, bind_some]
  rw [if_neg hopen]

theorem decode_encode (s : Bytes) : decode (encode s) = some s := by
  induction s using encode.induct with
  | case1 => rfl
  | case2 a =>
    have ha := a.toNat_lt
    have hgroup := group_one (w := a.toNat / 4) (x := a.toNat % 4 * 16 + 0) (by omega) (by omega)
    rw [first_back a (by omega)] at hgroup
    exact decode_cons hgroup (fun _ => rfl) rfl
  | case3 a b =>
    have ha := a.toNat_lt
    have hb := b.toNat_lt
    have hgroup := group_two (w := a.toNat / 4) (x := a.toNat % 4 * 16 + b.toNat / 16)
      (y := b.toNat % 16 * 4 + 0) (by omega) (by omega) (by omega)
    rw [first_back a (by omega), second_back a b (by omega)] at hgroup
    exact decode_cons hgroup (fun _ => rfl) rfl
  | case4 a b c s ih =>
    have ha := a.toNat_lt
    have hb := b.toNat_lt
    have hc := c.toNat_lt
    have hlast : c.toNat % 64 < 64 := by omega
    have hgroup := group_three (w := a.toNat / 4) (x := a.toNat % 4 * 16 + b.toNat / 16)
      (y := b.toNat % 16 * 4 + c.toNat / 64) (by omega) (by omega) (by omega) hlast
    rw [first_back a (by omega), second_back a b (by omega), third_back b c] at hgroup
    exact decode_cons hgroup (fun h => absurd h (digit_ne_pad hlast)) ih

end Wireops.Lib.Base64
