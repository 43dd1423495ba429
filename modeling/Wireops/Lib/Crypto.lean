import Wireops.Lib.Strings

namespace Wireops.Lib.Crypto

open Lib.Strings

/-- An authenticated cipher under one key. A nonce is drawn for each encryption,
and what decrypts is longer than what it decrypts to. -/
structure Cipher where
  encrypt : Nat → Text → Text
  decrypt : Text → Option Text
  decrypt_encrypt : ∀ nonce p, decrypt (encrypt nonce p) = some p
  length_lt : ∀ t p, decrypt t = some p → p.length < t.length

namespace Cipher

theorem encrypt_ne_nil (c : Cipher) (nonce : Nat) (p : Text) : c.encrypt nonce p ≠ [] := by
  intro h
  have hlength := c.length_lt _ _ (c.decrypt_encrypt nonce p)
  rw [h] at hlength
  exact absurd hlength (Nat.not_lt_zero _)

theorem decrypt_ne_self (c : Cipher) (t : Text) : c.decrypt t ≠ some t := by
  intro h
  exact absurd (c.length_lt t t h) (Nat.lt_irrefl _)

end Cipher

def marking : Cipher where
  encrypt _ p := '#' :: p
  decrypt
    | '#' :: p => some p
    | _ => none
  decrypt_encrypt _ _ := rfl
  length_lt t p h := by
    split at h
    · cases h
      exact Nat.lt_succ_self _
    · cases h

structure Aead where
  encrypt : Nat → Text → Text → Text
  decrypt : Nat → Text → Text → Option Text
  decrypt_encrypt : ∀ nonce context p, decrypt nonce context (encrypt nonce context p) = some p

def clear : Aead := ⟨fun _ _ p => p, fun _ _ p => some p, fun _ _ _ => rfl⟩

end Wireops.Lib.Crypto
