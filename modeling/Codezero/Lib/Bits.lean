import Mathlib

/-!
# Masks of machine words

A mask of low bits splits a word into the part it keeps and the part it clears. The lemmas turn masks and
shifts into `%`, `/` and `-` of the word's value, where `omega` takes over, and take a word that was put
together with `|||` apart again.
-/

namespace Codezero.Lib

variable {w : Nat}

theorem toNat_and_low (x : BitVec w) {k : Nat} (fits : k ≤ w) : (x &&& BitVec.ofNat w (2 ^ k - 1)).toNat = x.toNat % 2 ^ k := by
  have small : 2 ^ k - 1 < 2 ^ w := by
    have := Nat.pow_le_pow_right (show 0 < 2 by decide) fits
    have := Nat.two_pow_pos k
    omega
  rw [BitVec.toNat_and, BitVec.toNat_ofNat, Nat.mod_eq_of_lt small, Nat.and_two_pow_sub_one_eq_mod]

/-- What a mask keeps and what it clears add up to the word. -/
theorem and_not_add_and (x m : BitVec w) : (x &&& ~~~m) + (x &&& m) = x := by
  have apart : (x &&& ~~~m) &&& (x &&& m) = 0#w := by
    ext i
    simp
    tauto
  rw [BitVec.add_eq_or_of_and_eq_zero _ _ apart, ← BitVec.and_or_distrib_left]
  ext i
  simp

theorem toNat_and_not (x m : BitVec w) : (x &&& ~~~m).toNat = x.toNat - (x &&& m).toNat := by
  have le : (x &&& m).toNat ≤ x.toNat := by
    rw [BitVec.toNat_and]
    exact Nat.and_le_left
  rw [← BitVec.toNat_sub_of_le le, ← BitVec.eq_sub_iff_add_eq.mpr (and_not_add_and x m)]

/-- Clearing the low bits of a word rounds it down. -/
theorem toNat_and_not_low (x : BitVec w) {k : Nat} (fits : k ≤ w) :
    (x &&& ~~~BitVec.ofNat w (2 ^ k - 1)).toNat = x.toNat - x.toNat % 2 ^ k := by
  rw [toNat_and_not, toNat_and_low x fits]

/-- A field that lies in bits the mask covers: shifting the masked word down divides it. -/
theorem toNat_shift_and_div (x : BitVec w) (m : BitVec w) (i j k : Nat) (mask : m.toNat >>> j = 2 ^ k - 1)
    (unit : BitVec w) (scale : unit.toNat = 2 ^ j) : (((x >>> i) &&& m) / unit).toNat = x.toNat / 2 ^ (i + j) % 2 ^ k := by
  rw [BitVec.toNat_udiv, scale, BitVec.toNat_and, BitVec.toNat_ushiftRight, ← Nat.shiftRight_eq_div_pow,
    Nat.shiftRight_and_distrib, mask, ← Nat.shiftRight_add, Nat.and_two_pow_sub_one_eq_mod, Nat.shiftRight_eq_div_pow]

/-- A word with no bit in a mask has none in a smaller one. -/
theorem and_eq_zero_of_and_eq_zero {x m n : BitVec w} (none : x &&& m = 0#w) (sub : m &&& n = n) : x &&& n = 0#w := by
  rw [← sub, ← BitVec.and_assoc, none, BitVec.zero_and]

/-- The two parts of a word put together with `|||` come back out of it with their masks. -/
theorem or_and_low {x y m : BitVec w} (high : x &&& m = 0#w) (low : y &&& m = y) : (x ||| y) &&& m = y := by
  rw [BitVec.and_comm, BitVec.and_or_distrib_left, BitVec.and_comm m x, high, BitVec.and_comm m y, low, BitVec.zero_or]

theorem or_and_high {x y m : BitVec w} (high : x &&& m = 0#w) (low : y &&& m = y) : (x ||| y) &&& ~~~m = x := by
  have clear : y &&& ~~~m = 0#w := by
    rw [← low, BitVec.and_assoc, BitVec.and_comm m, BitVec.not_and_self]
    exact BitVec.and_zero
  have keep : x &&& ~~~m = x := by
    have sum := and_not_add_and x m
    rwa [high, BitVec.add_zero] at sum
  rw [BitVec.and_comm, BitVec.and_or_distrib_left, BitVec.and_comm _ x, BitVec.and_comm _ y, keep, clear, BitVec.or_zero]

end Codezero.Lib
