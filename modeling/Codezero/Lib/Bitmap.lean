import Mathlib

/-!
# Bitmaps in arrays of words

Bit `i` is bit `i % w` of word `i / w`. Setting and clearing a bit changes no other, and the first clear bit below
a limit is found by trying them in order.
-/

namespace Codezero.Lib.Bitmap

variable {w : Nat} {b : Nat → BitVec w} {i j limit : Nat}

def test (b : Nat → BitVec w) (i : Nat) : Bool := b (i / w) &&& (1#w <<< (i % w)) != 0#w

def set (b : Nat → BitVec w) (i : Nat) : Nat → BitVec w :=
  Function.update b (i / w) (b (i / w) ||| (1#w <<< (i % w)))

def clear (b : Nat → BitVec w) (i : Nat) : Nat → BitVec w :=
  Function.update b (i / w) (b (i / w) &&& ~~~(1#w <<< (i % w)))

/-- The lowest bit below the limit that is clear. -/
def firstClear (b : Nat → BitVec w) (limit : Nat) : Option Nat := (List.range limit).find? (fun i => !test b i)

theorem test_eq (pos : 0 < w) (b : Nat → BitVec w) (i : Nat) : test b i = (b (i / w)).getLsbD (i % w) := by
  have bit : b (i / w) &&& (1#w <<< (i % w)) = if (b (i / w)).getLsbD (i % w) then BitVec.twoPow w (i % w) else 0#w :=
    BitVec.and_twoPow _ _
  have some : BitVec.twoPow w (i % w) ≠ 0#w := fun zero => by
    have lsb := congrArg (fun x => x.getLsbD (i % w)) zero
    simp [Nat.mod_lt i pos] at lsb
  rw [test, bit]
  cases (b (i / w)).getLsbD (i % w)
  · simp
  · simpa using some

theorem index_eq_iff : i = j ↔ i / w = j / w ∧ i % w = j % w := by
  constructor
  · rintro rfl
    exact ⟨rfl, rfl⟩
  · rintro ⟨words, bits⟩
    rw [← Nat.div_add_mod i w, words, bits, Nat.div_add_mod]

theorem test_set (pos : 0 < w) : test (set b i) j = (decide (i = j) || test b j) := by
  rw [test_eq pos, test_eq pos]
  by_cases word : j / w = i / w
  · have bit : (i = j) ↔ i % w = j % w := index_eq_iff.trans (and_iff_right word.symm)
    rw [set, word, Function.update_self, BitVec.getLsbD_or,
      show 1#w <<< (i % w) = BitVec.twoPow w (i % w) from rfl, BitVec.getLsbD_twoPow]
    simp [bit, Nat.mod_lt i pos, Bool.or_comm]
  · have differ : i ≠ j := fun same => word (same ▸ rfl)
    simp [set, Function.update_of_ne word, differ]

theorem test_clear (pos : 0 < w) : test (clear b i) j = (!decide (i = j) && test b j) := by
  rw [test_eq pos, test_eq pos]
  by_cases word : j / w = i / w
  · have bit : (i = j) ↔ i % w = j % w := index_eq_iff.trans (and_iff_right word.symm)
    rw [clear, word, Function.update_self, BitVec.getLsbD_and, BitVec.getLsbD_not,
      show 1#w <<< (i % w) = BitVec.twoPow w (i % w) from rfl, BitVec.getLsbD_twoPow]
    simp [bit, Nat.mod_lt i pos, Nat.mod_lt j pos, Bool.and_comm]
  · have differ : i ≠ j := fun same => word (same ▸ rfl)
    simp [clear, Function.update_of_ne word, differ]

theorem firstClear_eq_some : firstClear b limit = some i ↔ i < limit ∧ test b i = false ∧ ∀ j < i, test b j = true := by
  rw [firstClear, List.find?_range_eq_some]
  simp only [List.mem_range, Bool.not_eq_true', Bool.not_not]
  tauto

theorem firstClear_eq_none : firstClear b limit = none ↔ ∀ i < limit, test b i = true := by
  simp [firstClear, List.find?_eq_none]

end Codezero.Lib.Bitmap
