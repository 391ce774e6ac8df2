import Codezero.Lib.Bitmap

/-!
# Id pools

The pager's `lib/bit.c` and `lib/idpool.c`: ids are the bits of a bitmap, handed out one at a time or as the first
run of clear bits that is long enough, and taken back after a check that they were set.
-/

namespace Codezero.Mm0
open Codezero.Lib

abbrev IdMap := Nat → BitVec 32

variable {b : IdMap} {first nbits limit i p : Nat}

/-! ## Bits -/

/-- `find_and_set_first_free_bit`. -/
def findAndSetFirstFreeBit (b : IdMap) (limit : Nat) : IdMap × Int :=
  match Bitmap.firstClear b limit with
  | some i => (Bitmap.set b i, i)
  | none => (b, -1)

/-- The inner loop of `find_and_set_first_free_contig_bits`: whether it ended at `first + nbits`, and `i` after it.
It runs at most `nbits` times. -/
def freeBitsFrom (b : IdMap) (first nbits : Nat) : Nat → Nat → Nat → Bool × Nat
  | 0, _, i => (false, i)
  | fuel + 1, last, i =>
    if Bitmap.test b last then (false, i)
    else if last + 1 = first + nbits then (true, i + 1)
    else freeBitsFrom b first nbits fuel (last + 1) (i + 1)

/-- The outer loop, which moves `i` on each time it runs. -/
def searchContigBits (b : IdMap) (limit nbits : Nat) : Nat → Nat → Option Nat
  | 0, _ => none
  | fuel + 1, i =>
    if i + nbits ≤ limit then
      match freeBitsFrom b i nbits nbits i i with
      | (true, _) => some i
      | (false, i) => searchContigBits b limit nbits fuel (i + 1)
    else none

def setContigBits (b : IdMap) (first : Nat) : Nat → IdMap
  | 0 => b
  | nbits + 1 => setContigBits (Bitmap.set b first) (first + 1) nbits

/-- `find_and_set_first_free_contig_bits`. -/
def findAndSetFirstFreeContigBits (b : IdMap) (limit nbits : Nat) : IdMap × Int :=
  if nbits > limit then (b, -1)
  else match searchContigBits b limit nbits (limit + 1) 0 with
    | some first => (setContigBits b first nbits, first)
    | none => (b, -1)

/-- `check_and_clear_bit`. -/
def checkAndClearBit (b : IdMap) (bit : Nat) : IdMap × Int :=
  if Bitmap.test b bit then (Bitmap.clear b bit, 0) else (b, -1)

/-- The loop of `check_and_clear_contig_bits`. -/
def clearBitsFrom (b : IdMap) (first : Nat) : Nat → IdMap × Int
  | 0 => (b, 0)
  | nbits + 1 =>
    let cleared := checkAndClearBit b first
    if cleared.2 < 0 then (cleared.1, -1) else clearBitsFrom cleared.1 (first + 1) nbits

/-- `check_and_clear_contig_bits`. It has no result here where it reads the memory in front of the bitmap. -/
def checkAndClearContigBits (b : IdMap) (first nbits : BitVec 32) : Option (IdMap × Int) :=
  if first.toInt < (first + nbits).toInt then
    if first.toInt < 0 then none else some (clearBitsFrom b first.toNat nbits.toNat)
  else some (b, 0)

/-! ## Pools -/

structure IdPool where
  nwords : Nat
  bitlimit : Nat
  bitmap : IdMap

/-- `id_pool_new_init`. -/
def idPoolNewInit (totalbits : Nat) : IdPool := ⟨totalbits / 32 + 1, totalbits, fun _ => 0#32⟩

/-- `id_new`. -/
def idNew (pool : IdPool) : IdPool × Int :=
  let found := findAndSetFirstFreeBit pool.bitmap pool.bitlimit
  ({ pool with bitmap := found.1 }, found.2)

/-- `ids_new_contiguous`. -/
def idsNewContiguous (pool : IdPool) (numids : Nat) : IdPool × Int :=
  let found := findAndSetFirstFreeContigBits pool.bitmap pool.bitlimit numids
  ({ pool with bitmap := found.1 }, found.2)

/-- `ids_del_contiguous`. The sum is that of two ints. -/
def idsDelContiguous (pool : IdPool) (first numids : BitVec 32) : Option (IdPool × Int) :=
  if (pool.nwords * 32 : Nat) < (first + numids).toInt then some (pool, -1)
  else (checkAndClearContigBits pool.bitmap first numids).map fun cleared => ({ pool with bitmap := cleared.1 }, cleared.2)

/-! ## The search for a run of clear bits -/

/-- The bits from `p` to `p + n` are below the limit and clear. -/
structure FreeRun (b : IdMap) (limit n p : Nat) : Prop where
  below : p + n ≤ limit
  clear : ∀ q, p ≤ q → q < p + n → Bitmap.test b q = false

/-- The inner loop ends at the first set bit, or with the run found. -/
theorem freeBitsFrom_cases (fuel : Nat) (pos : 0 < fuel) (left : i + fuel = first + nbits) :
    (freeBitsFrom b first nbits fuel i i = (true, first + nbits) ∧
      ∀ q, i ≤ q → q < first + nbits → Bitmap.test b q = false) ∨
    ∃ j, i ≤ j ∧ j < first + nbits ∧ Bitmap.test b j = true ∧ freeBitsFrom b first nbits fuel i i = (false, j) := by
  induction fuel generalizing i with
  | zero => exact absurd pos (Nat.lt_irrefl 0)
  | succ fuel rest =>
    rw [freeBitsFrom]
    by_cases set : Bitmap.test b i = true
    · exact .inr ⟨i, le_rfl, by omega, set, if_pos set⟩
    · rw [if_neg set]
      have free : Bitmap.test b i = false := Bool.eq_false_iff.mpr set
      by_cases last : i + 1 = first + nbits
      · rw [if_pos last, last]
        refine .inl ⟨rfl, fun q low high => ?_⟩
        obtain rfl : q = i := by omega
        exact free
      · rw [if_neg last]
        rcases rest (i := i + 1) (by omega) (by omega) with ⟨found, clear⟩ | ⟨j, low, high, hit, stopped⟩
        · refine .inl ⟨found, fun q low high => ?_⟩
          rcases Nat.eq_or_lt_of_le low with rfl | above
          · exact free
          · exact clear q above high
        · exact .inr ⟨j, by omega, high, hit, stopped⟩

/-- What the outer loop has found, or passed over, from `i` on. -/
def Lowest (b : IdMap) (limit n i : Nat) : Option Nat → Prop
  | some p => i ≤ p ∧ FreeRun b limit n p ∧ ∀ q, i ≤ q → q < p → ¬ FreeRun b limit n q
  | none => ∀ q, i ≤ q → ¬ FreeRun b limit n q

/-- A set bit at `j` rules out every run that starts between `i` and `j`, if one from `i` would reach it. -/
theorem Lowest.skip {j : Nat} {r : Option Nat} (low : i ≤ j) (reach : j < i + nbits) (hit : Bitmap.test b j = true)
    (later : Lowest b limit nbits (j + 1) r) : Lowest b limit nbits i r := by
  have blocked : ∀ q, i ≤ q → q ≤ j → ¬ FreeRun b limit nbits q := fun q above upto run =>
    Bool.eq_false_iff.mp (run.clear j upto (by omega)) hit
  cases r with
  | some p =>
    refine ⟨by have := later.1; omega, later.2.1, fun q above upto => ?_⟩
    by_cases before : q ≤ j
    · exact blocked q above before
    · exact later.2.2 q (by omega) upto
  | none =>
    intro q above
    by_cases before : q ≤ j
    · exact blocked q above before
    · exact later q (by omega)

theorem searchContigBits_lowest (fuel : Nat) (pos : 0 < nbits) (enough : limit + 1 ≤ i + fuel) :
    Lowest b limit nbits i (searchContigBits b limit nbits fuel i) := by
  have ended : ∀ i, ¬ i + nbits ≤ limit → Lowest b limit nbits i none := fun i past q above run =>
    past ((Nat.add_le_add_right above nbits).trans run.below)
  induction fuel generalizing i with
  | zero => exact ended i (by omega)
  | succ fuel rest =>
    rw [searchContigBits]
    by_cases fits : i + nbits ≤ limit
    · rw [if_pos fits]
      rcases freeBitsFrom_cases (b := b) nbits pos (rfl : i + nbits = i + nbits) with ⟨found, clear⟩ | ⟨j, low, reach, hit, stopped⟩
      · rw [found]
        exact ⟨le_rfl, ⟨fits, clear⟩, fun q above below => by omega⟩
      · rw [stopped]
        exact .skip low reach hit (rest (by omega))
    · rw [if_neg fits]
      exact ended i fits

/-- The lowest run of clear bits is found and set, if there is one. -/
theorem findAndSetFirstFreeContigBits_cases (b : IdMap) (limit : Nat) (pos : 0 < nbits) :
    (∃ p, IsLeast {p | FreeRun b limit nbits p} p ∧
      findAndSetFirstFreeContigBits b limit nbits = (setContigBits b p nbits, (p : Int))) ∨
    ((∀ p, ¬ FreeRun b limit nbits p) ∧ findAndSetFirstFreeContigBits b limit nbits = (b, -1)) := by
  rw [findAndSetFirstFreeContigBits]
  by_cases more : nbits > limit
  · exact .inr ⟨fun p run => by have := run.below; omega, if_pos more⟩
  · rw [if_neg more]
    have search : Lowest b limit nbits 0 (searchContigBits b limit nbits (limit + 1) 0) :=
      searchContigBits_lowest (limit + 1) pos (by omega)
    revert search
    cases searchContigBits b limit nbits (limit + 1) 0 with
    | some p =>
      rintro ⟨-, run, lower⟩
      exact .inl ⟨p, ⟨run, fun q other => not_lt.mp fun less => lower q (Nat.zero_le q) less other⟩, rfl⟩
    | none => exact fun passed => .inr ⟨fun p => passed p (Nat.zero_le p), rfl⟩

theorem test_setContigBits (n : Nat) (j : Nat) :
    Bitmap.test (setContigBits b p n) j = true ↔ (p ≤ j ∧ j < p + n) ∨ Bitmap.test b j = true := by
  induction n generalizing b p with
  | zero => exact ⟨.inr, fun | .inl inside => absurd inside (by omega) | .inr set => set⟩
  | succ n rest =>
    rw [setContigBits, rest, Bitmap.test_set (by decide), Bool.or_eq_true, decide_eq_true_eq]
    constructor
    · rintro (inside | rfl | set)
      · exact .inl (by omega)
      · exact .inl (by omega)
      · exact .inr set
    · rintro (inside | set)
      · by_cases here : p = j
        · exact .inr (.inl here)
        · exact .inl (by omega)
      · exact .inr (.inr set)

/-- Clearing bits that are all set succeeds and clears no other. -/
theorem clearBitsFrom_set (n : Nat) (set : ∀ j, p ≤ j → j < p + n → Bitmap.test b j = true) :
    (clearBitsFrom b p n).2 = 0 ∧
      ∀ j, Bitmap.test (clearBitsFrom b p n).1 j = true ↔ Bitmap.test b j = true ∧ ¬ (p ≤ j ∧ j < p + n) := by
  induction n generalizing b p with
  | zero => exact ⟨rfl, fun j => ⟨fun set => ⟨set, by omega⟩, And.left⟩⟩
  | succ n rest =>
    have cleared : checkAndClearBit b p = (Bitmap.clear b p, 0) := if_pos (set p le_rfl (by omega))
    have others : ∀ j, Bitmap.test (Bitmap.clear b p) j = true ↔ j ≠ p ∧ Bitmap.test b j = true := fun j => by
      rw [Bitmap.test_clear (by decide), Bool.and_eq_true, Bool.not_eq_true', decide_eq_false_iff_not, ne_comm]
    obtain ⟨code, tests⟩ := rest (b := Bitmap.clear b p) (p := p + 1)
      (fun j above below => (others j).mpr ⟨by omega, set j (by omega) (by omega)⟩)
    simp only [clearBitsFrom, cleared, Int.lt_irrefl, if_false]
    refine ⟨code, fun j => ?_⟩
    rw [tests, others]
    constructor
    · rintro ⟨⟨differ, set⟩, outside⟩
      exact ⟨set, by omega⟩
    · rintro ⟨set, outside⟩
      exact ⟨⟨by omega, set⟩, by omega⟩

/-- The sum of two ints, and what is left of it. -/
theorem toInt_add_nonneg (first : BitVec 32) {n : BitVec 32} (pos : 0 ≤ n.toInt) :
    (first + n).toInt = if first.toInt + n.toInt < 2 ^ 31 then first.toInt + n.toInt else first.toInt + n.toInt - 2 ^ 32 := by
  have lt := first.isLt
  have lt' := n.isLt
  simp only [BitVec.toInt_eq_toNat_cond, BitVec.toNat_add] at pos ⊢
  omega

/-- A range from a natural number on is looked at id by id. -/
theorem checkAndClearContigBits_eq {first n : BitVec 32} (low : 0 ≤ first.toInt) (pos : 0 ≤ n.toInt)
    (fits : first.toInt + n.toInt < 2 ^ 31) :
    checkAndClearContigBits b first n = some (clearBitsFrom b first.toNat n.toNat) := by
  rw [checkAndClearContigBits, toInt_add_nonneg first pos, if_pos fits, if_neg (not_lt.mpr low)]
  split
  · rfl
  · have none : n.toNat = 0 := by
      simp only [BitVec.toInt_eq_toNat_cond] at *
      omega
    rw [none]
    rfl

/-! ## Single ids -/

/-- A pool of `n` ids: it has the words for them, and no bit above them is set. -/
structure IdPool.Holds (pool : IdPool) (n : Nat) : Prop where
  nwords : pool.nwords = n / 32 + 1
  bitlimit : pool.bitlimit = n
  below : ∀ i, Bitmap.test pool.bitmap i = true → i < n

section Single
variable {pool : IdPool} {n : Nat} (holds : pool.Holds n)

/-- The lowest free id is found and taken, if there is one. -/
theorem idNew_cases (holds : pool.Holds n) :
    (∃ i < n, Bitmap.test pool.bitmap i = false ∧ idNew pool = ({ pool with bitmap := Bitmap.set pool.bitmap i }, (i : Int))) ∨
    ((∀ i < n, Bitmap.test pool.bitmap i = true) ∧ idNew pool = (pool, -1)) := by
  cases found : Bitmap.firstClear pool.bitmap pool.bitlimit with
  | some i =>
    obtain ⟨below, clear, -⟩ := Bitmap.firstClear_eq_some.mp found
    exact .inl ⟨i, holds.bitlimit ▸ below, clear, by simp only [idNew, findAndSetFirstFreeBit, found]⟩
  | none =>
    exact .inr ⟨holds.bitlimit ▸ Bitmap.firstClear_eq_none.mp found, by simp only [idNew, findAndSetFirstFreeBit, found]⟩

include holds

theorem IdPool.Holds.set (below : i < n) : { pool with bitmap := Bitmap.set pool.bitmap i }.Holds n where
  nwords := holds.nwords
  bitlimit := holds.bitlimit
  below := fun j set => by
    rw [Bitmap.test_set (by decide), Bool.or_eq_true, decide_eq_true_eq] at set
    exact set.elim (fun same => same ▸ below) (holds.below j)

end Single

end Codezero.Mm0
