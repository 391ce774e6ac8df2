import Codezero.Kernel.MemCache
import Codezero.Mm0.IdPool

/-!
# Frees of what is not allocated

`mem_cache_free` of the kernel takes addresses up to the end of the cache, one element more than there are, and the bit of that
one may lie behind the bitmap. `ids_del_contiguous` of mm0 clears bits as it checks them.
-/

namespace Codezero.Cache
open Codezero.Kernel (Word)
open Codezero.Lib

/-! ## Memory behind the bitmap -/

inductive Use
  | call (c : Call)
  | write (i : Nat) (w : Word)

/-- A cache in memory: the words from `bwords` on are behind the bitmap and are written by others, as by those that have the
elements. -/
def cacheUse : Machine (MemCache × List Nat) Use Bug where
  enabled s
    | .call c => cacheCalls.enabled s c
    | .write i _ => s.1.bwords ≤ i
  step s
    | .call c => cacheCalls.step s c
    | .write i w => pure ({ s.1 with bitmap := Function.update s.1.bitmap i w }, s.2)

/-- The elements fill the cache up to less than one element, and the bits of the bitmap that belong to none are clear. -/
structure Trim (c : MemCache) : Prop where
  stop : c.stop < c.start + c.structSize * (c.total + 1)
  bits : c.total ≤ 32 * c.bwords
  clear : ∀ i, c.total.toNat ≤ i → i < 32 * c.bwords → Bitmap.test c.bitmap i = false

section Init
variable {header bufstart : Nat} {cacheSize structSize : Int} {aligned : Bool} {c c' : MemCache} {live : List Nat} {addr : Nat}

theorem memCacheInit_shape : Sat (memCacheInit header bufstart cacheSize structSize aligned)
    (fun r => ∀ c ∈ r, ∃ areaStart left bitmapAddr bwords, c = newCache areaStart left structSize bitmapAddr bwords ∧
      0 < structSize ∧ 0 ≤ left ∧ left / structSize ≤ 32 * bwords) (fun _ => True) := by
  unfold memCacheInit
  dsimp only
  split
  · exact fun c none => nomatch none
  next sane =>
  split
  · exact fun c none => nomatch none
  next big =>
  generalize cacheSize - (alignUp bufstart 4 - bufstart) - header = first at big
  generalize words : first.tdiv structSize / 32 + (if first.tdiv structSize % 32 = 0 then 0 else 1) = bwords
  split
  · exact fun c none => nomatch none
  next some =>
  split
  · exact fun c none => nomatch none
  next left =>
  have pos : 0 < structSize := by
    rcases Int.lt_trichotomy structSize 0 with neg | rfl | pos
    · exact absurd (.inl neg) sane
    · rw [Int.tdiv_zero] at some
      exact absurd (Int.le_refl 0) some
    · exact pos
  rw [Int.tdiv_eq_ediv_of_nonneg (by omega)] at words some
  have enough : first / structSize ≤ 32 * bwords ∧ 0 ≤ bwords := by
    have := Int.ediv_nonneg (show 0 ≤ first by omega) (Int.le_of_lt pos)
    rw [← words]
    split <;> omega
  have one : structSize ≤ first - bwords * 4 := by
    by_contra less
    exact some (Int.le_of_eq (Int.ediv_eq_zero_of_lt (by omega) (by omega)))
  have fewer : ∀ left ≤ first, left / structSize ≤ 32 * bwords.toNat := fun left le => by
    have := Int.ediv_le_ediv (c := structSize) (by omega) le
    omega
  split
  · split
    · trivial
    · rintro c ⟨⟩
      exact ⟨_, _, _, _, rfl, pos, by omega, fewer _ (by omega)⟩
  · rintro c ⟨⟩
    exact ⟨_, _, _, _, rfl, pos, by omega, fewer _ (by omega)⟩

/-- What `mem_cache_init` leaves. -/
theorem memCacheInit_trim (ran : memCacheInit header bufstart cacheSize structSize aligned = .ok (some c)) : Live c [] ∧ Trim c := by
  obtain ⟨areaStart, left, bitmapAddr, bwords, rfl, pos, nonneg, bits⟩ := memCacheInit_shape.ok ran c rfl
  have total : left.tdiv structSize = left / structSize := Int.tdiv_eq_ediv_of_nonneg nonneg
  have size : ((structSize.toNat : Nat) : Int) = structSize := Int.toNat_of_nonneg (Int.le_of_lt pos)
  have some : 0 ≤ left / structSize := Int.ediv_nonneg nonneg (Int.le_of_lt pos)
  have low := Int.mul_ediv_self_le (x := left) (Int.ne_of_gt pos)
  have high := Int.lt_mul_ediv_self_add (x := left) pos
  refine ⟨⟨?_, ?_, ?_, List.nodup_nil, fun addr => ?_, ?_, ?_⟩, ?_, ?_, fun i _ _ => ?_⟩
  · show 0 < structSize.toNat
    omega
  · show 0 ≤ left.tdiv structSize
    rwa [total]
  · show (areaStart : Int) + (structSize.toNat : Nat) * left.tdiv structSize ≤ areaStart + left
    rw [total, size]
    omega
  · refine ⟨fun mem => absurd mem List.not_mem_nil, fun ⟨i, _, set, _⟩ => ?_⟩
    simp [newCache, Bitmap.test] at set
  · exact Int.add_zero _
  · show 0 ≤ left.tdiv structSize
    rwa [total]
  · show (areaStart : Int) + left < areaStart + (structSize.toNat : Nat) * (left.tdiv structSize + 1)
    rw [total, size, Int.mul_add, Int.mul_one]
    omega
  · show left.tdiv structSize ≤ 32 * bwords
    rwa [total]
  · simp [newCache, Bitmap.test]

end Init

/-! ## Frees -/

section Frees
variable {c c' : MemCache} {live : List Nat} {addr i : Nat} {w : Word}

theorem test_write (outside : 32 * c.bwords ≤ 32 * i) {j : Nat} (inside : j < 32 * c.bwords) :
    Bitmap.test (Function.update c.bitmap i w) j = Bitmap.test c.bitmap j := by
  have differ : j / 32 ≠ i := by omega
  simp only [Bitmap.test, Function.update_of_ne differ]

/-- Bits change only where elements are, and where they are freed or allocated. -/
theorem Trim.bits_changed (trim : Trim c) (same : SameLayout c c') (stop : c'.stop = c.stop) (words : c'.bwords = c.bwords)
    (bits : ∀ j, c.total.toNat ≤ j → Bitmap.test c'.bitmap j = Bitmap.test c.bitmap j) : Trim c' where
  stop := by
    rw [stop, same.start, same.structSize, same.total]
    exact trim.stop
  bits := by
    rw [same.total, words]
    exact trim.bits
  clear j from' below := by
    rw [same.total] at from'
    rw [bits j from']
    exact trim.clear j from' (words ▸ below)

theorem Trim.alloc {r : MemCache × Option Nat} (trim : Trim c) (ran : memCacheAlloc c = .ok r) : Trim r.1 := by
  unfold memCacheAlloc at ran
  split at ran
  · unfold findAndSetFirstFreeBit at ran
    cases found : Bitmap.firstClear c.bitmap c.total.toNat with
    | none =>
      rw [found] at ran
      cases ran
    | some bit =>
      rw [found] at ran
      cases ran
      obtain ⟨below, -, -⟩ := Bitmap.firstClear_eq_some.mp found
      refine trim.bits_changed ⟨rfl, rfl, rfl⟩ rfl rfl (fun j above => ?_)
      have differ : bit ≠ j := by omega
      rw [Bitmap.test_set (by decide), decide_eq_false differ, Bool.false_or]
  · cases ran
    exact trim

theorem slot_bit (size : 0 < c.structSize) (i : Nat) : (c.slot i - c.start) / c.structSize = i := by
  rw [MemCache.slot, Nat.add_sub_cancel_left, Nat.mul_div_cancel_left i size]

theorem Trim.free (trim : Trim c) (inv : Live c live) (mem : addr ∈ live) : Trim (memCacheFree c addr).1 := by
  obtain ⟨i, below, -, rfl⟩ := (inv.mem addr).mp mem
  unfold memCacheFree
  rw [slot_bit inv.size]
  dsimp only
  split
  · exact trim
  split
  · exact trim
  unfold checkAndClearBit
  have cleared : ∀ free, Trim { c with bitmap := Bitmap.clear c.bitmap i, free := free } := fun free => by
    refine trim.bits_changed ⟨rfl, rfl, rfl⟩ rfl rfl (fun j above => ?_)
    have differ : i ≠ j := by omega
    rw [Bitmap.test_clear (by decide), decide_eq_false differ, Bool.not_false, Bool.true_and]
  cases Bitmap.test c.bitmap i with
  | false => exact trim
  | true =>
    rw [if_pos rfl]
    dsimp only
    split
    · exact cleared _
    · exact cleared _

/-- Bits of elements are in the bitmap, so what is written behind it does not change them. -/
theorem Live.write (inv : Live c live) (trim : Trim c) (outside : c.bwords ≤ i) :
    Live { c with bitmap := Function.update c.bitmap i w } live ∧ Trim { c with bitmap := Function.update c.bitmap i w } := by
  have bits := trim.bits
  have total := inv.total
  refine ⟨⟨inv.size, inv.total, inv.stop, inv.nodup, fun addr => ?_, inv.count, inv.nonneg⟩, trim.stop, trim.bits, fun j from' below => ?_⟩
  · rw [inv.mem]
    constructor
    · rintro ⟨j, lt, set, rfl⟩
      exact ⟨j, lt, by rwa [test_write (by omega) (by omega)], rfl⟩
    · rintro ⟨j, lt, set, rfl⟩
      dsimp only at lt set
      rw [test_write (by omega) (by omega)] at set
      exact ⟨j, lt, set, rfl⟩
  · dsimp only at from' below ⊢
    rw [test_write (by omega) below]
    exact trim.clear j from' below

theorem live_of_use (init : Live c [] ∧ Trim c) (reached : cacheUse.Reaches (c, []) (c', live)) : Live c' live ∧ Trim c' := by
  refine reached.invariant (I := fun s => Live s.1 s.2 ∧ Trim s.1) ?_ init
  rintro ⟨c1, live1⟩ e s2 ⟨inv, trim⟩ able stepped
  cases e with
  | call call =>
    cases call with
    | alloc =>
      obtain ⟨r, allocated, eq⟩ := bind_eq_ok.mp stepped
      obtain rfl := Except.ok.inj eq
      exact ⟨((memCacheAlloc_sat inv).ok allocated).1, trim.alloc allocated⟩
    | free addr =>
      obtain rfl := Except.ok.inj stepped
      exact ⟨(memCacheFree_live inv able).2.1, trim.free inv able⟩
  | write i w =>
    obtain rfl := Except.ok.inj stepped
    exact inv.write trim able

/-- The one address that is taken for an element and is none: its bit is the first behind the bitmap, and is set. -/
def Strays (c : MemCache) (addr : Nat) : Prop :=
  addr = c.slot c.total.toNat ∧ c.total = 32 * c.bwords ∧ Bitmap.test c.bitmap c.total.toNat = true

theorem memCacheFree_invalid (inv : Live c live) (trim : Trim c) (invalid : addr ∉ live) :
    (memCacheFree c addr).2 < 0 ∧ (memCacheFree c addr).1 = c ↔ ¬ Strays c addr := by
  have size := inv.size
  have total := inv.total
  have stop := inv.stop
  have last : (c.slot c.total.toNat : Int) = c.start + c.structSize * c.total := by
    rw [MemCache.slot]
    push_cast
    rw [Int.toNat_of_nonneg total]
  have refused : memCacheFree c addr = (c, -1) → ¬ Strays c addr →
      ((memCacheFree c addr).2 < 0 ∧ (memCacheFree c addr).1 = c ↔ ¬ Strays c addr) := fun ran not => by
    rw [ran]
    exact ⟨fun _ => not, fun _ => ⟨(by decide : (-1 : Int) < 0), rfl⟩⟩
  by_cases out : addr < c.start ∨ (addr : Int) > c.stop
  · refine refused (if_pos out) ?_
    rintro ⟨rfl, -⟩
    have : 0 ≤ c.structSize * c.total := Int.mul_nonneg (by omega) total
    omega
  by_cases between : (addr - c.start) / c.structSize * c.structSize + c.start ≠ addr
  · refine refused ?_ ?_
    · unfold memCacheFree
      rw [if_neg out]
      exact if_pos between
    · rintro ⟨rfl, -⟩
      rw [slot_bit size, MemCache.slot, Nat.mul_comm] at between
      omega
  -- The address is that of some element, or of one more than there are.
  obtain ⟨i, rfl⟩ : ∃ i, addr = c.slot i := ⟨(addr - c.start) / c.structSize, by
    rw [MemCache.slot, Nat.mul_comm]
    omega⟩
  rw [slot_bit size] at between
  have upto : (i : Int) < c.total + 1 := by
    have room := trim.stop
    have is : (c.slot i : Int) = c.start + c.structSize * i := by
      rw [MemCache.slot]
      push_cast
      rfl
    refine Int.lt_of_mul_lt_mul_left (a := c.structSize) ?_ (by omega)
    omega
  have cleared : memCacheFree c (c.slot i) = (checkAndClearBit c.bitmap i).elim (c, -1) (fun bitmap =>
      if c.free + 1 > c.total then ({ c with bitmap := bitmap, free := c.free + 1 }, -1)
      else ({ c with bitmap := bitmap, free := c.free + 1 }, 0)) := by
    unfold memCacheFree
    rw [if_neg out, slot_bit size]
    refine (if_neg between).trans ?_
    cases checkAndClearBit c.bitmap i <;> rfl
  unfold checkAndClearBit at cleared
  cases set : Bitmap.test c.bitmap i with
  | false =>
    rw [set] at cleared
    refine refused cleared ?_
    rintro ⟨same, -, wrong⟩
    rw [← (slot_inj size).mp same, set] at wrong
    cases wrong
  | true =>
    have above : ¬ i < c.total.toNat := fun lt => invalid ((inv.slot_mem lt).mpr set)
    have is : i = c.total.toNat := by omega
    have full : c.total = 32 * c.bwords := by
      by_contra less
      have bits := trim.bits
      have clear := trim.clear i (by omega) (by omega)
      rw [clear] at set
      cases set
    have strays : Strays c (c.slot i) := ⟨by rw [is], full, is ▸ set⟩
    rw [set, if_pos rfl] at cleared
    refine ⟨fun both => ?_, fun not => absurd strays not⟩
    have count : (memCacheFree c (c.slot i)).1.free = c.free + 1 := by
      rw [cleared]
      dsimp only [Option.elim_some]
      split <;> rfl
    rw [both.2] at count
    omega

end Frees

/-! ## Ids -/

section Ids
open Codezero.Mm0
variable {pool : IdPool} {first n : BitVec 32}

/-- Bits that are clear stay clear. -/
theorem clearBitsFrom_clear {b : IdMap} {j : Nat} (clear : Bitmap.test b j = false) (first n : Nat) :
    Bitmap.test (clearBitsFrom b first n).1 j = false := by
  induction n generalizing b first with
  | zero => exact clear
  | succ n rest =>
    have step : Bitmap.test (Codezero.Mm0.checkAndClearBit b first).1 j = false := by
      unfold Codezero.Mm0.checkAndClearBit
      split
      · rw [Bitmap.test_clear (by decide), clear, Bool.and_false]
      · exact clear
    rw [clearBitsFrom]
    split
    · exact step
    · exact rest step (first + 1)

/-- A range that is not empty fails without effect exactly if its first bit is clear. -/
theorem clearBitsFrom_refused {b : IdMap} {first n : Nat} (some : 0 < n) :
    (clearBitsFrom b first n).2 < 0 ∧ (clearBitsFrom b first n).1 = b ↔ Bitmap.test b first = false := by
  obtain ⟨n, rfl⟩ : ∃ k, n = k + 1 := ⟨n - 1, by omega⟩
  rw [clearBitsFrom]
  unfold Codezero.Mm0.checkAndClearBit
  cases set : Bitmap.test b first with
  | false => exact ⟨fun _ => rfl, fun _ => ⟨(by decide : (-1 : Int) < 0), rfl⟩⟩
  | true =>
    refine ⟨fun both => ?_, fun no => absurd no (by simp)⟩
    have gone : Bitmap.test (Bitmap.clear b first) first = false := by simp [Bitmap.test_clear]
    have left := clearBitsFrom_clear gone (first + 1) n
    have kept : (clearBitsFrom (Bitmap.clear b first) (first + 1) n).1 = b := both.2
    rw [kept, set] at left
    cases left

/-- The range has an id that is not allocated, or that is beyond the limit. -/
def InvalidRange (pool : IdPool) (first n : BitVec 32) : Prop :=
  ∃ i, first.toInt ≤ i ∧ i < first.toInt + n.toInt ∧ (i < 0 ∨ Bitmap.test pool.bitmap i.toNat = false ∨ pool.bitlimit ≤ i)

/-- The call returns a negative value and leaves the pool as it was. -/
def Refused (pool : IdPool) (first n : BitVec 32) : Prop := ∃ r < 0, idsDelContiguous pool first n = some (pool, r)

/-- A range is refused as a whole if it leaves the words of the pool, or if its first id is not allocated, as long as its end
is an int. -/
theorem refused_iff (invalid : InvalidRange pool first n) :
    Refused pool first n ↔ first.toInt + n.toInt < 2 ^ 31 ∧
      ((pool.nwords * 32 : Nat) < first.toInt + n.toInt ∨ 0 ≤ first.toInt ∧ Bitmap.test pool.bitmap first.toNat = false) := by
  obtain ⟨i, low, high, -⟩ := invalid
  have pos : 0 < n.toInt := by omega
  have sum := toInt_add_nonneg first pos.le
  rw [Refused, idsDelContiguous]
  by_cases fits : first.toInt + n.toInt < 2 ^ 31
  · rw [if_pos fits] at sum
    rw [and_iff_right fits, sum]
    by_cases outside : ((pool.nwords * 32 : Nat) : Int) < first.toInt + n.toInt
    · rw [if_pos outside]
      exact ⟨fun _ => .inl outside, fun _ => ⟨-1, by decide, rfl⟩⟩
    rw [if_neg outside, or_iff_right outside]
    by_cases natural : 0 ≤ first.toInt
    · have some : 0 < n.toNat := by
        simp only [BitVec.toInt_eq_toNat_cond] at pos
        omega
      rw [and_iff_right natural, checkAndClearContigBits_eq natural pos.le fits, ← clearBitsFrom_refused some, Option.map_some]
      constructor
      · rintro ⟨r, negative, returned⟩
        obtain ⟨same, rfl⟩ := Prod.mk.inj (Option.some.inj returned)
        have kept := congrArg IdPool.bitmap same
        exact ⟨negative, kept⟩
      · rintro ⟨negative, same⟩
        exact ⟨_, negative, by rw [same]⟩
    · rw [checkAndClearContigBits, sum, if_pos (by omega), if_pos (not_le.mp natural)]
      refine ⟨?_, fun both => absurd both.1 natural⟩
      rintro ⟨_, _, never⟩
      cases never
  · have least : first.toInt < 2 ^ 31 := BitVec.toInt_lt
    have most : n.toInt < 2 ^ 31 := BitVec.toInt_lt
    rw [if_neg fits] at sum
    rw [sum, if_neg (by omega), checkAndClearContigBits, sum, if_neg (by omega)]
    refine ⟨?_, fun both => absurd both.1 fits⟩
    rintro ⟨r, negative, same⟩
    exact absurd negative ((Prod.mk.inj (Option.some.inj same)).2 ▸ Int.lt_irrefl 0)

/-- Invalid frees are refused without effect, but for the address behind the last element of a cache whose bitmap is full up and
followed by a set bit, and but for ranges of ids that start with an allocated one, in front of the pool, or end behind the ints. -/
theorem invalid_frees_refused_iff (header bufstart : Nat) (cacheSize structSize : Int) (aligned : Bool) (c c' : MemCache)
    (live : List Nat) (addr : Nat) (pool : IdPool) (first n : BitVec 32) :
    (memCacheInit header bufstart cacheSize structSize aligned = .ok (some c) → cacheUse.Reaches (c, []) (c', live) → addr ∉ live →
      ((memCacheFree c' addr).2 < 0 ∧ (memCacheFree c' addr).1 = c' ↔ ¬ Strays c' addr)) ∧
    (InvalidRange pool first n → (Refused pool first n ↔ first.toInt + n.toInt < 2 ^ 31 ∧
      ((pool.nwords * 32 : Nat) < first.toInt + n.toInt ∨ 0 ≤ first.toInt ∧ Bitmap.test pool.bitmap first.toNat = false))) := by
  refine ⟨fun ran reached invalid => ?_, refused_iff⟩
  obtain ⟨inv, trim⟩ := live_of_use (memCacheInit_trim ran) reached
  exact memCacheFree_invalid inv trim invalid

/-- A cache of thirty-two elements of sixty-four bytes, whose bitmap is one word. -/
def fullBitmap : MemCache := newCache 0x1038 2048 64 0x1034 1

theorem fullBitmap_init : memCacheInit 52 0x1000 2104 64 false = .ok (some fullBitmap) := rfl

/-- An address between elements is refused, and so is a range of ids behind the limit. -/
theorem invalid_frees_refused_between : ((memCacheFree fullBitmap 0x1039).2 < 0 ∧ (memCacheFree fullBitmap 0x1039).1 = fullBitmap) ∧
    Refused (idPoolNewInit 40) 41 2 := by
  obtain ⟨frees, ids⟩ := invalid_frees_refused_iff 52 0x1000 2104 64 false fullBitmap fullBitmap [] 0x1039 (idPoolNewInit 40) 41 2
  refine ⟨(frees fullBitmap_init .start List.not_mem_nil).mpr ?_,
    (ids ⟨41, by decide, by decide, .inr (.inl rfl)⟩).mpr ⟨by decide, .inr ⟨by decide, rfl⟩⟩⟩
  rintro ⟨wrong, -⟩
  exact absurd wrong (by decide)

/-- One element is allocated, and its first word has its lowest bit set. -/
def writtenElement : MemCache :=
  { fullBitmap with free := 31, bitmap := Function.update (Bitmap.set (fun _ => 0) 0) 1 1 }

/-- A free behind the last element clears that bit of the first element and counts an element more; a failed free of two ids
frees the first; and a free of more ids than an int can count behind the fifth returns success. -/
theorem invalid_frees_taken :
    (cacheUse.Reaches (fullBitmap, []) (writtenElement, [0x1038]) ∧ 0x1838 ∉ [0x1038] ∧
      writtenElement.bitmapAddr + 4 * 1 = 0x1038 ∧ (memCacheFree writtenElement 0x1838).2 = 0 ∧
      (memCacheFree writtenElement 0x1838).1.free = 32 ∧ writtenElement.bitmap 1 = 1 ∧ (memCacheFree writtenElement 0x1838).1.bitmap 1 = 0) ∧
    (InvalidRange (idNew (idPoolNewInit 40)).1 0 2 ∧ Bitmap.test (idNew (idPoolNewInit 40)).1.bitmap 0 = true ∧
      (idsDelContiguous (idNew (idPoolNewInit 40)).1 0 2).map (fun r => (Bitmap.test r.1.bitmap 0, r.2)) = some (false, -1)) ∧
    InvalidRange (idPoolNewInit 40) 5 0x7FFFFFFF ∧ idsDelContiguous (idPoolNewInit 40) 5 0x7FFFFFFF = some (idPoolNewInit 40, 0) := by
  refine ⟨⟨?_, by decide, rfl, rfl, rfl, rfl, rfl⟩, ⟨⟨1, by decide, by decide, .inr (.inl rfl)⟩, rfl, rfl⟩,
    ⟨5, by decide, by decide, .inr (.inl rfl)⟩, rfl⟩
  have allocated : cacheUse.Reaches (fullBitmap, []) ({ fullBitmap with free := 31, bitmap := Bitmap.set (fun _ => 0) 0 }, [0x1038]) :=
    .next (e := .call .alloc) .start trivial trivial rfl
  exact .next (e := .write 1 1) allocated (Nat.le_refl 1) trivial rfl

end Ids

end Codezero.Cache
