import Codezero.Kernel.MemCache

/-!
# Caches and the quotas they serve

`mem_cache_bufsize` counts bitmap words for the elements that are asked for, `mem_cache_init` counts them for all
elements that the buffer it is given could hold. Quotas are handed out for as many elements as were asked for.
-/

namespace Codezero.Cache
open Codezero.Lib
open Function (update update_of_ne update_self)

/-! ## The size of a buffer -/

/-- The bitmap words of `n` elements: `n >> 5`, and one more for a remainder. -/
def bitmapWords (n : Int) : Int := n / 32 + if n % 32 = 0 then 0 else 1

/-- `mem_cache_bufsize`. The address is unsigned and wraps around, the number of elements is signed. -/
def memCacheBufsize (header start structSize : Nat) (nstructs : Int) (aligned : Bool) : Nat :=
  let startAddress := alignUp start 4
  let totalBytes := structSize * nstructs
  let bitmapSize := bitmapWords nstructs * 4
  let startAddress := ((startAddress + (bitmapSize + totalBytes + header)) % 2 ^ 32).toNat
  let startAddress := if aligned then alignUp startAddress structSize else startAddress
  (((startAddress : Int) - start) % 2 ^ 32).toNat

/-- What the buffer for `n` elements holds beside its header and the elements: the bitmap, and the gap before the
first aligned element. -/
def spare (header start structSize n : Nat) (aligned : Bool) : Nat :=
  let bitmap := alignUp start 4 + header
  let bitmapSize := (bitmapWords n * 4).toNat
  if aligned then alignUp (bitmap + bitmapSize) structSize - bitmap else bitmapSize

/-- Neither the end of the buffer nor its size overflows. -/
structure Fits (header start structSize n : Nat) (aligned : Bool) : Prop where
  address : alignUp start 4 + header + bitmapWords n * 4 + structSize * n + (if aligned then structSize - 1 else 0) < 2 ^ 32
  size : memCacheBufsize header start structSize n aligned < 2 ^ 31

/-- The bitmap that `mem_cache_init` lays out takes no more than what is spare. -/
def Roomy (header start structSize n : Nat) (aligned : Bool) : Prop :=
  let spare := spare header start structSize n aligned
  bitmapWords (n + spare / structSize : Nat) * 4 ≤ spare

instance (header start structSize n : Nat) (aligned : Bool) : Decidable (Roomy header start structSize n aligned) :=
  inferInstanceAs (Decidable (_ ≤ _))

section Size
variable {header start structSize n k x : Nat} {aligned : Bool}

theorem bitmapWords_nonneg (n : Nat) : 0 ≤ bitmapWords n := by
  unfold bitmapWords
  split <;> omega

theorem alignUp_add_mul (x k n : Nat) : alignUp (x + 2 ^ k * n) (2 ^ k) = alignUp x (2 ^ k) + 2 ^ k * n := by
  rw [alignUp_two_pow, alignUp_two_pow, show x + 2 ^ k * n + (2 ^ k - 1) = x + (2 ^ k - 1) + 2 ^ k * n by omega,
    Nat.add_mul_div_left _ _ (Nat.two_pow_pos k)]
  ring

/-- Aligning up does not pass an aligned address. -/
theorem alignUp_le_iff {m : Nat} (divides : 2 ^ k ∣ m) : alignUp x (2 ^ k) ≤ m ↔ x ≤ m := by
  refine ⟨(alignUp_bounds x k).1.trans, fun le => ?_⟩
  obtain ⟨q, rfl⟩ := divides
  rw [alignUp_two_pow]
  have pos := Nat.two_pow_pos k
  have : (x + (2 ^ k - 1)) / 2 ^ k ≤ q := by
    refine Nat.le_of_lt_succ (Nat.div_lt_of_lt_mul ?_)
    rw [Nat.mul_succ]
    omega
  rw [Nat.mul_comm]
  exact Nat.mul_le_mul_left _ this

theorem spare_aligned (header start n k : Nat) : 2 ^ k ∣ alignUp start 4 + header + spare header start (2 ^ k) n true := by
  have low := (alignUp_bounds (alignUp start 4 + header + (bitmapWords n * 4).toNat) k).1
  simp only [spare, if_true]
  rw [Nat.add_sub_cancel' (by omega), alignUp_two_pow]
  exact Nat.dvd_mul_left _ _

/-- A number that fits in a word is not changed by the wrap. -/
theorem wrap_natCast {m : Nat} (fits : m < 2 ^ 32) : ((m : Int) % 2 ^ 32).toNat = m := by
  rw [Int.emod_eq_of_lt (Int.natCast_nonneg m) (by omega), Int.toNat_natCast]

theorem memCacheBufsize_eq (pow : aligned = true → ∃ k, structSize = 2 ^ k)
    (fits : Fits header start structSize n aligned) : memCacheBufsize header start structSize n aligned =
      alignUp start 4 - start + header + spare header start structSize n aligned + structSize * n := by
  have low : start ≤ alignUp start 4 := (alignUp_bounds start 2).1
  have words := bitmapWords_nonneg n
  have address := fits.address
  generalize whole : alignUp start 4 + header + (bitmapWords n * 4).toNat + structSize * n = raw
  have sum : (alignUp start 4 + (bitmapWords n * 4 + structSize * n + header) : Int) = raw := by
    rw [← whole]
    push_cast
    rw [Int.toNat_of_nonneg (by omega)]
    ring
  have small : raw + (if aligned then structSize - 1 else 0) < 2 ^ 32 := by
    have : ((raw + if aligned then structSize - 1 else 0 : Nat) : Int) < 2 ^ 32 := by
      rw [Nat.cast_add, ← sum]
      push_cast at address ⊢
      linarith
    exact_mod_cast this
  have stop : (if aligned then alignUp raw structSize else raw) =
      alignUp start 4 + header + spare header start structSize n aligned + structSize * n := by
    cases aligned with
    | false =>
      rw [← whole]
      rfl
    | true =>
      obtain ⟨k, rfl⟩ := pow rfl
      have gap := (alignUp_bounds (alignUp start 4 + header + (bitmapWords n * 4).toNat) k).1
      rw [if_pos rfl, ← whole, alignUp_add_mul]
      simp only [spare, if_true]
      omega
  have below : (if aligned then alignUp raw structSize else raw) < 2 ^ 32 := by
    cases aligned with
    | false => exact small
    | true =>
      obtain ⟨k, rfl⟩ := pow rfl
      have high := (alignUp_bounds raw k).2
      simp only [if_true] at small ⊢
      omega
  simp only [memCacheBufsize, sum, wrap_natCast (m := raw) (by omega)]
  rw [← Int.natCast_sub (by omega), wrap_natCast (by omega), stop]
  omega

theorem le_tdiv_iff {left : Int} (pos : 1 ≤ structSize) (one : 1 ≤ n) : (n : Int) ≤ left.tdiv structSize ↔ structSize * n ≤ left := by
  by_cases nonneg : 0 ≤ left
  · rw [Int.tdiv_eq_ediv_of_nonneg nonneg, Int.le_ediv_iff_mul_le (by omega), Int.mul_comm]
  · have none := Int.tdiv_nonneg (a := -left) (b := structSize) (by omega) (by omega)
    rw [Int.neg_tdiv] at none
    have some : 0 ≤ (structSize : Int) * n := by positivity
    omega

/-- `mem_cache_init` on a buffer with `gap` bytes beside the header and `n` elements. -/
theorem memCacheInit_total {gap : Nat} (pos : 1 ≤ structSize) (one : 1 ≤ n)
    (pow : aligned = true → ∃ k, structSize = 2 ^ k) (divides : aligned = true → structSize ∣ alignUp start 4 + header + gap) :
    (∃ c, memCacheInit header start (alignUp start 4 - start + header + gap + structSize * n : Nat) structSize aligned = .ok (some c) ∧
      n ≤ c.total) ↔ bitmapWords (n + gap / structSize : Nat) * 4 ≤ gap := by
  have low : start ≤ alignUp start 4 := (alignUp_bounds start 2).1
  have words := bitmapWords_nonneg (n + gap / structSize)
  have few : (structSize : Int) ≤ structSize * n := le_mul_of_one_le_right (by omega) (by exact_mod_cast one)
  have left : ((alignUp start 4 - start + header + gap + structSize * n : Nat) : Int) - (alignUp start 4 - start) - header =
      gap + structSize * n := by
    push_cast [low]
    ring
  have elements : ((gap : Int) + structSize * n).tdiv structSize = (n + gap / structSize : Nat) := by
    rw [Int.tdiv_eq_ediv_of_nonneg (by positivity), Int.add_mul_ediv_left _ _ (by omega)]
    push_cast
    ring
  have odd : alignUp start 4 ≠ 0xFFFFFFFF := by
    have := alignUp_two_pow start 2
    norm_num at this
    omega
  unfold memCacheInit
  dsimp only
  rw [if_neg (by push_cast [low]; omega), left, if_neg (by omega), elements]
  unfold bitmapWords at words ⊢
  generalize ((n + gap / structSize : Nat) : Int) / 32 + (if ((n + gap / structSize : Nat) : Int) % 32 = 0 then 0 else 1) = bwords
    at words ⊢
  -- The elements that are left over a bitmap of `bwords` words, before the first of them is aligned.
  by_cases room : bwords * 4 ≤ gap
  · have enough := (le_tdiv_iff pos one).mpr (show (structSize : Int) * n ≤ gap + structSize * n - bwords * 4 by omega)
    rw [if_neg (by omega), if_neg (by omega)]
    refine iff_of_true ?_ room
    cases aligned with
    | false => exact ⟨_, rfl, enough⟩
    | true =>
      obtain ⟨k, rfl⟩ := pow rfl
      obtain ⟨above, near⟩ := alignUp_bounds (alignUp start 4 + header + 4 * bwords.toNat) k
      have reach := (alignUp_le_iff (x := alignUp start 4 + header + 4 * bwords.toNat) (divides rfl)).mpr (by omega)
      rw [if_pos rfl, Int.toNat_natCast, if_neg (by omega)]
      exact ⟨_, rfl, (le_tdiv_iff pos one).mpr (by omega)⟩
  · refine iff_of_false ?_ room
    rintro ⟨c, made, enough⟩
    split_ifs at made
    all_goals cases made
    all_goals
      have := (le_tdiv_iff pos one).mp enough
      omega

end Size

/-! ## Quotas -/

/-- A capability's `size` and `used`. Both are unsigned, so `used` counts modulo `2 ^ 32`. -/
structure Quota where
  size : Nat
  used : Int := 0

/-- `capability_consume`. -/
def capabilityConsume (q : Quota) (quantity : Int) : Option Quota :=
  if (q.size : Int) < (q.used + quantity) % 2 ^ 32 then none else some { q with used := q.used + quantity }

/-- `capability_free`. Its check that an unsigned count is not below zero never fails. -/
def capabilityFree (q : Quota) (quantity : Int) : Quota := { q with used := q.used - quantity }

/-- A cache with the quotas of its users. -/
structure Pool (ι : Type) where
  cache : MemCache
  live : List Nat := []
  quota : ι → Quota

inductive PoolCall (ι : Type)
  | alloc (i : ι)
  | free (i : ι) (addr : Nat)

/-- The `_cap_alloc` and `_cap_free` functions: the quota that is credited need not be the one that was charged. -/
def poolCalls (ι : Type) [DecidableEq ι] : Machine (Pool ι) (PoolCall ι) Bug where
  enabled s
    | .alloc _ => True
    | .free _ addr => addr ∈ s.live
  step s
    | .alloc i =>
      match capabilityConsume (s.quota i) 1 with
      | none => pure s
      | some q => do
        let (c, addr) ← memCacheAlloc s.cache
        pure { cache := c, live := addr.toList ++ s.live, quota := update s.quota i q }
    | .free i addr => pure { cache := (memCacheFree s.cache addr).1, live := s.live.erase addr
                             quota := update s.quota i (capabilityFree (s.quota i) 1) }

/-- No more is allocated than the quotas allow, and the cache holds that much. -/
structure Backed {ι : Type} [Fintype ι] (n : Nat) (s : Pool ι) : Prop where
  live : Live s.cache s.live
  total : n ≤ s.cache.total
  small : n < 2 ^ 31
  sizes : ∑ i, (s.quota i).size = n
  within : ∀ i, (s.quota i).used ≤ (s.quota i).size
  used : ∑ i, (s.quota i).used = s.live.length

section Quotas
variable {ι : Type} [Fintype ι] {n : Nat} {s s' : Pool ι} {q : Quota} {i : ι}

/-- A quota that lets one more through is not used up, and neither are all quotas together. -/
theorem Backed.consume (backed : Backed n s) (passed : capabilityConsume (s.quota i) 1 = some q) :
    q = { s.quota i with used := (s.quota i).used + 1 } ∧ q.used ≤ q.size ∧ s.live.length < n := by
  have sizes := backed.sizes
  have below : (s.quota i).size ≤ n := sizes ▸ Finset.single_le_sum (f := fun j => (s.quota j).size) (fun _ _ => Nat.zero_le _) (Finset.mem_univ i)
  have within := backed.within i
  have small := backed.small
  unfold capabilityConsume at passed
  split at passed
  · exact nomatch passed
  next fits =>
  cases passed
  have more : (s.quota i).used + 1 ≤ (s.quota i).size := by omega
  refine ⟨rfl, more, ?_⟩
  have sum : ∑ j, (s.quota j).used < ∑ j, ((s.quota j).size : Int) :=
    Finset.sum_lt_sum (fun j _ => backed.within j) ⟨i, Finset.mem_univ i, by omega⟩
  rw [backed.used, ← Nat.cast_sum, sizes] at sum
  omega

theorem Backed.alloc (backed : Backed n s) (passed : capabilityConsume (s.quota i) 1 = some q) :
    ∃ c addr, memCacheAlloc s.cache = .ok (c, some addr) ∧ Live c (addr :: s.live) ∧ SameLayout s.cache c := by
  obtain ⟨-, -, less⟩ := backed.consume passed
  obtain ⟨⟨c, addr⟩, ran, live, same, lowest⟩ := (memCacheAlloc_sat backed.live).exists_ok
  cases addr with
  | none =>
    have full := lowest.none.mp rfl
    have := backed.total
    omega
  | some addr => exact ⟨c, addr, ran, live, same⟩

variable [DecidableEq ι]

theorem sum_update (f : ι → Quota) (i : ι) (q : Quota) :
    ∑ j, (update f i q j).used = ∑ j, (f j).used - (f i).used + q.used := by
  rw [← Finset.add_sum_erase _ _ (Finset.mem_univ i), ← Finset.add_sum_erase Finset.univ (fun j => (f j).used) (Finset.mem_univ i),
    Finset.sum_congr rfl (fun j mem => by rw [update_of_ne (Finset.ne_of_mem_erase mem)])]
  simp only [update_self]
  ring

theorem Backed.sizes_update (backed : Backed n s) (same : q.size = (s.quota i).size) :
    ∑ j, (update s.quota i q j).size = n := by
  rw [← backed.sizes]
  refine Finset.sum_congr rfl (fun j _ => ?_)
  by_cases at_i : j = i
  · subst at_i
    rw [update_self, same]
  · rw [update_of_ne at_i]

theorem Backed.step {call : PoolCall ι} (backed : Backed n s) (enabled : (poolCalls ι).enabled s call)
    (stepped : (poolCalls ι).step s call = .ok s') : Backed n s' := by
  have used := backed.used
  cases call with
  | alloc i =>
    simp only [poolCalls] at stepped
    cases passed : capabilityConsume (s.quota i) 1 with
    | none =>
      rw [passed] at stepped
      cases stepped
      exact backed
    | some q =>
      obtain ⟨c, addr, ran, live, same⟩ := backed.alloc passed
      obtain ⟨eq, within, -⟩ := backed.consume passed
      rw [passed] at stepped
      simp only [ran, ok_bind] at stepped
      cases stepped
      refine ⟨live, same.total ▸ backed.total, backed.small, backed.sizes_update (by rw [eq]), fun j => ?_, ?_⟩
      · by_cases at_i : j = i
        · subst at_i
          simpa using within
        · simpa [at_i] using backed.within j
      · simp only [sum_update, Option.toList_some, List.singleton_append, List.length_cons]
        rw [used, eq]
        push_cast
        ring
  | free i addr =>
    have live : addr ∈ s.live := enabled
    cases stepped
    obtain ⟨-, freed, same⟩ := memCacheFree_live backed.live live
    have one : 0 < s.live.length := List.length_pos_of_mem live
    refine ⟨freed, same.total ▸ backed.total, backed.small, backed.sizes_update rfl, fun j => ?_, ?_⟩
    · have within := backed.within j
      by_cases at_i : j = i
      · subst at_i
        simp only [update_self, capabilityFree]
        omega
      · simpa [at_i] using within
    · simp only [sum_update, capabilityFree, List.length_erase_of_mem live]
      omega

end Quotas

section Exhaustion
variable {header start structSize n : Nat} {aligned : Bool}

/-- The cache for `n` elements holds `n` elements exactly where the bitmap that is laid out fits in what is spare,
and then whoever passes a quota finds an element. -/
theorem caches_hold_quotas (pos : 1 ≤ structSize) (one : 1 ≤ n) (pow : aligned = true → ∃ k, structSize = 2 ^ k)
    (fits : Fits header start structSize n aligned) :
    ((∃ c, memCacheInit header start (memCacheBufsize header start structSize n aligned) structSize aligned = .ok (some c) ∧
      n ≤ c.total) ↔ Roomy header start structSize n aligned) ∧
    ∀ c, memCacheInit header start (memCacheBufsize header start structSize n aligned) structSize aligned = .ok (some c) →
      n ≤ c.total → ∀ (ι : Type) [Fintype ι] [DecidableEq ι] (size : ι → Nat), ∑ i, size i = n →
      ∀ s, (poolCalls ι).Reaches { cache := c, quota := fun i => { size := size i } } s →
      ∀ i q, capabilityConsume (s.quota i) 1 = some q → ∃ c' addr, memCacheAlloc s.cache = .ok (c', some addr) := by
  have size := memCacheBufsize_eq pow fits
  refine ⟨?_, fun c made total ι _ _ size sum s reached i q passed => ?_⟩
  · rw [size]
    refine memCacheInit_total pos one pow (fun isAligned => ?_)
    subst isAligned
    obtain ⟨k, rfl⟩ := pow rfl
    exact spare_aligned header start n k
  · have layout := (memCacheInit_layout (by omega) (fun isAligned => by
      obtain ⟨k, rfl⟩ := pow isAligned
      exact ⟨k, by push_cast; rfl⟩)).ok made c rfl
    have small : n < 2 ^ 31 := by
      have := fits.size
      have := Nat.le_mul_of_pos_left n pos
      omega
    have backed : Backed n s := by
      refine reached.invariant (I := Backed n) (fun s call s' backed enabled stepped => backed.step enabled stepped) ?_
      exact ⟨layout.toLive (by omega), total, small, sum, fun i => by simp, by simp⟩
    obtain ⟨c', addr, ran, -⟩ := backed.alloc passed
    exact ⟨c', addr, ran⟩

/-- Three pages for thread control blocks, with quotas of one and two. -/
theorem caches_hold_quotas_ktcb : Roomy 52 0x1000 4096 3 true ∧
    ∃ c, memCacheInit 52 0x1000 (memCacheBufsize 52 0x1000 4096 3 true) 4096 true = .ok (some c) ∧ 3 ≤ c.total ∧
      ∃ c' addr, memCacheAlloc c = .ok (c', some addr) := by
  have roomy : Roomy 52 0x1000 4096 3 true := by decide
  obtain ⟨room, exhausted⟩ := @caches_hold_quotas 52 0x1000 4096 3 true (by decide) (by decide) (fun _ => ⟨12, by decide⟩)
    ⟨by decide, by decide⟩
  obtain ⟨c, made, total⟩ := room.mpr roomy
  exact ⟨roomy, c, made, total, exhausted c made total (Fin 2) ![1, 2] rfl _ .start 0 _ rfl⟩

/-- The 384 mutex queues of 48 bytes get a buffer for 383. -/
theorem cache_too_small : ¬ ∃ c, memCacheInit 52 0x1000 (memCacheBufsize 52 0x1000 48 384 false) 48 false = .ok (some c) ∧ 384 ≤ c.total := by
  have made : (memCacheInit 52 0x1000 (memCacheBufsize 52 0x1000 48 384 false) 48 false).toOption.map
      (fun r => r.map (fun c => c.total)) = some (some 383) := rfl
  rintro ⟨c, ran, total⟩
  rw [ran] at made
  simp only [Except.toOption, Option.map_some, Option.some.injEq] at made
  omega

end Exhaustion

end Codezero.Cache
