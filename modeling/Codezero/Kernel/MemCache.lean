import Codezero.Kernel.State
import Codezero.Lib.Bitmap
import Codezero.Lib.Machine
import Codezero.Lib.Outcome

/-!
# The kernel's memory caches

A cache carves a buffer into a header, a bitmap and elements of one size. Addresses and sizes do not overflow here,
so they are numbers; the cache size is an `int` that the layout computation may take below zero. The mutex is left
out: one caller runs at a time.
-/

namespace Codezero.Cache
open Codezero.Kernel (Word)
open Codezero.Lib

/-! ## The model -/

inductive Bug
  | alignment
  | bitmapFull
  deriving DecidableEq, Repr

structure MemCache where
  total : Int
  free : Int
  start : Nat
  stop : Int
  structSize : Nat
  /-- Where the bitmap lies and how many words of it `mem_cache_init` clears. -/
  bitmapAddr : Nat
  bwords : Nat
  bitmap : Nat → Word

/-- `align_up`: clearing the bits of a mask takes away what the mask keeps. -/
def alignUp (addr size : Nat) : Nat := addr + (size - 1) - ((addr + (size - 1)) &&& (size - 1))

/-- The end of `mem_cache_init`. -/
def newCache (areaStart : Nat) (cacheSize structSize : Int) (bitmapAddr bwords : Nat) : MemCache :=
  { total := cacheSize.tdiv structSize, free := cacheSize.tdiv structSize
    start := areaStart, stop := areaStart + cacheSize, structSize := structSize.toNat
    bitmapAddr := bitmapAddr, bwords := bwords, bitmap := fun _ => 0 }

/-- `mem_cache_init`, where `header` is `sizeof(struct mem_cache)`. -/
def memCacheInit (header bufstart : Nat) (cacheSize structSize : Int) (aligned : Bool) : Except Bug (Option MemCache) :=
  let start := alignUp bufstart 4
  let cacheSize := cacheSize - (start - bufstart)
  if structSize < 0 ∨ cacheSize < 0 ∨ start = 0xFFFFFFFF then .ok none
  else
    let areaStart := start + header
    let cacheSize := cacheSize - header
    if cacheSize < structSize then .ok none
    else
      let total := cacheSize.tdiv structSize
      let bwords := total / 32 + if total % 32 = 0 then 0 else 1
      let cacheSize := cacheSize - bwords * 4
      let total := cacheSize.tdiv structSize
      if total ≤ 0 then .ok none
      else if cacheSize ≤ 0 then .ok none
      else
        let bitmap := areaStart
        let areaStart := areaStart + 4 * bwords.toNat
        if aligned then
          let addrAligned := alignUp areaStart structSize.toNat
          let diff := addrAligned - areaStart
          if diff ≥ structSize.toNat then .error .alignment
          else .ok (some (newCache addrAligned (cacheSize - diff) structSize bitmap bwords.toNat))
        else .ok (some (newCache areaStart cacheSize structSize bitmap bwords.toNat))

/-- `find_and_set_first_free_bit`. -/
def findAndSetFirstFreeBit (word : Nat → Word) (limit : Nat) : Option (Nat × (Nat → Word)) :=
  (Bitmap.firstClear word limit).map (fun i => (i, Bitmap.set word i))

/-- `check_and_clear_bit`. -/
def checkAndClearBit (word : Nat → Word) (bit : Nat) : Option (Nat → Word) :=
  if Bitmap.test word bit then some (Bitmap.clear word bit) else none

/-- `mem_cache_alloc`. -/
def memCacheAlloc (c : MemCache) : Except Bug (MemCache × Option Nat) :=
  if c.free > 0 then
    match findAndSetFirstFreeBit c.bitmap c.total.toNat with
    | none => .error .bitmapFull
    | some (bit, bitmap) => .ok ({ c with free := c.free - 1, bitmap := bitmap }, some (c.start + c.structSize * bit))
  else .ok (c, none)

/-- `mem_cache_free`. -/
def memCacheFree (c : MemCache) (addr : Nat) : MemCache × Int :=
  if addr < c.start ∨ (addr : Int) > c.stop then (c, -1)
  else
    let bit := (addr - c.start) / c.structSize
    if bit * c.structSize + c.start ≠ addr then (c, -1)
    else
      match checkAndClearBit c.bitmap bit with
      | none => (c, -1)
      | some bitmap =>
        let c := { c with bitmap := bitmap, free := c.free + 1 }
        if c.free > c.total then (c, -1) else (c, 0)

/-! ## The layout -/

/-- The `i`-th element. -/
def MemCache.slot (c : MemCache) (i : Nat) : Nat := c.start + c.structSize * i

/-- The elements lie in the buffer behind the header and the bitmap, and each has a bit. -/
structure Layout (header bufstart : Nat) (cacheSize structSize : Int) (aligned : Bool) (c : MemCache) : Prop where
  size : (c.structSize : Int) = structSize
  empty : c.free = c.total ∧ ∀ i, Bitmap.test c.bitmap i = false
  total : 0 ≤ c.total
  header : bufstart ≤ alignUp bufstart 4 ∧ alignUp bufstart 4 + header = c.bitmapAddr
  bitmap : c.bitmapAddr + 4 * c.bwords ≤ c.start
  inside : (c.start : Int) + structSize * c.total ≤ c.stop ∧ c.stop ≤ bufstart + cacheSize
  bits : c.total ≤ 32 * c.bwords
  aligned : aligned = true → ∀ i, c.structSize ∣ c.slot i

section Layout
variable {header bufstart : Nat} {cacheSize structSize : Int} {aligned : Bool} {c : MemCache} {addr k : Nat}

theorem alignUp_two_pow (addr k : Nat) : alignUp addr (2 ^ k) = (addr + (2 ^ k - 1)) / 2 ^ k * 2 ^ k := by
  rw [alignUp, Nat.and_two_pow_sub_one_eq_mod]
  have split := Nat.div_add_mod (addr + (2 ^ k - 1)) (2 ^ k)
  have comm := Nat.mul_comm (2 ^ k) ((addr + (2 ^ k - 1)) / 2 ^ k)
  omega

theorem alignUp_bounds (addr k : Nat) : addr ≤ alignUp addr (2 ^ k) ∧ alignUp addr (2 ^ k) < addr + 2 ^ k := by
  have pos := Nat.two_pow_pos k
  have mod := Nat.mod_lt (addr + (2 ^ k - 1)) pos
  rw [alignUp, Nat.and_two_pow_sub_one_eq_mod]
  omega

theorem Layout.enlarge {cacheSize' : Int} (layout : Layout header bufstart cacheSize structSize aligned c) (le : cacheSize ≤ cacheSize') :
    Layout header bufstart cacheSize' structSize aligned c :=
  { layout with inside := ⟨layout.inside.1, by have := layout.inside.2; omega⟩ }

theorem newCache_layout {areaStart bitmapAddr bwords : Nat} {left : Int} (pos : 1 ≤ structSize) (nonneg : 0 ≤ left)
    (start : bufstart ≤ alignUp bufstart 4 ∧ alignUp bufstart 4 + header = bitmapAddr)
    (bitmap : bitmapAddr + 4 * bwords ≤ areaStart) (fits : areaStart + left ≤ bufstart + cacheSize)
    (bits : left / structSize ≤ 32 * bwords) (divides : aligned = true → structSize.toNat ∣ areaStart) :
    Layout header bufstart cacheSize structSize aligned (newCache areaStart left structSize bitmapAddr bwords) := by
  have total : left.tdiv structSize = left / structSize := Int.tdiv_eq_ediv_of_nonneg nonneg
  have used := Int.mul_ediv_self_le (x := left) (k := structSize) (by omega)
  refine ⟨Int.toNat_of_nonneg (by omega), ⟨rfl, fun i => by simp [newCache, Bitmap.test]⟩, ?_, start, bitmap, ⟨?_, fits⟩, ?_, ?_⟩
  · simp only [newCache, total]
    exact Int.ediv_nonneg nonneg (by omega)
  · simp only [newCache, total]
    omega
  · simp only [newCache, total]
    exact bits
  · intro isAligned i
    exact (Nat.dvd_add_right (divides isAligned)).mpr ⟨i, rfl⟩

theorem memCacheInit_layout (pos : 1 ≤ structSize) (pow : aligned = true → ∃ k : Nat, structSize = 2 ^ k) :
    Sat (memCacheInit header bufstart cacheSize structSize aligned)
      (fun r => ∀ c, r = some c → Layout header bufstart cacheSize structSize aligned c) (fun _ => False) := by
  have start : bufstart ≤ alignUp bufstart 4 := (alignUp_bounds bufstart 2).1
  unfold memCacheInit
  dsimp only
  split
  · exact fun c none => nomatch none
  split
  · exact fun c none => nomatch none
  next big =>
  generalize left : cacheSize - (alignUp bufstart 4 - bufstart) - header = first at big
  have first_total : first.tdiv structSize = first / structSize := Int.tdiv_eq_ediv_of_nonneg (by omega)
  rw [first_total]
  have some_total : 0 ≤ first / structSize := Int.ediv_nonneg (by omega) (by omega)
  generalize words : first / structSize / 32 + (if first / structSize % 32 = 0 then 0 else 1) = bwords
  have enough : first / structSize ≤ 32 * bwords ∧ 0 ≤ bwords := by
    rw [← words]
    split <;> omega
  split
  · exact fun c none => nomatch none
  split
  · exact fun c none => nomatch none
  next some pos_left =>
  have second_total : (first - bwords * 4).tdiv structSize = (first - bwords * 4) / structSize :=
    Int.tdiv_eq_ediv_of_nonneg (by omega)
  rw [second_total] at some
  -- What is left holds at least one element, and no more than there are bits.
  have one : structSize ≤ first - bwords * 4 := by
    by_contra less
    exact some (Int.le_of_eq (Int.ediv_eq_zero_of_lt (by omega) (by omega)))
  have fewer : ∀ left ≤ first, left / structSize ≤ 32 * bwords.toNat := fun left le => by
    have := Int.ediv_le_ediv (c := structSize) (by omega) le
    omega
  split
  · next isAligned =>
    obtain ⟨k, rfl⟩ := pow isAligned
    have cast : ((2 ^ k : Nat) : Int) = 2 ^ k := by push_cast; rfl
    have power : ((2 : Int) ^ k).toNat = 2 ^ k := by
      rw [← cast]
      exact Int.toNat_natCast _
    obtain ⟨low, high⟩ := alignUp_bounds (alignUp bufstart 4 + header + 4 * bwords.toNat) k
    rw [power, if_neg (by omega)]
    rintro c ⟨⟩
    refine newCache_layout pos (by omega) ⟨start, rfl⟩ (by omega) (by omega) (fewer _ (by omega)) (fun _ => ?_)
    rw [power, alignUp_two_pow]
    exact Nat.dvd_mul_left _ _
  · next notAligned =>
    rintro c ⟨⟩
    exact newCache_layout pos (by omega) ⟨start, rfl⟩ (Nat.le_refl _) (by omega) (fewer _ (by omega))
      (fun isAligned => absurd isAligned notAligned)

end Layout

/-! ## Allocating and freeing -/

inductive Call
  | alloc
  | free (addr : Nat)

/-- A cache and the addresses that are allocated from it. Only those are freed. -/
def cacheCalls : Machine (MemCache × List Nat) Call Bug where
  enabled s
    | .alloc => True
    | .free addr => addr ∈ s.2
  step s
    | .alloc => do
      let (c, addr) ← memCacheAlloc s.1
      pure (c, addr.toList ++ s.2)
    | .free addr => pure ((memCacheFree s.1 addr).1, s.2.erase addr)

/-- The bits that are set are those of the elements that are allocated, and `free` counts the others. -/
structure Live (c : MemCache) (live : List Nat) : Prop where
  size : 0 < c.structSize
  total : 0 ≤ c.total
  stop : (c.start : Int) + c.structSize * c.total ≤ c.stop
  nodup : live.Nodup
  mem : ∀ addr, addr ∈ live ↔ ∃ i < c.total.toNat, Bitmap.test c.bitmap i = true ∧ addr = c.slot i
  count : c.free + live.length = c.total
  nonneg : 0 ≤ c.free

section Live
variable {c c' : MemCache} {live : List Nat} {addr i j : Nat}

theorem slot_inj (size : 0 < c.structSize) : c.slot i = c.slot j ↔ i = j := by
  rw [MemCache.slot, MemCache.slot, Nat.add_left_cancel_iff]
  exact Nat.mul_right_inj (Nat.ne_of_gt size)

theorem Live.slot_mem (inv : Live c live) (lt : i < c.total.toNat) : c.slot i ∈ live ↔ Bitmap.test c.bitmap i = true := by
  rw [inv.mem]
  constructor
  · rintro ⟨j, -, set, same⟩
    rwa [(slot_inj inv.size).mp same]
  · exact fun set => ⟨i, lt, set, rfl⟩

/-- An element is free as long as not all are allocated. -/
theorem Live.exists_clear (inv : Live c live) (some : 0 < c.free) : ∃ i < c.total.toNat, Bitmap.test c.bitmap i = false := by
  by_contra full
  have slots : ((List.range c.total.toNat).map c.slot).length ≤ live.length := by
    refine (List.Nodup.subperm ?_ (fun addr mem => ?_)).length_le
    · exact List.nodup_range.map (fun i j same => (slot_inj inv.size).mp same)
    · obtain ⟨i, lt, rfl⟩ := List.mem_map.mp mem
      have lt := List.mem_range.mp lt
      exact (inv.slot_mem lt).mpr (Bool.eq_true_of_not_eq_false (fun clear => full ⟨i, lt, clear⟩))
  rw [List.length_map, List.length_range] at slots
  have := inv.count
  have := inv.total
  omega

/-- The lowest element that is not allocated, if there is one. -/
structure Lowest (c : MemCache) (live : List Nat) (addr : Option Nat) : Prop where
  none : addr = none ↔ (live.length : Int) = c.total
  some : ∀ a ∈ addr, a ∉ live ∧ ∃ i < c.total.toNat, a = c.slot i ∧ ∀ j < i, c.slot j ∈ live

/-- The layout stays as it is. -/
structure SameLayout (c c' : MemCache) : Prop where
  start : c'.start = c.start
  structSize : c'.structSize = c.structSize
  total : c'.total = c.total

theorem SameLayout.trans {c'' : MemCache} (first : SameLayout c c') (second : SameLayout c' c'') : SameLayout c c'' :=
  ⟨second.start.trans first.start, second.structSize.trans first.structSize, second.total.trans first.total⟩

theorem memCacheAlloc_sat (inv : Live c live) : Sat (memCacheAlloc c)
    (fun r => Live r.1 (r.2.toList ++ live) ∧ SameLayout c r.1 ∧ Lowest c live r.2) (fun _ => False) := by
  have count := inv.count
  unfold memCacheAlloc
  split
  · next more =>
    obtain ⟨k, ltk, clear⟩ := inv.exists_clear more
    unfold findAndSetFirstFreeBit
    cases found : Bitmap.firstClear c.bitmap c.total.toNat with
    | none => exact absurd (Bitmap.firstClear_eq_none.mp found k ltk) (by rw [clear]; exact Bool.false_ne_true)
    | some i =>
      obtain ⟨lt, clear, below⟩ := Bitmap.firstClear_eq_some.mp found
      have fresh : c.slot i ∉ live := fun mem => by
        rw [inv.slot_mem lt, clear] at mem
        exact Bool.false_ne_true mem
      refine ⟨⟨inv.size, inv.total, inv.stop, List.nodup_cons.mpr ⟨fresh, inv.nodup⟩, fun addr => ?_, ?_, ?_⟩,
        ⟨rfl, rfl, rfl⟩, ⟨?_, ?_⟩⟩
      · simp only [Option.toList_some, List.singleton_append, List.mem_cons, inv.mem, Bitmap.test_set (show 0 < 32 by decide),
          Bool.or_eq_true, decide_eq_true_eq]
        constructor
        · rintro (rfl | ⟨j, ltj, set, rfl⟩)
          · exact ⟨i, lt, .inl rfl, rfl⟩
          · exact ⟨j, ltj, .inr set, rfl⟩
        · rintro ⟨j, ltj, rfl | set, rfl⟩
          · exact .inl rfl
          · exact .inr ⟨j, ltj, set, rfl⟩
      · simp only [Option.toList_some, List.singleton_append, List.length_cons]
        omega
      · simp only
        omega
      · exact ⟨fun none => (nomatch none), fun full => by omega⟩
      · rintro addr ⟨⟩
        exact ⟨fresh, i, lt, rfl, fun j less => (inv.slot_mem (Nat.lt_trans less lt)).mpr (below j less)⟩
  · next none =>
    have := inv.nonneg
    exact ⟨inv, ⟨rfl, rfl, rfl⟩, ⟨fun _ => by omega, fun _ => rfl⟩, fun addr mem => nomatch mem⟩

theorem memCacheFree_live (inv : Live c live) (mem : addr ∈ live) :
    (memCacheFree c addr).2 = 0 ∧ Live (memCacheFree c addr).1 (live.erase addr) ∧ SameLayout c (memCacheFree c addr).1 := by
  obtain ⟨i, lt, set, rfl⟩ := (inv.mem addr).mp mem
  have total := inv.total
  have stop := inv.stop
  have count := inv.count
  have size := inv.size
  have bit : (c.slot i - c.start) / c.structSize = i := by
    rw [MemCache.slot, Nat.add_sub_cancel_left, Nat.mul_div_cancel_left i size]
  have address : i * c.structSize + c.start = c.slot i := by
    rw [MemCache.slot]
    ring
  have inside : ¬ (c.slot i < c.start ∨ (c.slot i : Int) > c.stop) := by
    have below : (c.structSize : Int) * i ≤ c.structSize * c.total := Int.mul_le_mul_of_nonneg_left (by omega) (by omega)
    have value : (c.slot i : Int) = c.start + c.structSize * i := by
      rw [MemCache.slot]
      push_cast
      rfl
    omega
  have one : 0 < live.length := List.length_pos_of_mem mem
  have less : ¬ c.free + 1 > c.total := by omega
  simp only [memCacheFree, if_neg inside, bit, address, not_true_eq_false, if_false, ne_eq, checkAndClearBit, set, if_true, if_neg less]
  refine ⟨trivial, ⟨size, total, stop, inv.nodup.erase _, fun addr => ?_, ?_, ?_⟩, rfl, rfl, rfl⟩
  · rw [inv.nodup.mem_erase_iff, inv.mem]
    simp only [Bitmap.test_clear (show 0 < 32 by decide), Bool.and_eq_true, Bool.not_eq_true', decide_eq_false_iff_not]
    constructor
    · rintro ⟨differ, j, ltj, set, rfl⟩
      exact ⟨j, ltj, ⟨fun same => differ (congrArg c.slot same.symm), set⟩, rfl⟩
    · rintro ⟨j, ltj, ⟨differ, set⟩, rfl⟩
      exact ⟨fun same => differ ((slot_inj size).mp same).symm, j, ltj, set, rfl⟩
  · simp only
    rw [List.length_erase_of_mem mem]
    omega
  · have := inv.nonneg
    simp only
    omega

end Live

section Runs
variable {header bufstart : Nat} {cacheSize structSize : Int} {aligned : Bool} {c c' : MemCache} {live : List Nat}

theorem Layout.toLive (layout : Layout header bufstart cacheSize structSize aligned c) (pos : 1 ≤ structSize) : Live c [] := by
  have size := layout.size
  refine ⟨by omega, layout.total, size ▸ layout.inside.1, List.nodup_nil, fun addr => ?_, ?_, layout.empty.1 ▸ layout.total⟩
  · refine ⟨fun mem => absurd mem List.not_mem_nil, fun ⟨i, _, set, _⟩ => ?_⟩
    rw [layout.empty.2 i] at set
    exact absurd set Bool.false_ne_true
  · rw [layout.empty.1]
    exact Int.add_zero _

theorem Layout.slot_value (layout : Layout header bufstart cacheSize structSize aligned c) (i : Nat) :
    (c.slot i : Int) = c.start + structSize * i := by
  rw [MemCache.slot, ← layout.size]
  push_cast
  rfl

/-- Elements lie behind the bitmap, in the buffer and one after another. -/
theorem Layout.slot_bounds (layout : Layout header bufstart cacheSize structSize aligned c) (pos : 1 ≤ structSize) {i : Nat}
    (lt : i < c.total.toNat) : c.bitmapAddr + 4 * c.bwords ≤ c.slot i ∧ bufstart ≤ c.slot i ∧
      (c.slot i : Int) + structSize ≤ bufstart + cacheSize ∧ ∀ j < i, (c.slot j : Int) + structSize ≤ c.slot i := by
  have total := layout.total
  have fits : structSize * (i + 1) ≤ structSize * c.total := Int.mul_le_mul_of_nonneg_left (by omega) (by omega)
  have start := layout.header
  have bitmap := layout.bitmap
  have inside := layout.inside
  have here := layout.slot_value i
  have pos_slot : 0 ≤ structSize * (i : Int) := Int.mul_nonneg (by omega) (by omega)
  rw [Int.mul_add] at fits
  refine ⟨by omega, by omega, by omega, fun j less => ?_⟩
  have there := layout.slot_value j
  have gap : structSize * ((j : Int) + 1) ≤ structSize * i := Int.mul_le_mul_of_nonneg_left (by omega) (by omega)
  rw [Int.mul_add] at gap
  omega

theorem live_of_reaches (init : Live c []) (reached : cacheCalls.Reaches (c, []) (c', live)) : Live c' live ∧ SameLayout c c' := by
  refine reached.invariant (I := fun s => Live s.1 s.2 ∧ SameLayout c s.1) ?_ ⟨init, rfl, rfl, rfl⟩
  intro s call s' inv enabled stepped
  obtain ⟨inv, same⟩ := inv
  cases call with
  | alloc =>
    obtain ⟨r, allocated, eq⟩ := bind_eq_ok.mp stepped
    obtain rfl := Except.ok.inj eq
    obtain ⟨inv', same', -⟩ := (memCacheAlloc_sat inv).ok allocated
    exact ⟨inv', same.trans same'⟩
  | free addr =>
    obtain rfl := Except.ok.inj stepped
    obtain ⟨-, inv', same'⟩ := memCacheFree_live inv enabled
    exact ⟨inv', same.trans same'⟩

theorem mem_cache_correct (pos : 1 ≤ structSize) (pow : aligned = true → ∃ k : Nat, structSize = 2 ^ k) :
    (∃ r, memCacheInit header bufstart cacheSize structSize aligned = .ok r) ∧
    ∀ c, memCacheInit header bufstart cacheSize structSize aligned = .ok (some c) →
      -- The elements lie in the buffer, apart from each other and from what is in front of them.
      (∀ i < c.total.toNat, bufstart ≤ c.slot i ∧ (c.slot i : Int) + structSize ≤ bufstart + cacheSize ∧
        bufstart ≤ alignUp bufstart 4 ∧ alignUp bufstart 4 + header = c.bitmapAddr ∧ c.bitmapAddr + 4 * c.bwords ≤ c.slot i ∧
        (aligned = true → structSize ∣ c.slot i) ∧ ∀ j < i, (c.slot j : Int) + structSize ≤ c.slot i) ∧
      c.total.toNat ≤ 32 * c.bwords ∧
      ∀ c' live, cacheCalls.Reaches (c, []) (c', live) →
        c'.free + live.length = c'.total ∧ SameLayout c c' ∧
        (∃ c'' addr, memCacheAlloc c' = .ok (c'', addr) ∧ Lowest c' live addr) ∧
        ∀ addr ∈ live, (memCacheFree c' addr).2 = 0 := by
  have init := @memCacheInit_layout header bufstart cacheSize structSize aligned pos pow
  refine ⟨(init.mono (fun _ _ => trivial)).exists_ok.imp (fun _ ran => ran.1), fun c ran => ?_⟩
  have layout := init.ok ran c rfl
  have total := layout.total
  refine ⟨fun i lt => ?_, ?_, fun c' live reached => ?_⟩
  · obtain ⟨bitmap, low, high, apart⟩ := layout.slot_bounds pos lt
    refine ⟨low, high, layout.header.1, layout.header.2, bitmap, fun isAligned => ?_, apart⟩
    rw [← layout.size]
    exact Int.natCast_dvd_natCast.mpr (layout.aligned isAligned i)
  · have := layout.bits
    omega
  · obtain ⟨inv, same⟩ := live_of_reaches (layout.toLive pos) reached
    obtain ⟨⟨c'', addr⟩, ran, -, -, lowest⟩ := (memCacheAlloc_sat inv).exists_ok
    exact ⟨inv.count, same, ⟨c'', addr, ran, lowest⟩, fun addr mem => (memCacheFree_live inv mem).1⟩

/-- A kilobyte from an odd place holds fifteen aligned elements, of which one is allocated. -/
theorem mem_cache_correct_aligned : ∃ c c', memCacheInit 48 0x1002 1024 64 true = .ok (some c) ∧ c.total = 15 ∧ c.start = 0x1040 ∧
    cacheCalls.Reaches (c, []) (c', [0x1040]) ∧ c'.free = 14 ∧ (∃ c'' addr, memCacheAlloc c' = .ok (c'', addr) ∧ Lowest c' [0x1040] addr) ∧
    (memCacheFree c' 0x1040).2 = 0 := by
  have init : (memCacheInit 48 0x1002 1024 64 true).toOption.bind (fun r => r.bind (fun c =>
      (memCacheAlloc c).toOption.map (fun r => (c.total, c.start, r.2, r.1.free)))) = some (15, 0x1040, some 0x1040, 14) := by
    decide +kernel
  obtain ⟨r, ran, init⟩ := Option.bind_eq_some_iff.mp init
  obtain ⟨c, rfl, init⟩ := Option.bind_eq_some_iff.mp init
  obtain ⟨⟨c', addr⟩, allocated, facts⟩ := Option.map_eq_some_iff.mp init
  simp only [Prod.mk.injEq] at facts
  obtain ⟨total, start, rfl, free⟩ := facts
  have ran := toOption_eq_some.mp ran
  have stepped : cacheCalls.step (c, []) .alloc = .ok (c', [0x1040]) := by
    simp only [cacheCalls, toOption_eq_some.mp allocated]
    rfl
  have reached : cacheCalls.Reaches (c, []) (c', [0x1040]) := .next .start (show cacheCalls.enabled (c, []) .alloc from trivial) trivial stepped
  obtain ⟨-, correct⟩ := @mem_cache_correct 48 0x1002 1024 64 true (by decide) (fun _ => ⟨6, by decide⟩)
  obtain ⟨-, -, runs⟩ := correct c ran
  obtain ⟨-, -, alloc, frees⟩ := runs c' [0x1040] reached
  exact ⟨c, c', ran, total, start, reached, free, alloc, frees 0x1040 List.mem_cons_self⟩

end Runs

end Codezero.Cache
