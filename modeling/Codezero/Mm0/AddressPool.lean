import Codezero.Lib.Machine
import Codezero.Mm0.IdPool
import Codezero.Space.Translation

/-!
# Address pools

The pager's `lib/addr.c`: an address pool hands out ranges of pages of its region by the ids of an id pool. A pool of
`address_pool_init` has one id for each page; `address_pool_init_with_idpool` takes the id pool it is given.
-/

namespace Codezero.Mm0
open Codezero.Lib
open Codezero.Kernel (Word)
open Codezero.Space (pageAlign pageAlignUp isPageAligned isPageAligned_iff pageAlign_toNat)

structure AddressPool where
  idpool : IdPool
  start : Word
  (end' : Word)

/-- `__pfn`. -/
def addrToPfn (addr : Word) : Word := addr >>> 12

/-- `__pfn_to_addr`. -/
def pfnToAddr (pfn : Word) : Word := pfn <<< 12

/-- `address_pool_init_with_idpool`. -/
def addressPoolInitWithIdpool (idpool : IdPool) (start end' : Word) : AddressPool := ⟨idpool, start, end'⟩

/-- `address_pool_init`. -/
def addressPoolInit (start end' : Word) : AddressPool := ⟨idPoolNewInit (addrToPfn (end' - start)).toNat, start, end'⟩

/-- `address_new`. -/
def addressNew (pool : AddressPool) (npages : Nat) : AddressPool × Word :=
  let new := idsNewContiguous pool.idpool npages
  ({ pool with idpool := new.1 }, if new.2 < 0 then 0 else pfnToAddr (BitVec.ofInt 32 new.2) + pool.start)

/-- `address_del`. -/
def addressDel (pool : AddressPool) (addr : Word) (npages : Nat) : AddressPool × Int :=
  match idsDelContiguous pool.idpool (addrToPfn (pageAlign addr - pool.start)) (BitVec.ofNat 32 npages) with
  | some deleted => ({ pool with idpool := deleted.1 }, if deleted.2 < 0 then -1 else 0)
  | none => (pool, 0) -- not reached: a page frame number is not negative

/-! ## The pager's own pool -/

/-- `pager_virtual_address_id_pool`. -/
def pagerVirtualAddressIdPool : IdPool := ⟨2048, 2048 * 32, fun _ => 0#32⟩

/-- `PAGER_MMAP_END`, for the linker's `__stack`. -/
def pagerMmapEnd (stack : Word) : Word := pageAlignUp stack + 0x100000

/-- `pager_address_pool_init`. -/
def pagerAddressPoolInit (stack : Word) : AddressPool :=
  addressPoolInitWithIdpool pagerVirtualAddressIdPool (pagerMmapEnd stack) (pagerMmapEnd stack + 0x200000)

namespace AddressPool

/-- The pages of the region. -/
def pages (pool : AddressPool) : Nat := (addrToPfn (pool.end' - pool.start)).toNat

/-- The region is not empty, does not begin at zero, and begins and ends on a page boundary. -/
structure Regular (pool : AddressPool) : Prop where
  startAligned : isPageAligned pool.start = true
  endAligned : isPageAligned pool.end' = true
  positive : 0 < pool.start.toNat
  nonempty : pool.start.toNat < pool.end'.toNat

/-- The address of a page of the region. -/
def pageAddr (pool : AddressPool) (p : Nat) : Nat := pool.start.toNat + 4096 * p

/-- What `address_new` makes of the id `p`. -/
def addrOf (pool : AddressPool) (p : Nat) : Word := pfnToAddr (BitVec.ofNat 32 p) + pool.start

section Addresses
variable {pool : AddressPool} {p n : Nat} (regular : pool.Regular)
include regular

theorem pageAddr_pages : pool.pageAddr pool.pages = pool.end'.toNat := by
  have start := isPageAligned_iff.mp regular.startAligned
  have stop := isPageAligned_iff.mp regular.endAligned
  have fits := pool.end'.isLt
  have less := regular.nonempty
  rw [pageAddr, pages, addrToPfn, BitVec.toNat_ushiftRight, Nat.shiftRight_eq_div_pow, BitVec.toNat_sub]
  omega

theorem pages_lt : pool.pages < 2 ^ 20 := by
  have whole := pageAddr_pages regular
  have fits := pool.end'.isLt
  have less := regular.positive
  rw [pageAddr] at whole
  omega

theorem addrOf_toNat (below : p < pool.pages) : (pool.addrOf p).toNat = pool.pageAddr p := by
  have whole := pageAddr_pages regular
  have fits := pool.end'.isLt
  rw [pageAddr] at whole ⊢
  rw [addrOf, pfnToAddr, BitVec.toNat_add, BitVec.toNat_shiftLeft, Nat.shiftLeft_eq, BitVec.toNat_ofNat]
  omega

theorem addrOf_aligned (below : p < pool.pages) : isPageAligned (pool.addrOf p) = true := by
  have start := isPageAligned_iff.mp regular.startAligned
  rw [isPageAligned_iff, addrOf_toNat regular below, pageAddr]
  omega

theorem addrOf_ne_zero (below : p < pool.pages) : pool.addrOf p ≠ 0 := fun zero => by
  have value := addrOf_toNat regular below
  have less := regular.positive
  rw [zero, pageAddr, show (0 : Word).toNat = 0 from rfl] at value
  omega

/-- `address_del` finds the id again. -/
theorem pfn_addrOf (below : p < pool.pages) : (addrToPfn (pageAlign (pool.addrOf p) - pool.start)).toNat = p := by
  have start := isPageAligned_iff.mp regular.startAligned
  have whole := pageAddr_pages regular
  have fits := pool.end'.isLt
  rw [pageAddr] at whole
  rw [addrToPfn, BitVec.toNat_ushiftRight, Nat.shiftRight_eq_div_pow, BitVec.toNat_sub, pageAlign_toNat,
    addrOf_toNat regular below, pageAddr]
  omega

end Addresses

/-- The id of the page is taken. -/
def Taken (pool : AddressPool) (p : Nat) : Prop := Bitmap.test pool.idpool.bitmap p = true

/-- A run of pages whose ids are free. -/
def Vacant (pool : AddressPool) (n p : Nat) : Prop := FreeRun pool.idpool.bitmap pool.idpool.bitlimit n p

/-- The pool after the ids of a run have been taken. -/
def take (pool : AddressPool) (p n : Nat) : AddressPool :=
  { pool with idpool := { pool.idpool with bitmap := setContigBits pool.idpool.bitmap p n } }

theorem take_taken {pool : AddressPool} {p n q : Nat} : (pool.take p n).Taken q ↔ (p ≤ q ∧ q < p + n) ∨ pool.Taken q :=
  test_setContigBits n q

/-- `address_new` takes the lowest vacant run, or returns zero. -/
theorem addressNew_cases (pool : AddressPool) {n : Nat} (pos : 0 < n) :
    (∃ p, IsLeast {p | pool.Vacant n p} p ∧ addressNew pool n = (pool.take p n, pool.addrOf p)) ∨
    ((∀ p, ¬ pool.Vacant n p) ∧ addressNew pool n = (pool, 0)) := by
  rcases findAndSetFirstFreeContigBits_cases pool.idpool.bitmap pool.idpool.bitlimit pos with
    ⟨p, least, found⟩ | ⟨none, failed⟩
  · refine .inl ⟨p, least, ?_⟩
    have natural : ¬ ((p : Int) < 0) := by omega
    simp only [addressNew, idsNewContiguous, found, if_neg natural, BitVec.ofInt_natCast, take, addrOf]
  · refine .inr ⟨none, ?_⟩
    simp only [addressNew, idsNewContiguous, failed]
    rfl

/-- `address_del` of a run whose ids are taken frees these and no others. -/
theorem addressDel_taken {pool : AddressPool} (regular : pool.Regular) {p n : Nat} (pos : 0 < n) (below : p + n ≤ pool.pages)
    (words : pool.pages ≤ pool.idpool.nwords * 32) (taken : ∀ q, p ≤ q → q < p + n → pool.Taken q) :
    ∃ bitmap, addressDel pool (pool.addrOf p) n = ({ pool with idpool := { pool.idpool with bitmap := bitmap } }, 0) ∧
      ∀ q, Bitmap.test bitmap q = true ↔ pool.Taken q ∧ ¬ (p ≤ q ∧ q < p + n) := by
  obtain ⟨code, tests⟩ := clearBitsFrom_set n taken
  refine ⟨_, ?_, tests⟩
  have few := pages_lt regular
  have number := pfn_addrOf regular (show p < pool.pages by omega)
  have count : (BitVec.ofNat 32 n).toNat = n := Nat.mod_eq_of_lt (by omega)
  have int : ∀ w : Word, w.toNat < 2 ^ 31 → w.toInt = w.toNat := fun w less => BitVec.toInt_eq_toNat_of_lt (by omega)
  have first := int _ (number.symm ▸ (by omega : p < 2 ^ 31))
  have size := int _ (count.symm ▸ (by omega : n < 2 ^ 31))
  have fits : (addrToPfn (pageAlign (pool.addrOf p) - pool.start)).toInt + (BitVec.ofNat 32 n).toInt < 2 ^ 31 := by
    rw [first, size]
    omega
  have inRange : ¬ ((pool.idpool.nwords * 32 : Nat) : Int) <
      (addrToPfn (pageAlign (pool.addrOf p) - pool.start) + BitVec.ofNat 32 n).toInt := by
    rw [toInt_add_nonneg _ (by omega), if_pos fits, first, size]
    omega
  simp only [addressDel, idsDelContiguous, if_neg inRange, checkAndClearContigBits_eq (by omega) (by omega) fits, number, count,
    Option.map_some, code]
  rfl

/-! ## Histories of a pool -/

/-- A pool with the ranges it has returned and not got back. -/
structure Handed where
  pool : AddressPool
  live : List (Word × Nat) := []

inductive Event
  | new (n : Nat)
  | del (range : Word × Nat)

def enabled (s : Handed) : Event → Prop
  | .new n => 1 ≤ n ∧ n < 2 ^ 31
  | .del range => range ∈ s.live

def step (s : Handed) : Event → Except Empty Handed
  | .new n =>
    let new := addressNew s.pool n
    pure ⟨new.1, if new.2 = 0 then s.live else (new.2, n) :: s.live⟩
  | .del range => pure ⟨(addressDel s.pool range.1 range.2).1, s.live.erase range⟩

def machine : Machine Handed Event Empty := ⟨enabled, step⟩

/-- The byte lies in the range. -/
def Covers (range : Word × Nat) (a : Nat) : Prop := range.1.toNat ≤ a ∧ a < range.1.toNat + 4096 * range.2

def Apart (range other : Word × Nat) : Prop := ∀ a, ¬ (Covers range a ∧ Covers other a)

/-- A page of the region that no live range covers. -/
def Free (s : Handed) (p : Nat) : Prop := ∀ range ∈ s.live, ¬ Covers range (s.pool.pageAddr p)

/-- `n` consecutive free pages of the region, from page `p` on. -/
def FreePages (s : Handed) (n p : Nat) : Prop := p + n ≤ s.pool.pages ∧ ∀ q, p ≤ q → q < p + n → Free s q

/-- The live ranges are in order, and so is whatever the pool is asked for next. -/
structure Kept (s : Handed) : Prop where
  apart : s.live.Pairwise Apart
  aligned : ∀ range ∈ s.live, isPageAligned range.1 = true
  inside : ∀ range ∈ s.live, s.pool.start.toNat ≤ range.1.toNat ∧ range.1.toNat + 4096 * range.2 ≤ s.pool.end'.toNat
  taken : ∀ p < s.pool.pages, s.pool.Taken p ↔ ¬ Free s p
  new_zero : ∀ n, 1 ≤ n → n < 2 ^ 31 → ((addressNew s.pool n).2 = 0 ↔ ∀ p, ¬ FreePages s n p)
  new_lowest : ∀ n, 1 ≤ n → n < 2 ^ 31 → (addressNew s.pool n).2 ≠ 0 →
    ∃ p, IsLeast {p | FreePages s n p} p ∧ (addressNew s.pool n).2.toNat = s.pool.pageAddr p
  del : ∀ range ∈ s.live, (addressDel s.pool range.1 range.2).2 = 0 ∧ ∀ p < s.pool.pages,
    (addressDel s.pool range.1 range.2).1.Taken p ↔ s.pool.Taken p ∧ ¬ Covers range (s.pool.pageAddr p)

/-- A range that begins at a page of the region and ends in it. -/
structure Fits (pool : AddressPool) (range : Word × Nat) (p : Nat) : Prop where
  addr : range.1 = pool.addrOf p
  pos : 0 < range.2
  below : p + range.2 ≤ pool.pages

structure Sound (s : Handed) : Prop where
  regular : s.pool.Regular
  limit : s.pool.idpool.bitlimit = s.pool.pages
  words : s.pool.pages ≤ s.pool.idpool.nwords * 32
  fits : ∀ range ∈ s.live, ∃ p, Fits s.pool range p
  apart : s.live.Pairwise Apart
  taken : ∀ p < s.pool.pages, s.pool.Taken p ↔ ¬ Free s p

section Histories
variable {s : Handed} {range : Word × Nat} {p q n : Nat}

theorem Fits.covers_iff (regular : s.pool.Regular) (fits : Fits s.pool range p) :
    Covers range (s.pool.pageAddr q) ↔ p ≤ q ∧ q < p + range.2 := by
  have pos := fits.pos
  have below := fits.below
  rw [Covers, fits.addr, addrOf_toNat regular (by omega), pageAddr, pageAddr]
  omega

theorem not_free_iff : ¬ Free s p ↔ ∃ range ∈ s.live, Covers range (s.pool.pageAddr p) := by
  simp only [Free, not_forall, not_not, exists_prop]

theorem Sound.vacant_iff (sound : Sound s) : s.pool.Vacant n p ↔ FreePages s n p := by
  have free : ∀ q < s.pool.pages, Bitmap.test s.pool.idpool.bitmap q = false ↔ Free s q := fun q below =>
    Bool.eq_false_iff.trans (not_iff_comm.mp (sound.taken q below).symm)
  constructor
  · intro run
    have below := sound.limit ▸ run.below
    exact ⟨below, fun q low high => (free q (by omega)).mp (run.clear q low high)⟩
  · rintro ⟨below, clear⟩
    exact ⟨sound.limit ▸ below, fun q low high => (free q (by omega)).mpr (clear q low high)⟩

/-- A range covers whole pages. -/
theorem Fits.covers_page {a : Nat} (regular : s.pool.Regular) (fits : Fits s.pool range p) (covered : Covers range a) :
    Covers range (s.pool.pageAddr ((a - s.pool.start.toNat) / 4096)) := by
  have pos := fits.pos
  have below := fits.below
  rw [fits.covers_iff regular]
  rw [Covers, fits.addr, addrOf_toNat regular (by omega), pageAddr] at covered
  omega

theorem Apart.symm {other : Word × Nat} (apart : Apart range other) : Apart other range := fun a both => apart a both.symm

theorem Sound.new {t : Handed} (sound : Sound s) (pos : 1 ≤ n) (ok : step s (.new n) = .ok t) : Sound t := by
  cases ok
  rcases s.pool.addressNew_cases (show 0 < n from pos) with ⟨p, ⟨vacant, -⟩, found⟩ | ⟨-, failed⟩
  · obtain ⟨below, free⟩ := sound.vacant_iff.mp vacant
    have fits : Fits s.pool (s.pool.addrOf p, n) p := ⟨rfl, pos, below⟩
    simp only [found, if_neg (addrOf_ne_zero sound.regular (show p < s.pool.pages by omega))]
    refine ⟨⟨sound.regular.1, sound.regular.2, sound.regular.3, sound.regular.4⟩, sound.limit, sound.words, ?_, ?_, ?_⟩
    · refine List.forall_mem_cons.mpr ⟨⟨p, fits.1, fits.2, fits.3⟩, fun range mem => ?_⟩
      obtain ⟨q, old⟩ := sound.fits range mem
      exact ⟨q, old.1, old.2, old.3⟩
    · refine List.pairwise_cons.mpr ⟨fun range mem a both => ?_, sound.apart⟩
      -- the page of a common byte would be free and covered
      obtain ⟨q, old⟩ := sound.fits range mem
      have page := fits.covers_page sound.regular both.1
      obtain ⟨low, high⟩ := (fits.covers_iff sound.regular).mp page
      exact free _ low high range mem (old.covers_page sound.regular both.2)
    · intro q inside
      rw [take_taken, not_free_iff, List.exists_mem_cons_iff, sound.taken q inside, not_free_iff]
      exact or_congr_left (fits.covers_iff sound.regular).symm
  · simpa only [failed, if_true] using sound

theorem Sound.del_cases (sound : Sound s) (mem : range ∈ s.live) :
    ∃ bitmap, addressDel s.pool range.1 range.2 = ({ s.pool with idpool := { s.pool.idpool with bitmap := bitmap } }, 0) ∧
      ∀ q, Bitmap.test bitmap q = true ↔ s.pool.Taken q ∧ ¬ Covers range (s.pool.pageAddr q) := by
  obtain ⟨p, fits⟩ := sound.fits range mem
  have taken : ∀ q, p ≤ q → q < p + range.2 → s.pool.Taken q := fun q low high =>
    (sound.taken q (by have := fits.below; omega)).mpr
      (not_free_iff.mpr ⟨range, mem, (fits.covers_iff sound.regular).mpr ⟨low, high⟩⟩)
  obtain ⟨bitmap, deleted, tests⟩ := addressDel_taken sound.regular fits.pos fits.below sound.words taken
  exact ⟨bitmap, fits.addr ▸ deleted, fun q => by rw [tests, fits.covers_iff sound.regular]⟩

theorem Sound.del {t : Handed} (sound : Sound s) (mem : range ∈ s.live) (ok : step s (.del range) = .ok t) : Sound t := by
  cases ok
  obtain ⟨bitmap, deleted, tests⟩ := sound.del_cases mem
  have others : ∀ other ∈ s.live.erase range, Apart range other :=
    (List.pairwise_cons.mp (((List.perm_cons_erase mem).pairwise_iff Apart.symm).mp sound.apart)).1
  simp only [deleted]
  refine ⟨⟨sound.regular.1, sound.regular.2, sound.regular.3, sound.regular.4⟩, sound.limit, sound.words, ?_,
    sound.apart.sublist List.erase_sublist, ?_⟩
  · intro other left
    obtain ⟨q, old⟩ := sound.fits other (List.mem_of_mem_erase left)
    exact ⟨q, old.1, old.2, old.3⟩
  · intro q inside
    rw [not_free_iff]
    refine (tests q).trans ?_
    rw [sound.taken q inside, not_free_iff]
    constructor
    · rintro ⟨⟨other, live, covered⟩, outside⟩
      exact ⟨other, (List.mem_erase_of_ne fun (same : other = range) => outside (same ▸ covered)).mpr live, covered⟩
    · rintro ⟨other, left, covered⟩
      exact ⟨⟨other, List.mem_of_mem_erase left, covered⟩, fun both => others other left _ ⟨both, covered⟩⟩

theorem Sound.kept (sound : Sound s) : Kept s where
  apart := sound.apart
  aligned := fun range mem => by
    obtain ⟨p, fits⟩ := sound.fits range mem
    have pos := fits.pos
    have below := fits.below
    exact fits.addr ▸ addrOf_aligned sound.regular (by omega)
  inside := fun range mem => by
    obtain ⟨p, fits⟩ := sound.fits range mem
    have pos := fits.pos
    have below := fits.below
    rw [fits.addr, addrOf_toNat sound.regular (by omega), ← pageAddr_pages sound.regular, pageAddr, pageAddr]
    omega
  taken := sound.taken
  new_zero := fun n pos _ => by
    simp only [← sound.vacant_iff]
    rcases s.pool.addressNew_cases (show 0 < n from pos) with ⟨p, ⟨vacant, -⟩, found⟩ | ⟨none, failed⟩
    · have below := (sound.vacant_iff.mp vacant).1
      rw [found]
      exact iff_of_false (addrOf_ne_zero sound.regular (by omega)) (fun none => none p vacant)
    · exact iff_of_true (by rw [failed]) none
  new_lowest := fun n pos _ some => by
    simp only [← sound.vacant_iff]
    rcases s.pool.addressNew_cases (show 0 < n from pos) with ⟨p, least, found⟩ | ⟨-, failed⟩
    · have below := (sound.vacant_iff.mp least.1).1
      exact ⟨p, least, by rw [found, addrOf_toNat sound.regular (by omega)]⟩
    · exact absurd (by rw [failed]) some
  del := fun range mem => by
    obtain ⟨bitmap, deleted, tests⟩ := sound.del_cases mem
    rw [deleted]
    exact ⟨rfl, fun p _ => tests p⟩

theorem Sound.step {e : Event} {t : Handed} (sound : Sound s) (able : enabled s e) (ok : step s e = .ok t) : Sound t :=
  match e with
  | .new _ => sound.new able.1 ok
  | .del _ => sound.del able ok

end Histories

/-! ## Fresh pools -/

section Fresh
variable {pool : AddressPool} (fresh : pool.idpool.bitmap = fun _ => 0#32)
include fresh

theorem not_taken_fresh (p : Nat) : ¬ pool.Taken p := by
  rw [Taken, fresh]
  simp [Bitmap.test]

theorem sound_fresh (regular : pool.Regular) (limit : pool.idpool.bitlimit = pool.pages)
    (words : pool.idpool.bitlimit ≤ pool.idpool.nwords * 32) : Sound { pool } where
  regular := regular
  limit := limit
  words := limit ▸ words
  fits := fun _ none => nomatch none
  apart := .nil
  taken := fun p _ => iff_of_false (not_taken_fresh fresh p) (fun held => held fun _ none => nomatch none)

/-- The first call takes as many pages as there are ids, and no more. -/
theorem addressNew_fresh {n : Nat} (pos : 0 < n) :
    (addressNew pool n).2 = if n ≤ pool.idpool.bitlimit then pool.start else 0 := by
  have clear : ∀ p, Bitmap.test pool.idpool.bitmap p = false := fun p => Bool.eq_false_iff.mpr (not_taken_fresh fresh p)
  rcases pool.addressNew_cases pos with ⟨p, ⟨vacant, least⟩, found⟩ | ⟨none, failed⟩
  · have below := vacant.below
    obtain rfl : p = 0 := Nat.le_zero.mp (least ⟨by omega, fun q _ _ => clear q⟩)
    rw [found, if_pos (by omega)]
    simp [addrOf, pfnToAddr]
  · rw [failed, if_neg fun fits => none 0 ⟨by omega, fun q _ _ => clear q⟩]

/-- With more or fewer ids than pages, one more page than both have is refused or granted wrongly. -/
theorem limit_of_kept (regular : pool.Regular) (kept : Kept { pool }) : pool.idpool.bitlimit = pool.pages := by
  have small := pages_lt regular
  have positive : pool.start ≠ 0 := fun zero => by
    have := regular.positive
    rw [zero] at this
    exact absurd this (by decide)
  by_contra differ
  rcases Nat.lt_or_gt_of_ne differ with fewer | more
  · have refused := (kept.new_zero (pool.idpool.bitlimit + 1) (by omega) (by omega)).mp
      (by rw [addressNew_fresh fresh (by omega), if_neg (by omega)])
    exact refused 0 ⟨by simpa using fewer, fun _ _ _ _ none => nomatch none⟩
  · have granted := (kept.new_zero (pool.pages + 1) (by omega) (by omega)).mpr
      (fun p run => by have := run.1; simp only at this; omega)
    rw [addressNew_fresh fresh (by omega), if_pos (by omega)] at granted
    exact positive granted

end Fresh

/-- A pool whose ids are all free keeps its ranges in order, whatever is asked of it, exactly if it has one id for
each page of its region, as `address_pool_init` makes it. -/
theorem address_pool_ranges (idpool : IdPool) (start end' : Word) (fresh : idpool.bitmap = fun _ => 0#32)
    (words : idpool.bitlimit ≤ idpool.nwords * 32) (regular : (addressPoolInitWithIdpool idpool start end').Regular) :
    (∀ s, machine.Reaches { pool := addressPoolInitWithIdpool idpool start end' } s → Kept s) ↔
      idpool.bitlimit = (addrToPfn (end' - start)).toNat := by
  constructor
  · exact fun always => limit_of_kept fresh regular (always _ .start)
  · intro limit s reached
    have sound := reached.invariant (I := Sound) (fun _ _ _ held able ok => held.step able ok)
      (sound_fresh fresh regular limit words)
    exact sound.kept

/-- A region of three pages, with the pool that `address_pool_init` makes for it. -/
theorem address_pool_ranges_init : (addressPoolInit 0x10000 0x13000).Regular ∧
    ∀ s, machine.Reaches { pool := addressPoolInit 0x10000 0x13000 } s → Kept s := by
  have regular : (addressPoolInit 0x10000 0x13000).Regular := ⟨by decide, by decide, by decide, by decide⟩
  exact ⟨regular, (address_pool_ranges (idPoolNewInit 3) 0x10000 0x13000 rfl (by decide) regular).mpr rfl⟩

/-- The pager's own pool has 65536 ids for the 512 pages of its region: it hands out 513 pages. -/
theorem pager_pool_overruns :
    ∃ s, machine.Reaches { pool := pagerAddressPoolInit 0xE0010000 } s ∧ ¬ Kept s ∧
      s.pool.start = 0xE0110000 ∧ s.pool.end' = 0xE0310000 ∧ s.live = [(0xE0110000, 513)] := by
  have returned : (addressNew (pagerAddressPoolInit 0xE0010000) 513).2 = 0xE0110000 := addressNew_fresh rfl (by decide)
  have stepped : step { pool := pagerAddressPoolInit 0xE0010000 } (.new 513) =
      .ok ⟨(addressNew (pagerAddressPoolInit 0xE0010000) 513).1, [(0xE0110000, 513)]⟩ := by
    simp only [step, returned]
    rfl
  refine ⟨_, .next (e := Event.new 513) .start ⟨by decide, by decide⟩ trivial stepped, fun kept => ?_, rfl, rfl, rfl⟩
  have inside := (kept.inside (0xE0110000, 513) (List.mem_singleton.mpr rfl)).2
  exact absurd inside (by decide)

end AddressPool

end Codezero.Mm0
