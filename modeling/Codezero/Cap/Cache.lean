import Codezero.Cap.Capability

/-!
# Cache control

`sys_cache_control` works on the addresses of a range and is let through by the number of pages between its ends. The
two agree where the range ends at a page boundary.
-/

namespace Codezero.Cap
open Codezero.Kernel (Word Bug)

/-! ## The model -/

def l4InvalidateIcache : Word := 0x10
def l4InvalidateDcache : Word := 0x20
def l4CleanDcache : Word := 0x30
def l4CleanInvalidateDcache : Word := 0x40
def l4InvalidateTlb : Word := 0x50

def capCacheInvalidate : Word := 1 <<< 7
def capCacheClean : Word := 1 <<< 8

structure SysCacheArgs where
  start : Word
  npages : Word
  flags : Word

/-- The right that each operation needs; `none` is the default case of the switches. -/
def cachePerms (flags : Word) : Option Word :=
  if flags = l4InvalidateDcache ∨ flags = l4InvalidateIcache ∨ flags = l4InvalidateTlb then some capCacheInvalidate
  else if flags = l4CleanDcache ∨ flags = l4CleanInvalidateDcache then some capCacheClean
  else none

/-- `cap_match_cache`; the range check is in 64 bits. -/
def capMatchCache (args : SysCacheArgs) (c : Capability) : Except Bug Bool :=
  if c.start.toNat > (pfn args.start).toNat ∨ c.end'.toNat < (pfn args.start).toNat + args.npages.toNat then pure false
  else
    match cachePerms args.flags with
    | none => pure false
    | some perms => pure (c.access &&& perms = perms)

/-- `cap_cache_check`. -/
def capCacheCheck (l : CapLists) (start end' flags : Word) : Except Bug Int := do
  match ← capFind l capTypeMapVirtmem (capMatchCache { start := start, npages := pfn end' - pfn start, flags := flags }) with
  | none => pure enocap
  | some _ => pure 0

/-- The operations on the caches and the tlb, each over a range of addresses. -/
inductive CacheOp
  | invalidateIcache
  | invalidateDcache
  | cleanDcache
  | cleanInvalidateDcache
  | invalidateTlb
  deriving DecidableEq, Repr

/-- `sys_cache_control`: the code it returns and what it performed on the range. -/
def sysCacheControl (l : CapLists) (start end' flags : Word) : Except Bug (Int × Option CacheOp) := do
  let ret ← capCacheCheck l start end' flags
  if ret < 0 then pure (ret, none)
  else if flags = l4InvalidateIcache then pure (ret, some .invalidateIcache)
  else if flags = l4InvalidateDcache then pure (ret, some .invalidateDcache)
  else if flags = l4CleanDcache then pure (ret, some .cleanDcache)
  else if flags = l4CleanInvalidateDcache then pure (ret, some .cleanInvalidateDcache)
  else if flags = l4InvalidateTlb then pure (ret, some .invalidateTlb)
  else pure (-22, none)

/-! ## What it touches -/

/-- The call performs an operation. -/
def Performs (l : CapLists) (start end' flags : Word) : Prop := ∃ ret op, sysCacheControl l start end' flags = .ok (ret, some op)

/-- Page `p` has a byte of the range. -/
def Touches (start end' : Word) (p : Nat) : Prop := ∃ a : Word, start ≤ a ∧ a < end' ∧ (pfn a).toNat = p

/-- One capability has every page of the range and the right for the operation. -/
def Covered (l : CapLists) (start end' flags : Word) : Prop :=
  ∃ c ∈ l.all, capType c = capTypeMapVirtmem ∧ (∃ perms, cachePerms flags = some perms ∧ c.access &&& perms = perms) ∧
    ∀ p, Touches start end' p → c.start.toNat ≤ p ∧ p < c.end'.toNat

section
variable {l : CapLists} {start end' flags perms : Word} {c : Capability}

theorem pfn_toNat (a : Word) : (pfn a).toNat = a.toNat / 4096 := by
  rw [pfn, BitVec.toNat_ushiftRight, Nat.shiftRight_eq_div_pow]
  rfl

/-- An operation is performed when a capability reaches from the first page over the pages between the ends. -/
theorem performs_found (performs : Performs l start end' flags) : ∃ c ∈ l.all, capType c = capTypeMapVirtmem ∧
    (∃ perms, cachePerms flags = some perms ∧ c.access &&& perms = perms) ∧
    c.start.toNat ≤ (pfn start).toNat ∧ (pfn start).toNat + (pfn end' - pfn start).toNat ≤ c.end'.toNat := by
  obtain ⟨ret, op, ran⟩ := performs
  unfold sysCacheControl capCacheCheck at ran
  cases found : capFind l capTypeMapVirtmem (capMatchCache { start := start, npages := pfn end' - pfn start, flags := flags }) with
  | error b => rw [found] at ran; exact nomatch ran
  | ok o =>
    rw [found] at ran
    cases o with
    | none => exact nomatch ran
    | some c =>
      obtain ⟨mem, type, accepted⟩ := capFind_some found
      refine ⟨c, mem, type, ?_⟩
      unfold capMatchCache at accepted
      split at accepted
      · exact nomatch accepted
      · next inside =>
        dsimp only at inside accepted
        split at accepted
        · exact nomatch accepted
        · next perms right => exact ⟨⟨perms, right, by simpa [pure, Except.pure] using accepted⟩, by omega, by omega⟩

/-- A capability of the right kind over just those pages lets the operation through. -/
theorem performs_single (known : cachePerms flags = some perms) (c : Capability) (type : capType c = capTypeMapVirtmem)
    (right : c.access &&& perms = perms) (low : c.start.toNat ≤ (pfn start).toNat)
    (high : (pfn start).toNat + (pfn end' - pfn start).toNat ≤ c.end'.toNat) : Performs { space := [c] } start end' flags := by
  have accepted : capMatchCache { start := start, npages := pfn end' - pfn start, flags := flags } c = .ok true := by
    rw [capMatchCache, if_neg (by dsimp only; omega)]
    simp [known, right, pure, Except.pure]
  unfold Performs sysCacheControl capCacheCheck
  rw [capFind_single type accepted]
  simp only [bind, Except.bind, pure, Except.pure]
  unfold cachePerms at known
  split_ifs at known with invalidate clean
  · rcases invalidate with rfl | rfl | rfl
    · exact ⟨0, .invalidateDcache, rfl⟩
    · exact ⟨0, .invalidateIcache, rfl⟩
    · exact ⟨0, .invalidateTlb, rfl⟩
  · rcases clean with rfl | rfl
    · exact ⟨0, .cleanDcache, rfl⟩
    · exact ⟨0, .cleanInvalidateDcache, rfl⟩

/-- The range of every caller is covered by what let the call through exactly when it is empty or ends at a page
boundary (or the call does nothing whatever the capabilities). -/
theorem cache_control_covers (start end' flags : Word) : (∀ l, Performs l start end' flags → Covered l start end' flags) ↔
    cachePerms flags = none ∨ end' ≤ start ∨ end'.toNat % 4096 = 0 := by
  constructor
  · intro covers
    by_contra others
    simp only [not_or, BitVec.not_le, BitVec.lt_def] at others
    obtain ⟨known, nonempty, unaligned⟩ := others
    obtain ⟨perms, known⟩ := Option.ne_none_iff_exists'.mp known
    -- a capability that ends where the last page of the range begins
    have low := pfn_toNat start
    have high := pfn_toNat end'
    have pages : (pfn end' - pfn start).toNat = (pfn end').toNat - (pfn start).toNat := by
      rw [BitVec.toNat_sub_of_le (BitVec.le_def.mpr (by omega))]
    let short : Capability := { type := capTypeMapVirtmem, access := perms, start := pfn start, end' := pfn end' }
    have performs : Performs { space := [short] } start end' flags :=
      performs_single known short (show capTypeMapVirtmem &&& capTypeMask = capTypeMapVirtmem by decide) BitVec.and_self le_rfl (by change _ ≤ (pfn end').toNat; omega)
    obtain ⟨c, mem, -, -, inside⟩ := covers _ performs
    obtain rfl : c = short := List.mem_singleton.mp (by simpa [CapLists.all] using mem)
    have last : (end' - 1).toNat = end'.toNat - 1 := by
      rw [BitVec.toNat_sub_of_le (BitVec.le_def.mpr (by change 1 ≤ _; omega))]
      rfl
    have touched : Touches start end' (pfn end').toNat := by
      refine ⟨end' - 1, BitVec.le_def.mpr (by omega), BitVec.lt_def.mpr (by omega), ?_⟩
      rw [pfn_toNat, pfn_toNat, last]
      omega
    exact absurd (inside _ touched).2 (lt_irrefl _)
  · rintro cond l performs
    obtain ⟨c, mem, type, ⟨perms, known, right⟩, low, high⟩ := performs_found performs
    refine ⟨c, mem, type, ⟨perms, known, right⟩, fun p touched => ?_⟩
    obtain ⟨a, first, last, rfl⟩ := touched
    rw [BitVec.le_def] at first
    rw [BitVec.lt_def] at last
    rcases cond with unknown | empty | aligned
    · exact nomatch unknown.symm.trans known
    · rw [BitVec.le_def] at empty
      omega
    · have pages : (pfn end' - pfn start).toNat = (pfn end').toNat - (pfn start).toNat := by
        refine BitVec.toNat_sub_of_le (BitVec.le_def.mpr ?_)
        rw [pfn_toNat, pfn_toNat]
        exact Nat.div_le_div_right (by omega)
      rw [pages, pfn_toNat, pfn_toNat] at high
      rw [pfn_toNat] at low ⊢
      omega

end

/-- A caller whose one capability is page 1 invalidates bytes of page 2. -/
def pageOne : CapLists := { space := [{ type := capTypeMapVirtmem, access := capCacheInvalidate, start := 1, end' := 2 }] }

theorem cache_control_exceeds : sysCacheControl pageOne 0x1000 0x2010 l4InvalidateDcache = .ok (0, some .invalidateDcache) ∧
    Touches 0x1000 0x2010 2 ∧ ∀ c ∈ pageOne.all, c.end' = 2 := by
  refine ⟨rfl, ⟨0x2000, by decide, by decide, rfl⟩, ?_⟩
  simp [pageOne, CapLists.all]

end Codezero.Cap
