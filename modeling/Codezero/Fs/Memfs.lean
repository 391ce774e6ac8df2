import Codezero.Kernel.MemCache

/-!
# The files of memfs

The inode of a file has a table of the blocks that hold its pages, and a block is taken from a cache of the same kind as
the kernel's. A vnode and its inode are one here. Buffers are lists of pages: a transfer copies whole ones.
-/

namespace Codezero.Fs.Memfs
open Codezero.Lib
open Function (update update_idem update_of_ne update_self)

/-! ## The model -/

def memfsFmaxBlocks : Nat := 120

def einval : Int := -22
def enospc : Int := -28

/-- `__pfn`. -/
def pfnOf (x : Nat) : Nat := x % 2 ^ 32 / 4096

/-- `page_align_up`. -/
def pageAlignUp (x : Nat) : Nat := (x % 2 ^ 32 + 4095) % 2 ^ 32 / 4096 * 4096

/-- A number as an `int`. -/
def asInt (x : Int) : Int := (BitVec.ofInt 32 x).toInt

/-- An entry of the table: a block, or what the allocation of one has returned. -/
inductive BlockPtr
  | null
  | err (code : Int)
  | block (addr : Nat)
  deriving DecidableEq, Repr

inductive Stop
  | cache (bug : Cache.Bug)
  | badBlock
  | outside
  deriving DecidableEq, Repr

structure Vnode where
  block : Nat → BlockPtr := fun _ => .null
  size : Nat := 0

structure Disk (P : Type) where
  cache : Cache.MemCache
  page : Nat → P
  vnode : Nat → Vnode

section
variable {P : Type} [Zero P]

/-- `memfs_alloc_block` from the one block cache. An error pointer is not null. -/
def memfsAllocBlock (s : Disk P) : Except Stop (Disk P × BlockPtr) :=
  if s.cache.free ≠ 0 then
    match Cache.memCacheAlloc s.cache with
    | .error bug => throw (.cache bug)
    | .ok (_, none) => throw .badBlock
    | .ok (cache, some addr) => pure ({ s with cache := cache, page := update s.page addr 0 }, .block addr)
  else pure (s, .err enospc)

namespace Disk
variable (s : Disk P)

def setVnode (v : Nat) (n : Vnode) : Disk P := { s with vnode := update s.vnode v n }

def setBlock (v k : Nat) (b : BlockPtr) : Except Stop (Disk P) :=
  if k < memfsFmaxBlocks then
    pure (s.setVnode v { s.vnode v with block := update (s.vnode v).block k b })
  else throw .outside

def setSize (v size : Nat) : Disk P := s.setVnode v { s.vnode v with size := size }

/-- The block that a copy reads or writes. -/
def blockAt (v k : Nat) : Except Stop Nat :=
  if k < memfsFmaxBlocks then
    match (s.vnode v).block k with
    | .block addr => pure addr
    | _ => throw .badBlock
  else throw .outside

end Disk

/-- The loop that allocates blocks; it says whether it has returned early. -/
def allocBlocks (v : Nat) : Nat → Nat → Disk P → Except Stop (Bool × Disk P)
  | _, 0, s => pure (false, s)
  | k, n + 1, s => do
    let (s, b) ← memfsAllocBlock s
    let s ← s.setBlock v k b
    if b = .null then pure (true, s) else allocBlocks v (k + 1) n s

def copyPages (v : Nat) : Nat → List P → Disk P → Except Stop (Disk P)
  | _, [], s => pure s
  | k, p :: ps, s => do
    let addr ← s.blockAt v k
    copyPages v (k + 1) ps { s with page := update s.page addr p }

def readPages (s : Disk P) (v : Nat) : Nat → Nat → Except Stop (List P)
  | _, 0 => pure []
  | k, n + 1 => do
    let addr ← s.blockAt v k
    let ps ← readPages s v (k + 1) n
    pure (s.page addr :: ps)

/-- The blocks of a write beyond the size of the file, those of a gap cleared. -/
def extend (v pfn last : Nat) (s : Disk P) : Except Stop (Bool × Disk P) := do
  let size := (s.vnode v).size
  let (full, s) ← allocBlocks v (pfnOf size) (last - pfnOf size) s
  if full then pure (true, s)
  else
    let holes := if pfn > pfnOf size then pfn - pfnOf size else 0
    let s ← copyPages v (pfnOf size) (List.replicate holes 0) s
    pure (false, s)

/-- The check whether a write is beyond the size of the file. -/
def reach (v pfn last : Nat) (s : Disk P) : Except Stop (Bool × Disk P) :=
  if (s.vnode v).size < last * 4096 then extend v pfn last s else pure (false, s)

def memfsFileRead (v pfn npages : Nat) (s : Disk P) : Except Stop (Int × List P) :=
  let last := (pfn + npages) % 2 ^ 32
  if last > memfsFmaxBlocks then pure (einval, [])
  else do
    let size := (s.vnode v).size
    let start := if pfn < pfnOf size then pfn else pfnOf size
    let stop := if last < pfnOf (pageAlignUp size) then last else pfnOf (pageAlignUp size)
    let ps ← readPages s v start (stop - start)
    pure (asInt (((stop : Int) - start) * 4096), ps)

def memfsFileWrite (v pfn : Nat) (buf : List P) (s : Disk P) : Except Stop (Int × Disk P) :=
  let last := (pfn + buf.length) % 2 ^ 32
  if last > memfsFmaxBlocks then pure (einval, s)
  else do
    let (full, s) ← reach v pfn last s
    if full then pure (enospc, s)
    else
      let s ← copyPages v pfn (buf.take (last - pfn)) s
      pure (asInt (buf.length * 4096), s)

/-- `vfs_write` of an ordinary file. -/
def vfsWrite (v pfn : Nat) (buf : List P) (s : Disk P) : Except Stop (Int × Disk P) := do
  let (ret, s) ← memfsFileWrite v pfn buf s
  if ret < 0 then pure (ret, s)
  else
    let fwriteEnd := (asInt (pfn * 4096 + ret) % 2 ^ 64).toNat
    if (s.vnode v).size < fwriteEnd then pure (ret, s.setSize v fwriteEnd) else pure (ret, s)

/-- `vfs_update_file_stats` with the length of the file. -/
def vfsUpdateFileStats (v length : Nat) (s : Disk P) : Disk P := s.setSize v length

/-! ## What the table of blocks stands for -/

/-- Files as pages: the first `len v` entries of a table are blocks, no block is in two places, and the blocks that are
allocated are those of the tables beside those of `reserved`. -/
structure Holds (reserved : List Nat) (s : Disk P) (len : Nat → Nat) (data : Nat → Nat → P) : Prop where
  live : ∃ live, Cache.Live s.cache live ∧ ∀ b, b ∈ live ↔ b ∈ reserved ∨ ∃ v k, (s.vnode v).block k = .block b
  apart : ∀ v k b, (s.vnode v).block k = .block b → b ∉ reserved
  inj : ∀ v k u j b, (s.vnode v).block k = .block b → (s.vnode u).block j = .block b → v = u ∧ k = j
  slots : ∀ v k, k < len v ↔ ∃ b, (s.vnode v).block k = .block b
  stored : ∀ v k b, (s.vnode v).block k = .block b → s.page b = data v k
  blank : ∀ v k, len v ≤ k → data v k = 0
  bound : ∀ v, len v ≤ memfsFmaxBlocks

/-- The pages `ps` in place of those from `k` on. -/
def put (data : Nat → Nat → P) (v k : Nat) (ps : List P) (u j : Nat) : P :=
  if u = v ∧ k ≤ j then (ps[j - k]?).getD (data u j) else data u j

omit [Zero P] in
theorem put_nil (data : Nat → Nat → P) (v k : Nat) : put data v k [] = data := by
  funext u j
  simp [put]

omit [Zero P] in
theorem put_cons (data : Nat → Nat → P) (v k : Nat) (p : P) (ps : List P) :
    put data v k (p :: ps) = put (put data v k [p]) v (k + 1) ps := by
  funext u j
  unfold put
  by_cases at_v : u = v
  · rcases Nat.lt_trichotomy j k with less | rfl | more
    · simp [at_v, Nat.not_le.mpr less, Nat.not_le.mpr (Nat.lt_succ_of_lt less)]
    · simp [at_v]
    · obtain ⟨i, rfl⟩ : ∃ i, j = k + 1 + i := ⟨j - (k + 1), by omega⟩
      have shift : k + 1 + i - k = i + 1 := by omega
      have le : k ≤ k + 1 + i := by omega
      simp [at_v, shift, le]
  · simp [at_v]

omit [Zero P] in
theorem put_single (data : Nat → Nat → P) (v k : Nat) (p : P) (u j : Nat) :
    put data v k [p] u j = if u = v ∧ j = k then p else data u j := by
  unfold put
  by_cases at_v : u = v
  · rcases Nat.lt_trichotomy j k with less | rfl | more
    · simp [at_v, Nat.not_le.mpr less, Nat.ne_of_lt less]
    · simp [at_v]
    · obtain ⟨i, rfl⟩ : ∃ i, j = k + 1 + i := ⟨j - (k + 1), by omega⟩
      have shift : k + 1 + i - k = i + 1 := by omega
      have ne : k + 1 + i ≠ k := by omega
      simp [at_v, shift, ne]
  · simp [at_v]

variable {reserved : List Nat} {s s' : Disk P} {len : Nat → Nat} {data : Nat → Nat → P} {v : Nat}

def SameSizes (s s' : Disk P) : Prop := ∀ u, (s'.vnode u).size = (s.vnode u).size

/-- A block that was not allocated, cleared. -/
theorem memfsAllocBlock_ok {live : List Nat} (isLive : Cache.Live s.cache live) (free : 0 < s.cache.free) :
    ∃ cache addr, memfsAllocBlock s = .ok ({ s with cache := cache, page := update s.page addr 0 }, .block addr) ∧
      Cache.Live cache (addr :: live) ∧ addr ∉ live ∧ Cache.SameLayout s.cache cache ∧ cache.free = s.cache.free - 1 := by
  obtain ⟨⟨cache, addr⟩, ran, isLive', same, lowest⟩ := (Cache.memCacheAlloc_sat isLive).exists_ok
  dsimp only at isLive' same lowest
  have count := isLive.count
  have count' := isLive'.count
  have total := same.total
  cases addr with
  | none =>
    have full := lowest.none.mp rfl
    omega
  | some addr =>
    rw [Option.toList_some, List.singleton_append] at isLive' count'
    rw [List.length_cons] at count'
    exact ⟨cache, addr, by rw [memfsAllocBlock, if_pos (by omega), ran]; rfl, isLive', (lowest.some addr rfl).1, same, by omega⟩

namespace Holds

variable (holds : Holds reserved s len data)
include holds

theorem blockAt {k : Nat} (inside : k < len v) : ∃ addr, s.blockAt v k = .ok addr ∧ (s.vnode v).block k = .block addr := by
  obtain ⟨addr, is⟩ := (holds.slots v k).mp inside
  refine ⟨addr, ?_, is⟩
  rw [Disk.blockAt, if_pos (Nat.lt_of_lt_of_le inside (holds.bound v)), is]
  rfl

/-- A block more at the end of a file. -/
theorem grow (room : len v < memfsFmaxBlocks) (free : 0 < s.cache.free) :
    ∃ s1 s' addr, memfsAllocBlock s = .ok (s1, .block addr) ∧ s1.setBlock v (len v) (.block addr) = .ok s' ∧
      Holds reserved s' (update len v (len v + 1)) data ∧ s'.cache.free = s.cache.free - 1 ∧ SameSizes s s' := by
  obtain ⟨live, isLive, mem⟩ := holds.live
  obtain ⟨cache, addr, ran, isLive', fresh, -, count⟩ := memfsAllocBlock_ok isLive free
  have notHeld : ∀ u j, (s.vnode u).block j ≠ .block addr := fun u j is => fresh ((mem addr).mpr (.inr ⟨u, j, is⟩))
  have notReserved : addr ∉ reserved := fun inside => fresh ((mem addr).mpr (.inl inside))
  let s1 : Disk P := { s with cache := cache, page := update s.page addr 0 }
  let s2 := s1.setVnode v { s.vnode v with block := update (s.vnode v).block (len v) (.block addr) }
  have table : ∀ u j b, (s2.vnode u).block j = .block b ↔
      u = v ∧ j = len v ∧ b = addr ∨ ¬(u = v ∧ j = len v) ∧ (s.vnode u).block j = .block b := fun u j b => by
    by_cases at_v : u = v
    · subst at_v
      by_cases at_end : j = len u <;> simp [s2, s1, Disk.setVnode, at_end, eq_comm]
    · simp [s2, s1, Disk.setVnode, at_v]
  refine ⟨s1, s2, addr, ran, if_pos room,
    ⟨⟨addr :: live, isLive', fun b => ?_⟩, fun u j b is => ?_, fun u j w i b is is' => ?_, fun u j => ?_, fun u j b is => ?_,
      fun u j le => ?_, fun u => ?_⟩, ?_, fun u => ?_⟩
  · rw [List.mem_cons, mem]
    constructor
    · rintro (rfl | inside | ⟨u, j, is⟩)
      · exact .inr ⟨v, len v, (table v (len v) b).mpr (.inl ⟨rfl, rfl, rfl⟩)⟩
      · exact .inl inside
      · refine .inr ⟨u, j, (table u j b).mpr (.inr ⟨fun both => ?_, is⟩)⟩
        exact absurd ((holds.slots u j).mpr ⟨b, is⟩) (by rw [both.1, both.2]; exact Nat.lt_irrefl _)
    · rintro (inside | ⟨u, j, is⟩)
      · exact .inr (.inl inside)
      · rcases (table u j b).mp is with ⟨-, -, rfl⟩ | ⟨-, old⟩
        · exact .inl rfl
        · exact .inr (.inr ⟨u, j, old⟩)
  · rcases (table u j b).mp is with ⟨-, -, rfl⟩ | ⟨-, old⟩
    · exact notReserved
    · exact holds.apart u j b old
  · rcases (table u j b).mp is with ⟨rfl, rfl, rfl⟩ | ⟨-, old⟩ <;> rcases (table w i b).mp is' with ⟨rfl, rfl, eq⟩ | ⟨-, old'⟩
    · exact ⟨rfl, rfl⟩
    · exact absurd old' (notHeld w i)
    · exact absurd (eq ▸ old) (notHeld u j)
    · exact holds.inj u j w i b old old'
  · simp only [table]
    by_cases at_v : u = v
    · subst at_v
      rw [update_self]
      rcases Nat.lt_trichotomy j (len u) with less | rfl | more
      · refine iff_of_true (by omega) ?_
        obtain ⟨b, is⟩ := (holds.slots u j).mp less
        exact ⟨b, .inr ⟨by omega, is⟩⟩
      · exact iff_of_true (by omega) ⟨addr, .inl ⟨rfl, rfl, rfl⟩⟩
      · refine iff_of_false (by omega) ?_
        rintro ⟨b, ⟨-, eq, -⟩ | ⟨-, old⟩⟩
        · omega
        · exact absurd ((holds.slots u j).mpr ⟨b, old⟩) (by omega)
    · rw [update_of_ne at_v, holds.slots u j]
      simp [at_v]
  · rcases (table u j b).mp is with ⟨rfl, rfl, rfl⟩ | ⟨-, old⟩
    · rw [holds.blank u (len u) (Nat.le_refl _)]
      simp [s2, s1, Disk.setVnode]
    · have other : b ≠ addr := fun eq => notHeld u j (eq ▸ old)
      rw [← holds.stored u j b old]
      simp [s2, s1, Disk.setVnode, other]
  · by_cases at_v : u = v
    · subst at_v
      rw [update_self] at le
      exact holds.blank u j (by omega)
    · rw [update_of_ne at_v] at le
      exact holds.blank u j le
  · by_cases at_v : u = v
    · subst at_v
      rw [update_self]
      exact room
    · rw [update_of_ne at_v]
      exact holds.bound u
  · exact count
  · by_cases eq : u = v <;> simp [s2, s1, Disk.setVnode, eq]

theorem allocBlocks {n : Nat} (room : len v + n ≤ memfsFmaxBlocks) (free : n ≤ s.cache.free) :
    ∃ s', allocBlocks v (len v) n s = .ok (false, s') ∧ Holds reserved s' (update len v (len v + n)) data ∧ SameSizes s s' := by
  induction n generalizing s len with
  | zero => exact ⟨s, rfl, by simpa using holds, fun _ => rfl⟩
  | succ n ih =>
    obtain ⟨s1, s2, addr, allocated, stored, holds2, free2, same2⟩ := holds.grow (v := v) (by omega) (by omega)
    obtain ⟨s', ran, holds', same'⟩ := ih holds2 (by rw [update_self]; omega) (by omega)
    rw [update_self] at ran holds'
    rw [update_idem, Nat.add_right_comm, Nat.add_assoc] at holds'
    refine ⟨s', ?_, holds', fun u => (same' u).trans (same2 u)⟩
    simp only [Memfs.allocBlocks, allocated, stored, bind, Except.bind]
    exact ran

theorem setPage {k addr : Nat} (is : (s.vnode v).block k = .block addr) (p : P) :
    Holds reserved { s with page := update s.page addr p } len (put data v k [p]) := by
  have inside := (holds.slots v k).mpr ⟨addr, is⟩
  refine ⟨holds.live, holds.apart, holds.inj, holds.slots, fun u j b here => ?_, fun u j le => ?_, holds.bound⟩
  · rw [put_single]
    split
    · next same =>
      rw [same.1, same.2, is] at here
      obtain rfl := BlockPtr.block.inj here
      exact update_self ..
    · next other =>
      have ne : b ≠ addr := fun eq => other (holds.inj u j v k b here (eq ▸ is))
      exact (update_of_ne ne ..).trans (holds.stored u j b here)
  · rw [put_single, if_neg]
    · exact holds.blank u j le
    · rintro ⟨rfl, rfl⟩
      omega

theorem copyPages {k : Nat} {ps : List P} (inside : k + ps.length ≤ len v) :
    ∃ s', copyPages v k ps s = .ok s' ∧ Holds reserved s' len (put data v k ps) ∧ SameSizes s s' := by
  induction ps generalizing s data k with
  | nil => exact ⟨s, rfl, by rwa [put_nil], fun _ => rfl⟩
  | cons p ps ih =>
    rw [List.length_cons] at inside
    obtain ⟨addr, ran, is⟩ := holds.blockAt (v := v) (k := k) (by omega)
    obtain ⟨s', ran', holds', same'⟩ := ih (k := k + 1) (holds.setPage is p) (by omega)
    refine ⟨s', ?_, by rwa [put_cons], same'⟩
    simp only [Memfs.copyPages, ran, bind, Except.bind]
    exact ran'

theorem readPages {k n : Nat} (inside : k + n ≤ len v) : readPages s v k n = .ok ((List.range' k n).map (data v)) := by
  induction n generalizing k with
  | zero => rfl
  | succ n ih =>
    obtain ⟨addr, ran, is⟩ := holds.blockAt (v := v) (k := k) (by omega)
    simp only [Memfs.readPages, ran, ih (k := k + 1) (by omega), bind, Except.bind, holds.stored v k addr is]
    rfl

end Holds

/-! ## Files as pages -/

def pagesOf (size : Nat) : Nat := (size + 4095) / 4096

/-- What memfs is for: each file is a sequence of pages with a size. -/
structure Content (P : Type) where
  data : Nat → Nat → P
  size : Nat → Nat

namespace Content
variable (a : Content P)

omit [Zero P] in
/-- The pages of a range that the file has. -/
def read (v pfn n : Nat) : Int × List P :=
  if pfn + n > memfsFmaxBlocks then (einval, [])
  else
    let ps := ((List.range' pfn n).filter fun k => decide (k < pagesOf (a.size v))).map (a.data v)
    (ps.length * 4096, ps)

omit [Zero P] in
def write (v pfn : Nat) (buf : List P) : Int × Content P :=
  if pfn + buf.length > memfsFmaxBlocks then (einval, a)
  else (buf.length * 4096,
    { data := put a.data v pfn buf, size := update a.size v (max (a.size v) ((pfn + buf.length) * 4096)) })

omit [Zero P] in
def resize (v size : Nat) : Content P := { a with size := update a.size v size }

end Content

structure Stored (reserved : List Nat) (s : Disk P) (a : Content P) : Prop where
  holds : Holds reserved s (fun v => pagesOf (s.vnode v).size) a.data
  sizes : ∀ v, (s.vnode v).size = a.size v

/-- A read that does not start behind a last page that is cut off. -/
def CarefulRead (s : Disk P) (v pfn n : Nat) : Prop :=
  pfn + n < 2 ^ 32 ∧ (pfn ≤ (s.vnode v).size / 4096 ∨ (s.vnode v).size % 4096 = 0)

/-- A write extends a file only from the end of a page, and there are blocks for it. -/
def CarefulWrite (s : Disk P) (v pfn n : Nat) : Prop :=
  pfn + n < 2 ^ 32 ∧ (pfn + n ≤ memfsFmaxBlocks → (s.vnode v).size < (pfn + n) * 4096 →
    (s.vnode v).size % 4096 = 0 ∧ ((pfn + n - (s.vnode v).size / 4096 : Nat) : Int) ≤ s.cache.free)

theorem asInt_of_small {x : Int} (nonneg : 0 ≤ x) (small : x < 2 ^ 31) : asInt x = x := by
  rw [asInt, BitVec.toInt_ofInt]
  exact Int.bmod_eq_of_le (by omega) (by omega)

theorem pfnOf_of_small {x : Nat} (small : x < 2 ^ 31) : pfnOf x = x / 4096 := by
  rw [pfnOf, Nat.mod_eq_of_lt (by omega)]

theorem pfnOf_pageAlignUp {x : Nat} (small : x < 2 ^ 30) : pfnOf (pageAlignUp x) = pagesOf x := by
  rw [pageAlignUp, Nat.mod_eq_of_lt (show x < 2 ^ 32 by omega), Nat.mod_eq_of_lt (show x + 4095 < 2 ^ 32 by omega),
    pfnOf_of_small (by omega), pagesOf]
  omega

theorem filter_range'_lt (k n m : Nat) : (List.range' k n).filter (fun j => decide (j < m)) = List.range' k (min (k + n) m - k) := by
  induction n generalizing k with
  | zero =>
    have none : min (k + 0) m - k = 0 := by omega
    rw [none]
    rfl
  | succ n ih =>
    rw [List.range'_succ]
    by_cases less : k < m
    · have more : min (k + (n + 1)) m - k = (min (k + 1 + n) m - (k + 1)) + 1 := by omega
      rw [List.filter_cons_of_pos (by simpa using less), ih, more, List.range'_succ]
    · have none : min (k + (n + 1)) m - k = 0 := by omega
      have none' : min (k + 1 + n) m - (k + 1) = 0 := by omega
      rw [List.filter_cons_of_neg (by simpa using less), ih, none, none']
      rfl

namespace Stored
variable {a : Content P}

theorem fits (stored : Stored reserved s a) : (s.vnode v).size ≤ memfsFmaxBlocks * 4096 := by
  have bound : pagesOf (s.vnode v).size ≤ memfsFmaxBlocks := stored.holds.bound v
  unfold pagesOf memfsFmaxBlocks at *
  omega

theorem read {pfn n : Nat} (stored : Stored reserved s a) (careful : CarefulRead s v pfn n) :
    memfsFileRead v pfn n s = .ok (a.read v pfn n) := by
  obtain ⟨range, front⟩ := careful
  have fits := stored.fits (v := v)
  unfold memfsFileRead Content.read
  rw [Nat.mod_eq_of_lt range, ← stored.sizes v, filter_range'_lt]
  dsimp only
  split
  · rfl
  · next inside =>
    have small : (s.vnode v).size < 2 ^ 30 := Nat.lt_of_le_of_lt fits (by decide)
    have start : (if pfn < pfnOf (s.vnode v).size then pfn else pfnOf (s.vnode v).size) = min pfn ((s.vnode v).size / 4096) := by
      rw [pfnOf_of_small (by omega)]
      split <;> omega
    have stop : (if pfn + n < pfnOf (pageAlignUp (s.vnode v).size) then pfn + n else pfnOf (pageAlignUp (s.vnode v).size)) =
        min (pfn + n) (pagesOf (s.vnode v).size) := by
      rw [pfnOf_pageAlignUp small]
      split <;> omega
    -- the range starts where it was asked to, or it is empty
    have same : List.range' (min pfn ((s.vnode v).size / 4096)) (min (pfn + n) (pagesOf (s.vnode v).size) - min pfn ((s.vnode v).size / 4096)) =
        List.range' pfn (min (pfn + n) (pagesOf (s.vnode v).size) - pfn) := by
      by_cases early : pfn ≤ (s.vnode v).size / 4096
      · rw [Nat.min_eq_left early]
      · have none : min (pfn + n) (pagesOf (s.vnode v).size) - min pfn ((s.vnode v).size / 4096) = 0 := by unfold pagesOf; omega
        have none' : min (pfn + n) (pagesOf (s.vnode v).size) - pfn = 0 := by unfold pagesOf; omega
        rw [none, none']
        rfl
    have order : min pfn ((s.vnode v).size / 4096) ≤ min (pfn + n) (pagesOf (s.vnode v).size) := by unfold pagesOf; omega
    have length := congrArg List.length same
    rw [List.length_range', List.length_range'] at length
    have ran := stored.holds.readPages (v := v) (k := min pfn ((s.vnode v).size / 4096))
      (n := min (pfn + n) (pagesOf (s.vnode v).size) - min pfn ((s.vnode v).size / 4096)) (by omega)
    rw [start, stop, ran, same]
    simp only [bind, Except.bind, List.length_map, List.length_range']
    have count : asInt (((min (pfn + n) (pagesOf (s.vnode v).size) : Nat) - (min pfn ((s.vnode v).size / 4096) : Nat) : Int) * 4096) =
        ((min (pfn + n) (pagesOf (s.vnode v).size) - pfn : Nat) : Int) * 4096 := by
      unfold memfsFmaxBlocks at inside
      rw [asInt_of_small (by omega) (by omega)]
      omega
    rw [count]
    rfl

end Stored

omit [Zero P] in
theorem put_replicate_zero [Zero P] {data : Nat → Nat → P} {v k h : Nat} (blank : ∀ j, k ≤ j → data v j = 0) :
    put data v k (List.replicate h 0) = data := by
  funext u j
  unfold put
  split
  · next here =>
    rw [here.1, List.getElem?_replicate]
    split
    · exact (blank j here.2).symm
    · rfl
  · rfl

namespace Holds

variable (holds : Holds reserved s len data)
include holds

theorem setSize {n : Nat} : Holds reserved (s.setSize v n) len data := by
  have same : ∀ u, ((s.setSize v n).vnode u).block = (s.vnode u).block := fun u => by
    by_cases eq : u = v <;> simp [Disk.setSize, Disk.setVnode, eq]
  obtain ⟨live, apart, inj, slots, stored, blank, bound⟩ := holds
  refine ⟨?_, ?_, ?_, ?_, ?_, blank, bound⟩ <;> simp only [same]
  · exact live
  · exact apart
  · exact inj
  · exact slots
  · exact stored

/-- The blocks of a write beyond the end of the file. -/
theorem extend {pfn last : Nat} (isEnd : pfnOf (s.vnode v).size = len v) (more : len v ≤ last)
    (start : pfn ≤ last) (room : last ≤ memfsFmaxBlocks) (free : ((last - len v : Nat) : Int) ≤ s.cache.free) :
    ∃ s', extend v pfn last s = .ok (false, s') ∧ Holds reserved s' (update len v last) data ∧ SameSizes s s' := by
  obtain ⟨s1, ran1, holds1, same1⟩ := holds.allocBlocks (v := v) (n := last - len v) (by omega) free
  rw [Nat.add_sub_cancel' more] at holds1
  have inside : len v + (List.replicate (if pfn > len v then pfn - len v else 0) (0 : P)).length ≤ update len v last v := by
    rw [List.length_replicate, update_self]
    split <;> omega
  obtain ⟨s2, ran2, holds2, same2⟩ := holds1.copyPages inside
  rw [put_replicate_zero (holds.blank v)] at holds2
  refine ⟨s2, ?_, holds2, fun u => (same2 u).trans (same1 u)⟩
  unfold Memfs.extend
  simp only [isEnd, ran1, ran2, bind, Except.bind]
  rfl

end Holds

namespace Stored
variable {a : Content P}

/-- The two parts of a write: blocks up to its end, and the pages. -/
theorem memfsFileWrite {pfn : Nat} {buf : List P} (stored : Stored reserved s a) (careful : CarefulWrite s v pfn buf.length)
    (inside : pfn + buf.length ≤ memfsFmaxBlocks) :
    ∃ s', memfsFileWrite v pfn buf s = .ok ((buf.length : Int) * 4096, s') ∧ SameSizes s s' ∧
      Holds reserved s' (update (fun u => pagesOf (s.vnode u).size) v (max (pagesOf (s.vnode v).size) (pfn + buf.length)))
        (put a.data v pfn buf) := by
  obtain ⟨range, room⟩ := careful
  have fits := stored.fits (v := v)
  have limit : memfsFmaxBlocks = 120 := rfl
  have grown : ∃ s1, reach v pfn (pfn + buf.length) s = .ok (false, s1) ∧
      SameSizes s s1 ∧ Holds reserved s1
        (update (fun u => pagesOf (s.vnode u).size) v (max (pagesOf (s.vnode v).size) (pfn + buf.length))) a.data := by
    unfold reach
    split
    · next more =>
      obtain ⟨aligned, free⟩ := room inside more
      have isEnd : pfnOf (s.vnode v).size = pagesOf (s.vnode v).size := by
        rw [pfnOf_of_small (by omega), pagesOf]
        omega
      have less : pagesOf (s.vnode v).size ≤ pfn + buf.length := by unfold pagesOf; omega
      obtain ⟨s1, ran, holds, same⟩ := stored.holds.extend isEnd less (Nat.le_add_right ..) inside (by
        rw [← isEnd, pfnOf_of_small (by omega)]
        exact free)
      rw [Nat.max_eq_right less]
      exact ⟨s1, ran, same, holds⟩
    · next enough =>
      have less : pfn + buf.length ≤ pagesOf (s.vnode v).size := by unfold pagesOf; omega
      rw [Nat.max_eq_left less]
      exact ⟨s, rfl, fun _ => rfl, by simpa using stored.holds⟩
  obtain ⟨s1, ran1, same1, holds1⟩ := grown
  have within : pfn + buf.length ≤ update (fun u => pagesOf (s.vnode u).size) v
      (max (pagesOf (s.vnode v).size) (pfn + buf.length)) v := by
    rw [update_self]
    omega
  obtain ⟨s2, ran2, holds2, same2⟩ := holds1.copyPages within
  refine ⟨s2, ?_, fun u => (same2 u).trans (same1 u), holds2⟩
  unfold Memfs.memfsFileWrite
  have whole : buf.take (pfn + buf.length - pfn) = buf := by simp
  have small : asInt ((buf.length : Int) * 4096) = buf.length * 4096 := asInt_of_small (by omega) (by omega)
  rw [Nat.mod_eq_of_lt range, if_neg (by omega)]
  simp only [ran1, bind, Except.bind, whole, ran2, small]
  rfl

theorem write {pfn : Nat} {buf : List P} (stored : Stored reserved s a) (careful : CarefulWrite s v pfn buf.length) :
    ∃ s', vfsWrite v pfn buf s = .ok ((a.write v pfn buf).1, s') ∧ Stored reserved s' (a.write v pfn buf).2 ∧
      ((a.write v pfn buf).1 < 0 → s' = s) := by
  have limit : memfsFmaxBlocks = 120 := rfl
  by_cases inside : pfn + buf.length > memfsFmaxBlocks
  · refine ⟨s, ?_, ?_, fun _ => rfl⟩
    · unfold vfsWrite Memfs.memfsFileWrite Content.write
      rw [Nat.mod_eq_of_lt careful.1, if_pos inside, if_pos inside]
      rfl
    · rw [Content.write, if_pos inside]
      exact stored
  · obtain ⟨s1, ran, same, holds⟩ := stored.memfsFileWrite careful (by omega)
    rw [Content.write, if_neg inside]
    have ends : (asInt (pfn * 4096 + (buf.length : Int) * 4096) % 2 ^ 64).toNat = (pfn + buf.length) * 4096 := by
      rw [asInt_of_small (by omega) (by omega)]
      omega
    have size : (s1.vnode v).size = a.size v := (same v).trans (stored.sizes v)
    have sized : ∀ n, n = max (a.size v) ((pfn + buf.length) * 4096) → Stored reserved (s1.setSize v n)
        ⟨put a.data v pfn buf, update a.size v (max (a.size v) ((pfn + buf.length) * 4096))⟩ := fun n is => by
      have sizes : ∀ u, ((s1.setSize v n).vnode u).size = update a.size v (max (a.size v) ((pfn + buf.length) * 4096)) u := fun u => by
        by_cases eq : u = v
        · simp [Disk.setSize, Disk.setVnode, eq, is]
        · simp [Disk.setSize, Disk.setVnode, eq, same u, stored.sizes u]
      refine ⟨?_, sizes⟩
      have lens : (fun u => pagesOf ((s1.setSize v n).vnode u).size) =
          update (fun u => pagesOf (s.vnode u).size) v (max (pagesOf (s.vnode v).size) (pfn + buf.length)) := by
        funext u
        rw [sizes]
        by_cases eq : u = v
        · rw [eq, update_self, update_self, stored.sizes v]
          unfold pagesOf
          omega
        · rw [update_of_ne eq, update_of_ne eq, stored.sizes u]
      rw [lens]
      exact holds.setSize
    have nonneg : ¬ (buf.length : Int) * 4096 < 0 := by omega
    by_cases grows : (s1.vnode v).size < (pfn + buf.length) * 4096
    · refine ⟨s1.setSize v ((pfn + buf.length) * 4096), ?_, sized _ (by omega), fun negative => absurd negative nonneg⟩
      unfold vfsWrite
      simp only [ran, bind, Except.bind, if_neg nonneg, ends, if_pos grows]
      rfl
    · refine ⟨s1, ?_, ?_, fun negative => absurd negative nonneg⟩
      · unfold vfsWrite
        simp only [ran, bind, Except.bind, if_neg nonneg, ends, if_neg grows]
        rfl
      · have whole := sized (s1.vnode v).size (by omega)
        rwa [show s1.setSize v (s1.vnode v).size = s1 by simp [Disk.setSize, Disk.setVnode]] at whole

end Stored

/-! ## Runs -/

inductive Event (P : Type)
  | write (v pfn : Nat) (buf : List P)
  | update (v size : Nat)

/-- The disk next to the files that it stores. A size is set within the last page of a file. -/
def files : Machine (Disk P × Content P) (Event P) Stop where
  enabled s
    | .write .. => True
    | .update v size => size % 4096 ≠ 0 ∧ pagesOf size = pagesOf (s.1.vnode v).size
  step s
    | .write v pfn buf => do
      let (_, disk) ← vfsWrite v pfn buf s.1
      pure (disk, (s.2.write v pfn buf).2)
    | .update v size => pure (vfsUpdateFileStats v size s.1, s.2.resize v size)

def Careful (s : Disk P × Content P) : Event P → Prop
  | .write v pfn buf => CarefulWrite s.1 v pfn buf.length
  | .update .. => True

/-- No file has a page. -/
def unwritten (cache : Cache.MemCache) (page : Nat → P) : Disk P × Content P :=
  (⟨cache, page, fun _ => {}⟩, ⟨fun _ _ => 0, fun _ => 0⟩)

theorem unwritten_stored {cache : Cache.MemCache} {page : Nat → P} (live : Cache.Live cache reserved) :
    Stored reserved (unwritten cache page).1 (unwritten cache page).2 :=
  ⟨⟨⟨reserved, live, fun b => by simp [unwritten]⟩, nofun, nofun, fun v k => by simp [unwritten, pagesOf], nofun, fun _ _ _ => rfl,
    fun v => by simp [unwritten, pagesOf]⟩, fun _ => rfl⟩

theorem Stored.update {a : Content P} {n : Nat} (stored : Stored reserved s a) (last : pagesOf n = pagesOf (s.vnode v).size) :
    Stored reserved (vfsUpdateFileStats v n s) (a.resize v n) := by
  have sizes : ∀ u, ((s.setSize v n).vnode u).size = Function.update a.size v n u := fun u => by
    by_cases eq : u = v
    · simp [Disk.setSize, Disk.setVnode, eq]
    · simp [Disk.setSize, Disk.setVnode, eq, stored.sizes u]
  refine ⟨?_, sizes⟩
  have lens : (fun u => pagesOf ((s.setSize v n).vnode u).size) = fun u => pagesOf (s.vnode u).size := by
    funext u
    rw [sizes]
    by_cases eq : u = v
    · rw [eq, update_self, last]
    · rw [update_of_ne eq, stored.sizes u]
  rw [vfsUpdateFileStats, lens]
  exact stored.holds.setSize

theorem reached_stored {cache : Cache.MemCache} {page : Nat → P} {s : Disk P × Content P} (live : Cache.Live cache reserved)
    (reached : files.ReachesUnder Careful (unwritten cache page) s) : Stored reserved s.1 s.2 :=
  reached.invariant (I := fun s => Stored reserved s.1 s.2) (fun s e t stored able careful ran => by
    cases e with
    | write v pfn buf =>
      obtain ⟨s', ran', stored', -⟩ := stored.write careful
      obtain ⟨⟨ret, disk⟩, wrote, done⟩ := bind_eq_ok.mp ran
      obtain ⟨-, rfl⟩ := Prod.mk.inj (Except.ok.inj (ran'.symm.trans wrote))
      obtain rfl := Except.ok.inj done
      exact stored'
    | update v size =>
      obtain rfl := Except.ok.inj ran
      exact stored.update able.2) (unwritten_stored live)

/-- In a history of careful writes a read returns the pages that the file has, each block is in one place, the blocks that
are allocated are those of the files, and a write that is refused changes nothing. -/
theorem memfs_files {cache : Cache.MemCache} {page : Nat → P} {a : Content P} (live : Cache.Live cache reserved)
    (reached : files.ReachesUnder Careful (unwritten cache page) (s, a)) :
    (∀ v pfn n, CarefulRead s v pfn n → memfsFileRead v pfn n s = .ok (a.read v pfn n)) ∧
    (∀ v pfn buf, CarefulWrite s v pfn buf.length → ∃ s', vfsWrite v pfn buf s = .ok ((a.write v pfn buf).1, s') ∧
      ((a.write v pfn buf).1 < 0 → s' = s) ∧ files.ReachesUnder Careful (unwritten cache page) (s', (a.write v pfn buf).2)) ∧
    (∀ v k u j b, (s.vnode v).block k = .block b → (s.vnode u).block j = .block b → v = u ∧ k = j) ∧
    ∃ allocated, Cache.Live s.cache allocated ∧
      ∀ b, b ∈ allocated ↔ b ∈ reserved ∨ ∃ v k, k < pagesOf (s.vnode v).size ∧ (s.vnode v).block k = .block b := by
  have stored := reached_stored live reached
  refine ⟨fun v pfn n careful => stored.read careful, fun v pfn buf careful => ?_, stored.holds.inj, ?_⟩
  · obtain ⟨s', ran, -, kept⟩ := stored.write careful
    refine ⟨s', ran, kept, reached.next (e := .write v pfn buf) trivial careful ?_⟩
    simp only [files, ran, bind, Except.bind]
    rfl
  · obtain ⟨allocated, isLive, mem⟩ := stored.holds.live
    refine ⟨allocated, isLive, fun b => (mem b).trans (or_congr_right ?_)⟩
    refine exists_congr fun v => exists_congr fun k => ⟨fun is => ⟨(stored.holds.slots v k).mpr ⟨b, is⟩, is⟩, fun both => both.2⟩

end

/-- A cache of blocks none of which is allocated. -/
def blankBlocks (n : Nat) : Cache.MemCache :=
  { total := n, free := n, start := 0x1000, stop := 0x1000 + 4096 * n, structSize := 4096, bitmapAddr := 0, bwords := 1
    bitmap := fun _ => 0 }

theorem blankBlocks_live (n : Nat) : Cache.Live (blankBlocks n) [] := by
  refine ⟨by simp [blankBlocks], by simp [blankBlocks], ?_, List.nodup_nil, fun addr => by simp [blankBlocks, Bitmap.test],
    by simp [blankBlocks], by simp [blankBlocks]⟩
  simp only [blankBlocks]
  omega

theorem memfs_files_page : ∃ s a, files.ReachesUnder Careful (unwritten (blankBlocks 3) fun _ => (0 : Nat)) (s, a) ∧
    memfsFileRead 0 0 1 s = .ok (4096, [5]) := by
  have first : files.ReachesUnder Careful (unwritten (blankBlocks 3) fun _ => (0 : Nat)) _ :=
    .next (e := .write 0 0 [5]) .start trivial ⟨by decide, fun _ _ => ⟨rfl, by decide⟩⟩ rfl
  exact ⟨_, _, first, (memfs_files (blankBlocks_live 3) first).1 0 0 1 ⟨by decide, .inl (by decide)⟩⟩

/-- A page is written and the size set to a hundred bytes, twice: the first block is on no file. A read behind the page returns
it, and a write for which there are too few blocks goes to an error pointer. -/
theorem memfs_block_lost : ∃ s a, files.Reaches (unwritten (blankBlocks 3) fun _ => (0 : Nat)) (s, a) ∧
    (Bitmap.test s.cache.bitmap 0 = true ∧ s.cache.slot 0 = 0x1000 ∧ ∀ v k, (s.vnode v).block k ≠ .block 0x1000) ∧
    memfsFileRead 0 7 1 s = .ok (4096, [6]) ∧ vfsWrite 1 0 [1, 1] s = .error .badBlock := by
  have first : files.Reaches (unwritten (blankBlocks 3) fun _ => (0 : Nat)) _ := .next (e := .write 0 0 [5]) .start trivial trivial rfl
  have second : files.Reaches (unwritten (blankBlocks 3) fun _ => (0 : Nat)) _ :=
    .next (e := .update 0 100) first ⟨by decide, rfl⟩ trivial rfl
  have third : files.Reaches (unwritten (blankBlocks 3) fun _ => (0 : Nat)) _ := .next (e := .write 0 0 [6]) second trivial trivial rfl
  have fourth : files.Reaches (unwritten (blankBlocks 3) fun _ => (0 : Nat)) _ :=
    .next (e := .update 0 100) third ⟨by decide, rfl⟩ trivial rfl
  refine ⟨_, _, fourth, ⟨rfl, rfl, fun v k is => ?_⟩, by decide +kernel, rfl⟩
  rcases v with _ | v
  · rcases k with _ | k <;> cases is
  · cases is

end Codezero.Fs.Memfs
