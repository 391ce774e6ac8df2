import Codezero.Fs.Directory

/-!
# Histories of a directory

As long as records fit into the page, names into the records and there are blocks, inodes and ids, each new node adds one record
behind the others. But nothing of this comes back from the disk: a directory that has records is not read.
-/

namespace Codezero.Fs.Memfs
open Codezero.Kernel (Word)
open Codezero.Lib
open Codezero.Mm0 (IdPool idNew)
open Function (update update_of_ne update_self)

/-! ## Records -/

/-- The length that the record at `offset` says it has. -/
def recordLength (page : Page) (offset : Nat) : Nat := (page (offset + 8)).toNat + 256 * (page (offset + 9)).toNat

/-- The record at `offset` is that of an entry. -/
structure HasRecord (page : Page) (offset : Nat) (e : Str × Nat) : Prop where
  name : recordName page offset = e.1
  inum : recordInum page offset = e.2
  length : recordLength page offset = memfsDentrySize

section
variable {page page' : Page} {inum offset : Nat} {name : Str} {e : Str × Nat}

theorem HasRecord.congr (has : HasRecord page offset e) (same : ∀ o, offset ≤ o → o < offset + memfsDentrySize → page' o = page o) :
    HasRecord page' offset e := by
  have size : memfsDentrySize = 43 := rfl
  have max : memfsDnameMax = 32 := rfl
  refine ⟨?_, ?_, ?_⟩
  · rw [← has.name, recordName, recordName]
    congr 1
    refine List.map_congr_left fun k mem => same _ ?_ ?_ <;> rw [List.mem_range] at mem <;> omega
  · rw [← has.inum, recordInum, recordInum, same _ (by omega) (by omega), same _ (by omega) (by omega), same _ (by omega) (by omega),
      same _ (by omega) (by omega)]
  · rw [← has.length, recordLength, recordLength, same _ (by omega) (by omega), same _ (by omega) (by omega)]

theorem putRecord_other {o : Nat} (out : ¬(offset ≤ o ∧ o < offset + memfsDentrySize)) : putRecord inum offset name page o = page o :=
  if_neg out

theorem putRecord_at {k : Nat} {b : Byte} (is : recordByte inum offset name k = some b) (inside : k < 43) :
    putRecord inum offset name page (offset + k) = b := by
  rw [putRecord, if_pos ⟨Nat.le_add_right .., Nat.add_lt_add_left inside offset⟩, Nat.add_sub_cancel_left, is]
  rfl

theorem le_toNat (x k : Nat) : (le x k).toNat = x / 256 ^ k % 256 := by
  rw [le, BitVec.toNat_ofNat]

theorem recordInum_of_bytes (small : inum < 2 ^ 32) (bytes : ∀ k < 4, page (offset + k) = le inum k) : recordInum page offset = inum := by
  have first := bytes 0 (by omega)
  rw [Nat.add_zero] at first
  rw [recordInum, first, bytes 1 (by omega), bytes 2 (by omega), bytes 3 (by omega)]
  simp only [le_toNat]
  omega

theorem recordLength_of_bytes {length : Nat} (small : length < 2 ^ 16) (low : page (offset + 8) = le length 0)
    (high : page (offset + 9) = le length 1) : recordLength page offset = length := by
  rw [recordLength, low, high]
  simp only [le_toNat]
  omega

/-- A name that is padded with NULs is read back. -/
theorem name_of_bytes {max : Nat} {bytes : Nat → Byte} (short : name.length ≤ max) (text : nul ∉ name)
    (is : ∀ k < max, bytes k = (name[k]?).getD nul) : ((List.range max).map bytes).takeWhile (· ≠ nul) = name := by
  have padded : (List.range max).map bytes = name ++ List.replicate (max - name.length) nul := by
    refine List.ext_getElem (by simp; omega) fun k inside _ => ?_
    rw [List.getElem_map, List.getElem_range, is k (by simpa using inside), List.getElem_append]
    split
    · next here => rw [List.getElem?_eq_getElem here]; rfl
    · next here => rw [List.getElem?_eq_none (by omega), List.getElem_replicate]; rfl
  have rest : (List.replicate (max - name.length) nul).takeWhile (· ≠ nul) = [] := by
    rw [List.takeWhile_replicate]
    simp
  have all : ∀ b ∈ name, decide (b ≠ nul) = true := fun b mem => decide_eq_true fun eq => text (eq ▸ mem)
  rw [padded, List.takeWhile_append_of_pos all, rest, List.append_nil]

/-- A record that is stored is there. -/
theorem putRecord_has (small : inum < 2 ^ 32) (short : name.length < memfsDnameMax) (text : nul ∉ name) :
    HasRecord (putRecord inum offset name page) offset (name, inum) := by
  have max : memfsDnameMax = 32 := rfl
  refine ⟨name_of_bytes (Nat.le_of_lt short) text fun k less => ?_, ?_, ?_⟩
  · have shift : 11 + k - 11 = k := by omega
    have stored : recordByte inum offset name (11 + k) = some ((name[k]?).getD nul) := by
      rw [recordByte, if_neg (by omega), if_neg (by omega), if_neg (by omega), if_neg (by omega), shift]
      split
      · rw [List.getElem?_eq_none (by omega)]
        rfl
      · rfl
    rw [Nat.add_assoc, putRecord_at stored (by omega)]
  · exact recordInum_of_bytes small fun k less => putRecord_at (by rw [recordByte, if_pos less]) (by omega)
  · exact recordLength_of_bytes (by decide) (putRecord_at rfl (by omega)) (putRecord_at rfl (by omega))

end

/-! ## Blocks and inodes -/

/-- An element that is allocated from a cache. -/
def Allocated (c : Cache.MemCache) (a : Nat) : Prop := ∃ i < c.total.toNat, Bitmap.test c.bitmap i = true ∧ a = c.slot i

/-- The elements of a cache lie in a block. -/
def InBlock (block : Nat) (c : Cache.MemCache) : Prop := ∀ i < c.total.toNat, block ≤ c.slot i ∧ c.slot i < block + 4096

/-- The inodes that are allocated, from caches in different blocks. -/
structure InodeStore (caches : List (Nat × Cache.MemCache)) (blocks inodes : List Nat) : Prop where
  homes : (caches.map Prod.fst).Nodup
  inside : ∀ bc ∈ caches, bc.1 ∈ blocks ∧ InBlock bc.1 bc.2
  live : ∀ bc ∈ caches, ∃ elems, Cache.Live bc.2 elems
  mem : ∀ a, a ∈ inodes ↔ ∃ bc ∈ caches, Allocated bc.2 a

section
variable {caches : List (Nat × Cache.MemCache)} {blocks inodes : List Nat} {c c' : Cache.MemCache} {a b : Nat}

theorem inodeCache_live (block : Nat) : Cache.Live (inodeCache block) [] := by
  refine ⟨by simp [inodeCache], by simp [inodeCache], ?_, List.nodup_nil, fun addr => by simp [inodeCache, Bitmap.test],
    by simp [inodeCache], by simp [inodeCache]⟩
  simp only [inodeCache]
  omega

/-- Blocks of a page each do not overlap. -/
theorem blocks_apart (live : Cache.Live c blocks) (size : c.structSize = 4096) (mema : a ∈ blocks) (memb : b ∈ blocks) (ne : a ≠ b) :
    a + 4096 ≤ b ∨ b + 4096 ≤ a := by
  obtain ⟨i, -, -, rfl⟩ := (live.mem a).mp mema
  obtain ⟨j, -, -, rfl⟩ := (live.mem b).mp memb
  unfold Cache.MemCache.slot at *
  rw [size] at *
  omega

/-- One more element of a cache. -/
theorem allocated_alloc {elems : List Nat} (live : Cache.Live c elems) (live' : Cache.Live c' (a :: elems)) (x : Nat) :
    Allocated c' x ↔ x = a ∨ Allocated c x :=
  (live'.mem x).symm.trans (List.mem_cons.trans (or_congr_right (live.mem x)))

/-- The loop over the caches takes an element of the first that is not full. -/
theorem allocFrom_cases (lives : ∀ bc ∈ caches, ∃ elems, Cache.Live bc.2 elems) :
    (allocFrom caches = .ok none ∧ ∀ bc ∈ caches, bc.2.free = 0) ∨
    ∃ front block c back c' a elems, caches = front ++ (block, c) :: back ∧
      allocFrom caches = .ok (some (a, front ++ (block, c') :: back)) ∧
      Cache.Live c elems ∧ Cache.Live c' (a :: elems) ∧ a ∉ elems ∧ Cache.SameLayout c c' := by
  induction caches with
  | nil => exact .inl ⟨rfl, nofun⟩
  | cons bc rest ih =>
    obtain ⟨block, c⟩ := bc
    obtain ⟨elems, live⟩ := lives (block, c) List.mem_cons_self
    dsimp only at live
    rw [allocFrom]
    by_cases full : c.free = 0
    · rw [if_neg (by simpa using full)]
      rcases ih fun bc mem => lives bc (List.mem_cons_of_mem _ mem) with ⟨none, allFull⟩ | ⟨front, block', d, back, d', a, elems', eq, ran, more⟩
      · refine .inl ⟨by rw [none]; rfl, fun bc mem => ?_⟩
        rcases List.mem_cons.mp mem with rfl | mem
        · exact full
        · exact allFull bc mem
      · exact .inr ⟨(block, c) :: front, block', d, back, d', a, elems', by rw [eq]; rfl, by rw [ran]; rfl, more⟩
    · rw [if_pos full]
      obtain ⟨⟨c', addr⟩, ran, live', same, lowest⟩ := (Cache.memCacheAlloc_sat live).exists_ok
      dsimp only at live' same lowest
      cases addr with
      | none =>
        have all := lowest.none.mp rfl
        have count := live.count
        omega
      | some a => exact .inr ⟨[], block, c, rest, c', a, elems, rfl, by rw [ran]; rfl, live, live', (lowest.some a rfl).1, same⟩

theorem InodeStore.alloc {front back : List (Nat × Cache.MemCache)} {block : Nat} {elems : List Nat} {disk : Cache.MemCache}
    (store : InodeStore (front ++ (block, c) :: back) blocks inodes) (live : Cache.Live disk blocks) (size : disk.structSize = 4096)
    (before : Cache.Live c elems) (after : Cache.Live c' (a :: elems)) (fresh : a ∉ elems) (same : Cache.SameLayout c c') :
    a ∉ inodes ∧ InodeStore (front ++ (block, c') :: back) blocks (a :: inodes) := by
  have slot : ∀ i, c'.slot i = c.slot i := fun i => by rw [Cache.MemCache.slot, Cache.MemCache.slot, same.start, same.structSize]
  have here : (block, c) ∈ front ++ (block, c) :: back := by simp
  obtain ⟨homes, inside, lives, mem⟩ := store
  have within : block ≤ a ∧ a < block + 4096 := by
    obtain ⟨i, less, -, rfl⟩ := (after.mem a).mp List.mem_cons_self
    rw [slot]
    exact (inside _ here).2 i (same.total ▸ less)
  have split : ∀ bc, bc ∈ front ++ (block, c) :: back → bc = (block, c) ∨ (bc ∈ front ∨ bc ∈ back) ∧ bc.1 ≠ block := fun bc is => by
    rw [List.map_append, List.map_cons, List.nodup_append, List.nodup_cons] at homes
    rcases List.mem_append.mp is with infront | behind
    · exact .inr ⟨.inl infront, homes.2.2 bc.1 (List.mem_map_of_mem infront) block List.mem_cons_self⟩
    · rcases List.mem_cons.mp behind with eq | inback
      · exact .inl eq
      · have inmap : bc.1 ∈ back.map Prod.fst := List.mem_map_of_mem inback
        exact .inr ⟨.inr inback, fun eq => homes.2.1.1 (show block ∈ back.map Prod.fst from eq ▸ inmap)⟩
  have new : ∀ bc, bc ∈ front ++ (block, c') :: back ↔ bc = (block, c') ∨ bc ∈ front ∨ bc ∈ back := fun bc => by
    rw [List.mem_append, List.mem_cons]
    exact or_left_comm
  have kept : ∀ bc, bc ∈ front ∨ bc ∈ back → bc ∈ front ++ (block, c) :: back := fun bc is =>
    List.mem_append.mpr (is.imp_right (List.mem_cons_of_mem _))
  refine ⟨fun old => ?_, ⟨by simpa using homes, fun bc is => ?_, fun bc is => ?_, fun x => ?_⟩⟩
  · obtain ⟨bc, is, i, less, set, eq⟩ := (mem a).mp old
    rcases split bc is with rfl | ⟨-, other⟩
    · exact fresh ((before.mem a).mpr ⟨i, less, set, eq⟩)
    · have apart := blocks_apart live size (inside bc is).1 (inside _ here).1 other
      have range := (inside bc is).2 i less
      omega
  · rcases (new bc).mp is with rfl | old
    · exact ⟨(inside _ here).1, fun i less => by rw [slot]; exact (inside _ here).2 i (same.total ▸ less)⟩
    · exact inside bc (kept bc old)
  · rcases (new bc).mp is with rfl | old
    · exact ⟨_, after⟩
    · exact lives bc (kept bc old)
  · rw [List.mem_cons, mem]
    constructor
    · rintro (rfl | ⟨bc, is, allocated⟩)
      · exact ⟨(block, c'), (new _).mpr (.inl rfl), (allocated_alloc before after x).mpr (.inl rfl)⟩
      · rcases split bc is with rfl | ⟨old, -⟩
        · exact ⟨(block, c'), (new _).mpr (.inl rfl), (allocated_alloc before after x).mpr (.inr allocated)⟩
        · exact ⟨bc, (new _).mpr (.inr old), allocated⟩
    · rintro ⟨bc, is, allocated⟩
      rcases (new bc).mp is with rfl | old
      · rcases (allocated_alloc before after x).mp allocated with eq | old
        · exact .inl eq
        · exact .inr ⟨(block, c), here, old⟩
      · exact .inr ⟨bc, kept bc old, allocated⟩

theorem InodeStore.cache {block : Nat} (store : InodeStore caches blocks inodes) (fresh : block ∉ blocks) :
    InodeStore ((block, inodeCache block) :: caches) (block :: blocks) inodes := by
  have empty : ∀ x, ¬ Allocated (inodeCache block) x := by
    rintro x ⟨i, -, set, -⟩
    simp [inodeCache, Bitmap.test] at set
  obtain ⟨homes, inside, lives, mem⟩ := store
  refine ⟨List.nodup_cons.mpr ⟨fun here => ?_, homes⟩, fun bc is => ?_, fun bc is => ?_, fun x => ?_⟩
  · obtain ⟨bc, is, eq⟩ := List.mem_map.mp here
    exact fresh ((show bc.1 = block from eq) ▸ (inside bc is).1)
  · rcases List.mem_cons.mp is with rfl | old
    · refine ⟨List.mem_cons_self, fun i less => ?_⟩
      have bound : i < 7 := less
      have slot : (inodeCache block).slot i = block + 36 + 528 * i := rfl
      dsimp only
      omega
    · exact ⟨List.mem_cons_of_mem _ (inside bc old).1, (inside bc old).2⟩
  · rcases List.mem_cons.mp is with rfl | old
    · exact ⟨[], inodeCache_live block⟩
    · exact lives bc old
  · rw [mem]
    constructor
    · rintro ⟨bc, is, allocated⟩
      exact ⟨bc, List.mem_cons_of_mem _ is, allocated⟩
    · rintro ⟨bc, is, allocated⟩
      rcases List.mem_cons.mp is with rfl | old
      · exact absurd allocated (empty x)
      · exact ⟨bc, old, allocated⟩

/-! ### Steps -/

/-- More blocks are allocated, and those that were are as before. -/
structure Grown (d d' : Disk Page) (blocks blocks' : List Nat) : Prop where
  live : Cache.Live d'.cache blocks'
  size : d'.cache.structSize = 4096
  sub : ∀ b ∈ blocks, b ∈ blocks' ∧ d'.page b = d.page b

/-- All inodes of the caches are taken. -/
def inodesFull (s : Dir) : Bool := s.inodeCaches.all fun bc => decide (bc.2.free = 0)

/-- A new inode, cleared; the rest is as it was. -/
theorem memfsAllocInode_ok {s : Dir} (live : Cache.Live s.disk.cache blocks) (size : s.disk.cache.structSize = 4096)
    (store : InodeStore s.inodeCaches blocks inodes) (room : (if inodesFull s then 1 else 0) ≤ s.disk.cache.free) :
    ∃ disk caches a blocks', memfsAllocInode s = .ok ({ s with
        disk := disk.setVnode a {}, inodeCaches := caches, inode := update s.inode a {} }, .block a) ∧
      a ∉ inodes ∧ Grown s.disk disk blocks blocks' ∧ disk.vnode = s.disk.vnode ∧ InodeStore caches blocks' (a :: inodes) ∧
      disk.cache.free = s.disk.cache.free - (if inodesFull s then 1 else 0) := by
  unfold memfsAllocInode
  rcases allocFrom_cases store.live with ⟨ran, full⟩ | ⟨front, block, c, back, c', a, elems, eq, ran, before, after, fresh, same⟩
  · have isFull : inodesFull s = true := List.all_eq_true.mpr fun bc mem => decide_eq_true (full bc mem)
    rw [isFull] at room
    obtain ⟨cache, block, allocated, live', fresh, layout, count⟩ := memfsAllocBlock_ok live (by simp at room; omega)
    have store' := store.cache fresh
    have size' : cache.structSize = 4096 := layout.structSize.trans size
    have lives : ∀ bc ∈ [(block, inodeCache block)], ∃ elems, Cache.Live bc.2 elems := by simpa using ⟨[], inodeCache_live block⟩
    rcases allocFrom_cases lives with
      ⟨-, none⟩ | ⟨front, block', c, back, c', a, elems, eq, ran', before, after, new, same⟩
    · exact absurd (none (block, inodeCache block) (by simp)) (by simp [inodeCache])
    · obtain ⟨rfl, rfl, is⟩ : front = [] ∧ back = [] ∧ (block', c) = (block, inodeCache block) := by
        cases front with
        | nil => cases eq; exact ⟨rfl, rfl, rfl⟩
        | cons _ front => cases front <;> cases eq
      obtain ⟨rfl, rfl⟩ := Prod.mk.inj is
      obtain ⟨fresh', store''⟩ := (show InodeStore ([] ++ (block', inodeCache block') :: s.inodeCaches) _ _ from store').alloc live' size' before after
        new same
      refine ⟨{ s.disk with cache := cache, page := update s.disk.page block' 0 }, (block', c') :: s.inodeCaches, a,
        block' :: blocks, ?_, fresh', ⟨live', size', fun b mem => ⟨List.mem_cons_of_mem _ mem, ?_⟩⟩, rfl, store'', by simpa [isFull] using count⟩
      · simp only [ran, allocated, liftBlock, ran', bind, Except.bind]
        rfl
      · exact update_of_ne (fun eq : b = block' => fresh (eq ▸ mem)) ..
  · have notFull : inodesFull s = false := by
      refine Bool.eq_false_iff.mpr fun all => ?_
      have none := of_decide_eq_true (List.all_eq_true.mp all (block, c) (by simp [eq]))
      have count := before.count
      have count' := after.count
      have nonneg := after.nonneg
      have total := same.total
      rw [List.length_cons] at count'
      dsimp only at none
      omega
    rw [eq] at store
    obtain ⟨new, store'⟩ := store.alloc live size before after fresh same
    refine ⟨s.disk, _, a, blocks, ?_, new, ⟨live, size, fun b mem => ⟨mem, rfl⟩⟩, rfl, store', by simp [notFull]⟩
    simp only [ran, bind, Except.bind]
    rfl

end

/-! ## The directory -/

/-- The number of the inode that a vnode has. -/
def Dir.inumOf (s : Dir) (v : Nat) : Option Nat := ((s.nodes v).bind Node.inode).map fun i => (s.inode i).inum

/-- The buffer has the records of the entries one behind the other, in its one page. -/
structure Buffered (dir : Nat) (s : Dir) (es : List (Str × Nat)) : Prop where
  size : (s.disk.vnode dir).size = memfsDentrySize * es.length
  fits : memfsDentrySize * es.length ≤ s.npages * 4096
  npages : s.npages = 1
  records : ∃ b, s.buffer = .block b ∧ ∀ i, (inside : i < es.length) → HasRecord (s.disk.page b) (memfsDentrySize * i) es[i]

/-- A directory whose entries are `es`, with the blocks and the inodes that are allocated. -/
structure Kept (dir : Nat) (s : Dir) (es : List (Str × Nat)) (blocks inodes : List Nat) : Prop where
  live : Cache.Live s.disk.cache blocks
  blockSize : s.disk.cache.structSize = 4096
  store : InodeStore s.inodeCaches blocks inodes
  own : dir ∈ inodes
  pool : s.ipool.Holds memfsTotalInodes
  held : ∀ v n i, s.nodes v = some n → n.inode = some i → i ∈ inodes
  known : ∀ d ∈ s.children, (s.nodes d.vnode).isSome
  children : s.children.map (fun d => (d.name, s.inumOf d.vnode)) = (es.map fun e => (e.1, some e.2)).reverse
  numbers : ∀ e ∈ es, Bitmap.test s.ipool.bitmap e.2 = true
  buffer : s.buffer = .null ∧ es = [] ∧ (s.disk.vnode dir).size = 0 ∨ Buffered dir s es ∧ ∀ b, s.buffer = .block b → b ∈ blocks

section
variable {dir fsidx : Nat} {s : Dir} {es : List (Str × Nat)} {blocks inodes : List Nat} {k : Kzalloc} {name : Str} {mode : Word}

variable {v b : Nat} {disk : Disk Page}

theorem memfsFileRead_empty (size : (disk.vnode v).size = 0) : memfsFileRead v 0 1 disk = .ok (0, []) := by
  unfold memfsFileRead
  rw [size]
  rfl

theorem readBuffer_empty (size : (s.disk.vnode dir).size = 0) : readBuffer dir fsidx k b s = .ok (0, s) := by
  have same : s.setBuffer b (s.disk.page b) = s := by simp [Dir.setBuffer]
  rw [readBuffer, if_neg (by rw [size]; decide), memfsFileRead_empty size]
  simp only [liftBlock, bind, Except.bind, List.headD_nil, same, size]
  rfl

/-- The first call reads the empty directory into a new buffer. -/
theorem Kept.readdir (kept : Kept dir s es blocks inodes) (fsidx : Nat) (k : Kzalloc) (room : (if s.buffer = .null then 1 else 0) ≤ s.disk.cache.free) :
    ∃ disk b npages blocks', memfsVnodeReaddir dir fsidx k s = .ok (0, { s with disk := disk, buffer := .block b, npages := npages }) ∧
      Kept dir { s with disk := disk, buffer := .block b, npages := npages } es blocks' inodes ∧
      Buffered dir { s with disk := disk, buffer := .block b, npages := npages } es ∧
      disk.cache.free = s.disk.cache.free - (if s.buffer = .null then 1 else 0) := by
  rcases kept.buffer with ⟨isNull, rfl, size⟩ | ⟨buffered, inside⟩
  · rw [isNull] at room
    obtain ⟨cache, b, allocated, live', fresh, layout, count⟩ := memfsAllocBlock_ok kept.live (by simp at room; omega)
    let disk : Disk Page := { s.disk with cache := cache, page := update s.disk.page b 0 }
    have buffered : Buffered dir { s with disk := disk, buffer := .block b, npages := 1 } [] :=
      ⟨size, Nat.zero_le _, rfl, b, rfl, fun i inside => absurd inside (Nat.not_lt_zero i)⟩
    refine ⟨disk, b, 1, b :: blocks, ?_, ⟨live', layout.structSize.trans kept.blockSize, ?_, kept.own, kept.pool, kept.held, kept.known,
      kept.children, kept.numbers, .inr ⟨buffered, ?_⟩⟩, buffered, by simpa [isNull] using count⟩
    · have ran : memfsVnodeReaddir dir fsidx k s = readBuffer dir fsidx k b { s with disk := disk, buffer := .block b, npages := 1 } := by
        rw [memfsVnodeReaddir, if_neg (by simpa using isNull), allocated]
        rfl
      rw [ran]
      exact readBuffer_empty size
    · exact ⟨kept.store.homes, fun bc mem => ⟨List.mem_cons_of_mem _ (kept.store.inside bc mem).1, (kept.store.inside bc mem).2⟩,
        kept.store.live, kept.store.mem⟩
    · rintro _ ⟨⟩
      exact List.mem_cons_self
  · obtain ⟨b, is, records⟩ := buffered.records
    have same : { s with disk := s.disk, buffer := .block b, npages := s.npages } = s := by rw [← is]
    refine ⟨s.disk, b, s.npages, blocks, ?_, same ▸ kept, same ▸ buffered, by simp [is]⟩
    rw [same, memfsVnodeReaddir, if_pos (by rw [is]; exact nofun)]
    rfl

theorem InodeStore.mono {caches : List (Nat × Cache.MemCache)} {blocks' : List Nat} (store : InodeStore caches blocks inodes)
    (sub : ∀ b ∈ blocks, b ∈ blocks') : InodeStore caches blocks' inodes :=
  ⟨store.homes, fun bc mem => ⟨sub _ (store.inside bc mem).1, (store.inside bc mem).2⟩, store.live, store.mem⟩

/-- The buffer goes to a new block each time. -/
theorem writeBuffer (dir : Nat) (disk : Disk Page) (page : Page) (live : Cache.Live disk.cache blocks) (size : disk.cache.structSize = 4096)
    (free : 0 < disk.cache.free) (small : (disk.vnode dir).size < 4096) :
    ∃ disk' blocks', memfsFileWrite dir 0 [page] disk = .ok (4096, disk') ∧ Grown disk disk' blocks blocks' ∧ SameSizes disk disk' := by
  obtain ⟨cache, a, allocated, live', fresh, layout, -⟩ := memfsAllocBlock_ok live free
  have first : pfnOf (disk.vnode dir).size = 0 := by
    rw [pfnOf_of_small (by omega)]
    omega
  let disk1 : Disk Page := { disk with cache := cache, page := update disk.page a 0 }
  let disk2 := disk1.setVnode dir { disk.vnode dir with block := update (disk.vnode dir).block 0 (.block a) }
  have stored : disk1.setBlock dir 0 (.block a) = .ok disk2 := rfl
  have reached : reach dir 0 1 disk = .ok (false, disk2) := by
    rw [reach, if_pos (by omega), extend]
    simp only [first, Memfs.allocBlocks, allocated, bind, Except.bind]
    rfl
  have found : disk2.blockAt dir 0 = .ok a := by simp [Disk.blockAt, disk2, Disk.setVnode, memfsFmaxBlocks]; rfl
  refine ⟨{ disk2 with page := update disk2.page a page }, a :: blocks, ?_,
    ⟨live', layout.structSize.trans size, fun b mem => ⟨List.mem_cons_of_mem _ mem, ?_⟩⟩, fun u => ?_⟩
  · have last : (0 + [page].length) % 2 ^ 32 = 1 := rfl
    have count : asInt (([page].length : Int) * 4096) = 4096 := by
      rw [asInt_of_small (by simp) (by simp)]
      simp
    have whole : [page].take (1 - 0) = [page] := rfl
    unfold memfsFileWrite
    rw [last, if_neg (by decide)]
    simp only [reached, bind, Except.bind, whole, Memfs.copyPages, found, count]
    rfl
  · have ne : b ≠ a := fun eq => fresh (eq ▸ mem)
    simp [disk2, disk1, Disk.setVnode, ne]
  · by_cases eq : u = dir <;> simp [disk2, disk1, Disk.setVnode, eq]

theorem Kept.size (kept : Kept dir s es blocks inodes) : (s.disk.vnode dir).size = memfsDentrySize * es.length := by
  rcases kept.buffer with ⟨-, rfl, zero⟩ | ⟨buffered, -⟩
  · exact zero
  · exact buffered.size

theorem Kept.buffer_mem (kept : Kept dir s es blocks inodes) (is : s.buffer = .block b) : b ∈ blocks := by
  rcases kept.buffer with ⟨isNull, -⟩ | ⟨-, inside⟩
  · rw [isNull] at is
    cases is
  · exact inside b is

/-- The inode `a` of the caches has the number `i`, and the vnode `v` has the inode. -/
def Dir.withVnode (s : Dir) (disk : Disk Page) (caches : List (Nat × Cache.MemCache)) (fsidx v a i : Nat) : Dir :=
  { s with
    disk := disk.setVnode a {}
    inodeCaches := caches
    ipool := { s.ipool with bitmap := Bitmap.set s.ipool.bitmap i }
    inode := update (update s.inode a {}) a { inum := i }
    table := update s.table i (some a)
    nodes := update s.nodes v (some { vnum := i ||| fsidx, inode := some a }) }

theorem memfsAllocVnode_ok {id : Nat} (live : Cache.Live s.disk.cache blocks) (size : s.disk.cache.structSize = 4096)
    (store : InodeStore s.inodeCaches blocks inodes) (pool : s.ipool.Holds memfsTotalInodes) (fsidx v : Nat)
    (room : (if inodesFull s then 1 else 0) ≤ s.disk.cache.free) (below : id < memfsTotalInodes) (clear : Bitmap.test s.ipool.bitmap id = false) :
    ∃ disk caches a i blocks', memfsAllocVnode fsidx (some v) s = .ok (s.withVnode disk caches fsidx v a i, v, a) ∧ a ∉ inodes ∧
      Grown s.disk disk blocks blocks' ∧ disk.vnode = s.disk.vnode ∧ InodeStore caches blocks' (a :: inodes) ∧
      disk.cache.free = s.disk.cache.free - (if inodesFull s then 1 else 0) ∧
      i < memfsTotalInodes ∧ Bitmap.test s.ipool.bitmap i = false := by
  obtain ⟨disk, caches, a, blocks', allocated, fresh, grown, sameVnodes, store, count⟩ := memfsAllocInode_ok live size store room
  rcases Mm0.idNew_cases pool with ⟨i, less, isClear, taken⟩ | ⟨allSet, -⟩
  · have number : ((i : Int) % 2 ^ 32).toNat = i := by
      have limit : memfsTotalInodes = 128 := rfl
      omega
    refine ⟨disk, caches, a, i, blocks', ?_, fresh, grown, sameVnodes, store, count, less, isClear⟩
    unfold memfsAllocVnode memfsCreateInode
    simp only [allocated, taken, number, if_pos less, bind, Except.bind]
    simp [Dir.withVnode, pure, Except.pure]
  · rw [allSet id below] at clear
    cases clear

/-- A new vnode with an inode of its own, under a number that was not taken. -/
theorem Kept.allocVnode {id : Nat} (kept : Kept dir s es blocks inodes) (fsidx : Nat) (free : s.nodes v = none)
    (room : (if inodesFull s then 1 else 0) ≤ s.disk.cache.free) (below : id < memfsTotalInodes) (clear : Bitmap.test s.ipool.bitmap id = false) :
    ∃ s1 a i blocks', memfsAllocVnode fsidx (some v) s = .ok (s1, v, a) ∧ Kept dir s1 es blocks' (a :: inodes) ∧
      i < memfsTotalInodes ∧ Bitmap.test s.ipool.bitmap i = false ∧ Bitmap.test s1.ipool.bitmap i = true ∧ (s1.inode a).inum = i ∧
      s1.nodes = update s.nodes v (some { vnum := i ||| fsidx, inode := some a }) ∧ s1.children = s.children ∧
      s1.buffer = s.buffer ∧ (Buffered dir s es → Buffered dir s1 es) ∧
      s1.disk.cache.free = s.disk.cache.free - (if inodesFull s then 1 else 0) := by
  obtain ⟨disk, caches, a, i, blocks', allocated, fresh, grown, sameVnodes, store, count, less, isClear⟩ :=
    memfsAllocVnode_ok kept.live kept.blockSize kept.store kept.pool fsidx v room below clear
  have notDir : dir ≠ a := fun eq => fresh (eq ▸ kept.own)
  let s1 : Dir := s.withVnode disk caches fsidx v a i
  have size : (s1.disk.vnode dir).size = (s.disk.vnode dir).size := by simp [s1, Dir.withVnode, Disk.setVnode, notDir, sameVnodes]
  have tests : ∀ j, Bitmap.test s1.ipool.bitmap j = true ↔ i = j ∨ Bitmap.test s.ipool.bitmap j = true := fun j => by
    simp [s1, Dir.withVnode, Bitmap.test_set (show 0 < 32 by decide)]
  have inumOf : ∀ u, (s.nodes u).isSome → s1.inumOf u = s.inumOf u := fun u known => by
    have ne : u ≠ v := fun eq => by simp [eq, free] at known
    obtain ⟨n, is⟩ := Option.isSome_iff_exists.mp known
    cases own : n.inode with
    | none => simp [Dir.inumOf, s1, Dir.withVnode, ne, is, own]
    | some j =>
      have other : j ≠ a := fun eq => fresh (eq ▸ kept.held u n j is own)
      simp [Dir.inumOf, s1, Dir.withVnode, ne, is, own, other]
  have buffered : Buffered dir s es → Buffered dir s1 es := fun buffered => by
    obtain ⟨b, is, records⟩ := buffered.records
    refine ⟨size.trans buffered.size, buffered.fits, buffered.npages, b, is, fun j inside => ?_⟩
    have same : s1.disk.page b = s.disk.page b := (grown.sub b (kept.buffer_mem is)).2
    rw [same]
    exact records j inside
  refine ⟨s1, a, i, blocks', allocated, ⟨grown.live, grown.size, store, List.mem_cons_of_mem _ kept.own, kept.pool.set less, fun u n j is own => ?_,
    fun d mem => ?_, ?_, fun e mem => (tests e.2).mpr (.inr (kept.numbers e mem)), ?_⟩, less, isClear, (tests i).mpr (.inl rfl),
    by simp [s1, Dir.withVnode], rfl, rfl, rfl, buffered, count⟩
  · by_cases eq : u = v
    · simp only [s1, Dir.withVnode, eq, update_self, Option.some.injEq] at is
      rw [← is] at own
      simp [← Option.some.inj own]
    · simp only [s1, Dir.withVnode, update_of_ne eq] at is
      exact List.mem_cons_of_mem _ (kept.held u n j is own)
  · have known := kept.known d mem
    by_cases eq : d.vnode = v
    · simp [s1, Dir.withVnode, eq]
    · simpa [s1, Dir.withVnode, eq] using known
  · rw [← kept.children]
    exact List.map_congr_left fun d mem => by rw [inumOf d.vnode (kept.known d mem)]
  · rcases kept.buffer with ⟨isNull, isEmpty, zero⟩ | ⟨isBuffered, inside⟩
    · exact .inl ⟨isNull, isEmpty, size.trans zero⟩
    · exact .inr ⟨buffered isBuffered, fun b is => (grown.sub b (inside b is)).1⟩

/-- The record goes behind the others, and the vnode among the children. -/
theorem Kept.finish {a i : Nat} {n : Node} (kept : Kept dir s es blocks inodes) (buffered : Buffered dir s es) (is : s.buffer = .block b)
    (room : 0 < s.disk.cache.free) (few : es.length < 95) (short : name.length < memfsDnameMax) (text : nul ∉ name)
    (node : s.nodes v = some n) (own : n.inode = some a) (number : (s.inode a).inum = i) (small : i < memfsTotalInodes)
    (taken : Bitmap.test s.ipool.bitmap i = true) :
    ∃ s' blocks', ((storeRecord dir i name s).bind fun r => finishNode dir name v true r.2 r.1) = .ok (.ok v, s') ∧
      Kept dir s' (es ++ [(name, i)]) blocks' inodes ∧ Buffered dir s' (es ++ [(name, i)]) ∧ s'.inumOf v = some i := by
  have limit : memfsTotalInodes = 128 := rfl
  have max : memfsDnameMax = 32 := rfl
  have entry : memfsDentrySize = 43 := rfl
  have size : (s.disk.vnode dir).size = 43 * es.length := buffered.size
  have npages := buffered.npages
  let page := putRecord i (s.disk.vnode dir).size name (s.disk.page b)
  have stored : storeRecord dir i name s = .ok (s.setBuffer b page, page) := by
    rw [storeRecord, is]
    exact if_pos (by rw [npages]; omega)
  obtain ⟨disk, blocks', wrote, grown, sizes⟩ := writeBuffer dir (s.setBuffer b page).disk page kept.live kept.blockSize room
    (show (s.disk.vnode dir).size < 4096 by omega)
  let s' : Dir := { s with
    disk := disk.setSize dir ((disk.vnode dir).size + memfsDentrySize)
    children := ⟨name.take vfsDnameMax, v⟩ :: s.children
    vnodeCache := v :: s.vnodeCache }
  have inBlocks := kept.buffer_mem is
  have isPage : s'.disk.page b = page := (grown.sub b inBlocks).2.trans (by simp [Dir.setBuffer])
  have isSize : (s'.disk.vnode dir).size = memfsDentrySize * (es ++ [(name, i)]).length := by
    have same : (disk.vnode dir).size = (s.disk.vnode dir).size := sizes dir
    simp only [s', Disk.setSize, Disk.setVnode, update_self, same, size, entry, List.length_append, List.length_singleton]
    omega
  have buffered' : Buffered dir s' (es ++ [(name, i)]) := by
    refine ⟨isSize, ?_, npages, b, is, fun j inside => ?_⟩
    · rw [show s'.npages = 1 from npages, entry, List.length_append, List.length_singleton]
      omega
    · rw [isPage]
      by_cases old : j < es.length
      · rw [List.getElem_append_left old]
        obtain ⟨b', isb', records⟩ := buffered.records
        obtain rfl := BlockPtr.block.inj (is.symm.trans isb')
        refine (records j old).congr fun o _ less => putRecord_other ?_
        rw [entry] at less ⊢
        omega
      · obtain rfl : j = es.length := by simp at inside; omega
        rw [List.getElem_concat_length rfl, entry, ← size]
        exact putRecord_has (by omega) short text
  refine ⟨s', blocks', ?_, ⟨grown.live, grown.size, kept.store.mono fun b mem => (grown.sub b mem).1, kept.own, kept.pool, kept.held, fun d mem => ?_, ?_,
    fun e mem => ?_, .inr ⟨buffered', fun c isc => ?_⟩⟩, buffered', by simp [Dir.inumOf, s', node, own, number]⟩
  · simp only [stored, Except.bind, finishNode, wrote, liftBlock, bind]
    rfl
  · rcases List.mem_cons.mp mem with rfl | old
    · simp [s', node]
    · exact kept.known d old
  · have isName : name.take vfsDnameMax = name := List.take_of_length_le (by unfold vfsDnameMax; omega)
    simp only [s', List.map_cons, List.map_append, List.reverse_append, List.map_nil, List.reverse_cons, List.reverse_nil, List.nil_append,
      List.singleton_append, ← kept.children, isName]
    rw [show Dir.inumOf _ v = some i by simp [Dir.inumOf, node, own, number]]
    rfl
  · rcases List.mem_append.mp mem with old | new
    · exact kept.numbers e old
    · rw [List.mem_singleton.mp new]
      exact taken
  · obtain rfl := BlockPtr.block.inj (is.symm.trans isc)
    exact (grown.sub b inBlocks).1

theorem inumOf_setMode (u v : Nat) (m : Word) : (s.setMode v m).inumOf u = s.inumOf u := by
  by_cases eq : u = v
  · subst eq
    cases known : s.nodes u <;> simp [Dir.inumOf, Dir.setMode, known]
  · simp [Dir.inumOf, Dir.setMode, eq]

theorem Kept.setMode (kept : Kept dir s es blocks inodes) (v : Nat) (m : Word) : Kept dir (s.setMode v m) es blocks inodes := by
  refine ⟨kept.live, kept.blockSize, kept.store, kept.own, kept.pool, fun u n i is own => ?_, fun d mem => ?_, ?_, kept.numbers, ?_⟩
  · by_cases eq : u = v
    · subst eq
      simp only [Dir.setMode, update_self] at is
      obtain ⟨n', is', rfl⟩ := Option.map_eq_some_iff.mp is
      exact kept.held u n' i is' own
    · simp only [Dir.setMode, update_of_ne eq] at is
      exact kept.held u n i is own
  · have known := kept.known d mem
    by_cases eq : d.vnode = v
    · subst eq
      simpa [Dir.setMode] using known
    · simpa [Dir.setMode, eq] using known
  · simp only [inumOf_setMode]
    exact kept.children
  · rcases kept.buffer with null | ⟨buffered, inside⟩
    · exact .inl null
    · exact .inr ⟨⟨buffered.size, buffered.fits, buffered.npages, buffered.records⟩, inside⟩

/-- There is room for the record and its name, and what is to be allocated can be. -/
def CarefulNode (dir : Nat) (s : Dir) (name : Str) (k : Kzalloc) : Prop :=
  (if s.buffer = .null then 1 else 0) + (if s.children.any (·.compare name) then 0 else (if inodesFull s then 1 else 0) + 1) ≤
    s.disk.cache.free ∧
  (s.children.any (·.compare name) = false → name.length < memfsDnameMax ∧ k.vnode.isSome ∧ k.dentry = true ∧
    (s.disk.vnode dir).size + memfsDentrySize ≤ 4096 ∧ ∃ id < memfsTotalInodes, Bitmap.test s.ipool.bitmap id = false)

/-- What a call that returns an error leaves as it was. -/
structure Unchanged (dir : Nat) (s s' : Dir) : Prop where
  size : (s'.disk.vnode dir).size = (s.disk.vnode dir).size
  inodes : s'.inodeCaches = s.inodeCaches ∧ s'.inode = s.inode ∧ s'.table = s.table
  numbers : s'.ipool = s.ipool
  vnodes : s'.nodes = s.nodes ∧ s'.vnodeCache = s.vnodeCache ∧ s'.children = s.children

/-- What a call that returns a vnode has made. -/
structure Made (dir : Nat) (name : Str) (s s' : Dir) (es : List (Str × Nat)) (v i : Nat) : Prop where
  fresh : s.nodes v = none ∧ Bitmap.test s.ipool.bitmap i = false
  number : s'.inumOf v = some i ∧ Bitmap.test s'.ipool.bitmap i = true
  records : Buffered dir s' (es ++ [(name, i)])

theorem Kept.makeNode (kept : Kept dir s es blocks inodes) (fsidx : Nat) (mode : Word) (buffered : Buffered dir s es) (text : nul ∉ name)
    (isVnode : k.vnode = some v) (free : s.nodes v = none) (isDentry : k.dentry = true) (short : name.length < memfsDnameMax)
    (room : (if inodesFull s then 1 else 0) + 1 ≤ s.disk.cache.free) (fits : (s.disk.vnode dir).size + memfsDentrySize ≤ 4096)
    {id : Nat} (below : id < memfsTotalInodes) (clear : Bitmap.test s.ipool.bitmap id = false) :
    ∃ s' i blocks' inodes', makeNode dir fsidx name mode k s = .ok (.ok v, s') ∧ Kept dir s' (es ++ [(name, i)]) blocks' inodes' ∧
      Made dir name s s' es v i := by
  have entry : memfsDentrySize = 43 := rfl
  have size : (s.disk.vnode dir).size = 43 * es.length := buffered.size
  obtain ⟨s1, a, i, blocks1, allocated, kept1, less, isClear, taken, number, nodes1, -, buffer1, buffered1, count⟩ :=
    kept.allocVnode fsidx free (by omega) below clear
  have buffered1 := buffered1 buffered
  obtain ⟨b, is, records⟩ := buffered1.records
  have size1 : (s1.disk.vnode dir).size = 43 * es.length := buffered1.size
  have node : (s1.setMode v (sIfmt &&& mode)).nodes v = some { vnum := i ||| fsidx, inode := some a, mode := sIfmt &&& mode } := by
    simp [Dir.setMode, nodes1]
  obtain ⟨s', blocks', ran, kept', buffered', number'⟩ := (kept1.setMode v (sIfmt &&& mode)).finish (b := b)
    ⟨buffered1.size, buffered1.fits, buffered1.npages, buffered1.records⟩ is (show 0 < s1.disk.cache.free by omega) (by omega) short text
    node rfl number less taken
  refine ⟨s', i, blocks', _, ?_, kept', ⟨⟨free, isClear⟩, ⟨number', ?_⟩, buffered'⟩⟩
  · have more : ¬ (s1.setMode v (sIfmt &&& mode)).npages * 4096 ≤ ((s1.setMode v (sIfmt &&& mode)).disk.vnode dir).size := by
      rw [show (s1.setMode v (sIfmt &&& mode)).npages = 1 from buffered1.npages,
        show ((s1.setMode v (sIfmt &&& mode)).disk.vnode dir).size = 43 * es.length from size1]
      omega
    have isNumber : ((s1.setMode v (sIfmt &&& mode)).inode a).inum = i := number
    unfold Memfs.makeNode
    simp only [isVnode, allocated, bind, Except.bind, if_neg more, isNumber, isDentry]
    exact ran
  · exact kept'.numbers (name, i) (by simp)

theorem Kept.mknod (kept : Kept dir s es blocks inodes) (fsidx : Nat) (mode : Word) (text : nul ∉ name) (fresh : ∀ v, k.vnode = some v → s.nodes v = none)
    (careful : CarefulNode dir s name k) :
    ∃ r s' es' blocks' inodes', memfsVnodeMknod dir fsidx name mode k s = .ok (r, s') ∧ Kept dir s' es' blocks' inodes' ∧
      (s.children.any (·.compare name) = true ∧ r = .error eexist ∧ es' = es ∧ Unchanged dir s s' ∧ Buffered dir s' es ∨
       s.children.any (·.compare name) = false ∧ ∃ v i, r = .ok v ∧ es' = es ++ [(name, i)] ∧ Made dir name s s' es v i) := by
  obtain ⟨room, can⟩ := careful
  obtain ⟨disk, b, npages, blocks1, read, kept1, buffered1, count⟩ := kept.readdir fsidx k (by split_ifs at room ⊢ <;> omega)
  cases taken : s.children.any (·.compare name) with
  | true =>
    refine ⟨.error eexist, _, es, blocks1, inodes, ?_, kept1, .inl ⟨rfl, rfl, rfl, ⟨?_, ⟨rfl, rfl, rfl⟩, rfl, rfl, rfl, rfl⟩, buffered1⟩⟩
    · simp only [memfsVnodeMknod, read, bind, Except.bind, taken]
      rfl
    · exact buffered1.size.trans kept.size.symm
  | false =>
    obtain ⟨short, isVnode, isDentry, fits, id, below, clear⟩ := can taken
    obtain ⟨v, isVnode⟩ := Option.isSome_iff_exists.mp isVnode
    rw [taken] at room
    obtain ⟨s', i, blocks', inodes', made, kept', all⟩ := kept1.makeNode fsidx mode buffered1 text isVnode (fresh v isVnode)
      isDentry short (by
        rw [count]
        simp only [Bool.false_eq_true, if_false] at room
        change (if inodesFull s = true then 1 else 0) + 1 ≤ _
        omega) (by rw [buffered1.size, ← kept.size]; exact fits) below clear
    refine ⟨.ok v, s', _, blocks', inodes', ?_, kept', .inr ⟨rfl, v, i, rfl, rfl, all.fresh, all.number, all.records⟩⟩
    simp only [memfsVnodeMknod, read, bind, Except.bind, taken]
    exact made

/-! ## Reading a directory back -/

/-- The cached buffer and the dentries of the directory are dropped. -/
def Dir.dropped (s : Dir) : Dir := { s with buffer := .null, npages := 0, children := [] }

theorem readdir_dropped (dir fsidx : Nat) (k : Kzalloc) (live : Cache.Live s.disk.cache blocks) (free : 0 < s.disk.cache.free) :
    ∃ disk b, disk.vnode = s.disk.vnode ∧ memfsVnodeReaddir dir fsidx k s.dropped =
      readBuffer dir fsidx k b { s.dropped with disk := disk, buffer := .block b, npages := 1 } := by
  obtain ⟨cache, b, allocated, -⟩ := memfsAllocBlock_ok live free
  refine ⟨{ s.disk with cache := cache, page := update s.disk.page b 0 }, b, rfl, ?_⟩
  have allocated' : memfsAllocBlock s.dropped.disk = _ := allocated
  rw [memfsVnodeReaddir, if_neg (by simp [Dir.dropped]), allocated']
  rfl

theorem memfsFileRead_first (pos : 0 < (disk.vnode v).size) (small : (disk.vnode v).size ≤ 4096) :
    memfsFileRead v 0 1 disk = (readPages disk v 0 1).bind fun ps => .ok (4096, ps) := by
  have aligned : pfnOf (pageAlignUp (disk.vnode v).size) = 1 := by
    rw [pfnOf_pageAlignUp (by omega), pagesOf]
    omega
  have count : asInt (((1 : Nat) - (0 : Nat) : Int) * 4096) = 4096 := by
    rw [asInt_of_small (by simp) (by simp)]
    simp
  have start : (if 0 < pfnOf (disk.vnode v).size then 0 else pfnOf (disk.vnode v).size) = 0 := by split <;> omega
  unfold memfsFileRead
  simp only [aligned, start]
  exact congrArg (fun n => (readPages disk v 0 1).bind fun ps => .ok (n, ps)) count

/-- A directory with records is not read back: the number of bytes is taken for an error. -/
theorem readBuffer_records (pos : 0 < (s.disk.vnode dir).size) (s' : Dir) : readBuffer dir fsidx k b s ≠ .ok (0, s') := by
  unfold readBuffer
  split
  · exact nofun
  · next small =>
    rw [memfsFileRead_first pos (by omega)]
    cases readPages s.disk dir 0 1 with
    | error e => exact nofun
    | ok ps =>
      intro ran
      cases ran

theorem readdir_dropped_records (pos : 0 < (s.disk.vnode dir).size) (s' : Dir) :
    memfsVnodeReaddir dir fsidx k s.dropped ≠ .ok (0, s') := by
  rw [memfsVnodeReaddir, if_neg (by simp [Dir.dropped]), memfsAllocBlock]
  split
  · split
    · intro ran
      cases ran
    · intro ran
      cases ran
    · intro ran
      refine readBuffer_records ?_ s' ran
      exact pos
  · intro ran
    cases ran

end

/-! ## Runs -/

inductive DirEvent
  | mknod (name : Str) (mode : Word) (k : Kzalloc)

/-- A directory next to the pairs of name and inode number that were made. -/
def directory (dir fsidx : Nat) : Machine (Dir × List (Str × Nat)) DirEvent DirStop where
  enabled s
    | .mknod name _ k => nul ∉ name ∧ ∀ v, k.vnode = some v → s.1.nodes v = none
  step s
    | .mknod name mode k => do
      let (r, s') ← memfsVnodeMknod dir fsidx name mode k s.1
      match r with
      | .ok v => pure (s', s.2 ++ [(name, (s'.inumOf v).getD 0)])
      | .error _ => pure (s', s.2)

def CarefulDir (dir : Nat) (s : Dir × List (Str × Nat)) : DirEvent → Prop
  | .mknod name _ k => CarefulNode dir s.1 name k

section
variable {dir fsidx : Nat} {s0 s : Dir} {es : List (Str × Nat)} {blocks inodes : List Nat}

theorem reached_kept (fresh : Kept dir s0 [] blocks inodes)
    (reached : (directory dir fsidx).ReachesUnder (CarefulDir dir) (s0, []) (s, es)) : ∃ blocks inodes, Kept dir s es blocks inodes := by
  refine reached.invariant (I := fun s => ∃ blocks inodes, Kept dir s.1 s.2 blocks inodes) (fun s e t held able careful ran => ?_)
    ⟨blocks, inodes, fresh⟩
  obtain ⟨blocks, inodes, kept⟩ := held
  cases e with
  | mknod name mode k =>
    obtain ⟨r, s', es', blocks', inodes', made, kept', cases⟩ := kept.mknod fsidx mode able.1 able.2 careful
    obtain ⟨⟨r', s''⟩, made', done⟩ := bind_eq_ok.mp ran
    obtain ⟨rfl, rfl⟩ := Prod.mk.inj (Except.ok.inj (made.symm.trans made'))
    rcases cases with ⟨-, rfl, rfl, -⟩ | ⟨-, v, i, rfl, rfl, all⟩
    · obtain rfl := Except.ok.inj done
      exact ⟨blocks', inodes', kept'⟩
    · obtain rfl := Except.ok.inj done
      rw [all.number.1]
      exact ⟨blocks', inodes', kept'⟩

/-- While there is room, each call adds one record behind the others or changes nothing. The entries do not come back from
the disk. -/
theorem directory_creation (fresh : Kept dir s0 [] blocks inodes)
    (reached : (directory dir fsidx).ReachesUnder (CarefulDir dir) (s0, []) (s, es)) :
    (es ≠ [] → Buffered dir s es) ∧
    (∀ name mode k, (directory dir fsidx).enabled (s, es) (.mknod name mode k) → CarefulNode dir s name k →
      ∃ r s', memfsVnodeMknod dir fsidx name mode k s = .ok (r, s') ∧
        ((∃ v i, r = .ok v ∧ Made dir name s s' es v i) ∨
         ∃ err, r = .error err ∧ Unchanged dir s s' ∧ Buffered dir s' es ∧ ∃ d ∈ s.children, d.compare name)) ∧
    ∀ k, 0 < s.disk.cache.free → ((∃ s', memfsVnodeReaddir dir fsidx k s.dropped = .ok (0, s') ∧
      s'.children.map (fun d => (d.name, s'.inumOf d.vnode)) = (es.map fun e => (e.1, some e.2)).reverse) ↔ es = []) := by
  obtain ⟨blocks, inodes, kept⟩ := reached_kept fresh reached
  refine ⟨fun some => ?_, fun name mode k able careful => ?_, fun k free => ⟨?_, ?_⟩⟩
  · rcases kept.buffer with ⟨-, none, -⟩ | ⟨buffered, -⟩
    · exact absurd none some
    · exact buffered
  · obtain ⟨r, s', es', blocks', inodes', made, -, cases⟩ := kept.mknod fsidx mode able.1 able.2 careful
    refine ⟨r, s', made, ?_⟩
    rcases cases with ⟨taken, is, -, same, buffered⟩ | ⟨-, v, i, is, -, all⟩
    · exact .inr ⟨eexist, is, same, buffered, List.any_eq_true.mp taken⟩
    · exact .inl ⟨v, i, is, all⟩
  · rintro ⟨s', ran, -⟩
    obtain ⟨disk, b, same, read⟩ := readdir_dropped dir fsidx k kept.live free
    by_contra some
    have pos := List.length_pos_iff.mpr some
    have size : (disk.vnode dir).size = 43 * es.length := (congrArg (fun v => (v dir).size) same).trans kept.size
    exact readBuffer_records (by dsimp only; omega) s' (read.symm.trans ran)
  · rintro rfl
    obtain ⟨disk, b, same, read⟩ := readdir_dropped dir fsidx k kept.live free
    exact ⟨_, read.trans (readBuffer_empty ((congrArg (fun v => (v dir).size) same).trans kept.size)), rfl⟩

end

/-- A root directory: its inode is the first of the first cache, which is in the first block of four. -/
def rootDir : Dir :=
  { disk := ⟨{ blankBlocks 4 with free := 3, bitmap := Bitmap.set (fun _ => 0) 0 }, fun _ => 0, fun _ => {}⟩
    inodeCaches := [(0x1000, { inodeCache 0x1000 with free := 6, bitmap := Bitmap.set (fun _ => 0) 0 })]
    ipool := { Mm0.idPoolNewInit memfsTotalInodes with bitmap := Bitmap.set (fun _ => 0) 0 }
    table := fun i => if i = 0 then some 0x1024 else none
    inode := fun _ => {}
    nodes := fun _ => none
    vnodeCache := []
    buffer := .null
    npages := 0
    children := [] }

theorem rootDir_kept : Kept 0x1024 rootDir [] [0x1000] [0x1024] := by
  have live : Cache.Live rootDir.disk.cache [0x1000] :=
    ((Cache.memCacheAlloc_sat (blankBlocks_live 4)).ok (a := (rootDir.disk.cache, some 0x1000)) rfl).1
  have inode := (Cache.memCacheAlloc_sat (inodeCache_live 0x1000)).ok
    (a := ({ inodeCache 0x1000 with free := 6, bitmap := Bitmap.set (fun _ => 0) 0 }, some 0x1024)) rfl
  have none : InodeStore [] [] [] := ⟨List.nodup_nil, by simp, by simp, fun a => by simp⟩
  have store := (show InodeStore ([] ++ (0x1000, inodeCache 0x1000) :: []) [0x1000] [] from none.cache List.not_mem_nil).alloc live rfl
    (inodeCache_live 0x1000) inode.1 List.not_mem_nil inode.2.1
  have pool : (Mm0.idPoolNewInit memfsTotalInodes).Holds memfsTotalInodes :=
    ⟨rfl, rfl, fun i set => by simp [Mm0.idPoolNewInit, Bitmap.test] at set⟩
  exact ⟨live, rfl, store.2, List.mem_singleton_self _, pool.set (by decide), fun v n i is => (by cases is), List.forall_mem_nil _, rfl,
    List.forall_mem_nil _, .inl ⟨rfl, rfl, rfl⟩⟩

/-- `kzalloc` gives what is asked for. -/
def kzallocs (v : Nat) : Kzalloc := ⟨some v, true, fun i => some (v + 1 + i), fun _ => true⟩

theorem directory_creation_root : ∃ v i s', memfsVnodeMknod 0x1024 0x10000000 [0x61] 0x8000 (kzallocs 0x9000) rootDir = .ok (.ok v, s') ∧
    Made 0x1024 [0x61] rootDir s' [] v i := by
  obtain ⟨r, s', ran, made⟩ := (directory_creation rootDir_kept (.start : (directory 0x1024 0x10000000).ReachesUnder (CarefulDir 0x1024) _ _)).2.1
    [0x61] 0x8000 (kzallocs 0x9000) ⟨by decide, fun _ _ => rfl⟩ ⟨by decide, fun _ => ⟨by decide, rfl, rfl, by decide, 1, by decide, by decide⟩⟩
  rcases made with ⟨v, i, rfl, made⟩ | ⟨_, _, _, _, d, mem, _⟩
  · exact ⟨v, i, s', ran, made⟩
  · cases mem

set_option maxRecDepth 4000 in
/-- One node is made in the root directory. -/
theorem root_one : ∃ s, (directory 0x1024 0x10000000).ReachesUnder (CarefulDir 0x1024) (rootDir, []) (s, [([0x61], 1)]) ∧
    0 < s.disk.cache.free := by
  have careful : CarefulDir 0x1024 (rootDir, []) (.mknod [0x61] 0x8000 (kzallocs 0x9000)) :=
    ⟨by decide, fun _ => ⟨by decide, rfl, rfl, by decide, 1, by decide, by decide⟩⟩
  exact ⟨_, .next (e := .mknod [0x61] 0x8000 (kzallocs 0x9000)) .start ⟨by decide, fun _ _ => rfl⟩ careful rfl, by decide⟩

/-- There is a block for a new buffer, but reading the directory again does not return zero. -/
theorem directory_not_read : ∃ s, (directory 0x1024 0x10000000).Reaches (rootDir, []) (s, [([0x61], 1)]) ∧ 0 < s.disk.cache.free ∧
    ∀ k s', memfsVnodeReaddir 0x1024 0x10000000 k s.dropped ≠ .ok (0, s') := by
  obtain ⟨s, one, free⟩ := root_one
  obtain ⟨blocks, inodes, kept⟩ := reached_kept rootDir_kept one
  refine ⟨s, one.mono fun _ _ _ => trivial, free, fun k s' => readdir_dropped_records ?_ s'⟩
  rw [kept.size]
  decide

end Codezero.Fs.Memfs
