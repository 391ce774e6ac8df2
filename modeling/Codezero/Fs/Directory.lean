import Codezero.Fs.Lookup
import Codezero.Fs.Memfs
import Codezero.Mm0.IdPool

/-!
# The directories of memfs

A directory is a file of one page with a record for each of its entries. Making a node takes an inode and its number, a
vnode and a dentry, writes a record at the end of the directory's buffer and the buffer to a block; the steps that were done are
not undone by a step that fails. The addresses that `kzalloc` returns are given with a call, none for a null pointer. The directory
has its one dentry.
-/

namespace Codezero.Fs.Memfs
open Codezero.Kernel (Word)
open Codezero.Lib
open Codezero.Mm0 (IdPool idNew)
open Function (update)

/-! ## The model -/

/-- The bytes of a page. -/
abbrev Page := Nat → Byte

def eexist : Int := -17

def memfsTotalInodes : Nat := 128
def memfsDnameMax : Nat := 32
def vfsDnameMax : Nat := 256
def sIfmt : Word := 0xF000

/-- `sizeof(struct memfs_dentry)`. -/
def memfsDentrySize : Nat := 43

/-- The number and the mode that an inode has. -/
structure Inode where
  inum : Nat := 0
  mode : Word := 0

/-- A vnode of a node in the directory. One that was read by its number has no inode. -/
structure Node where
  vnum : Nat
  inode : Option Nat := none
  mode : Word := 0

structure Dentry where
  name : Str
  vnode : Nat

structure Dir where
  disk : Disk Page
  /-- `inode_cache_list`; the caches are at the start of blocks. -/
  inodeCaches : List (Nat × Cache.MemCache)
  ipool : IdPool
  /-- `sb->inode`. -/
  table : Nat → Option Nat
  inode : Nat → Inode
  /-- The vnodes that are allocated. -/
  nodes : Nat → Option Node
  vnodeCache : List Nat
  buffer : BlockPtr
  npages : Nat
  children : List Dentry

inductive DirStop
  | block (stop : Stop)
  | badPointer
  | null
  | outside
  | dirSize
  | noInode
  | dentries
  deriving DecidableEq, Repr

def liftBlock {α : Type} : Except Stop α → Except DirStop α
  | .ok a => .ok a
  | .error e => .error (.block e)

/-- `mem_cache_init` of a block for inodes of 528 bytes, behind its header of 32 bytes and one word of bitmap. -/
def inodeCache (block : Nat) : Cache.MemCache :=
  { total := 7, free := 7, start := block + 36, stop := block + 4096, structSize := 528, bitmapAddr := block + 32, bwords := 1
    bitmap := fun _ => 0 }

/-- The loop over the inode caches: the first that is not full gives an inode. -/
def allocFrom : List (Nat × Cache.MemCache) → Except DirStop (Option (Nat × List (Nat × Cache.MemCache)))
  | [] => pure none
  | (block, c) :: rest =>
    if c.free ≠ 0 then
      match Cache.memCacheAlloc c with
      | .error bug => throw (.block (.cache bug))
      | .ok (_, none) => throw .badPointer
      | .ok (c, some addr) => pure (some (addr, (block, c) :: rest))
    else do
      let found ← allocFrom rest
      pure (found.map fun r => (r.1, (block, c) :: r.2))

/-- The new inode is cleared. -/
def Dir.clearInode (s : Dir) (addr : Nat) : Dir :=
  { s with disk := s.disk.setVnode addr {}, inode := update s.inode addr {} }

def memfsAllocInode (s : Dir) : Except DirStop (Dir × BlockPtr) := do
  match ← allocFrom s.inodeCaches with
  | some (addr, caches) => pure ({ s with inodeCaches := caches }.clearInode addr, .block addr)
  | none => do
    let (disk, b) ← liftBlock (memfsAllocBlock s.disk)
    match b with
    | .block block => do
      match ← allocFrom [(block, inodeCache block)] with
      | some (addr, caches) =>
        pure ({ s with disk := disk, inodeCaches := caches ++ s.inodeCaches }.clearInode addr, .block addr)
      | none => throw .badPointer
    | b => pure ({ s with disk := disk }, b)

/-- The number is unsigned, so that neither test for an error is ever true. -/
def memfsCreateInode (s : Dir) : Except DirStop (Dir × Nat) := do
  let (s, i) ← memfsAllocInode s
  match i with
  | .block addr =>
    let (ipool, id) := idNew s.ipool
    let inum := (id % 2 ^ 32).toNat
    if inum < memfsTotalInodes then
      pure ({ s with
        ipool := ipool
        inode := update s.inode addr { s.inode addr with inum := inum }
        table := update s.table inum (some addr) }, addr)
    else throw .outside
  | _ => throw .badPointer

/-- `memfs_alloc_vnode` with a vnode from `kzalloc`, whose lists are initialised whether it is null or not. -/
def memfsAllocVnode (fsidx : Nat) (kvnode : Option Nat) (s : Dir) : Except DirStop (Dir × Nat × Nat) := do
  let (s, i) ← memfsCreateInode s
  match kvnode with
  | none => throw .null
  | some v => pure ({ s with nodes := update s.nodes v (some { vnum := (s.inode i).inum ||| fsidx, inode := some i }) }, v, i)

/-! ### Records -/

/-- The byte `k` of a little-endian number. -/
def le (x k : Nat) : Byte := BitVec.ofNat 8 (x / 256 ^ k)

/-- What `mknod` stores of a record; it leaves the type alone. -/
def recordByte (inum offset : Nat) (name : Str) (k : Nat) : Option Byte :=
  if k < 4 then some (le inum k)
  else if k < 8 then some (le offset (k - 4))
  else if k < 10 then some (le memfsDentrySize (k - 8))
  else if k = 10 then none
  -- `strncpy`, and the NUL at the end
  else if k = 42 then some nul
  else some ((name[k - 11]?).getD nul)

def putRecord (inum offset : Nat) (name : Str) (page : Page) (o : Nat) : Byte :=
  if offset ≤ o ∧ o < offset + memfsDentrySize then (recordByte inum offset name (o - offset)).getD (page o) else page o

def recordInum (page : Page) (offset : Nat) : Nat :=
  (page offset).toNat + 256 * ((page (offset + 1)).toNat + 256 * ((page (offset + 2)).toNat + 256 * (page (offset + 3)).toNat))

def recordName (page : Page) (offset : Nat) : Str :=
  ((List.range memfsDnameMax).map fun k => page (offset + 11 + k)).takeWhile (· ≠ nul)

/-! ### Reading a directory -/

/-- What `kzalloc` returns: for the vnode and the dentry of a new node, and for those of each record that is read. -/
structure Kzalloc where
  vnode : Option Nat
  dentry : Bool
  readVnode : Nat → Option Nat
  readDentry : Nat → Bool

/-- `vfs_vnode_lookup_byvnum` with `memfs_read_vnode`. -/
def vfsVnodeLookupByvnum (fsidx : Nat) (kvnode : Option Nat) (vnum : Nat) (s : Dir) : Except DirStop (Dir × Nat) :=
  match s.vnodeCache.find? fun v => decide ((s.nodes v).map (·.vnum) = some vnum) with
  | some v => pure (s, v)
  | none =>
    match kvnode with
    | none => throw .null
    | some v =>
      if vnum < memfsTotalInodes then
        match s.table vnum with
        | none => throw .noInode
        | some i => pure ({ s with
            nodes := update s.nodes v (some { vnum := (s.inode i).inum ||| fsidx, mode := (s.inode i).mode })
            vnodeCache := v :: s.vnodeCache }, v)
      else throw .outside

/-- The loop of `readdir` over the records of the buffer. -/
def readRecords (fsidx : Nat) (k : Kzalloc) (page : Page) : Nat → Nat → Dir → Except DirStop Dir
  | 0, _, s => pure s
  | n + 1, i, s =>
    if k.readDentry i then do
      let (s, v) ← vfsVnodeLookupByvnum fsidx (k.readVnode i) (recordInum page (i * memfsDentrySize)) s
      readRecords fsidx k page n (i + 1) { s with
        children := ⟨recordName page (i * memfsDentrySize), v⟩ :: s.children
        vnodeCache := v :: s.vnodeCache }
    else throw .null

def Dir.setBuffer (s : Dir) (b : Nat) (page : Page) : Dir :=
  { s with disk := { s.disk with page := update s.disk.page b page } }

/-- The end of `readdir`, with a new buffer. What the read of the page returns is taken for an error. -/
def readBuffer (dir fsidx : Nat) (k : Kzalloc) (b : Nat) (s : Dir) : Except DirStop (Int × Dir) :=
  if (s.disk.vnode dir).size > 4096 then throw .dirSize
  else do
    let (ret, ps) ← liftBlock (memfsFileRead dir 0 1 s.disk)
    let s := s.setBuffer b (ps.headD (s.disk.page b))
    if ret ≠ 0 then pure (ret, s)
    else do
      let s ← readRecords fsidx k (s.disk.page b) ((s.disk.vnode dir).size / memfsDentrySize) 0 s
      pure (0, s)

def memfsVnodeReaddir (dir fsidx : Nat) (k : Kzalloc) (s : Dir) : Except DirStop (Int × Dir) :=
  if s.buffer ≠ .null then pure (0, s)
  else do
    let (disk, b) ← liftBlock (memfsAllocBlock s.disk)
    let s := { s with disk := disk, buffer := b }
    match b with
    | .err e => pure (e, s)
    | .block b => readBuffer dir fsidx k b { s with npages := 1 }
    | .null => throw .badPointer

/-! ### Making a node -/

/-- The record is stored in the buffer at the end of the directory. -/
def storeRecord (dir inum : Nat) (name : Str) (s : Dir) : Except DirStop (Dir × Page) :=
  match s.buffer with
  | .block b =>
    let size := (s.disk.vnode dir).size
    if size + memfsDentrySize ≤ s.npages * 4096 then
      let page := putRecord inum size name (s.disk.page b)
      pure (s.setBuffer b page, page)
    else throw .outside
  | _ => throw .badPointer

/-- The end of `mknod`: the buffer goes to the block, the directory grows and the dentry is made. -/
def finishNode (dir : Nat) (name : Str) (v : Nat) (dentry : Bool) (page : Page) (s : Dir) : Except DirStop (Except Int Nat × Dir) := do
  let (ret, disk) ← liftBlock (memfsFileWrite dir 0 [page] s.disk)
  if ret < 0 then pure (.error ret, { s with disk := disk })
  else
    let s := { s with disk := disk.setSize dir ((disk.vnode dir).size + memfsDentrySize) }
    if dentry then
      pure (.ok v, { s with children := ⟨name.take vfsDnameMax, v⟩ :: s.children, vnodeCache := v :: s.vnodeCache })
    else throw .null

/-- `vfs_set_type` of a vnode that has no type yet. -/
def Dir.setMode (s : Dir) (v : Nat) (m : Word) : Dir :=
  { s with nodes := update s.nodes v ((s.nodes v).map ({ · with mode := m })) }

/-- The part of `mknod` behind the search for the name. -/
def makeNode (dir fsidx : Nat) (name : Str) (mode : Word) (k : Kzalloc) (s : Dir) : Except DirStop (Except Int Nat × Dir) := do
  let (s, v, i) ← memfsAllocVnode fsidx k.vnode s
  let s := s.setMode v (sIfmt &&& mode)
  if s.npages * 4096 ≤ (s.disk.vnode dir).size then pure (.error enospc, s)
  else do
    let (s, page) ← storeRecord dir (s.inode i).inum name s
    finishNode dir name v k.dentry page s

/-- The comparison of `generic_dentry_compare`. -/
def Dentry.compare (d : Dentry) (name : Str) : Bool := decide (d.name = name) || decide (name = vfsStrCurdir)

def memfsVnodeMknod (dir fsidx : Nat) (name : Str) (mode : Word) (k : Kzalloc) (s : Dir) : Except DirStop (Except Int Nat × Dir) := do
  let (err, s) ← memfsVnodeReaddir dir fsidx k s
  if err < 0 then pure (.error err, s)
  else if s.children.any (·.compare name) then pure (.error eexist, s)
  else makeNode dir fsidx name mode k s

end Codezero.Fs.Memfs
