import Codezero.Fs.Calls
import Codezero.Fs.DirectoryRuns

/-!
# Trees of memfs directories

The directories of a memfs share its blocks, inodes and vnodes; each has its own buffer and children. An operation of a
directory's vnode works on the shared part and on what the vnode has, and nothing else.
-/

namespace Codezero.Fs.Memfs
open Codezero.Kernel (Word)
open Codezero.Lib
open Function (update update_of_ne update_self)

/-- What a vnode has of its own. -/
structure Directory where
  buffer : BlockPtr := .null
  npages : Nat := 0
  children : List Dentry := []

/-- What is shared, what each vnode has, and the names of its dentries. The buffer and the children in `base` are not used. -/
structure Tree where
  base : Dir
  dirs : Nat → Directory
  names : Nat → List Str

namespace Tree
variable (t : Tree) (v : Nat)

/-- The vnode's part next to what is shared. -/
def load : Dir := { t.base with buffer := (t.dirs v).buffer, npages := (t.dirs v).npages, children := (t.dirs v).children }

def store (s : Dir) : Tree := { t with base := s, dirs := update t.dirs v ⟨s.buffer, s.npages, s.children⟩ }

def inodeOf : Nat := ((t.base.nodes v).bind Node.inode).getD 0

/-- `vfs_isdir`. -/
def isDir : Bool := decide ((t.base.nodes v).map (fun n => n.mode &&& sIfmt) = some sIfdir)

/-- `memfs_vnode_readdir` with its precautions. -/
def readdir (fsidx : Nat) (k : Kzalloc) : Except DirStop (Tree × Int) :=
  if (t.names v).length ≠ 1 ∨ t.isDir v = false then throw .dentries
  else do
    let (r, s) ← memfsVnodeReaddir (t.inodeOf v) fsidx k (t.load v)
    pure (t.store v s, r)

/-- `memfs_vnode_mknod` with its precautions; a new vnode has the dentry and an empty buffer. -/
def mknod (fsidx : Nat) (k : Kzalloc) (name : Str) (mode : Word) : Except DirStop (Tree × Except Int Nat) :=
  if (t.names v).length ≠ 1 ∨ t.isDir v = false then throw .dentries
  else do
    let (r, s) ← memfsVnodeMknod (t.inodeOf v) fsidx name mode k (t.load v)
    let t := t.store v s
    match r with
    | .error e => pure (t, .error e)
    | .ok w => pure ({ t with
        dirs := update t.dirs w {}
        names := update t.names w [name.take vfsDnameMax] }, .ok w)

end Tree

/-- memfs as the file system of the calls. -/
def memfs (fsidx : Nat) (k : Kzalloc) : VfsOps Tree Nat Dentry DirStop where
  dentries t v := (t.names v).map fun name => ⟨name, v⟩
  isDir t v := t.isDir v
  name _ d := d.name
  children t d := (t.dirs d.vnode).children
  vnode _ d := d.vnode
  readdir t v := t.readdir v fsidx k
  mknod t v name mode := t.mknod v fsidx k name mode

/-! ## The contract of the calls -/

/-- The pages that a buffer has. -/
def BlockPtr.pages : BlockPtr → Nat
  | .block _ => 1
  | _ => 0

/-- A directory in order: one without a buffer is empty. -/
structure Sound (dir : Nat) (s : Dir) (blocks inodes : List Nat) : Prop where
  live : Cache.Live s.disk.cache blocks
  blockSize : s.disk.cache.structSize = 4096
  store : InodeStore s.inodeCaches blocks inodes
  pool : s.ipool.Holds memfsTotalInodes
  own : dir ∈ inodes
  npages : s.npages = s.buffer.pages
  unread : s.buffer = .null → (s.disk.vnode dir).size = 0

/-- The directories have one name each, and are in order. -/
structure Ready (t : Tree) : Prop where
  single : ∀ v, t.isDir v = true → (t.names v).length = 1
  sound : ∃ blocks inodes, ∀ v, t.isDir v = true → Sound (t.inodeOf v) (t.load v) blocks inodes

/-! ### What making a node takes -/

/-- There is no block for the directory's buffer. -/
def NoBuffer (s : Dir) : Prop := s.buffer = .null ∧ s.disk.cache.free = 0

/-- The blocks that are free when the directory has its buffer. -/
def blocksLeft (s : Dir) : Int := s.disk.cache.free - (if s.buffer = .null then 1 else 0)

section
variable {t : Tree} {v fsidx : Nat} {k : Kzalloc}

variable {dir : Nat} {s s' : Dir} {name : Str} {mode : Word} {e : Int} {blocks inodes : List Nat}

/-- Reading a directory for the first time takes a block for its buffer, if there is one. -/
theorem Sound.readdir (sound : Sound dir s blocks inodes) (fsidx : Nat) (k : Kzalloc) :
    ∃ r cache page buffer blocks', memfsVnodeReaddir dir fsidx k s =
        .ok (r, { s with disk := { s.disk with cache := cache, page := page }, buffer := buffer, npages := buffer.pages }) ∧
      Cache.Live cache blocks' ∧ cache.structSize = 4096 ∧ (∀ b ∈ blocks, b ∈ blocks') ∧ buffer ≠ .null ∧
      (NoBuffer s ∧ r = enospc ∨ ¬NoBuffer s ∧ r = 0 ∧ cache.free = blocksLeft s ∧ ∀ e, buffer = .err e ↔ s.buffer = .err e) := by
  by_cases null : s.buffer = .null
  · rw [memfsVnodeReaddir, if_neg (not_not.mpr null)]
    have npages : s.npages = 0 := by rw [sound.npages, null]; rfl
    by_cases full : s.disk.cache.free = 0
    · rw [memfsAllocBlock, if_neg (not_not.mpr full)]
      refine ⟨enospc, s.disk.cache, s.disk.page, .err enospc, blocks, ?_, sound.live, sound.blockSize, fun b mem => mem, by simp,
        .inl ⟨⟨null, full⟩, rfl⟩⟩
      simp only [BlockPtr.pages, ← npages]
      rfl
    · have nonneg := sound.live.nonneg
      obtain ⟨cache, b, allocated, live', -, layout, count⟩ := memfsAllocBlock_ok sound.live (by omega)
      rw [allocated]
      exact ⟨0, cache, _, .block b, b :: blocks, readBuffer_empty (sound.unread null), live', layout.structSize.trans sound.blockSize,
        fun _ mem => List.mem_cons_of_mem _ mem, by simp,
        .inr ⟨fun none => full none.2, rfl, by simpa [blocksLeft, null] using count, by simp [null]⟩⟩
  · rw [memfsVnodeReaddir, if_pos null]
    refine ⟨0, s.disk.cache, s.disk.page, s.buffer, blocks, ?_, sound.live, sound.blockSize, fun b mem => mem, null,
      .inr ⟨fun none => null none.1, rfl, by simp [blocksLeft, null], fun e => .rfl⟩⟩
    rw [← sound.npages]
    rfl

theorem Ready.readdir (ready : Ready t) (isDir : t.isDir v = true) :
    ∃ t' r, t.readdir v fsidx k = .ok (t', r) ∧ (Ready t' ∧ t'.base.nodes = t.base.nodes) ∧ SameTree (memfs fsidx k) t t' := by
  obtain ⟨blocks, inodes, sound⟩ := ready.sound
  obtain ⟨r, cache, page, buffer, blocks', ran, live, size, sub, read, -⟩ := (sound v isDir).readdir fsidx k
  refine ⟨t.store v { t.load v with disk := { t.base.disk with cache := cache, page := page }, buffer := buffer, npages := buffer.pages },
    r, ?_, ⟨⟨ready.single, blocks', inodes, fun u dir => ?_⟩, rfl⟩, rfl, rfl, rfl, ?_, rfl⟩
  · rw [Tree.readdir, if_neg (by simp [ready.single v isDir, isDir]), ran]
    rfl
  · have before := sound u dir
    refine ⟨live, size, before.store.mono sub, before.pool, before.own, ?_, fun null => ?_⟩ <;> by_cases same : u = v
    · simp [Tree.load, Tree.store, same]
    · simpa [Tree.load, Tree.store, same] using before.npages
    · simp only [Tree.load, Tree.store, same, update_self] at null
      exact absurd null read
    · simp only [Tree.load, Tree.store, update_of_ne same] at null
      exact before.unread null
  · funext d
    by_cases same : d.vnode = v
    · simp [memfs, Tree.store, Tree.load, same]
    · simp [memfs, Tree.store, same]

/-! ### Making a node -/

/-- `vfs_isdir` of a vnode. -/
def Dir.isDir (s : Dir) (v : Nat) : Bool := decide ((s.nodes v).map (fun n => n.mode &&& sIfmt) = some sIfdir)

/-- A call makes a node that is `ok`, or fails with the children and the directories that there were. -/
def Answers (s : Dir) (ok : Nat → Prop) (m : Except DirStop (Except Int Nat × Dir)) : Prop :=
  ∃ r s', m = .ok (r, s') ∧ (∀ e, r = .error e → s'.children = s.children ∧ s'.isDir = s.isDir) ∧ ∀ w, r = .ok w → ok w

variable {ok : Nat → Prop}

@[simp] theorem answers_made (w : Nat) : Answers s ok (.ok (.ok w, s')) ↔ ok w := by simp [Answers]

end

end Codezero.Fs.Memfs
