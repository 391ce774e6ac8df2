import Codezero.Mm0.Fault
import Codezero.Lib.Machine

/-!
# Mapping, unmapping, forking and exiting

The calls that make and take away vmas, and the machine whose events are these calls, page faults and the
stores of tasks into pages they have mapped writable.
-/

namespace Codezero.Mm0
open Codezero.Lib
open Function (update update_idem update_self)

def pageSize : Nat := 4096

/-- `__pfn`. -/
def pfnOf (addr : Nat) : Pfn := addr / pageSize

/-- `__pfn(TASK_SIZE)`. -/
def taskPages : Nat := 0x10000000 / pageSize

/-- `set_intersection`. -/
def setIntersection (a b c d : Nat) : Bool := !(decide (b ≤ c) || decide (a ≥ d))

/-- The error codes of these calls. -/
inductive Errno
  | einval
  | enomem
  deriving DecidableEq, Repr

def setVmas (s : Mm) (t : TaskId) (vmas : List VmaId) : Mm :=
  { s with task := update s.task t ((s.task t).map (fun task => { task with vmas := vmas })) }

/-! ## Copying links -/

/-- `vma_copy_links` into the new vma `v`: every object of the stack gets a link of `v`. -/
def vmaCopyLinks (s : Mm) (v : VmaId) (stack : List ObjId) : Mm :=
  stack.foldl (fun s o => { vmLinkObject s v o with chain := update s.chain v (s.chain v ++ [o]) })
    { s with chain := update s.chain v [] }

/-- The new vma has the stack, and beside it only the lists of links are changed. -/
theorem vmaCopyLinks_eq (s : Mm) (v : VmaId) (stack : List ObjId) : ∃ linkList nlinks, vmaCopyLinks s v stack =
    { s with chain := update s.chain v stack, linkList := linkList, nlinks := nlinks } := by
  suffices loop : ∀ (rest front : List ObjId) (linkList : ObjId → List VmaId) (nlinks : ObjId → Int),
      ∃ linkList' nlinks', rest.foldl (fun s o =>
          { vmLinkObject s v o with chain := update s.chain v (s.chain v ++ [o]) })
          ({ s with chain := update s.chain v front, linkList := linkList, nlinks := nlinks } : Mm) =
        { s with chain := update s.chain v (front ++ rest), linkList := linkList', nlinks := nlinks' } from
    loop stack [] s.linkList s.nlinks
  intro rest
  induction rest with
  | nil => exact fun front linkList nlinks => ⟨linkList, nlinks, by rw [List.append_nil]; rfl⟩
  | cons o rest next =>
    intro front linkList nlinks
    obtain ⟨linkList', nlinks', same⟩ := next (front ++ [o]) (update linkList o (v :: linkList o))
      (update nlinks o (nlinks o + 1))
    refine ⟨linkList', nlinks', ?_⟩
    rw [← List.append_cons] at same
    rw [← same, List.foldl_cons]
    simp only [vmLinkObject, update_self, update_idem]

section
variable (s : Mm) (v : VmaId) (stack : List ObjId)

@[simp] theorem vmaCopyLinks_vma : (vmaCopyLinks s v stack).vma = s.vma := by
  obtain ⟨_, _, copied⟩ := vmaCopyLinks_eq s v stack
  rw [copied]

@[simp] theorem vmaCopyLinks_files : (vmaCopyLinks s v stack).files = s.files := by
  obtain ⟨_, _, copied⟩ := vmaCopyLinks_eq s v stack
  rw [copied]

@[simp] theorem vmaCopyLinks_vnode : (vmaCopyLinks s v stack).vnode = s.vnode := by
  obtain ⟨_, _, copied⟩ := vmaCopyLinks_eq s v stack
  rw [copied]

end

/-- `task_insert_vma`. -/
def taskInsertVma (s : Mm) (this : VmaId) : List VmaId → Except Bug (List VmaId)
  | [] => pure [this]
  | [before] =>
    let a := s.vma this
    let b := s.vma before
    if setIntersection a.pfnStart a.pfnEnd b.pfnStart b.pfnEnd then throw .insertVma
    else if a.pfnStart > b.pfnStart then pure [before, this]
    else if a.pfnStart < b.pfnStart then pure [this, before]
    else throw .insertVma
  | before :: after :: rest =>
    let a := s.vma this
    let b := s.vma before
    let c := s.vma after
    if b.pfnStart < a.pfnStart ∧ c.pfnStart > a.pfnStart then
      if setIntersection a.pfnStart a.pfnEnd b.pfnStart b.pfnEnd then throw .insertVma
      else if setIntersection a.pfnStart a.pfnEnd c.pfnStart c.pfnEnd then throw .insertVma
      else pure (before :: this :: after :: rest)
    else do
      let rest ← taskInsertVma s this (after :: rest)
      pure (before :: rest)

/-! ## Unmapping -/

/-- `vma_split`: the part behind the hole becomes the vma `new`. -/
def vmaSplit (s : Mm) (t : TaskId) (vmas : List VmaId) (v new : VmaId) (pfnStart pfnEnd : Pfn) :
    Except Bug Mm :=
  let vma := s.vma v
  if vma.pfnStart ≥ pfnStart ∨ vma.pfnEnd ≤ pfnEnd then throw .vmaSplit
  else
    let behind : Vma :=
      { pfnStart := pfnEnd, pfnEnd := vma.pfnEnd, flags := vma.flags
        fileOffset := vma.fileOffset + pfnEnd - vma.pfnStart }
    let s := { s with vma := update (update s.vma v { vma with pfnEnd := pfnStart }) new behind }
    let s := vmaCopyLinks s new (s.chain v)
    -- `list_insert_tail(&new->list, &vma->list)` puts the new one before the old one.
    let s := setVmas s t (vmas.flatMap (fun w => if w = v then [new, w] else [w]))
    pure (l4Unmap s t pfnStart pfnEnd)

/-- `vma_shrink`. -/
def vmaShrink (s : Mm) (t : TaskId) (v : VmaId) (pfnStart pfnEnd : Pfn) : Except Bug Mm :=
  let vma := s.vma v
  if vma.pfnStart < pfnStart then
    if pfnStart ≥ vma.pfnEnd then throw .vmaShrink
    else pure (l4Unmap { s with vma := update s.vma v { vma with pfnEnd := pfnStart } } t
      pfnStart vma.pfnEnd)
  else if vma.pfnEnd > pfnEnd then
    let left := { vma with pfnStart := pfnEnd, fileOffset := vma.fileOffset + (pfnEnd - vma.pfnStart) }
    if pfnEnd ≤ vma.pfnStart then throw .vmaShrink
    else pure (l4Unmap { s with vma := update s.vma v left } t vma.pfnStart pfnEnd)
  else throw .vmaShrink

/-- `vma_destroy_single`. -/
def vmaDestroySingle (s : Mm) (t : TaskId) (vmas : List VmaId) (v : VmaId) : Except Bug Mm := do
  let s ← vmaDropMergeDeleteAll s v
  let vma := s.vma v
  pure (setVmas (l4Unmap s t vma.pfnStart vma.pfnEnd) t (vmas.erase v))

/-- `vma_unmap`. -/
def vmaUnmap (s : Mm) (t : TaskId) (vmas : List VmaId) (v new : VmaId) (pfnStart pfnEnd : Pfn) : Except Bug Mm :=
  let vma := s.vma v
  if vma.pfnStart < pfnStart ∧ vma.pfnEnd > pfnEnd then vmaSplit s t vmas v new pfnStart pfnEnd
  else if (vma.pfnStart ≥ pfnStart ∧ vma.pfnEnd > pfnEnd) ∨ (vma.pfnStart < pfnStart ∧ vma.pfnEnd ≤ pfnEnd) then
    vmaShrink s t v pfnStart pfnEnd
  else if vma.pfnStart ≥ pfnStart ∧ vma.pfnEnd ≤ pfnEnd then vmaDestroySingle s t vmas v
  else throw .vmaUnmap

/-- One vma of `do_munmap`'s loop. -/
def munmapVma (t : TaskId) (new : VmaId) (start stop : Pfn) (s : Mm) (v : VmaId) : Except Bug Mm :=
  match s.task t with
  | none => throw .noTask
  | some task =>
    let vma := s.vma v
    if setIntersection start stop vma.pfnStart vma.pfnEnd then vmaUnmap s t task.vmas v new start stop
    else pure s

/-- `do_munmap` of the pages from `start` up to `stop`; `new` is the vma a split would allocate. -/
def doMunmap (s : Mm) (t : TaskId) (start stop : Pfn) (new : VmaId) : Except Bug Mm :=
  match s.task t with
  | none => throw .noTask
  | some task => task.vmas.foldlM (munmapVma t new start stop) s

/-! ## Mapping -/

/-- `vma_intersection`. -/
def vmaIntersection (s : Mm) (vmas : List VmaId) (start stop : Pfn) : Bool :=
  vmas.any (fun v => setIntersection start stop (s.vma v).pfnStart (s.vma v).pfnEnd)

/-- `find_unmapped_area`; 0 where there is none. -/
def findUnmappedArea (s : Mm) (task : Task) (npages : Nat) : Nat :=
  if npages > pfnOf (task.mapEnd - task.mapStart) then 0
  else if task.vmas.isEmpty then task.mapStart
  else
    match task.vmas.find? (fun v =>
      let start := (s.vma v).pfnEnd
      decide (start + npages ≤ pfnOf task.mapEnd) && !vmaIntersection s task.vmas start (start + npages)) with
    | some v => (s.vma v).pfnEnd * pageSize
    | none => 0

/-- `mmap_address_validate`. -/
def mmapAddressValidate (s : Mm) (task : Task) (addr : Nat) (flags : VmaFlags) : Except Bug Bool :=
  if addr = 0 then pure false
  else if flags.priv then
    pure (decide (task.startAddr ≤ addr ∧ addr < task.endAddr) ||
      decide (s.regions.utcbStart * pageSize ≤ addr ∧ addr < s.regions.utcbEnd * pageSize))
  else if flags.shared then
    pure (decide (task.startAddr ≤ addr ∧ addr < task.endAddr) ||
      decide (s.regions.shmemStart * pageSize ≤ addr ∧ addr < s.regions.shmemEnd * pageSize))
  else throw .addressValidate

/-- The arguments of `do_mmap`, what the allocators give, and what `shm_new_address` would give. -/
structure MmapArgs where
  file : Option ObjId
  fileOffset : Nat
  addr : Nat
  flags : VmaFlags
  npages : Nat
  vma : VmaId
  split : VmaId
  shmAddr : Nat
  deriving DecidableEq, Repr

/-- `get_devzero`. -/
def getDevzero (s : Mm) : Option ObjId :=
  s.files.find? (fun o => match s.kind o with
    | .file .devzero _ _ => true
    | _ => false)

/-- The file that is mapped, with its offset: `do_mmap` sets up devzero if none is given. -/
def mapFile (s : Mm) (args : MmapArgs) : Except Bug (Option (ObjId × Nat)) :=
  match args.file with
  | some file => pure (some (file, args.fileOffset))
  | none =>
    if args.flags.anonymous then
      match getDevzero s with
      | some file => pure (some (file, 0))
      | none => throw .noObject
    else pure none

def fileLength (s : Mm) (file : ObjId) : Nat :=
  match s.kind file with
  | .file _ _ length => length
  | .shadow => 0

def isShm (s : Mm) (file : ObjId) : Bool :=
  match s.kind file with
  | .file .shm _ _ => true
  | _ => false

/-- `do_mmap` once the address is settled: the range is cleared and the new vma linked to the file. -/
def mmapAt (s : Mm) (t : TaskId) (args : MmapArgs) (file : ObjId) (fileOffset addr : Nat) : Except Bug Mm := do
  let s ← doMunmap s t (pfnOf addr) (pfnOf addr + args.npages) args.split
  match s.task t with
  | none => throw .noTask
  | some task =>
    -- A file that lost its last link on the way is freed.
    if file ∉ s.files then throw .freedFile
    let new : Vma :=
      { pfnStart := pfnOf addr, pfnEnd := pfnOf addr + args.npages, flags := args.flags
        fileOffset := pfnOf fileOffset }
    let stack ← if isShm s file then
        match getDevzero s with
        | some dzero => pure [file, dzero]
        | none => throw .emptyList
      else pure [file]
    let s := vmaCopyLinks { s with vma := update s.vma args.vma new } args.vma stack
    let vmas ← taskInsertVma s args.vma task.vmas
    pure (setVmas s t vmas)

/-- The size checks of `do_mmap`, in 32-bit arithmetic. -/
def mmapSizes (npages filePages fileOffset : Nat) : Except Errno Unit :=
  if npages > (filePages + 2 ^ 32 - fileOffset % 2 ^ 32) % 2 ^ 32 then throw .einval
  else if npages = 0 then throw .einval
  else if npages > taskPages then throw .enomem
  else pure ()

/-- `do_mmap` after the size checks. -/
def mmapChecked (s : Mm) (t : TaskId) (task : Task) (args : MmapArgs) (file : ObjId) (fileOffset : Nat) :
    Except Errno Unit → Except Bug (Mm × Except Errno Nat)
  | .error errno => pure (s, throw errno)
  | .ok () => do
    let valid ← mmapAddressValidate s task args.addr args.flags
    let addr := if valid then args.addr
      else if args.flags.shared then args.shmAddr else findUnmappedArea s task args.npages
    if !valid && args.flags.fixed then pure (s, throw .einval)
    else if addr = 0 then pure (s, throw .enomem)
    else do
      let s ← mmapAt s t args file fileOffset addr
      pure (s, pure (if args.flags.growsdown then addr + args.npages * pageSize else addr))

/-- `__pfn(page_align_up(mapfile->length))`. -/
def filePages (s : Mm) (file : ObjId) : Nat := pfnOf ((fileLength s file + (pageSize - 1)) % 2 ^ 32)

/-- `do_mmap` from the size checks on. -/
def mmapFile (s : Mm) (t : TaskId) (task : Task) (args : MmapArgs) (file : ObjId) (fileOffset : Nat) :
    Except Bug (Mm × Except Errno Nat) :=
  mmapChecked s t task args file fileOffset
    (mmapSizes args.npages (filePages s file) fileOffset)

/-- `do_mmap`. -/
def doMmap (s : Mm) (t : TaskId) (args : MmapArgs) : Except Bug (Mm × Except Errno Nat) :=
  match s.task t with
  | none => throw .noTask
  | some task => do
    match ← mapFile s args with
    | none => pure (s, throw .einval)
    | some (file, fileOffset) => mmapFile s t task args file fileOffset

/-! ## Forking and exiting -/

/-- One vma of `task_copy_vmas`: a new vma of the child with links to the same objects. -/
def copyVma (child : TaskId) (s : Mm) (copy : VmaId × VmaId) : Except Bug Mm :=
  match s.task child with
  | none => throw .noTask
  | some task => do
    let s := vmaCopyLinks { s with vma := update s.vma copy.2 (s.vma copy.1) } copy.2 (s.chain copy.1)
    let vmas ← taskInsertVma s copy.2 task.vmas
    pure (setVmas s child vmas)

/-- `sys_fork`: the parent's shadows are frozen, the page tables copied, and every vma gets a copy in the
child; `copies` are the vmas allocated for it. -/
def sysFork (s : Mm) (parent child : TaskId) (copies : List VmaId) : Except Bug Mm :=
  match s.task parent with
  | none => throw .noTask
  | some task => do
    let s ← vmFreezeShadows s parent task.vmas
    let s := { s with
      pte := update s.pte child (s.pte parent)
      task := update s.task child (some { task with vmas := [] }) }
    (task.vmas.zip copies).foldlM (copyVma child) s

/-- One vma of `task_release_vmas`. -/
def releaseVma (t : TaskId) (s : Mm) (v : VmaId) : Except Bug Mm :=
  match s.task t with
  | none => throw .noTask
  | some task => do
    let s ← vmaDropMergeDeleteAll s v
    pure (setVmas s t (task.vmas.erase v))

/-- `tcb_destroy`, after which the kernel destroys the address space. -/
def tcbDestroy (s : Mm) (t : TaskId) : Except Bug Mm :=
  match s.task t with
  | none => throw .noTask
  | some task => do
    let s ← task.vmas.foldlM (releaseVma t) s
    pure { s with task := update s.task t none, pte := update s.pte t (fun _ => none) }

/-! ## The machine -/

/-- `vm_file_put` on a file that is open. -/
def setOpeners (s : Mm) (o : ObjId) (openers : Int) : Mm :=
  { s with kind := update s.kind o (match s.kind o with
      | .file type _ length => .file type openers length
      | .shadow => .shadow) }

def openersOf (s : Mm) (o : ObjId) : Int :=
  match s.kind o with
  | .file .vfs openers _ => openers
  | _ => 0

inductive Event
  | mmap (t : TaskId) (args : MmapArgs)
  | munmap (t : TaskId) (start stop : Pfn) (split : VmaId)
  | fault (t : TaskId) (pfn : Pfn) (prefetch : Bool) (fresh : Fresh)
  /-- A store to a page that the task has mapped writable. -/
  | store (t : TaskId) (pfn : Pfn) (byte : Nat) (value : UInt8)
  | fork (parent child : TaskId) (copies : List VmaId)
  | exit (t : TaskId)
  /-- Another descriptor of an open file, and one less. -/
  | openFile (o : ObjId)
  | closeFile (o : ObjId)
  deriving DecidableEq, Repr

def storeByte (s : Mm) (t : TaskId) (pfn : Pfn) (byte : Nat) (value : UInt8) : Mm :=
  match s.pte t pfn with
  | some ⟨frame, .rw⟩ => { s with mem := update s.mem frame (update (s.mem frame) byte value) }
  | _ => s

def step (s : Mm) : Event → Except Bug Mm
  | .mmap t args => do
    let (s, _) ← doMmap s t args
    pure s
  | .munmap t start stop split => doMunmap s t start stop split
  | .fault t pfn prefetch fresh => pageFaultHandler s t pfn prefetch fresh
  | .store t pfn byte value => pure (storeByte s t pfn byte value)
  | .fork parent child copies => sysFork s parent child copies
  | .exit t => tcbDestroy s t
  | .openFile o => pure (setOpeners s o (openersOf s o + 1))
  | .closeFile o => pure (setOpeners s o (openersOf s o - 1))

/-- The frame backs no page. -/
def FreshFrame (s : Mm) (frame : Frame) : Prop :=
  frame ≠ s.zpage.frame ∧ ∀ o ∈ s.objects, ∀ p ∈ s.pageCache o, p.frame ≠ frame

instance (s : Mm) (frame : Frame) : Decidable (FreshFrame s frame) := instDecidableAnd

/-- What the allocators and the tasks' descriptors provide for an event of private mappings. -/
def enabled (s : Mm) : Event → Prop
  | .mmap _ args =>
    s.chain args.vma = [] ∧ s.chain args.split = [] ∧ args.vma ≠ args.split ∧
      args.flags.priv = true ∧ args.flags.shared = false ∧
      ∀ o ∈ args.file, o ∈ s.files ∧ openersOf s o ≠ 0
  -- `sys_munmap` counts its pages from a length in bytes, so their sum does not wrap.
  | .munmap _ start stop split => s.chain split = [] ∧ start ≤ stop
  | .fault _ _ _ fresh =>
    fresh.shadow ∉ s.objects ∧ FreshFrame s fresh.paged ∧ FreshFrame s fresh.copied ∧ fresh.paged ≠ fresh.copied
  | .store t pfn _ _ => (s.pte t pfn).map Pte.access = some .rw
  | .fork parent child copies =>
    s.task child = none ∧ copies.Nodup ∧ (∀ v ∈ copies, s.chain v = []) ∧
      (s.task parent).map (fun task => task.vmas.length) = some copies.length
  | .exit _ => True
  | .openFile o => o ∈ s.files ∧ openersOf s o ≠ 0
  | .closeFile o => o ∈ s.files ∧ openersOf s o ≠ 0

instance (s : Mm) (e : Event) : Decidable (enabled s e) := by
  cases e <;> unfold enabled <;> infer_instance

def machine : Machine Mm Event Bug := ⟨enabled, step⟩

instance (s : Mm) (e : Event) : Decidable (machine.enabled s e) := inferInstanceAs (Decidable (enabled s e))

end Codezero.Mm0
