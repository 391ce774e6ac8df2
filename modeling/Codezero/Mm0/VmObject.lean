import Codezero.Lib.Outcome

/-!
# Memory objects of the pager

The pager keeps what tasks have mapped in `struct vm_object`s: files, and the shadows that copy-on-write
puts in front of them. A vma holds a stack of links to objects. The fields of a struct are separate maps
from its address, so an assignment to one field leaves the other maps alone. A `vm_obj_link` is named by the
vma it hangs on and the object it refers to.
-/

namespace Codezero.Mm0
open Codezero.Lib
open Function (update)

abbrev ObjId := Nat
abbrev VmaId := Nat
abbrev TaskId := Nat

/-- A page frame, by its number. -/
abbrev Frame := Nat

/-- A virtual page number or an offset in pages. -/
abbrev Pfn := Nat

/-- The bytes of one page. -/
abbrev Bytes := Nat → UInt8

/-- Where a `BUG` or `BUG_ON` of the pager stands. -/
inductive Bug
  | nextLink
  | noObject
  | noPage
  | mergeObject
  | isDeletable
  | dropMergeDelete
  | objectDelete
  | globalList
  | releasePages
  | pageOrder
  | zeroPage
  | copyOnWrite
  | writeFault
  | illegalAccess
  | unhandledFault
  | pageToVirtual
  | vmaSplit
  | vmaShrink
  | vmaUnmap
  | insertVma
  | addressValidate
  | noTask
  /-- An entry is taken from a list that is empty; C leaves this undefined. -/
  | emptyList
  /-- A `struct vm_file` is used behind its `kfree`. -/
  | freedFile
  deriving DecidableEq, Repr

/-- `enum VM_FILE_TYPE`. -/
inductive FileType
  | devzero
  | vfs
  | shm
  deriving DecidableEq, Repr

/-- `VM_OBJ_SHADOW`, or `VM_OBJ_FILE` with the fields of the `struct vm_file` around the object. -/
inductive Kind
  | shadow
  | file (type : FileType) (openers : Int) (length : Nat)
  deriving DecidableEq, Repr

def Kind.isShadow : Kind → Bool
  | .shadow => true
  | .file .. => false

/-- `struct page`. -/
structure Page where
  frame : Frame
  owner : ObjId
  offset : Pfn
  refcnt : Int
  dirty : Bool := false
  deriving DecidableEq, Repr

/-- The bits of `vm_area.flags`. -/
structure VmaFlags where
  none : Bool := false
  read : Bool := false
  write : Bool := false
  exec : Bool := false
  shared : Bool := false
  anonymous : Bool := false
  priv : Bool := false
  fixed : Bool := false
  growsdown : Bool := false
  deriving DecidableEq, Repr

/-- `struct vm_area` without its lists. -/
structure Vma where
  pfnStart : Pfn
  pfnEnd : Pfn
  flags : VmaFlags
  fileOffset : Pfn
  deriving DecidableEq, Repr

/-- The fields of the pager's `struct tcb` that its memory calls read. -/
structure Task where
  vmas : List VmaId
  startAddr : Nat
  endAddr : Nat
  mapStart : Nat
  mapEnd : Nat
  deriving DecidableEq, Repr

/-- What a present pte grants to user mode. On this architecture a readable page is executable. -/
inductive Access
  | ro
  | rw
  deriving DecidableEq, Repr

structure Pte where
  frame : Frame
  access : Access
  deriving DecidableEq, Repr

/-- `cont_mem_regions`. -/
structure Regions where
  utcbStart : Pfn
  utcbEnd : Pfn
  shmemStart : Pfn
  shmemEnd : Pfn
  deriving DecidableEq, Repr

structure Mm where
  npages : ObjId → Int
  nlinks : ObjId → Int
  shadows : ObjId → Int
  /-- The object on whose `shdw_list` this object hangs by its `shref`. -/
  shref : ObjId → Option ObjId
  shdwList : ObjId → List ObjId
  /-- The vmas whose links are on `link_list`. -/
  linkList : ObjId → List VmaId
  origObj : ObjId → Option ObjId
  kind : ObjId → Kind
  /-- `flags & VM_WRITE`. -/
  write : ObjId → Bool
  /-- `flags & VM_DIRTY`. -/
  dirty : ObjId → Bool
  pageCache : ObjId → List Page
  /-- `global_vm_objects`. -/
  objects : List ObjId
  objectsTotal : Int
  /-- `global_vm_files`, by the files' objects. -/
  files : List ObjId
  filesTotal : Int
  /-- `private_file_data` of devzero. -/
  zpage : Page
  vma : VmaId → Vma
  /-- The objects behind `vm_obj_list`, top first. -/
  chain : VmaId → List ObjId
  task : TaskId → Option Task
  regions : Regions
  /-- The page tables the kernel keeps for each task. -/
  pte : TaskId → Pfn → Option Pte
  mem : Frame → Bytes
  /-- What `vfs_read` returns for a page of a file; `none` where it fails. -/
  vnode : ObjId → Pfn → Option Bytes

variable (s : Mm)

def isShadow (o : ObjId) : Bool := (s.kind o).isShadow

/-- `list_remove_init(&a->shref)`. -/
def shrefRemove (a : ObjId) : Mm :=
  match s.shref a with
  | none => s
  | some b =>
    { s with
      shref := update s.shref a none
      shdwList := update s.shdwList b ((s.shdwList b).erase a) }

/-- `list_insert(&a->shref, &b->shdw_list)`. -/
def shrefInsert (a b : ObjId) : Mm :=
  { s with
    shref := update s.shref a (some b)
    shdwList := update s.shdwList b (a :: s.shdwList b) }

def setShadows (o : ObjId) (n : Int) : Mm := { s with shadows := update s.shadows o n }

def setOrig (a b : ObjId) : Mm := { s with origObj := update s.origObj a (some b) }

/-- `vm_link_object` on a link that stands in `v`'s list. -/
def vmLinkObject (v : VmaId) (o : ObjId) : Mm :=
  { s with
    linkList := update s.linkList o (v :: s.linkList o)
    nlinks := update s.nlinks o (s.nlinks o + 1) }

/-- `vma_drop_link` on the link at place `i` of `v`'s list, which refers to `o`. -/
def vmaDropLink (v : VmaId) (i : Nat) (o : ObjId) : Mm :=
  { s with
    chain := update s.chain v ((s.chain v).eraseIdx i)
    linkList := update s.linkList o ((s.linkList o).erase v)
    nlinks := update s.nlinks o (s.nlinks o - 1) }

/-! ## Global lists -/

def globalAddVmObject (o : ObjId) : Except Bug Mm :=
  if o ∈ s.objects then throw .globalList
  else pure { s with objects := o :: s.objects, objectsTotal := s.objectsTotal + 1 }

def globalRemoveVmObject (o : ObjId) : Except Bug Mm :=
  if o ∉ s.objects then throw .globalList
  else if s.objectsTotal - 1 < 0 then throw .globalList
  else pure { s with objects := s.objects.erase o, objectsTotal := s.objectsTotal - 1 }

def globalRemoveVmFile (o : ObjId) : Except Bug Mm :=
  if o ∉ s.files then throw .globalList
  else if s.filesTotal - 1 < 0 then throw .globalList
  else globalRemoveVmObject { s with files := s.files.erase o, filesTotal := s.filesTotal - 1 } o

/-! ## Page caches -/

def findPage (o : ObjId) (off : Pfn) : Option Page := (s.pageCache o).find? (fun p => p.offset == off)

/-- `insert_page_olist`. The list is walked for a gap that fits; at the last entry the page goes next to it. -/
def insertPageOlist (this : Page) : List Page → Except Bug (List Page)
  | [] => pure [this]
  | [before] =>
    if this.offset > before.offset then pure [before, this]
    else if this.offset < before.offset then pure [this, before]
    else throw .pageOrder
  | before :: after :: rest =>
    if before.offset < this.offset ∧ after.offset > this.offset then pure (before :: this :: after :: rest)
    else if this.offset = before.offset then throw .pageOrder
    else if this.offset = after.offset then throw .pageOrder
    else do
      let rest ← insertPageOlist this (after :: rest)
      pure (before :: rest)

/-- The page goes into `o`'s cache and is counted. -/
def addPage (o : ObjId) (p : Page) : Except Bug Mm := do
  let pages ← insertPageOlist p (s.pageCache o)
  pure { s with
    pageCache := update s.pageCache o pages
    npages := update s.npages o (s.npages o + 1) }

/-- The loop of `default_release_pages`: the count that is left. -/
def releaseCount : List Page → Int → Except Bug Int
  | [], n => pure n
  | p :: rest, n =>
    if p.refcnt ≠ 0 then throw .releasePages
    else if n - 1 < 0 then throw .releasePages
    else releaseCount rest (n - 1)

/-- `default_release_pages`. -/
def releasePages (o : ObjId) : Except Bug Mm := do
  let n ← releaseCount (s.pageCache o) (s.npages o)
  pure { s with
    npages := update s.npages o n
    pageCache := update s.pageCache o [] }

/-! ## Pagers -/

def swapPageIn (o : ObjId) (off : Pfn) : Option Page := findPage s o off

/-- `file_page_in`, with the frame that `alloc_page` would give. -/
def filePageIn (o : ObjId) (off : Pfn) (frame : Frame) : Except Bug (Mm × Option Page) :=
  match findPage s o off with
  | some p => pure (s, some p)
  | none =>
    match s.vnode o off with
    | none => pure (s, none)
    | some bytes => do
      let p : Page := { frame := frame, owner := o, offset := off, refcnt := 0 }
      let s ← addPage { s with mem := update s.mem frame bytes } o p
      pure (s, some p)

def devzeroPageIn : Except Bug (Mm × Option Page) :=
  if s.zpage.refcnt < 0 then throw .zeroPage
  else
    let zpage := { s.zpage with refcnt := s.zpage.refcnt + 1 }
    pure ({ s with zpage := zpage }, some zpage)

/-- `obj->pager->ops.page_in`; no page where the source returns an error. -/
def pageIn (o : ObjId) (off : Pfn) (frame : Frame) : Except Bug (Mm × Option Page) :=
  match s.kind o with
  | .shadow => pure (s, swapPageIn s o off)
  | .file .shm _ _ => pure (s, swapPageIn s o off)
  | .file .vfs _ _ => filePageIn s o off frame
  | .file .devzero _ _ => devzeroPageIn s

/-! ## Deleting objects -/

/-- The references `vm_object_delete` checks. -/
def referenced (o : ObjId) : Bool :=
  s.nlinks o ≠ 0 || s.shadows o ≠ 0 || !(s.shdwList o).isEmpty || !(s.linkList o).isEmpty ||
    !(s.pageCache o).isEmpty || (s.shref o).isSome

/-- `vm_object_delete`, up to what hangs on `private_file_data`. -/
def vmObjectDelete (o : ObjId) : Except Bug Mm := do
  let s ← releasePages s o
  let s ← match s.kind o with
    | .file .. => globalRemoveVmFile s o
    | .shadow => globalRemoveVmObject s o
  if referenced s o then throw .objectDelete else pure s

/-- `vm_object_is_deletable`. -/
def vmObjectIsDeletable (o : ObjId) : Except Bug Bool :=
  if s.nlinks o ≠ 0 then pure false
  else if s.shadows o ≠ 0 then throw .isDeletable
  else if (s.shref o).isSome then throw .isDeletable
  else match s.kind o with
    | .shadow => pure true
    | .file .devzero _ _ => pure false
    | .file .shm _ _ => pure true
    | .file .vfs openers _ => pure (openers == 0)

end Codezero.Mm0
