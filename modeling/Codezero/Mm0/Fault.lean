import Codezero.Mm0.VmObject

/-!
# Page faults

Faults walk the stack of objects behind a vma. A write to a private area copies the page into a writable
shadow on top, and a shadow found to be redundant is dropped from the stack, merged into the one in front
of it, or deleted.
-/

namespace Codezero.Mm0
open Codezero.Lib
open Function (update)

/-! ## Dropping and merging objects -/

/-- `vm_object_is_droppable`. -/
def vmObjectIsDroppable (s : Mm) (shadow original : ObjId) : Bool :=
  s.npages shadow == s.npages original && isShadow s original

/-- One page of the loop of `vma_merge_object`: a page that `front` lacks is moved there. -/
def movePage (redundant front : ObjId) (s : Mm) (p : Page) : Except Bug Mm :=
  match findPage s front p.offset with
  | some _ => pure s
  | none =>
    addPage { s with pageCache := update s.pageCache redundant ((s.pageCache redundant).erase p) } front
      { p with owner := front }

/-- The part of `vma_merge_object` after the pages are moved, with the objects it has looked up. -/
def mergeRelink (s : Mm) (redundant front next : ObjId) (last : VmaId) : Except Bug Mm := do
  let s := shrefRemove s front
  if !(s.shdwList redundant).isEmpty then throw .mergeObject
  let s := shrefRemove s redundant
  let s := setOrig (shrefInsert s front next) front next
  let s := vmaDropLink s last ((s.chain last).idxOf redundant) redundant
  if s.shadows redundant - 1 < 0 then throw .mergeObject
  vmObjectDelete (setShadows s redundant (s.shadows redundant - 1)) redundant

/-- `vma_merge_object`. -/
def vmaMergeObject (s : Mm) (redundant : ObjId) : Except Bug Mm :=
  if s.nlinks redundant ≠ 1 then throw .mergeObject
  else if s.shadows redundant ≠ 1 then throw .mergeObject
  else match s.shdwList redundant, s.origObj redundant, s.linkList redundant with
    | front :: _, some next, last :: _ => do
      let s ← (s.pageCache redundant).foldlM (movePage redundant front) s
      mergeRelink s redundant front next last
    | _, _, _ => throw .emptyList

/-- `vma_drop_merge_delete` once the link is dropped and an object stands in front: a shadow drop. -/
def shadowDrop (s : Mm) (prev o : ObjId) (next : Option ObjId) : Except Bug Mm :=
  if !isShadow s prev then throw .dropMergeDelete
  else if !s.write prev then throw .dropMergeDelete
  else if s.shadows o - 1 < 0 then throw .dropMergeDelete
  else if (s.shref prev).isNone then throw .dropMergeDelete
  else match next with
    | none => throw .dropMergeDelete
    | some next =>
      let s := shrefRemove (setShadows s o (s.shadows o - 1)) prev
      let s := setOrig (shrefInsert s prev next) prev next
      if s.nlinks o = 0 then
        if s.origObj o ≠ some next then throw .dropMergeDelete else pure (shrefRemove s o)
      else pure (setShadows s next (s.shadows next + 1))

/-- `vma_drop_merge_delete` once the link is dropped and nothing stands in front: an exit. -/
def exitDrop (s : Mm) (o : ObjId) (next : Option ObjId) : Except Bug Mm :=
  if s.nlinks o = 0 then
    match next with
    | none => pure s
    | some next =>
      if isShadow s o then
        if s.origObj o ≠ some next then throw .dropMergeDelete
        else if s.shadows next - 1 < 0 then throw .dropMergeDelete
        else pure (shrefRemove (setShadows s next (s.shadows next - 1)) o)
      else pure s
  else pure s

/-- The end of `vma_drop_merge_delete`, where the object itself is dealt with. -/
def dealWith (s : Mm) (o : ObjId) : Except Bug Mm := do
  if ← vmObjectIsDeletable s o then vmObjectDelete s o
  else if isShadow s o && s.nlinks o == 1 && s.shadows o == 1 then vmaMergeObject s o
  else pure s

/-- `vma_drop_merge_delete` on the link at place `i` of `v`'s list. -/
def vmaDropMergeDelete (s : Mm) (v : VmaId) (i : Nat) : Except Bug Mm :=
  match (s.chain v)[i]? with
  | none => throw .emptyList
  | some o => do
    let next := (s.chain v)[i + 1]?
    let dropped := vmaDropLink s v i o
    let s ← match i with
      | 0 => exitDrop dropped o next
      | i + 1 =>
        match (s.chain v)[i]? with
        | none => throw .emptyList
        | some prev => shadowDrop dropped prev o next
    dealWith s o

/-- The loop of `vma_drop_merge_delete_all`, at most once per link. -/
def dropLinks (v : VmaId) : Nat → Mm → Except Bug Mm
  | 0, s => pure s
  | n + 1, s =>
    if (s.chain v).isEmpty then pure s
    else do
      let s ← vmaDropMergeDelete s v 0
      dropLinks v n s

/-- `vma_drop_merge_delete_all`. -/
def vmaDropMergeDeleteAll (s : Mm) (v : VmaId) : Except Bug Mm :=
  if (s.chain v).isEmpty then throw .dropMergeDelete else dropLinks v (s.chain v).length s

/-! ## Reading and writing -/

/-- What the allocators give during one fault: a shadow, a page to read into and a page to copy into. -/
structure Fresh where
  shadow : ObjId
  paged : Frame
  copied : Frame
  deriving DecidableEq, Repr

/-- The traversal of a stack of objects for a page. -/
def walk (off : Pfn) (frame : Frame) : List ObjId → Mm → Except Bug (Mm × Page)
  | [], _ => throw .noPage
  | o :: rest, s => do
    match ← pageIn s o off frame with
    | (s, some p) => pure (s, p)
    | (s, none) => walk off frame rest s

/-- `copy_on_write` where the top object is read-only: a shadow of it goes in front. -/
def createShadow (s : Mm) (v : VmaId) (top shadow : ObjId) : Except Bug Mm :=
  globalAddVmObject
    (shrefInsert
      { s with
        npages := update s.npages shadow 0
        nlinks := update s.nlinks shadow 1
        shadows := update (update s.shadows shadow 0) top (s.shadows top + 1)
        shref := update s.shref shadow none
        shdwList := update s.shdwList shadow []
        linkList := update s.linkList shadow [v]
        origObj := update s.origObj shadow (some top)
        kind := update s.kind shadow .shadow
        write := update s.write shadow true
        dirty := update s.dirty shadow false
        pageCache := update s.pageCache shadow []
        chain := update s.chain v (shadow :: s.chain v) }
      shadow top)
    shadow

/-- `copy_to_new_page`, and the new page goes into `shadow`. -/
def copyPage (s : Mm) (shadow : ObjId) (orig : Page) (off : Pfn) (frame : Frame) : Except Bug (Mm × Page) := do
  let p : Page := { frame := frame, owner := shadow, offset := off, refcnt := 0 }
  let s ← addPage { s with mem := update s.mem frame (s.mem orig.frame) } shadow p
  pure (s, p)

/-- The end of `copy_on_write`, where a redundant object under the shadow is looked for. -/
def collapse (s : Mm) (v : VmaId) (shadow : ObjId) : Except Bug Mm :=
  if (s.vma v).flags.shared then pure s
  else match (s.chain v)[1]? with
    | none => throw .copyOnWrite
    | some under => if vmObjectIsDroppable s shadow under then vmaDropMergeDelete s v 1 else pure s

/-- `copy_on_write` from the traversal on: the page is looked for in `below` and copied into `shadow`. -/
def copyFrom (s : Mm) (v : VmaId) (shadow : ObjId) (below : List ObjId) (off : Pfn) (fresh : Fresh) :
    Except Bug (Mm × Page) := do
  let (s, page) ← walk off fresh.paged below s
  let (s, new) ← copyPage s shadow page off fresh.copied
  let s ← collapse s v shadow
  pure (s, new)

/-- `copy_on_write`. -/
def copyOnWrite (s : Mm) (v : VmaId) (off : Pfn) (fresh : Fresh) : Except Bug (Mm × Page) :=
  match s.chain v with
  | [] => throw .noObject
  | top :: below =>
    if s.write top then do
      match ← pageIn s top off fresh.paged with
      | (s, some p) => pure (s, p)
      | (s, none) =>
        match below with
        | [] => throw .copyOnWrite
        | next :: _ => if s.write next then throw .copyOnWrite else copyFrom s v top below off fresh
    else do
      let s ← createShadow s v top fresh.shadow
      copyFrom s v fresh.shadow (top :: below) off fresh

/-- `page_read_fault`. -/
def pageReadFault (s : Mm) (v : VmaId) (off : Pfn) (fresh : Fresh) : Except Bug (Mm × Page) :=
  match s.chain v with
  | [] => throw .noObject
  | chain => walk off fresh.paged chain s

/-- The page's flags in its owner's cache after `page->flags |= VM_DIRTY`. -/
def markDirty (s : Mm) (p : Page) : Mm :=
  { s with
    pageCache := update s.pageCache p.owner
      ((s.pageCache p.owner).map (fun q => if q = p then { q with dirty := true } else q))
    dirty := update s.dirty p.owner true }

/-- `page_write_fault`. -/
def pageWriteFault (s : Mm) (v : VmaId) (off : Pfn) (fresh : Fresh) : Except Bug (Mm × Page) :=
  let flags := (s.vma v).flags
  if flags.priv then copyOnWrite s v off fresh
  else if flags.shared then
    match s.chain v with
    | [] => throw .writeFault
    | top :: _ => do
      match ← pageIn s top off fresh.paged with
      | (s, some p) => pure (markDirty s p, { p with dirty := true })
      | (s, none) => if flags.anonymous then copyOnWrite s v off fresh else throw .writeFault
  else throw .writeFault

/-- `fault->reason`. -/
inductive Reason
  | read
  | write
  | exec
  deriving DecidableEq, Repr

/-- `l4_map` of one page. -/
def l4Map (s : Mm) (t : TaskId) (page : Frame) (virtual : Pfn) (access : Access) : Mm :=
  { s with pte := update s.pte t (update (s.pte t) virtual (some ⟨page, access⟩)) }

/-- `l4_unmap` of the pages from `first` up to `last`. -/
def l4Unmap (s : Mm) (t : TaskId) (first last : Pfn) : Mm :=
  { s with pte := update s.pte t (fun q => if first ≤ q ∧ q < last then none else s.pte t q) }

/-- The handler and the mapping that `__do_page_fault` picks. -/
def handleFault (s : Mm) (v : VmaId) (off : Pfn) (reason : Reason) (prot : Option Access) (fresh : Fresh) :
    Except Bug (Mm × Page × Access) :=
  match reason, prot with
  | .read, none => do
    let (s, p) ← pageReadFault s v off fresh
    pure (s, p, .ro)
  | .write, none => do
    let (s, _) ← pageReadFault s v off fresh
    let (s, p) ← pageWriteFault s v off fresh
    pure (s, p, .rw)
  | .exec, none => do
    let (s, p) ← pageReadFault s v off fresh
    pure (s, p, .ro)
  | .exec, some access => do
    let (s, p) ← pageReadFault s v off fresh
    pure (s, p, access)
  | .write, some _ => do
    let (s, p) ← pageWriteFault s v off fresh
    pure (s, p, .rw)
  | .read, some _ => throw .unhandledFault

/-- `find_vma`. -/
def findVma (s : Mm) (vmas : List VmaId) (pfn : Pfn) : Option VmaId :=
  vmas.find? (fun v => decide ((s.vma v).pfnStart ≤ pfn ∧ pfn < (s.vma v).pfnEnd))

/-- `fault_to_file_offset`. -/
def faultToFileOffset (vma : Vma) (pfn : Pfn) : Pfn := vma.fileOffset + (pfn - vma.pfnStart)

def Reason.allowed : Reason → VmaFlags → Bool
  | .read, flags => flags.read
  | .write, flags => flags.write
  | .exec, flags => flags.exec

/-- `do_page_fault` with `__do_page_fault`. -/
def doPageFault (s : Mm) (t : TaskId) (v : VmaId) (pfn : Pfn) (reason : Reason) (prot : Option Access)
    (fresh : Fresh) : Except Bug Mm :=
  let vma := s.vma v
  if vma.flags.none then throw .illegalAccess
  else if !reason.allowed vma.flags then throw .illegalAccess
  else do
    let (s, p, access) ← handleFault s v (faultToFileOffset vma pfn) reason prot fresh
    pure (l4Map s t p.frame pfn access)

/-- `set_generic_fault_params`: the reason is read off the pte, as the processor does not report it. -/
def faultReason (prefetch : Bool) (prot : Option Access) : Reason :=
  if prefetch then .read
  else match prot with
    | none => .read
    | some _ => .write

/-- `page_fault_handler` on a fault of `t` at page `pfn`. -/
def pageFaultHandler (s : Mm) (t : TaskId) (pfn : Pfn) (prefetch : Bool) (fresh : Fresh) : Except Bug Mm :=
  match s.task t with
  | none => throw .noTask
  | some task =>
    let prot := (s.pte t pfn).map Pte.access
    match findVma s task.vmas pfn with
    | none => throw .illegalAccess
    | some v => doPageFault s t v pfn (faultReason prefetch prot) prot fresh

/-! ## Freezing shadows before a fork -/

/-- `vma_page_to_virtual`. -/
def vmaPageToVirtual (vma : Vma) (p : Page) : Except Bug Pfn :=
  if vma.fileOffset > p.offset then throw .pageToVirtual
  else pure (vma.pfnStart + p.offset - vma.fileOffset)

/-- A page of a frozen shadow is mapped read-only. -/
def freezePage (t : TaskId) (vma : Vma) (s : Mm) (p : Page) : Except Bug Mm := do
  let virtual ← vmaPageToVirtual vma p
  pure (l4Map s t p.frame virtual .ro)

/-- One vma of `vm_freeze_shadows`. -/
def freezeVma (t : TaskId) (s : Mm) (v : VmaId) : Except Bug Mm :=
  if (s.vma v).flags.shared then pure s
  else match s.chain v with
    | [] => throw .emptyList
    | top :: _ =>
      if isShadow s top && s.write top then
        (s.pageCache top).foldlM (freezePage t (s.vma v)) { s with write := update s.write top false }
      else pure s

/-- `vm_freeze_shadows`. -/
def vmFreezeShadows (s : Mm) (t : TaskId) (vmas : List VmaId) : Except Bug Mm :=
  vmas.foldlM (freezeVma t) s

end Codezero.Mm0
