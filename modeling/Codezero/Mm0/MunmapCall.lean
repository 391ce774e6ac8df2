import Codezero.Mm0.Integrity

/-!
# `sys_munmap` against the kernel

`vma_split` and `vma_shrink` stop the pager when `l4_unmap` returns a negative code, and the kernel returns one as
soon as one page of the range was not mapped.
-/

namespace Codezero.Mm0
open Codezero.Lib

/-- `sys_unmap` with sufficient capabilities: whether it returns 0 for the pages from `first` up to `last`. -/
def unmapReturns (s : Mm) (t : TaskId) (first last : Pfn) : Bool :=
  decide (first < last) && decide (first ≠ 0) && (List.range' first (last - first)).all (fun q => (s.pte t q).isSome)

/-- The `BUG_ON` on the code of `l4_unmap` that unmapping a vma reaches. -/
def unmapRefused (s : Mm) (t : TaskId) (start stop : Pfn) (v : VmaId) : Option Bug :=
  let vma := s.vma v
  if !setIntersection start stop vma.pfnStart vma.pfnEnd then none
  else if vma.pfnStart < start ∧ vma.pfnEnd > stop then
    if unmapReturns s t start stop then none else some .vmaSplit
  else if vma.pfnStart < start then
    if unmapReturns s t start vma.pfnEnd then none else some .vmaShrink
  else if vma.pfnEnd > stop then
    if unmapReturns s t vma.pfnStart stop then none else some .vmaShrink
  -- `vma_destroy_single` drops the code.
  else none

/-- One vma of `do_munmap`'s loop, where `l4_unmap` answers as the kernel does. -/
def munmapVmaCall (t : TaskId) (new : VmaId) (start stop : Pfn) (s : Mm) (v : VmaId) : Except Bug Mm := do
  let s' ← munmapVma t new start stop s v
  match unmapRefused s t start stop v with
  | some bug => throw bug
  | none => pure s'

def doMunmapCall (s : Mm) (t : TaskId) (start stop : Pfn) (new : VmaId) : Except Bug Mm :=
  match s.task t with
  | none => throw .noTask
  | some task => task.vmas.foldlM (munmapVmaCall t new start stop) s

/-- `__pfn(page_align_up(length))`, in 32-bit arithmetic. -/
def pagesOf (length : Nat) : Nat := (length + (pageSize - 1)) % 2 ^ 32 / pageSize

/-- `sys_munmap`. -/
def sysMunmap (s : Mm) (t : TaskId) (addr length : Nat) (new : VmaId) : Except Bug (Mm × Except Errno Unit) :=
  if addr % pageSize ≠ 0 then pure (s, throw .einval)
  else do
    let s ← doMunmapCall s t (pfnOf addr) (pfnOf addr + pagesOf length) new
    pure (s, pure ())

section Calls
variable {s s' : Mm} {t : TaskId} {start stop : Pfn} {v new : VmaId}

end Calls

section Survives
variable {s : Mm} {t : TaskId} {task : Task} {new : VmaId}

end Survives

end Codezero.Mm0
