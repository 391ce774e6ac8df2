import Codezero.Lib.Machine
import Codezero.Lib.Rings
import Codezero.Mm0.AddressPool
import Codezero.Mm0.VmaList

/-!
# The pager's process tree

Tasks are on a global list and on the children list of their parent, both threaded through the control blocks. The lists
are the links themselves, so an unlinking that happens while a list is walked is an assignment to the words that the walk
reads. Files, address spaces and utcbs of a task, and the kernel's part of a call, are not here.
-/

namespace Codezero.Mm0.Process
open Codezero.Kernel (Word)
open Codezero.Lib
open Function (update)

def tcbSharedVm : Word := 1 <<< 0
def tcbSharedFiles : Word := 1 <<< 1
def tcbSharedFs : Word := 1 <<< 2
def tcbSharedTgroup : Word := 1 <<< 3
def tcbSharedParent : Word := 1 <<< 4

def cloneVm : Word := 0x100
def cloneFs : Word := 0x200
def cloneFiles : Word := 0x400
def cloneParent : Word := 0x8000
def cloneThread : Word := 0x10000

/-- The share flags that `sys_clone` makes of its own flags. -/
def shareFlags (flags : Word) : Word :=
  (if flags &&& cloneVm ≠ 0 then tcbSharedVm else 0) ||| (if flags &&& cloneFs ≠ 0 then tcbSharedFs else 0) |||
  (if flags &&& cloneFiles ≠ 0 then tcbSharedFiles else 0) ||| (if flags &&& cloneThread ≠ 0 then tcbSharedTgroup else 0) |||
  (if flags &&& cloneParent ≠ 0 then tcbSharedParent else 0)

/-- The address of a `struct tcb`. -/
abbrev Ptr := Nat

/-- The links of `global_tasks` and of a control block. -/
inductive Link
  | global
  | list (t : Ptr)
  | childRef (t : Ptr)
  | children (t : Ptr)
  deriving DecidableEq, Repr

structure TaskIds where
  tid : Nat
  spid : Nat
  tgid : Nat
  deriving DecidableEq, Repr

def taskIdInvalid : Nat := 0xFFFFFFFF

structure Tcb where
  ids : TaskIds := ⟨taskIdInvalid, taskIdInvalid, taskIdInvalid⟩
  parent : Option Ptr := none
  cloneFlags : Word := 0
  deriving DecidableEq, Repr

structure Tasks where
  links : Lib.Links Link
  /-- `global_tasks.total`. -/
  total : Int
  /-- The control blocks that are allocated. -/
  tcb : Ptr → Option Tcb
  /-- `self_tid()`. -/
  self : Nat

/-- The checks of these calls, and what none of them checks: a pointer that is null or to a block that is freed, a link of
another kind than the list's. -/
inductive Stop
  | addListed
  | removeUnlisted
  | total
  | destroyListed
  | destroyChildRef
  | destroyChildren
  | hasParent
  | noLeader
  | null
  | freed
  | otherLink
  | unfinished
  deriving DecidableEq, Repr

namespace Tasks
variable (s : Tasks)

def get (t : Ptr) : Except Stop Tcb :=
  match s.tcb t with
  | some tcb => pure tcb
  | none => throw .freed

def parentOf (t : Ptr) : Option Ptr := (s.tcb t).bind Tcb.parent

/-- `task->parent`, to be followed. -/
def getParent (t : Ptr) : Except Stop Ptr :=
  match s.tcb t with
  | none => throw .freed
  | some tcb =>
    match tcb.parent with
    | some p => pure p
    | none => throw .null

/-- The block that a link is in is allocated. -/
def holds : Link → Bool
  | .global => true
  | .list t => (s.tcb t).isSome
  | .childRef t => (s.tcb t).isSome
  | .children t => (s.tcb t).isSome

/-- `link->next`. -/
def next (k : Link) : Except Stop Link := if s.holds k then pure (s.links.next k) else throw .freed

end Tasks

/-! ## The global list -/

def globalAddTask (t : Ptr) (s : Tasks) : Except Stop Tasks :=
  if s.links.isEmpty (.list t) then pure { s with links := s.links.insertTail (.list t) .global, total := s.total + 1 }
  else throw .addListed

def globalRemoveTask (t : Ptr) (s : Tasks) : Except Stop Tasks :=
  if s.links.isEmpty (.list t) then throw .removeUnlisted
  else
    let s := { s with links := s.links.unlink (.list t) (.list t), total := s.total - 1 }
    if s.total < 0 then throw .total else pure s

/-- The task whose link on the global list this is. -/
def listed : Link → Option Ptr
  | .list t => some t
  | _ => none

def findTask (s : Tasks) (tid : Nat) : Option Ptr :=
  ((s.links.walk .global (s.total.toNat + 1) (s.links.next .global)).filterMap listed).find?
    fun t => decide ((s.tcb t).map (·.ids.tid) = some tid)

/-! ## Creation -/

/-- `tcb_alloc_init` at an address that `kzalloc` returns. -/
def tcbAllocInit (new : Ptr) (s : Tasks) : Tasks :=
  { s with
    tcb := update s.tcb new (some {})
    links := ((s.links.init (.list new)).init (.childRef new)).init (.children new) }

/-- The task is put on the children list of `parent`. -/
def adopt (t parent : Ptr) (tcb : Tcb) (s : Tasks) : Tasks :=
  { s with
    links := s.links.insertTail (.childRef t) (.children parent)
    tcb := update s.tcb t (some { tcb with parent := some parent }) }

/-- `task_create`, with the ids that the kernel gives the new thread. -/
def taskCreate (parent : Option Ptr) (new : Ptr) (ids : TaskIds) (shareFlags : Word) (s : Tasks) : Except Stop Tasks :=
  let s := tcbAllocInit new s
  let tcb : Tcb := { ids, cloneFlags := shareFlags }
  match parent with
  | some p =>
    if shareFlags &&& tcbSharedParent ≠ 0 ∨ shareFlags &&& tcbSharedTgroup ≠ 0 then do
      let grandparent ← s.getParent p
      pure (adopt new grandparent tcb s)
    else
      pure (adopt new p tcb s)
  | none =>
    match findTask s s.self with
    | some pager => pure (adopt new pager tcb s)
    | none => throw .null

/-- `sys_fork`, or `do_clone` with share flags. -/
def doClone (parent new : Ptr) (ids : TaskIds) (shareFlags : Word) (s : Tasks) : Except Stop Tasks := do
  let s ← taskCreate (some parent) new ids shareFlags s
  globalAddTask new s

def sysFork (parent new : Ptr) (ids : TaskIds) (s : Tasks) : Except Stop Tasks := doClone parent new ids 0 s

/-- `sys_clone` with a stack. -/
def sysClone (parent new : Ptr) (ids : TaskIds) (cloneFlags : Word) (s : Tasks) : Except Stop Tasks :=
  doClone parent new ids (shareFlags cloneFlags) s

def initExecve (new : Ptr) (ids : TaskIds) (s : Tasks) : Except Stop Tasks := do
  let s ← taskCreate none new ids 0 s
  globalAddTask new s

/-! ## Destruction -/

/-- The loop of `tcb_destroy` over the children; `n` is the one to go on with. -/
def reparent (task : Ptr) : Nat → Link → Link → Tasks → Except Stop Tasks
  | 0, _, _, _ => throw .unfinished
  | fuel + 1, child, n, s =>
    if child = .children task then pure s
    else match child with
    | .childRef c => do
      let s := { s with links := s.links.unlink child child }
      let parent ← s.getParent task
      let tcb ← s.get c
      let s := adopt c parent tcb s
      let next ← s.next n
      reparent task fuel n next s
    | _ => throw .otherLink

/-- The end of `tcb_destroy`: the task is no child any more, and is freed. -/
def tcbFree (task : Ptr) (s : Tasks) : Except Stop Tasks :=
  let s := { s with links := s.links.unlink (.childRef task) (.childRef task) }
  if ¬ s.links.isEmpty (.list task) then throw .destroyListed
  else if ¬ s.links.isEmpty (.childRef task) then throw .destroyChildRef
  else if ¬ s.links.isEmpty (.children task) then throw .destroyChildren
  else pure { s with tcb := update s.tcb task none }

def tcbDestroy (task : Ptr) (s : Tasks) : Except Stop Tasks := do
  let s ← globalRemoveTask task s
  let child ← s.next (.children task)
  let n ← s.next child
  let s ← reparent task (s.total.toNat + 3) child n s
  tcbFree task s

def doExit (task : Ptr) (s : Tasks) : Except Stop Tasks := tcbDestroy task s

/-! ## Execution -/

def execveRecycleTask (new orig : Ptr) (s : Tasks) : Except Stop Tasks := do
  let tcb ← s.get new
  let old ← s.get orig
  let parent ← s.getParent orig
  if tcb.parent.isSome then throw .hasParent
  else
    tcbDestroy orig { s with
      tcb := update s.tcb new (some { tcb with ids := old.ids, parent := some parent })
      links := s.links.insert (.childRef new) (.children parent) }

/-- The loop of `do_execve` over the children of the group leader. It goes on with a link of the task that has exited. -/
def exitChildren (leader : Ptr) : Nat → Link → Tasks → Except Stop Tasks
  | 0, _, _ => throw .unfinished
  | fuel + 1, thread, s =>
    if thread = .children leader then pure s
    else match thread with
    | .childRef t => do
      let s ← doExit t s
      let next ← s.next thread
      exitChildren leader fuel next s
    | _ => throw .otherLink

/-- The group leader of a task that executes a file, its children gone. -/
def execveLeader (sender : Ptr) (s : Tasks) : Except Stop (Tasks × Ptr) := do
  let tcb ← s.get sender
  if tcb.cloneFlags &&& tcbSharedTgroup ≠ 0 then
    match findTask s tcb.ids.tgid with
    | none => throw .noLeader
    | some leader => do
      let thread ← s.next (.children leader)
      let s ← exitChildren leader (s.total.toNat + 3) thread s
      pure (s, leader)
  else
    pure (s, sender)

/-- `do_execve` of a file that opens and has a valid image. -/
def doExecve (sender new : Ptr) (s : Tasks) : Except Stop Tasks := do
  let (s, leader) ← execveLeader sender (tcbAllocInit new s)
  let s ← execveRecycleTask new leader s
  globalAddTask new s

/-! ## The machine -/

/-- `pager_setup_task`: the pager is its own child and parent. -/
def booted (pager self : Nat) : Tasks :=
  let s := tcbAllocInit pager { links := ⟨fun k => k, fun k => k⟩, total := 0, tcb := fun _ => none, self }
  { s with
    tcb := update s.tcb pager (some { ids := ⟨self, self, self⟩, parent := some pager })
    links := (s.links.insert (.childRef pager) (.children pager)).insertTail (.list pager) .global
    total := s.total + 1 }

inductive Event
  | initExecve (new : Ptr) (ids : TaskIds)
  | fork (t new : Ptr) (ids : TaskIds)
  | clone (t new : Ptr) (ids : TaskIds) (flags : Word)
  | exit (t : Ptr)
  | exec (t new : Ptr)
  deriving DecidableEq, Repr

def step (s : Tasks) : Event → Except Stop Tasks
  | .initExecve new ids => initExecve new ids s
  | .fork t new ids => sysFork t new ids s
  | .clone t new ids flags => sysClone t new ids flags s
  | .exit t => doExit t s
  | .exec t new => doExecve t new s

/-- The ids of a thread that the kernel makes for `t`: one that no task has, and the group of `t` if it is shared. -/
def KernelIds (s : Tasks) (t : Ptr) (shareFlags : Word) (ids : TaskIds) : Prop :=
  (∀ u tcb, s.tcb u = some tcb → tcb.ids.tid ≠ ids.tid) ∧
    if shareFlags &&& tcbSharedTgroup ≠ 0 then (s.tcb t).map (·.ids.tgid) = some ids.tgid else ids.tgid = ids.tid

/-- A task below the pager. -/
def Below (pager : Ptr) (s : Tasks) (t : Ptr) : Prop := t ≠ pager ∧ (s.tcb t).isSome

def enabled (pager : Ptr) (s : Tasks) : Event → Prop
  | .initExecve new ids => s.tcb new = none ∧ KernelIds s pager 0 ids
  | .fork t new ids => Below pager s t ∧ s.tcb new = none ∧ KernelIds s t 0 ids
  | .clone t new ids flags => Below pager s t ∧ s.tcb new = none ∧ KernelIds s t (shareFlags flags) ids
  | .exit t => Below pager s t
  | .exec t new => Below pager s t ∧ s.tcb new = none

def machine (pager : Ptr) : Machine Tasks Event Stop := ⟨enabled pager, step⟩

end Codezero.Mm0.Process
