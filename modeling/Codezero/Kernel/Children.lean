import Codezero.Kernel.Settles
import Codezero.Lib.Machine
import Codezero.Lib.Shares

/-!
# Pagers, their children and the spaces they share

A thread is created into the count of its creator's children and of its space's threads, leaves the container's list
when its pager has waited for it or destroyed it, and is taken out of both counts when the idle task deletes it.
-/

namespace Codezero.Kernel.Children
open Codezero.Lib
open Function (update)

/-! ## The model -/

def threadShareMask : Word := 0x00F00000
def threadSpaceMask : Word := 0x0F000000
def threadCreateMask : Word := threadShareMask ||| threadSpaceMask
def tcShareUtcb : Word := 0x00200000
def tcShareGroup : Word := 0x00400000
def tcShareSpace : Word := 0x01000000
def tcCopySpace : Word := 0x02000000
def tcNewSpace : Word := 0x04000000

/-- The kernel with the fields of a ktcb that creation and deletion keep: `live` is a ktcb that is allocated, `space`
and `nchild` are its fields. `ktcbRefs` is that field of each space there is, and `zombies` the list the idle task
deletes from. -/
structure Family where
  k : State
  live : L4id → Bool := fun _ => false
  nchild : L4id → Int := fun _ => 0
  space : L4id → Option L4id := fun _ => none
  ktcbRefs : L4id → Option Int := fun _ => none
  zombies : List L4id := []

namespace Family

def enter (t : L4id) (f : Family) : Family := { f with k := { f.k with current := t } }

end Family

/-- `tcb_alloc_init`: the element is zeroed, so the thread has no space, pager or child. -/
def tcbAllocInit (t : L4id) (f : Family) : Family :=
  { f with
    k := tcbInit t { f.k with tcb := update f.k.tcb t {} }
    live := update f.live t true
    nchild := update f.nchild t 0
    space := update f.space t none }

/-- `ktcb_cap_free`. -/
def ktcbCapFree (t : L4id) (f : Family) : Family := { f with live := update f.live t false }

/-- `address_space_attach`. -/
def addressSpaceAttach (t s : L4id) (refs : Int) (f : Family) : Family :=
  { f with space := update f.space t (some s), ktcbRefs := update f.ktcbRefs s (some (refs + 1)) }

/-- `thread_setup_space`; `fresh` is the space that `address_space_create` makes, if it can. -/
def threadSetupSpace (t : L4id) (flags : Word) (spid : L4id) (fresh : Option L4id) (f : Family) : Family × Int :=
  if flags &&& tcShareSpace ≠ 0 then
    match f.ktcbRefs spid with
    | none => (f, esrch)
    | some refs => (addressSpaceAttach t spid refs f, 0)
  else if flags &&& tcCopySpace ≠ 0 then
    match f.ktcbRefs spid with
    | none => (f, esrch)
    | some _ =>
      match fresh with
      | none => (f, enomem)
      | some s => (addressSpaceAttach t s 0 f, 0)
  else if flags &&& tcNewSpace ≠ 0 then
    match fresh with
    | none => (f, enomem)
    | some s => (addressSpaceAttach t s 0 f, 0)
  else (f, 0)

/-- `arch_setup_new_thread`, for its checks and the ticks it divides; `inSyscall` says whether the original thread has
a system call's context to copy. -/
def archSetupNewThread (t : L4id) (orig : Option L4id) (flags : Word) (inSyscall : Bool) (k : State) : Except Bug State :=
  if flags &&& tcNewSpace ≠ 0 then
    match orig with
    | some _ => .error .setupThread
    | none => pure k
  else
    match orig with
    | none => .error .setupThread
    | some o =>
      if inSyscall then
        let ticks := (k.tcb o).ticksLeft
        pure ((k.modify t fun c => { c with ticksLeft := (ticks + 1) / 2 }).modify o fun c =>
          { c with ticksLeft := if ticks / 2 = 0 then 1 else ticks / 2 })
      else pure k

/-- The arguments of `thread_create`, with what its allocations give it. -/
structure CreateArgs where
  flags : Word
  tid : L4id := 0
  spid : L4id := 0
  newTid : Option L4id
  newSpace : Option L4id := none
  inSyscall : Bool := false

/-- `thread_create` by the current thread. -/
def threadCreate (a : CreateArgs) (f : Family) : Except Bug (Family × Int) :=
  let flags := a.flags &&& threadCreateMask
  if flags &&& tcShareSpace &&& tcCopySpace &&& tcNewSpace ≠ 0 ∨ flags = 0 then pure (f, einval)
  else if flags &&& threadSpaceMask = 0 then pure (f, einval)
  else if flags &&& tcShareSpace = 0 ∧ (flags &&& tcShareUtcb ≠ 0 ∨ flags &&& tcShareGroup ≠ 0) then pure (f, einval)
  else
    match a.newTid with
    | none => pure (f, enomem)
    | some t =>
      match threadSetupSpace t flags a.spid a.newSpace (tcbAllocInit t f) with
      | (f, code) =>
        if code < 0 then pure (ktcbCapFree t f, code)
        else
          let parent := flags &&& tcShareSpace ≠ 0 ∨ flags &&& tcCopySpace ≠ 0
          if parent ∧ f.k.present a.tid = false then pure (ktcbCapFree t f, einval)
          else do
            let p := f.k.current
            let k ← archSetupNewThread t (if parent then some a.tid else none) flags a.inSyscall
              (f.k.modify t fun c => { c with pager := some p })
            pure ({ f with
              k := { k with present := update k.present t true }
              nchild := update f.nchild p (f.nchild p + 1) }, 0)

/-- The link `task_list` of a thread is on the container's list or on that of the zombies. -/
def Family.linked (f : Family) (t : L4id) : Bool := f.k.present t || f.zombies.contains t

/-- `tcb_remove`, with the wake-ups of those that came before; it takes the thread off the list it is on. -/
def tcbRemove (t : L4id) (f : Family) : Except Bug Family :=
  if f.linked t = false then .error .taskListUnlinked
  else do
    let k ← threadRemove t f.k
    pure { f with k := k, zombies := f.zombies.erase t }

/-- `ktcb_list_add` to the zombie list. -/
def zombieAdd (t : L4id) (f : Family) : Except Bug Family :=
  if f.linked t then .error .taskListUnlinked else pure { f with zombies := t :: f.zombies }

/-- `thread_wait`, once the thread is inactive. -/
def threadWait (t : L4id) (f : Family) : Except Bug Family := do
  let f ← tcbRemove t f
  if (f.k.wqh (.pager t)).sleepers > 0 ∨ (f.k.tcb t).state ≠ .inactive then .error .threadRemoved else zombieAdd t f

/-- `thread_destroy_child` after its wait, whatever that returned. -/
def threadDestroyChild (t : L4id) (f : Family) : Except Bug Family :=
  threadWait t { f with k := f.k.modify f.k.current fun c => { c with flags := { c.flags with exited := true } } }

/-- `thread_destroy_self`, up to its last `schedule()`; a pager has waited until it has no child left. -/
def threadDestroySelf (f : Family) : Except Bug Family := do
  let t := f.k.current
  let f ← if (f.k.tcb t).pager = some t then do
      let f ← tcbRemove t f
      zombieAdd t f
    else pure f
  let k ← schedSuspend (f.k.modify t fun c => { c with flags := { c.flags with exited := true } })
  pure { f with k := k }

/-- The sanity checks of `tcb_delete` and `tcb_delete_pager`. -/
def deletable (t : L4id) (f : Family) : Prop :=
  ¬ ((f.k.wqh (.pager t)).sleepers > 0 ∨ (f.k.wqh (.send t)).sleepers > 0 ∨ (f.k.wqh (.recv t)).sleepers > 0 ∨
    (f.k.tcb t).state ≠ .inactive ∨ f.k.sched.onRq t ∨ f.k.sched.taskRq t ≠ none ∨ t = f.k.current ∨
    (f.k.tcb t).nlocks ≠ 0 ∨ (f.k.tcb t).waitingOn ≠ none ∨ (f.k.tcb t).wq ≠ none ∨ f.nchild t ≠ 0)

instance (t : L4id) (f : Family) : Decidable (deletable t f) := inferInstanceAs (Decidable (¬ _))

/-- The space of a thread that is deleted, after the reference is dropped: it is deleted with its last one. -/
def dropRef (s : L4id) (refs : Int) (f : Family) : Family :=
  { f with ktcbRefs := update f.ktcbRefs s (if refs - 1 = 0 then none else some (refs - 1)) }

/-- `tcb_delete_pager`. -/
def tcbDeletePager (t : L4id) (f : Family) : Except Bug Family :=
  if ¬ deletable t f then .error .tcbDelete
  else match f.space t with
    | none => .error .nullPointer
    | some s =>
      match f.ktcbRefs s with
      | none => .error .nullPointer
      | some refs => if refs - 1 ≠ 0 then .error .ktcbRefs else pure (ktcbCapFree t (dropRef s refs f))

/-- `tcb_delete`. -/
def tcbDelete (t : L4id) (f : Family) : Except Bug Family :=
  match (f.k.tcb t).pager with
  | none => .error .nullPointer
  | some p =>
    if ¬ deletable t f then .error .tcbDelete
    else match f.space t with
      | none => .error .nullPointer
      | some s =>
        match f.ktcbRefs s with
        | none => .error .nullPointer
        | some refs =>
          if refs - 1 < 0 then .error .ktcbRefs
          else if f.nchild p < 0 then .error .nchild
          else
            let left := f.nchild p - 1
            let f := { ktcbCapFree t (dropRef s refs f) with nchild := update f.nchild p left }
            if left = 0 then do
              let (k, _) ← wakeUp (.pager p) {} f.k
              pure { f with k := k }
            else pure f

/-- A turn of `tcb_delete_zombies`, by the idle task. -/
def deleteZombie (t : L4id) (f : Family) : Except Bug Family :=
  let f := { f.enter f.k.sched.idleTask with zombies := f.zombies.erase t }
  if (f.k.tcb t).pager = some t then tcbDeletePager t f else tcbDelete t f

/-! ## Runs -/

inductive Event
  | create (p : L4id) (a : CreateArgs)
  | destroyChild (p t : L4id)
  | wait (p t : L4id)
  | destroySelf (t : L4id)
  | deleteZombie (t : L4id)
  /-- Whatever else the threads and the scheduler do to the kernel's state: it keeps the pagers. -/
  | other (k : State)

def enabled (f : Family) : Event → Prop
  | .create p a => f.live p = true ∧ (∀ t, a.newTid = some t → f.live t = false) ∧
      (∀ s, a.newSpace = some s → f.ktcbRefs s = none) ∧ ∀ r, threadCreate a (f.enter p) = .ok r → r.2 = 0
  | .destroyChild p t => f.live p = true ∧ f.live t = true ∧ t ≠ p ∧ (f.k.tcb t).pager = some p
  | .wait p t => f.live p = true ∧ f.live t = true
  | .destroySelf t => f.live t = true ∧ ((f.k.tcb t).pager = some t → f.nchild t = 0)
  | .deleteZombie t => t ∈ f.zombies
  | .other k => ∀ t, (k.tcb t).pager = (f.k.tcb t).pager

def step (f : Family) : Event → Except Bug Family
  | .create p a => do
    let (f, _) ← threadCreate a (f.enter p)
    pure f
  | .destroyChild p t => threadDestroyChild t (f.enter p)
  | .wait p t => threadWait t (f.enter p)
  | .destroySelf t => threadDestroySelf (f.enter t)
  | .deleteZombie t => deleteZombie t f
  | .other k => pure { f with k := k }

def machine : Machine Family Event Bug := ⟨enabled, step⟩

end Codezero.Kernel.Children
