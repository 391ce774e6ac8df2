import Codezero.Kernel.Children
import Codezero.Kernel.ControlLock

/-!
# Thread control

`sys_thread_control` on a thread that exists. Several actions wait for their target to become inactive, so a call is
a sequence of parts: the first one from the checks on, and one each time the caller runs again.
-/

namespace Codezero.Kernel.ThreadControl
open Codezero.Lib Codezero.Cap
open Children (Family threadDestroyChild)
open ControlLock (Rights spaceIsPager threadControlLock eperm eagain)

/-! ## The model -/

inductive Action
  | run
  | suspend
  | destroy
  | recycle
  | wait
  deriving DecidableEq, Repr

/-- The switch of `sys_thread_control` over the actions on a thread; `none` is the default case. -/
def actionOf (flags : Word) : Option Action :=
  if flags &&& threadActionMask = Cap.threadRun then some .run
  else if flags &&& threadActionMask = Cap.threadSuspend then some .suspend
  else if flags &&& threadActionMask = Cap.threadDestroy then some .destroy
  else if flags &&& threadActionMask = Cap.threadRecycle then some .recycle
  else if flags &&& threadActionMask = Cap.threadWait then some .wait
  else none

/-- What a call does once its target is inactive. `destroyChildren` is `thread_destroy_child` in the loop of
`thread_destroy_children`. -/
inductive Goal
  | suspend
  | recycle
  | destroyChild
  | destroyChildren
  | wait
  deriving DecidableEq, Repr

/-- Where a call goes on: in `WAIT_EVENT` on a thread's state, before its first test or asleep; with the next child; or
asleep until all children are gone. -/
inductive Parked
  | event (goal : Goal) (tid : L4id) (asleep : Bool)
  | nextChild
  | lastWait
  deriving DecidableEq, Repr

/-- How a part ends. `thread_destroy_self` does not return. -/
inductive Outcome
  | returned (code : Int)
  | parked (p : Parked)
  | gone
  deriving DecidableEq, Repr

/-- `thread_start`. -/
def threadStart (tid : L4id) (f : Family) : Except Bug (Family × Outcome) :=
  match mutexTrylock (threadControlLock tid) f.k with
  | (k, false) => pure ({ f with k := k }, .returned eagain)
  | (k, true) => do
    let k ← schedResumeAsync tid k
    let (k, _) ← mutexUnlock (threadControlLock tid) k
    pure ({ f with k := k }, .returned 0)

/-- `thread_recycle` of a thread that is inactive. `arch_clear_thread` takes it off the list it is on and adds it to
that of the container. -/
def threadRecycle (tid : L4id) (f : Family) : Except Bug Family := do
  let k ← wakeUpAll (.send tid) false f.k
  let k ← wakeUpAll (.recv tid) false k
  if (k.wqh (.pager tid)).sleepers > 0 then .error .threadRemoved
  else if f.linked tid = false then .error .taskListUnlinked
  else do
    let k ← archClearThread tid k
    pure { f with k := { k with present := Function.update k.present tid true }, zombies := f.zombies.erase tid }

/-- The rest of a call when its wait ended with `ret`: `thread_destroy_child` goes on whatever it is. -/
def finish (tid : L4id) (ret : Int) (f : Family) : Goal → Except Bug (Family × Outcome)
  | .suspend => pure (f, .returned ret)
  | .recycle => if ret < 0 then pure (f, .returned ret) else do
      let f ← threadRecycle tid f
      pure (f, .returned 0)
  | .destroyChild => do
      let f ← threadDestroyChild tid f
      pure (f, .returned 0)
  | .destroyChildren => do
      let f ← threadDestroyChild tid f
      pure (f, .parked .nextChild)
  | .wait => if ret < 0 then pure (f, .returned ret) else do
      let f ← Children.threadWait tid f
      pure (f, .returned 0)

/-- A turn of the loop of `WAIT_EVENT` on the state of a thread. -/
def eventTurn (goal : Goal) (tid : L4id) (f : Family) : Except Bug (Family × Outcome) :=
  if (f.k.tcb tid).state = .inactive then finish tid 0 f goal
  else do
    let k ← waitOnPrepare (.pager tid) f.k
    pure ({ f with k := k }, .parked (.event goal tid true))

/-- `thread_signal` and what follows. A thread that slept is woken up synchronously. -/
def signal (goal : Goal) (tid : L4id) (f : Family) : Except Bug (Family × Outcome) := do
  let (k, exit) ← threadSignal tid f.k
  match exit with
  | .ret _ => eventTurn goal tid { f with k := k }
  | _ => pure ({ f with k := k }, .parked (.event goal tid false))

/-- `thread_destroy_children` from the next child in the list on, and then the end of `thread_destroy_self`. -/
def childrenTurn (child : Option L4id) (f : Family) : Except Bug (Family × Outcome) :=
  match child with
  | some c => signal .destroyChildren c f
  | none =>
    if f.nchild f.k.current = 0 then do
      let f ← Children.threadDestroySelf f
      pure (f, .gone)
    else do
      let k ← waitOnPrepare (.pager f.k.current) f.k
      pure ({ f with k := k }, .parked .lastWait)

/-- `thread_destroy_self`. -/
def threadDestroySelf (child : Option L4id) (f : Family) : Except Bug (Family × Outcome) :=
  if (f.k.tcb f.k.current).pager = some f.k.current then childrenTurn child f
  else do
    let f ← Children.threadDestroySelf f
    pure (f, .gone)

/-- `thread_destroy`. -/
def threadDestroy (tid : L4id) (child : Option L4id) (f : Family) : Except Bug (Family × Outcome) :=
  if tid ≠ f.k.current ∧ (f.k.tcb tid).pager = some f.k.current then signal .destroyChild tid f
  else if tid = f.k.current then threadDestroySelf child f
  else .error .threadDestroy

/-- The first part of the action on a thread. -/
def act (tid : L4id) (child : Option L4id) (f : Family) : Action → Except Bug (Family × Outcome)
  | .run => threadStart tid f
  | .suspend => signal .suspend tid f
  | .destroy => threadDestroy tid child f
  | .recycle => signal .recycle tid f
  | .wait => eventTurn .wait tid f

/-- The caller runs again. -/
def resume (child : Option L4id) (f : Family) : Parked → Except Bug (Family × Outcome)
  | .event goal tid false => eventTurn goal tid f
  | .event goal tid true =>
    match waitReturn f.k.current f.k with
    | (k, code) => if code < 0 then finish tid code { f with k := k } goal else eventTurn goal tid { f with k := k }
  | .nextChild => childrenTurn child f
  | .lastWait =>
    match waitReturn f.k.current f.k with
    | (k, code) => if code < 0 then .error .destroyChildren else childrenTurn none { f with k := k }

/-- `sys_thread_control` by the thread `t` on the thread `tid`, up to where it waits; `child` is the first child in the
list, for a pager that destroys itself. -/
def sysThreadControl (r : Rights) (t : L4id) (access : ControlLock.Access) (flags : Word) (tid : L4id) (child : Option L4id) (f : Family) :
    Except Bug (Family × Outcome) :=
  if access.code < 0 then pure (f, .returned access.code)
  else if f.k.present tid = false then pure (f, .returned esrch)
  else do
    if ← spaceIsPager r { k := f.k } t then do
      let err ← capThreadCheck (r.caps t) (some (r.target tid)) flags (r.cid t)
      if err < 0 then pure (f, .returned err)
      else match actionOf flags with
        | none => pure (f, .returned einval)
        | some a => act tid child (f.enter t) a
    else pure (f, .returned eperm)

end Codezero.Kernel.ThreadControl
