import Codezero.Kernel.Mutex
import Codezero.Lib.Tally

/-!
# The kernel half of user mutexes

`mutex_control_lock` and `mutex_control_unlock` between the lock and the unlock of
`mutex_control_mutex`. Each key that threads sleep for has one `mutex_queue` with two wait queues.
-/

namespace Codezero.Kernel

/-- A value stored to an `int`. -/
def int32 (x : Int) : Int := x.bmod (2 ^ 32)

/-- `struct mutex_queue`, whose address names its two wait queue heads. -/
structure MutexQueue where
  addr : Nat
  physical : Word
  contenders : Int := 0
  deriving DecidableEq, Repr

structure MutexQueueHead where
  list : List MutexQueue := []
  count : Int := 0
  deriving DecidableEq, Repr

/-- The kernel and the mutex queues of the caller's container. -/
structure Ctl where
  k : State
  mq : MutexQueueHead := {}

/-- `mutex_queue_init` of fresh zeroed memory, with the links of `mutex_control_create`. -/
def mutexQueueInit (addr : Nat) (k : State) : State := (k.setWqh (.holders addr) {}).setWqh (.contenders addr) {}

/-- `mutex_control_add`. A queue just initialised is in no list. -/
def mutexControlAdd (q : MutexQueue) (mq : MutexQueueHead) : MutexQueueHead :=
  { list := q :: mq.list, count := mq.count + 1 }

/-- `mutex_control_remove`. -/
def mutexControlRemove (addr : Nat) (mq : MutexQueueHead) : MutexQueueHead :=
  { list := mq.list.filter (·.addr ≠ addr), count := mq.count - 1 }

/-- `mutex_control_find`. -/
def mutexControlFind (key : Word) (mq : MutexQueueHead) : Option MutexQueue := mq.list.find? (·.physical = key)

/-- `mutex_control_create` with what `mutex_cap_alloc` has given, which is at `addr`, and `mutex_control_add`. -/
def mutexControlCreate (addr : Nat) (key : Word) (contenders : Int) (s : Ctl) : Ctl :=
  { k := mutexQueueInit addr s.k, mq := mutexControlAdd ⟨addr, key, contenders⟩ s.mq }

/-- The checks of `mutex_control_delete`. Its `mutex_cap_free` finds the capability and the element that it stops without: the
deleter has a capability of type `CAP_RTYPE_MUTEXPOOL`, as every caller that `mutex_cap_alloc` serves, and the queue is from its cache. -/
def mutexControlDelete (addr : Nat) (k : State) : Except Bug State :=
  if (k.wqh (.contenders addr)).sleepers ≠ 0 then .error .contendersSleep
  else if (k.wqh (.holders addr)).sleepers ≠ 0 then .error .holdersSleep
  else if (k.wqh (.contenders addr)).taskList ≠ [] then .error .contendersSleep
  else if (k.wqh (.holders addr)).taskList ≠ [] then .error .holdersSleep
  else .ok k

/-- A write to the `contenders` of a queue. -/
def setContenders (addr : Nat) (n : Int) (mq : MutexQueueHead) : MutexQueueHead :=
  { mq with list := mq.list.map fun q => if q.addr = addr then { q with contenders := n } else q }

/-- `mutex_control_remove`, then `mutex_control_delete`. -/
def dropQueue (addr : Nat) (s : Ctl) : Except Bug Ctl := do
  let k ← mutexControlDelete addr s.k
  pure { k := k, mq := mutexControlRemove addr s.mq }

/-- The current thread prepares to wait in a queue. -/
def sleepOn (q : Wqh) (s : Ctl) : Except Bug (Ctl × Exit) := do
  let k ← waitOnPrepare q s.k
  pure ({ s with k := k }, .sleep)

/-- `mutex_control_lock` in its critical section. -/
def mutexControlLock (alloc : Option Nat) (key : Word) (s : Ctl) : Except Bug (Ctl × Exit) :=
  match mutexControlFind key s.mq with
  | none =>
    match alloc with
    | none => pure (s, .ret enomem)
    | some addr => sleepOn (.contenders addr) (mutexControlCreate addr key 0 s)
  | some q =>
    if (s.k.wqh (.holders q.addr)).sleepers ≠ 0 then
      let left := int32 (q.contenders - 1)
      let s := { s with mq := setContenders q.addr left s.mq }
      if left = 0 then do
        let (k, _) ← wakeUp (.holders q.addr) {} s.k
        let s ← dropQueue q.addr { s with k := k }
        pure (s, .ret 0)
      else pure (s, .ret 0)
    else sleepOn (.contenders q.addr) s

/-- The loop of `mutex_control_unlock`: a turn wakes one contender. Every turn takes a sleeper, so as many
turns as there are sleepers suffice. -/
def wakeContenders (addr : Nat) : Nat → Int → State → Except Bug (Int × State)
  | 0, n, k => pure (n, k)
  | fuel + 1, n, k =>
    if n ≠ 0 ∧ (k.wqh (.contenders addr)).sleepers ≠ 0 then do
      let (k, _) ← wakeUp (.contenders addr) {} k
      wakeContenders addr fuel (int32 (n - 1)) k
    else pure (n, k)

/-- `wake_up` of a holder, if one sleeps. -/
def wakeHolder (addr : Nat) (k : State) : Except Bug State :=
  if (k.wqh (.holders addr)).sleepers ≠ 0 then do
    let (k, _) ← wakeUp (.holders addr) {} k
    pure k
  else pure k

/-- The end of `mutex_control_unlock`: it leaves, and frees the queue if nobody sleeps there, or waits for
contenders yet to come. -/
def unlockEnd (addr : Nat) (left : Int) (s : Ctl) : Except Bug (Ctl × Exit) :=
  if left = 0 then
    if (s.k.wqh (.contenders addr)).sleepers = 0 then do
      let s ← dropQueue addr s
      pure (s, .ret 0)
    else pure (s, .ret 0)
  else sleepOn (.holders addr) s

/-- `mutex_control_unlock` in its critical section. -/
def mutexControlUnlock (alloc : Option Nat) (key : Word) (contenders : Int) (s : Ctl) : Except Bug (Ctl × Exit) :=
  match mutexControlFind key s.mq with
  | none =>
    match alloc with
    | none => pure (s, .ret enomem)
    | some addr => sleepOn (.holders addr) (mutexControlCreate addr key contenders s)
  | some q => do
    let k ← wakeHolder q.addr s.k
    let (left, k) ← wakeContenders q.addr (k.wqh (.contenders q.addr)).sleepers.toNat
      (int32 (q.contenders + contenders)) k
    unlockEnd q.addr left { k := k, mq := setContenders q.addr left s.mq }

/-- `mutex_queue_head_lock` ignores what `mutex_lock` returns. -/
def mutexQueueHeadLock (m : Nat) (k : State) : Except Bug (State × Exit) := mutexLock m k

/-- `mutex_queue_head_unlock`. -/
def mutexQueueHeadUnlock (m : Nat) (k : State) : Except Bug (State × Exit) := mutexUnlockAsync m k

end Codezero.Kernel
