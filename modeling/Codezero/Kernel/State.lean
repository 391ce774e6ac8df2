import Codezero.Lib.Outcome

/-!
# The kernel state

One cpu's view of the kernel: the thread control blocks, the wait queue heads, the scheduler and the
mutex lock words. A thread is named by its tid, so two live threads never share one. Spinlocks,
preemption and irq counters are left out: the bodies below are the sections those protect.
-/

namespace Codezero.Kernel

abbrev Word := BitVec 32

/-- `l4id_t`. -/
abbrev L4id := Word

def l4Anythread : L4id := 0xFFFFFFFE
def l4Nilthread : L4id := 0xFFFFFFFF

/-- The error numbers these paths return, negated. -/
def esrch : Int := -3
def eintr : Int := -4
def enomem : Int := -12
def efault : Int := -14
def einval : Int := -22
def enosys : Int := -38
def enoipc : Int := -133

/-- `enum task_state`. -/
inductive TaskState
  | inactive
  | sleeping
  | runnable
  deriving DecidableEq, Repr

/-- The bits of `ktcb.flags` that scheduling and waiting read. -/
structure TaskFlags where
  interrupted : Bool := false
  suspending : Bool := false
  resuming : Bool := false
  exited : Bool := false
  deriving DecidableEq, Repr

/-- The wait queue heads of the kernel: those inside each ktcb, those of kernel mutexes, the two of a
`mutex_queue`, and any other (device and container queues). -/
inductive Wqh
  | send (t : L4id)
  | recv (t : L4id)
  | pager (t : L4id)
  | mutex (m : Nat)
  | holders (q : Nat)
  | contenders (q : Nat)
  | other (n : Nat)
  deriving DecidableEq, Repr

/-- A `struct waitqueue` lives on the stack of the one thread it stands for, and a thread sleeps in one
place at a time, so its `task` names it. -/
abbrev Waitqueue := L4id

structure WaitqueueHead where
  sleepers : Int := 0
  taskList : List Waitqueue := []
  deriving DecidableEq, Repr

def mrSender : Fin 6 := 1

/-- The primary message registers, saved with the system call's registers. -/
abbrev Mr := Fin 6 → Word

structure Ktcb where
  state : TaskState := .inactive
  flags : TaskFlags := {}
  ipcFlags : Word := 0
  expectedSender : L4id := 0
  /-- `waiting_on` and `wq`. -/
  waitingOn : Option Wqh := none
  wq : Option Waitqueue := none
  tsNeedResched : Bool := false
  ticksLeft : Nat := 0
  ticksAssigned : Nat := 0
  schedGranule : Nat := 0
  priority : Nat := 0
  nlocks : Int := 0
  pager : Option L4id := none
  mr : Mr := fun _ => 0
  utcbAddress : Word := 0
  mrRest : Nat → Word := fun _ => 0
  extendedIpcSize : Nat := 0
  extendedIpcBuffer : Nat → BitVec 8 := fun _ => 0

/-- `SCHED_RQ_TOTAL` runqueues, of which two are in use. -/
abbrev RqId := Fin 4

structure Runqueue where
  taskList : List L4id := []
  total : Int := 0
  deriving DecidableEq, Repr

/-- `struct scheduler`, with the `rq` field of every ktcb. -/
structure Scheduler where
  schedRq : RqId → Runqueue := fun _ => {}
  rqRunnable : RqId := 0
  rqExpired : RqId := 1
  taskRq : L4id → Option RqId := fun _ => none
  idleTask : L4id := 0
  /-- `flags & SCHED_RUN_IDLE`. -/
  runIdle : Bool := false
  prioTotal : Nat := 30

/-- One constructor for each `BUG_ON` of the modelled paths. -/
inductive Bug
  | rqListNotEmpty
  | rqListEmpty
  | rqTotal
  | rqExpiredEmpty
  | resumeCurrent
  | ticksLeft
  | prioTotal
  | sleepers
  | taskListEmpty
  | nlocks
  | mutexNotLocked
  | ipcRetval
  | clearThread
  | nullPointer
  | holdersSleep
  | contendersSleep
  | notOnlyHolder
  | noQueue
  | setupThread
  | taskListUnlinked
  | threadRemoved
  | tcbDelete
  | ktcbRefs
  | nchild
  | capRtype
  | capTarget
  | memCache
  | threadDestroy
  | destroyChildren
  | cacheFree
  | voluntaryPreempt
  deriving DecidableEq, Repr

structure State where
  tcb : L4id → Ktcb := fun _ => {}
  /-- Whether `tcb_find` finds the thread. -/
  present : L4id → Bool := fun _ => false
  wqh : Wqh → WaitqueueHead := fun _ => {}
  sched : Scheduler := {}
  current : L4id := 0
  /-- The lock words of kernel mutexes: set is `MUTEX_LOCKED`. -/
  lock : Nat → Bool := fun _ => false

namespace State

def modify (t : L4id) (f : Ktcb → Ktcb) (k : State) : State :=
  { k with tcb := Function.update k.tcb t (f (k.tcb t)) }

def setWqh (q : Wqh) (h : WaitqueueHead) (k : State) : State :=
  { k with wqh := Function.update k.wqh q h }

section
variable (t u : L4id) (f : Ktcb → Ktcb) (q r : Wqh) (h : WaitqueueHead) (k : State)

@[simp] theorem modify_tcb_self : (k.modify t f).tcb t = f (k.tcb t) := by simp [modify]
@[simp] theorem modify_tcb_of_ne (apart : u ≠ t) : (k.modify t f).tcb u = k.tcb u := by simp [modify, apart]
@[simp] theorem modify_present : (k.modify t f).present = k.present := rfl
@[simp] theorem modify_wqh : (k.modify t f).wqh = k.wqh := rfl
@[simp] theorem modify_sched : (k.modify t f).sched = k.sched := rfl
@[simp] theorem modify_current : (k.modify t f).current = k.current := rfl
@[simp] theorem modify_lock : (k.modify t f).lock = k.lock := rfl
@[simp] theorem setWqh_tcb : (k.setWqh q h).tcb = k.tcb := rfl
@[simp] theorem setWqh_present : (k.setWqh q h).present = k.present := rfl
@[simp] theorem setWqh_wqh_self : (k.setWqh q h).wqh q = h := by simp [setWqh]
@[simp] theorem setWqh_wqh_of_ne (apart : r ≠ q) : (k.setWqh q h).wqh r = k.wqh r := by simp [setWqh, apart]
@[simp] theorem setWqh_sched : (k.setWqh q h).sched = k.sched := rfl
@[simp] theorem setWqh_current : (k.setWqh q h).current = k.current := rfl
@[simp] theorem setWqh_lock : (k.setWqh q h).lock = k.lock := rfl

theorem modify_tcb : (k.modify t f).tcb u = if u = t then f (k.tcb u) else k.tcb u := by
  by_cases same : u = t
  · subst same; simp
  · simp [same]

theorem setWqh_wqh : (k.setWqh q h).wqh r = if r = q then h else k.wqh r := by
  by_cases same : r = q
  · subst same; simp
  · simp [same]

end
end State

/-- How a body left off: with a return code, with a return code after a further `schedule()`, or asleep,
its return code still to come. -/
inductive Exit
  | ret (code : Int)
  | yield (code : Int)
  | sleep
  deriving DecidableEq, Repr

end Codezero.Kernel
