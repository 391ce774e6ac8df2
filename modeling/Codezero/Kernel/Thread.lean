import Codezero.Kernel.Ipc

/-!
# Suspending, recycling and destroying threads

The parts of the thread system calls that touch the threads waiting for their target.
-/

namespace Codezero.Kernel

/-- `thread_signal` with `TASK_SUSPENDING`, up to its wait: the target is flagged and woken up. -/
def threadSignal (t : L4id) (k : State) : Except Bug (State × Exit) :=
  if (k.tcb t).state = .inactive then pure (k, .ret 0)
  else
    wakeUpTask t { interrupt := true, sync := true }
      (k.modify t fun c => { c with flags := { c.flags with suspending := true } })

/-- `tcb_init`, as `arch_clear_thread` and thread creation run it. Fields it does not name keep their
value: among them `flags`, `ipc_flags` and `expected_sender`. -/
def tcbInit (t : L4id) (k : State) : State :=
  (((k.modify t fun c =>
    { c with state := .inactive, priority := 4, ticksLeft := 0, tsNeedResched := false,
             flags := { c.flags with resuming := true } }).setWqh (.send t) {}).setWqh (.recv t) {}).setWqh (.pager t) {}

/-- `arch_clear_thread`: its sanity checks, then `tcb_init`. -/
def archClearThread (t : L4id) (k : State) : Except Bug State :=
  if (k.wqh (.pager t)).sleepers > 0 ∨ (k.wqh (.send t)).sleepers > 0 ∨ (k.wqh (.recv t)).sleepers > 0 ∨
      k.sched.onRq t ∨ k.sched.taskRq t ≠ none ∨ (k.tcb t).nlocks ≠ 0 ∨ (k.tcb t).waitingOn ≠ none ∨
      (k.tcb t).wq ≠ none then .error .clearThread
  else .ok (tcbInit t k)

/-- `thread_recycle` of a suspended thread. -/
def threadRecycle (t : L4id) (k : State) : Except Bug State := do
  let k ← wakeUpAll (.send t) false k
  let k ← wakeUpAll (.recv t) false k
  archClearThread t k

/-- `tcb_remove` and the wake-ups of `thread_destroy_child`, `thread_wait` and `thread_destroy_self`. -/
def threadRemove (t : L4id) (k : State) : Except Bug State := do
  let k ← wakeUpAll (.send t) true { k with present := Function.update k.present t false }
  wakeUpAll (.recv t) true k

/-- `thread_destroy_self`, up to the `schedule()` of its `sched_suspend_sync`. -/
def threadDestroySelf (k : State) : Except Bug State := do
  let k ← threadRemove k.current k
  schedSuspend (k.modify k.current fun c => { c with flags := { c.flags with exited := true } })

end Codezero.Kernel
