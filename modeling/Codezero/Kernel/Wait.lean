import Codezero.Kernel.Scheduler
import Codezero.Lib.Queues

/-!
# Wait queues

Sleeping on and waking from a `waitqueue_head`, and the parts of the scheduler that use them. Where the
source returns to a caller after `schedule()`, that part is a definition of its own.
-/

namespace Codezero.Kernel

/-- The bits of `enum wakeup_flags`. -/
structure WakeupFlags where
  interrupt : Bool := false
  sync : Bool := false
  deriving DecidableEq, Repr

/-- `task_set_wqh`. -/
def taskSetWqh (t : L4id) (q : Wqh) (w : Waitqueue) (k : State) : State :=
  k.modify t fun c => { c with waitingOn := some q, wq := some w }

/-- `task_unset_wqh`. -/
def taskUnsetWqh (t : L4id) (k : State) : State :=
  k.modify t fun c => { c with waitingOn := none, wq := none }

/-- `wqh->sleepers++; list_insert_tail(&wq->task_list, &wqh->task_list)`. -/
def wqhInsertTail (q : Wqh) (w : Waitqueue) (k : State) : State :=
  k.setWqh q { sleepers := (k.wqh q).sleepers + 1, taskList := (k.wqh q).taskList ++ [w] }

/-- `list_remove_init(&wq->task_list); wqh->sleepers--`. -/
def wqhRemove (q : Wqh) (w : Waitqueue) (k : State) : State :=
  k.setWqh q { sleepers := (k.wqh q).sleepers - 1, taskList := (k.wqh q).taskList.erase w }

/-- `wait_on_prepare`: the current thread enters the queue and leaves its runqueue. `wait_on`,
`WAIT_EVENT`, `mutex_lock`, `ipc_send` and `ipc_recv` have the same statements inline. -/
def waitOnPrepare (q : Wqh) (k : State) : Except Bug State :=
  schedPrepareSleep (taskSetWqh k.current q k.current (wqhInsertTail q k.current k))

/-- What a sleeper does when it runs again, in `wait_on`, `wait_on_prepared_wait`, `WAIT_EVENT` and
`mutex_lock`: a set `TASK_INTERRUPTED` is cleared and reported. -/
def waitReturn (t : L4id) (k : State) : State × Int :=
  if (k.tcb t).flags.interrupted then
    (k.modify t fun c => { c with flags := { c.flags with interrupted := false } }, eintr)
  else (k, 0)

/-- `wait_on`, up to its `schedule()`. -/
def waitOn (q : Wqh) (k : State) : Except Bug (State × Exit) := do
  let k ← waitOnPrepare q k
  pure (k, .sleep)

/-- One turn of the loop of `WAIT_EVENT`. -/
def waitEvent (q : Wqh) (condition : Bool) (k : State) : Except Bug (State × Exit) :=
  if condition then pure (k, .ret 0) else waitOn q k

/-- Taking sleeper `t` off queue `q`: out of the list, its wait details cleared, `TASK_INTERRUPTED` set
for an interrupting wake-up. -/
def wqhTake (q : Wqh) (t : L4id) (interrupt : Bool) (k : State) : State :=
  (taskUnsetWqh t (wqhRemove q t k)).modify t fun c =>
    { c with flags := { c.flags with interrupted := c.flags.interrupted || interrupt } }

/-- `wake_up`. -/
def wakeUp (q : Wqh) (flags : WakeupFlags) (k : State) : Except Bug (State × Exit) :=
  if (k.wqh q).sleepers < 0 then .error .sleepers
  else if (k.wqh q).sleepers > 0 then
    match (k.wqh q).taskList with
    | [] => .error .taskListEmpty
    | t :: _ => do
      let k ← schedResume flags.sync t (wqhTake q t flags.interrupt k)
      pure (k, resumed flags.sync 0)
  else pure (k, .ret 0)

/-- The loop of `wake_up_all` for asynchronous wake-ups; `fuel` bounds the turns. A synchronous one
yields in every turn, so there a turn is `wake_up`. -/
def wakeUpAllLoop (q : Wqh) (interrupt : Bool) : Nat → State → Except Bug State
  | 0, k => pure k
  | fuel + 1, k =>
    if (k.wqh q).sleepers > 0 then
      match (k.wqh q).taskList with
      | [] => .error .taskListEmpty
      | t :: _ => do
        let k ← schedResumeAsync t (wqhTake q t interrupt k)
        wakeUpAllLoop q interrupt fuel k
    else pure k

/-- `wake_up_all` without `WAKEUP_SYNC`. Each turn takes one sleeper, so `sleepers` turns suffice. -/
def wakeUpAll (q : Wqh) (interrupt : Bool) (k : State) : Except Bug State :=
  if (k.wqh q).sleepers < 0 then .error .sleepers
  else wakeUpAllLoop q interrupt (k.wqh q).sleepers.toNat k

/-- `wake_up_task` up to the release of its locks: the queue the task was taken from, if any. -/
def wakeUpTaskTake (t : L4id) (interrupt : Bool) (k : State) : State × Bool :=
  match (k.tcb t).waitingOn with
  | none => (k, false)
  | some q => (wqhTake q t interrupt k, true)

/-- `wake_up_task`. -/
def wakeUpTask (t : L4id) (flags : WakeupFlags) (k : State) : Except Bug (State × Exit) :=
  match wakeUpTaskTake t flags.interrupt k with
  | (k, false) => pure (k, .ret (-1))
  | (k, true) => do
    let k ← schedResume flags.sync t k
    pure (k, resumed flags.sync 0)

/-- The common part of `sched_suspend_sync` and `sched_suspend_async`. -/
def schedSuspend (k : State) : Except Bug State := do
  let t := k.current
  let s ← schedRqRemoveTask t k.sched
  let k : State := { k.modify t (fun c =>
    { c with state := .inactive, flags := { c.flags with suspending := false } }) with sched := s }
  if (k.tcb t).pager = some t then pure k
  else do
    let (k, _) ← wakeUp (.pager t) {} k
    pure k

/-- `sched_suspend_sync`, up to its `schedule()`. -/
def schedSuspendSync (k : State) : Except Bug (State × Exit) := do
  let k ← schedSuspend k
  pure (k, .yield 0)

/-- `sched_suspend_async`. -/
def schedSuspendAsync (k : State) : Except Bug State := do
  let k ← schedSuspend k
  pure (k.modify k.current fun c => { c with tsNeedResched := true })

/-- In `schedule()`: a current that is about to sleep with a pending event is woken up again. -/
def scheduleWakePending (k : State) : Except Bug State :=
  if (k.tcb k.current).flags.suspending ∧ (k.tcb k.current).state = .sleeping then do
    let (k, _) ← wakeUpTask k.current { interrupt := true } k
    pure k
  else pure k

/-- In `schedule()`: a runnable current with a pending event is suspended if it was in user mode. -/
def scheduleSuspendPending (inUser : Bool) (k : State) : Except Bug State :=
  if (k.tcb k.current).flags.suspending ∧ (k.tcb k.current).state = .runnable ∧ inUser then
    schedSuspendAsync k
  else pure k

/-- In `schedule()`: an exited current asks for the idle task, which frees zombies. -/
def scheduleRunIdle (k : State) : State :=
  if (k.tcb k.current).flags.exited then
    { k.modify k.current (fun c => { c with flags := { c.flags with exited := false } }) with
      sched := { k.sched with runIdle := true } }
  else k

/-- `schedule()`, from process or irq context. `inUser` is `TASK_IN_USER(current)`, the mode of the
saved context. -/
def schedule (irq inUser : Bool) (k : State) : Except Bug State :=
  if (k.tcb k.current).ticksLeft > configSchedTicks then .error .ticksLeft
  else do
    let k ← scheduleRequeue (k.modify k.current fun c => { c with tsNeedResched := false })
    let k ← scheduleWakePending k
    let k ← scheduleSuspendPending inUser k
    let (next, k) ← schedSelectNext irq (scheduleRunIdle k)
    let k ← schedPrepareNext next k
    pure { k with current := next }

/-! ## The wait queues as a family of queues -/

/-- The wait queue heads, their counters, and where each thread says it waits. -/
def State.waits (k : State) : Lib.Queues Wqh Waitqueue where
  list q := (k.wqh q).taskList
  count q := (k.wqh q).sleepers
  home t := (k.tcb t).waitingOn

/-- The state of a thread that has just gone to sleep in queue `q`. -/
def slept (t : L4id) (q : Wqh) (k : State) (σ : Scheduler) : State :=
  { (taskSetWqh t q t (wqhInsertTail q t k)).modify t (fun c => { c with state := .sleeping }) with sched := σ }

section
variable {t : L4id} {q : Wqh} {k k' : State} {i sync : Bool} {σ : Scheduler}

theorem waits_congr (wqh : k'.wqh = k.wqh) (home : ∀ u, (k'.tcb u).waitingOn = (k.tcb u).waitingOn) :
    k'.waits = k.waits := by
  simp only [State.waits, wqh, home]

theorem waits_modify {f : Ktcb → Ktcb} (same : (f (k.tcb t)).waitingOn = (k.tcb t).waitingOn) :
    (k.modify t f).waits = k.waits := by
  refine waits_congr rfl fun u => ?_
  by_cases self : u = t
  · subst self; simpa using same
  · simp [self]

theorem waits_enqueue : (taskSetWqh t q t (wqhInsertTail q t k)).waits = k.waits.insert false q t := by
  simp only [State.waits, Lib.Queues.insert, Lib.Queues.mk.injEq]
  refine ⟨?_, ?_, ?_⟩
  · funext r
    by_cases same : r = q
    · subst same; simp [taskSetWqh, wqhInsertTail]
    · simp [taskSetWqh, wqhInsertTail, same]
  · funext r
    by_cases same : r = q
    · subst same; simp [taskSetWqh, wqhInsertTail]
    · simp [taskSetWqh, wqhInsertTail, same]
  · funext u
    by_cases same : u = t
    · subst same; simp [taskSetWqh]
    · simp [taskSetWqh, wqhInsertTail, same]

theorem waits_wqhTake : (wqhTake q t i k).waits = k.waits.remove q t := by
  simp only [State.waits, Lib.Queues.remove, Lib.Queues.mk.injEq]
  refine ⟨?_, ?_, ?_⟩
  · funext r
    by_cases same : r = q
    · subst same; simp [wqhTake, taskUnsetWqh, wqhRemove]
    · simp [wqhTake, taskUnsetWqh, wqhRemove, same]
  · funext r
    by_cases same : r = q
    · subst same; simp [wqhTake, taskUnsetWqh, wqhRemove]
    · simp [wqhTake, taskUnsetWqh, wqhRemove, same]
  · funext u
    by_cases same : u = t
    · subst same; simp [wqhTake, taskUnsetWqh]
    · simp [wqhTake, taskUnsetWqh, wqhRemove, same]

theorem wqhTake_tcb_self : (wqhTake q t i k).tcb t = { k.tcb t with
    waitingOn := none, wq := none, flags := { (k.tcb t).flags with interrupted := (k.tcb t).flags.interrupted || i } } := by
  simp [wqhTake, taskUnsetWqh, wqhRemove]

theorem wqhTake_tcb_of_ne {u : L4id} (apart : u ≠ t) : (wqhTake q t i k).tcb u = k.tcb u := by
  simp [wqhTake, taskUnsetWqh, wqhRemove, apart]

/-- A sleep that went through: the thread is queued, off its runqueue, and asleep. -/
theorem waitOnPrepare_ok : waitOnPrepare q k = .ok k' ↔
    ∃ s, schedRqRemoveTask k.current k.sched = .ok s ∧
      k' = { (taskSetWqh k.current q k.current (wqhInsertTail q k.current k)).modify k.current
        (fun c => { c with state := .sleeping }) with sched := s } := by
  rw [waitOnPrepare, schedPrepareSleep_ok]; rfl

theorem slept_waits : (slept t q k σ).waits = k.waits.insert false q t := by
  rw [← waits_enqueue]
  exact waits_modify (t := t) (k := taskSetWqh t q t (wqhInsertTail q t k))
    (f := fun c => { c with state := .sleeping }) rfl

theorem slept_tcb_self : (slept t q k σ).tcb t =
    { k.tcb t with waitingOn := some q, wq := some t, state := .sleeping } := by
  simp [slept, taskSetWqh, wqhInsertTail]

theorem slept_tcb_of_ne {u : L4id} (apart : u ≠ t) : (slept t q k σ).tcb u = k.tcb u := by
  simp [slept, taskSetWqh, wqhInsertTail, apart]

theorem slept_taskList {r : Wqh} : ((slept t q k σ).wqh r).taskList =
    if r = q then (k.wqh q).taskList ++ [t] else (k.wqh r).taskList := by
  by_cases same : r = q
  · subst same; simp [slept, taskSetWqh, wqhInsertTail]
  · simp [slept, taskSetWqh, wqhInsertTail, same]

/-- What `wake_up_task` did: nothing to a thread that was not waiting, else it took it out and resumed it. -/
theorem wakeUpTask_ok {flags : WakeupFlags} {exit : Exit} (ok : wakeUpTask t flags k = .ok (k', exit)) :
    ((k.tcb t).waitingOn = none ∧ k' = k) ∨
      ∃ q, (k.tcb t).waitingOn = some q ∧ schedResumeAsync t (wqhTake q t flags.interrupt k) = .ok k' := by
  unfold wakeUpTask wakeUpTaskTake at ok
  cases home : (k.tcb t).waitingOn with
  | none =>
    rw [home] at ok
    cases ok
    exact .inl ⟨rfl, rfl⟩
  | some q =>
    rw [home] at ok
    obtain ⟨k1, resumed, rest⟩ := Lib.bind_eq_ok.mp ok
    cases rest
    exact .inr ⟨q, rfl, schedResumeAsync_of_schedResume resumed⟩

end

end Codezero.Kernel
