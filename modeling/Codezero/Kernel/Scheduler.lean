import Codezero.Kernel.State

/-!
# Runqueues and the parts of `schedule()`

The helpers of the scheduler that every sleep and wake-up path calls. `schedule()` itself also wakes and
suspends threads, so it is put together after the wait queues.
-/

namespace Codezero.Kernel

/-- `CONFIG_SCHED_TICKS`. -/
def configSchedTicks : Nat := 1000

/-- `SCHED_GRANULARITY`. -/
def schedGranularity : Nat := configSchedTicks / 10

/-- `!list_empty(&task->rq_list)`: the task is linked into some runqueue. -/
def Scheduler.onRq (t : L4id) (s : Scheduler) : Prop := ∃ i, t ∈ (s.schedRq i).taskList

instance (t : L4id) (s : Scheduler) : Decidable (s.onRq t) :=
  inferInstanceAs (Decidable (∃ i, t ∈ (s.schedRq i).taskList))

/-- `sched_rq_add_task`: `front` is `RQ_ADD_FRONT`. -/
def schedRqAddTask (t : L4id) (i : RqId) (front : Bool) (s : Scheduler) : Except Bug Scheduler :=
  if s.onRq t then .error .rqListNotEmpty
  else
    let rq := s.schedRq i
    .ok { s with
      schedRq := Function.update s.schedRq i
        { taskList := if front then t :: rq.taskList else rq.taskList ++ [t], total := rq.total + 1 }
      taskRq := Function.update s.taskRq t (some i) }

/-- `sched_rq_remove_task`. The list node comes off whichever list holds it; `total` is that of
`task->rq`. The source's `total` is unsigned, so its `BUG_ON(total < 0)` cannot fire; here it stops an
underflow. -/
def schedRqRemoveTask (t : L4id) (s : Scheduler) : Except Bug Scheduler :=
  if ¬ s.onRq t then .error .rqListEmpty
  else
    match s.taskRq t with
    | none => .error .nullPointer
    | some i =>
      if (s.schedRq i).total - 1 < 0 then .error .rqTotal
      else
        let unlinked : RqId → Runqueue := fun j =>
          { s.schedRq j with taskList := (s.schedRq j).taskList.erase t }
        .ok { s with
          schedRq := Function.update unlinked i { unlinked i with total := (s.schedRq i).total - 1 }
          taskRq := Function.update s.taskRq t none }

/-- `sched_rq_swap_queues`. -/
def schedRqSwapQueues (s : Scheduler) : Except Bug Scheduler :=
  if (s.schedRq s.rqExpired).taskList = [] then .error .rqExpiredEmpty
  else .ok { s with rqRunnable := s.rqExpired, rqExpired := s.rqRunnable }

/-- `sched_resume_async`. -/
def schedResumeAsync (t : L4id) (k : State) : Except Bug State := do
  let s ← schedRqAddTask t k.sched.rqRunnable true k.sched
  pure { k.modify t (fun c => { c with state := .runnable }) with sched := s }

/-- `sched_resume_sync`, up to its `schedule()`. -/
def schedResumeSync (t : L4id) (k : State) : Except Bug State :=
  if t = k.current then .error .resumeCurrent else schedResumeAsync t k

/-- The two ways to resume, as wake-ups choose between them. -/
def schedResume (sync : Bool) (t : L4id) (k : State) : Except Bug State :=
  if sync then schedResumeSync t k else schedResumeAsync t k

/-- How a body that resumed a thread leaves off: a synchronous resume ends in `schedule()`. -/
def resumed (sync : Bool) (code : Int) : Exit := if sync then .yield code else .ret code

/-- `sched_prepare_sleep`. -/
def schedPrepareSleep (k : State) : Except Bug State := do
  let s ← schedRqRemoveTask k.current k.sched
  pure { k.modify k.current (fun c => { c with state := .sleeping }) with sched := s }

/-- `sched_recalc_ticks`, with the assignment its caller makes of the result. -/
def schedRecalcTicks (c : Ktcb) (prioTotal : Nat) : Except Bug Ktcb :=
  if prioTotal < c.priority then .error .prioTotal
  else if prioTotal = 0 then .error .prioTotal
  else
    let ticks := configSchedTicks * c.priority / prioTotal
    .ok { c with ticksAssigned := ticks, ticksLeft := ticks }

/-- `sched_select_next`, for process or irq context. -/
def schedSelectNext (irq : Bool) (k : State) : Except Bug (L4id × State) :=
  let head (s : Scheduler) : Except Bug (L4id × State) :=
    match (s.schedRq s.rqRunnable).taskList with
    | t :: _ => .ok (t, { k with sched := s })
    | [] => .error .nullPointer
  if k.sched.runIdle then .ok (k.sched.idleTask, k)
  else if (k.sched.schedRq k.sched.rqRunnable).total > 0 then head k.sched
  else if (k.sched.schedRq k.sched.rqExpired).total > 0 then do
    let s ← schedRqSwapQueues k.sched
    head s
  else if irq then .ok (k.current, k)
  else .ok (k.sched.idleTask, k)

/-- In `sched_prepare_next`: ticks that were found to be zero are refilled. -/
def refillTicks (zero : Bool) (c : Ktcb) (prioTotal : Nat) : Except Bug Ktcb :=
  if zero then schedRecalcTicks c prioTotal else .ok c

/-- In `sched_prepare_next`: the idle task needs adding to a queue. -/
def addIdle (next : L4id) (s : Scheduler) : Except Bug Scheduler :=
  if next = s.idleTask then schedRqAddTask next s.rqRunnable true s else .ok s

/-- `sched_prepare_next` behind its test for zero ticks. -/
def prepareNext (zero : Bool) (next : L4id) (k : State) : Except Bug State := do
  let c ← refillTicks zero { k.tcb next with flags := { (k.tcb next).flags with resuming := false } } k.sched.prioTotal
  let s ← addIdle next k.sched
  pure { k.modify next (fun _ => { c with schedGranule := schedGranularity }) with sched := s }

/-- `sched_prepare_next`. -/
def schedPrepareNext (next : L4id) (k : State) : Except Bug State := prepareNext (decide ((k.tcb next).ticksLeft = 0)) next k

/-- The first part of `schedule()`: a runnable current leaves the front of its queue, and goes to the
back of the runnable or the expired one unless it is the idle task. -/
def scheduleRequeue (k : State) : Except Bug State :=
  if (k.tcb k.current).state = .runnable then do
    let s ← schedRqRemoveTask k.current k.sched
    if k.current = s.idleTask then pure { k with sched := s }
    else do
      let i := if (k.tcb k.current).ticksLeft ≠ 0 then s.rqRunnable else s.rqExpired
      let s ← schedRqAddTask k.current i false s
      pure { k with sched := s }
  else pure k

/-! ## What a resume and a sleep change -/

section
variable {t : L4id} {k k' : State} {sync : Bool}

theorem schedResumeAsync_ok : schedResumeAsync t k = .ok k' ↔
    ∃ s, schedRqAddTask t k.sched.rqRunnable true k.sched = .ok s ∧
      k' = { k.modify t (fun c => { c with state := .runnable }) with sched := s } := by
  simp only [schedResumeAsync, Lib.bind_eq_ok]
  exact exists_congr fun s => and_congr_right fun _ => ⟨fun h => by cases h; rfl, fun h => by rw [h]; rfl⟩

theorem schedResumeAsync_of_schedResume (ok : schedResume sync t k = .ok k') : schedResumeAsync t k = .ok k' := by
  unfold schedResume schedResumeSync at ok
  split at ok
  · split at ok
    · exact nomatch ok
    · exact ok
  · exact ok

theorem schedPrepareSleep_ok : schedPrepareSleep k = .ok k' ↔
    ∃ s, schedRqRemoveTask k.current k.sched = .ok s ∧
      k' = { k.modify k.current (fun c => { c with state := .sleeping }) with sched := s } := by
  simp only [schedPrepareSleep, Lib.bind_eq_ok]
  exact exists_congr fun s => and_congr_right fun _ => ⟨fun h => by cases h; rfl, fun h => by rw [h]; rfl⟩

end

/-- A scheduler whose first runqueue holds the given threads. -/
def Scheduler.ready (ts : List L4id) : Scheduler where
  schedRq i := if i = 0 then { taskList := ts, total := ts.length } else {}
  taskRq t := if t ∈ ts then some 0 else none

/-- Threads 1 and 2, runnable. -/
def twoRunnable : State where
  tcb t := if t = 1 ∨ t = 2 then { state := .runnable } else {}
  present t := t = 1 ∨ t = 2
  sched := .ready [1, 2]

/-- They are fresh: what holds of a new control block holds of theirs. -/
theorem twoRunnable_tcb {P : Ktcb → Prop} (runnable : P { state := .runnable }) (absent : P {}) (t : L4id) :
    P (twoRunnable.tcb t) := by
  unfold twoRunnable
  simp only
  split
  · exact runnable
  · exact absent

end Codezero.Kernel
