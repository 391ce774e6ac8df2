import Codezero.Kernel.Exclusive
import Codezero.Kernel.Thread
import Codezero.Lib.Machine

/-!
# Runs of one cpu

The current thread runs bodies of the waiting, waking, mutex and IPC primitives; a body that went to sleep
or resumed someone synchronously goes on to `schedule()`. Interrupts wake threads, count ticks and call
`schedule()` themselves at any point in between.
-/

namespace Codezero.Kernel.SchedRuns
open Codezero.Lib

/-- What the current thread may do between two calls of `schedule()`. The last three are the writes to
flags and arguments that the others read. -/
inductive Body
  | ipcSend (dest : L4id) (access : Access)
  | ipcRecv (source : L4id) (access : Access)
  | waitOn (q : Wqh)
  | waitEvent (q : Wqh) (condition : Bool)
  | mutexLock (m : Nat)
  | mutexUnlock (m : Nat) (sync : Bool)
  | wakeUp (q : Wqh) (flags : WakeupFlags)
  | wakeUpAll (q : Wqh) (interrupt : Bool)
  | wakeUpTask (t : L4id) (flags : WakeupFlags)
  | suspendSync
  | suspendAsync
  | resumeSync (t : L4id)
  | resumeAsync (t : L4id)
  | ipcArgs (args : IpcArgs)
  | signal (t : L4id)
  | exit

/-- A body that ends in a plain return. -/
def plain (m : Except Bug State) : Except Bug (State × Exit) := do
  let k ← m
  pure (k, .ret 0)

/-- A synchronous `wake_up_all` is one `wake_up` in each of its turns. -/
def Body.run (k : State) : Body → Except Bug (State × Exit)
  | .ipcSend dest access => Kernel.ipcSend access dest k
  | .ipcRecv source access => Kernel.ipcRecv access source k
  | .waitOn q => Kernel.waitOn q k
  | .waitEvent q condition => Kernel.waitEvent q condition k
  | .mutexLock m => Kernel.mutexLock m k
  | .mutexUnlock m sync => mutexUnlockCommon m sync k
  | .wakeUp q flags => Kernel.wakeUp q flags k
  | .wakeUpAll q interrupt => plain (Kernel.wakeUpAll q interrupt k)
  | .wakeUpTask t flags => Kernel.wakeUpTask t flags k
  | .suspendSync => schedSuspendSync k
  | .suspendAsync => plain (schedSuspendAsync k)
  | .resumeSync t => do
    let k ← schedResumeSync t k
    pure (k, .yield 0)
  | .resumeAsync t => plain (schedResumeAsync t k)
  | .ipcArgs args => plain (.ok (sysIpc args k).1)
  | .signal t => plain (.ok (k.modify t fun c => { c with flags := { c.flags with suspending := true } }))
  | .exit => plain (.ok (k.modify k.current fun c => { c with flags := { c.flags with exited := true } }))

inductive Event
  | body (b : Body)
  | schedule (inUser : Bool)
  | irqSchedule (inUser : Bool)
  | irqWakeUp (q : Wqh)
  | tick (quiet : Bool)
  /-- The turn of `idle_task` that takes back the hint to run it. -/
  | idleTurn

structure Cpu where
  k : State
  /-- Threads that have not yet come to the `schedule()` their last body ends in. -/
  due : L4id → Bool := fun _ => false

/-- `update_process_times`; `quiet` is a nested irq or a time without preemption. The granule is unsigned. -/
def updateProcessTimes (quiet : Bool) (k : State) : Except Bug State :=
  if (k.tcb k.current).ticksLeft = 0 then if quiet then pure k else .error .ticksLeft
  else
    let ticksLeft := (k.tcb k.current).ticksLeft - 1
    let schedGranule := ((k.tcb k.current).schedGranule + (2 ^ 32 - 1)) % 2 ^ 32
    pure (k.modify k.current fun c =>
      { c with ticksLeft := ticksLeft, schedGranule := schedGranule,
               tsNeedResched := c.tsNeedResched || ticksLeft == 0 || schedGranule == 0 })

def step (s : Cpu) : Event → Except Bug Cpu
  | .body b => do
    let (k, exit) ← b.run s.k
    pure { k := k, due := Function.update s.due s.k.current (match exit with | .ret _ => false | _ => true) }
  | .schedule inUser => do
    let k ← Kernel.schedule false inUser s.k
    pure { k := k, due := Function.update s.due s.k.current false }
  | .irqSchedule inUser => do
    let k ← Kernel.schedule true inUser s.k
    pure { s with k := k }
  | .irqWakeUp q => do
    let (k, _) ← wakeUp q {} s.k
    pure { s with k := k }
  | .tick quiet => do
    let k ← updateProcessTimes quiet s.k
    pure { s with k := k }
  | .idleTurn => pure { s with k := { s.k with sched := { s.k.sched with runIdle := false } } }

/-- Bodies are run by the current thread when it has no `schedule()` due, and only an inactive thread is
resumed outright. The idle task never runs in user mode. -/
def enabled (s : Cpu) : Event → Prop
  | .body (.resumeSync t) => s.due s.k.current = false ∧ (s.k.tcb t).state = .inactive
  | .body (.resumeAsync t) => s.due s.k.current = false ∧ (s.k.tcb t).state = .inactive
  | .body _ => s.due s.k.current = false
  | .schedule inUser => inUser = true → s.k.current ≠ s.k.sched.idleTask
  | .irqSchedule inUser => inUser = true → s.k.current ≠ s.k.sched.idleTask
  | .irqWakeUp _ => True
  | .tick _ => True
  | .idleTurn => s.k.current = s.k.sched.idleTask

instance (s : Cpu) (e : Event) : Decidable (enabled s e) := by
  unfold enabled
  split <;> infer_instance

def machine : Machine Cpu Event Bug := ⟨enabled, step⟩

instance (s : Cpu) (e : Event) : Decidable (machine.enabled s e) := inferInstanceAs (Decidable (enabled s e))

/-- The bodies that take the current thread off its runqueue. -/
def Body.leaves (k : State) : Body → Prop
  | .ipcSend dest _ => k.present dest = true ∧ ¬ recvReady dest k.current k
  | .ipcRecv source _ => recvFound source k = none
  | .waitOn _ => True
  | .waitEvent _ condition => condition = false
  | .mutexLock m => k.lock m = true
  | .suspendSync => True
  | .suspendAsync => True
  | _ => False

/-- A thread that leaves its runqueue stands in one, and is not the idle task. -/
def Steady (s : Cpu) : Event → Prop
  | .body b => b.leaves s.k → s.k.current ≠ s.k.sched.idleTask ∧ (s.k.tcb s.k.current).state = .runnable
  | _ => True

instance (k : State) (b : Body) : Decidable (b.leaves k) := by
  unfold Body.leaves
  split <;> infer_instance

instance (s : Cpu) (e : Event) : Decidable (Steady s e) := by
  unfold Steady
  split <;> infer_instance

section
variable {on : Prop} {k : State}

theorem keeps_plain {m : Except Bug State} (keeps : Keeps on k id m) : Keeps on k Prod.fst (plain m) :=
  Sat.bind keeps fun _ stays => stays

/-- Every body keeps the invariant and stops at no check of the queues. -/
theorem Body.keeps (b : Body) (core : Core on k)
    (steady : b.leaves k → k.current ≠ k.sched.idleTask ∧ (k.tcb k.current).state = .runnable)
    (resumes : ∀ t, b = .resumeSync t ∨ b = .resumeAsync t → (k.tcb t).state = .inactive) :
    Keeps on k Prod.fst (b.run k) := by
  cases b with
  | ipcSend dest access => exact core.ipcSend access dest fun present alone => steady ⟨present, alone⟩
  | ipcRecv source access => exact core.ipcRecv access source steady
  | waitOn q =>
    obtain ⟨busy, runnable⟩ := steady trivial
    exact Sat.bind (core.waitOnPrepare q busy runnable) fun _ stays => stays
  | waitEvent q condition =>
    simp only [Body.run, Kernel.waitEvent]
    split
    · exact ⟨core, rfl, rfl⟩
    · next waits =>
      obtain ⟨busy, runnable⟩ := steady (show condition = false by simpa using waits)
      exact Sat.bind (core.waitOnPrepare q busy runnable) fun _ stays => stays
  | mutexLock m => exact core.mutexLock m steady
  | mutexUnlock m sync => exact core.mutexUnlock m sync
  | wakeUp q flags => exact core.wakeUp q flags
  | wakeUpAll q interrupt => exact keeps_plain (core.wakeUpAll q interrupt)
  | wakeUpTask t flags => exact core.wakeUpTask t flags
  | suspendSync =>
    obtain ⟨busy, runnable⟩ := steady trivial
    exact Sat.bind (core.schedSuspend busy runnable) fun _ stays => stays
  | suspendAsync =>
    obtain ⟨busy, runnable⟩ := steady trivial
    refine keeps_plain (Sat.bind (core.schedSuspend busy runnable) fun k' stays => ?_)
    exact ⟨stays.core.modify k'.current rfl, stays.current, stays.idleTask⟩
  | resumeSync t =>
    have keeps : Keeps on k id (schedResume true t k) := (core.schedResumeAsync (resumes t (.inl rfl))).resume
    exact Sat.bind keeps fun _ stays => stays
  | resumeAsync t => exact keeps_plain (core.schedResumeAsync (resumes t (.inr rfl)))
  | ipcArgs args =>
    obtain ⟨w, n, f, state, _⟩ := sysIpc_state args k
    simp only [Body.run, state]
    exact keeps_plain ⟨core.modify k.current rfl, rfl, rfl⟩
  | signal t => exact keeps_plain ⟨core.modify t rfl, rfl, rfl⟩
  | exit => exact keeps_plain ⟨core.modify k.current rfl, rfl, rfl⟩

end

theorem exclusive_step {s : Cpu} {e : Event} (exclusive : Exclusive s.k) (able : enabled s e) (steady : Steady s e) :
    Sat (step s e) (fun s' => Exclusive s'.k) (fun b => b.ofQueues = false) := by
  cases e with
  | body b =>
    have inactive : ∀ t, b = .resumeSync t ∨ b = .resumeAsync t → (s.k.tcb t).state = .inactive := by
      rintro t (rfl | rfl) <;> exact able.2
    exact Sat.bind (b.keeps exclusive steady inactive) fun r stays => stays.exclusive
  | schedule inUser => exact Sat.bind (exclusive.schedule false inUser able) fun _ kept => kept
  | irqSchedule inUser => exact Sat.bind (exclusive.schedule true inUser able) fun _ kept => kept
  | irqWakeUp q => exact Sat.bind (Core.wakeUp exclusive q {}) fun r stays => stays.exclusive
  | tick quiet =>
    refine Sat.bind (P := Exclusive) ?_ fun _ kept => kept
    unfold updateProcessTimes
    split_ifs
    · exact exclusive
    · exact rfl
    · exact Core.modify exclusive s.k.current rfl
  | idleTurn => exact Core.resched exclusive rfl rfl (.inl ⟨rfl, rfl⟩)

/-- **Waiting and running exclude each other** in every state of every run in which only a runnable thread
other than the idle task leaves its runqueue, and no step stops at a check of the queues. -/
theorem wait_run_exclusive {k : State} {s : Cpu} (exclusive : Exclusive k)
    (reached : machine.ReachesUnder Steady { k := k } s) :
    Exclusive s.k ∧ ∀ e b, enabled s e → Steady s e → step s e = .error b → b.ofQueues = false := by
  have kept : Exclusive s.k := reached.invariant (I := fun s => Exclusive s.k)
    (fun s e s' exclusive able steady ok => (exclusive_step exclusive able steady).ok ok) exclusive
  exact ⟨kept, fun e b able steady stopped => (exclusive_step kept able steady).error stopped⟩

/-- The idle task 0 and thread 1, which holds mutex 0 and has a suspension pending if `signalled`; `current`
runs, and the idle task stands in the runqueue if it is the one. -/
def withIdle (current : L4id) (signalled : Bool) : State where
  tcb t := if t = 0 then { state := .runnable }
    else if t = 1 then { state := .runnable, nlocks := 1, flags := { suspending := signalled } } else {}
  sched := .ready (if current = 0 then [0, 1] else [1])
  current := current
  lock m := m = 0

theorem withIdle_exclusive (current : L4id) (signalled : Bool) : Exclusive (withIdle current signalled) where
  waits := ⟨fun _ => rfl, fun _ => List.nodup_nil, fun q t => by
    simp only [State.waits, withIdle]; split_ifs <;> simp⟩
  entry t := by simp only [withIdle]; split_ifs <;> rfl
  rqs := ready_wf (by split_ifs <;> decide)
  two := show (0 : RqId) ≠ 1 by decide
  used t i linked := .inl (ready_used linked)
  running t busy := by
    have apart : t ≠ 0 := busy
    simp only [withIdle, apart, if_false, Scheduler.ready]
    split_ifs with idling listed <;> simp_all
  waiting t busy := by
    have apart : t ≠ 0 := busy
    simp only [withIdle, apart, if_false]
    split_ifs <;> simp
  idle := by
    change (Scheduler.ready (if current = 0 then [0, 1] else [1])).taskRq 0 ≠ none ↔ current = 0
    rw [ready_linked]
    split_ifs with idling
    · exact iff_of_true (by simp) idling
    · exact iff_of_false (by decide) idling
  idle_awake := ⟨rfl, rfl⟩

/-- Thread 1 waits for a message and sleeps; the idle task runs; an interrupt wakes thread 1 and schedules. -/
def passing : List Event :=
  [.body (.ipcRecv l4Anythread {}), .schedule false, .idleTurn, .irqWakeUp (.recv 1), .irqSchedule false]

theorem wait_run_exclusive_passing : ∃ s, machine.runUnder Steady passing { k := withIdle 1 false } = some s ∧
    s.k.current = 1 ∧ Exclusive s.k ∧
    ∀ e b, enabled s e → Steady s e → step s e = .error b → b.ofQueues = false := by
  have ran : machine.runUnder Steady passing { k := withIdle 1 false } =
    some ((machine.runUnder Steady passing { k := withIdle 1 false }).get (by decide)) := by simp
  exact ⟨_, ran, by decide, wait_run_exclusive (withIdle_exclusive 1 false) (machine.reachesUnder_of_runUnder ran)⟩

/-! ## Where it fails -/

/-- The check a step stops at. -/
def stopsAt (s : Cpu) (e : Event) : Option Bug :=
  match step s e with
  | .ok _ => none
  | .error b => some b

/-- The idle task finds a mutex locked, as when freeing a zombie's memory, and is woken by its unlock. -/
def idleLocks : List Event := [.body (.mutexLock 0), .schedule false, .body (.mutexUnlock 0 true)]

/-- The timer interrupt suspends thread 1 in user mode and, as nothing else is runnable, returns to it. -/
def suspendedRuns : List Event := [.irqSchedule true]

/-- A second turn of `schedule()` finds the idle task in the runqueue already, and a suspended thread that
still runs cannot go to sleep. -/
theorem queues_broken : Exclusive (withIdle 0 false) ∧ Exclusive (withIdle 1 true) ∧
    (∃ s, machine.run idleLocks { k := withIdle 0 false } = some s ∧ enabled s (.schedule false) ∧
      stopsAt s (.schedule false) = some .rqListNotEmpty) ∧
    ∃ s, machine.run suspendedRuns { k := withIdle 1 true } = some s ∧
      enabled s (.body (.ipcRecv l4Anythread {})) ∧ stopsAt s (.body (.ipcRecv l4Anythread {})) = some .rqListEmpty := by
  refine ⟨withIdle_exclusive 0 false, withIdle_exclusive 1 true, ?_, ?_⟩
  · exact ⟨(machine.run idleLocks { k := withIdle 0 false }).get (by decide), by simp, by decide, by decide⟩
  · exact ⟨(machine.run suspendedRuns { k := withIdle 1 true }).get (by decide), by simp, by decide, by decide⟩

end Codezero.Kernel.SchedRuns
