import Codezero.Kernel.Ipc
import Codezero.Kernel.Mutex

/-!
# Waiting and running exclude each other

Every thread stands in at most one wait queue and at most one runqueue, its state says in which, and the
counters are the lengths. `Core` is that invariant; each body below keeps it and stops at none of the
checks on `sleepers`, `rq_list` and `rq->total`.
-/

namespace Codezero.Kernel
open Codezero.Lib
open Function (update update_of_ne update_self)

/-- The runqueues, their counters, and the one each thread records. -/
def Scheduler.queues (s : Scheduler) : Queues RqId L4id where
  list i := (s.schedRq i).taskList
  count i := (s.schedRq i).total
  home := s.taskRq

section
variable {ts : List L4id} {t : L4id} {i : RqId}

theorem ready_wf (nodup : ts.Nodup) : (Scheduler.ready ts).queues.Wf where
  count_eq j := by
    simp only [Scheduler.queues, Scheduler.ready]
    split_ifs <;> rfl
  nodup j := by
    simp only [Scheduler.queues, Scheduler.ready]
    split_ifs
    · exact nodup
    · exact List.nodup_nil
  mem_iff j u := by
    simp only [Scheduler.queues, Scheduler.ready]
    by_cases first : j = 0
    · subst first
      by_cases listed : u ∈ ts <;> simp [listed]
    · by_cases listed : u ∈ ts
      · simpa [first, listed] using Ne.symm first
      · simp [first, listed]

theorem ready_linked : (Scheduler.ready ts).taskRq t ≠ none ↔ t ∈ ts := by simp [Scheduler.ready]

theorem ready_used (linked : (Scheduler.ready ts).taskRq t = some i) : i = 0 := by
  simp only [Scheduler.ready] at linked
  split_ifs at linked
  exact (Option.some.inj linked).symm

end

/-- The checks that stand on the consistency of the queues. -/
def Bug.ofQueues : Bug → Bool
  | .rqListNotEmpty | .rqListEmpty | .rqTotal | .rqExpiredEmpty | .sleepers | .taskListEmpty | .nullPointer => true
  | _ => false

/-- Where a thread is, as its control block says. -/
def Ktcb.place (c : Ktcb) : TaskState × Option Wqh × Option Waitqueue := (c.state, c.waitingOn, c.wq)

/-- Wait queues and runqueues are consistent and match the threads' states. The idle task is always ready
to run; it stands in a runqueue when `idleOn` says so. -/
structure Core (idleOn : Prop) (k : State) : Prop where
  waits : k.waits.Wf
  entry : ∀ t, (k.tcb t).wq = (k.tcb t).waitingOn.map fun _ => t
  rqs : k.sched.queues.Wf
  two : k.sched.rqRunnable ≠ k.sched.rqExpired
  used : ∀ t i, k.sched.taskRq t = some i → i = k.sched.rqRunnable ∨ i = k.sched.rqExpired
  running : ∀ t, t ≠ k.sched.idleTask → (k.sched.taskRq t ≠ none ↔ (k.tcb t).state = .runnable)
  waiting : ∀ t, t ≠ k.sched.idleTask → ((k.tcb t).waitingOn ≠ none ↔ (k.tcb t).state = .sleeping)
  idle : k.sched.taskRq k.sched.idleTask ≠ none ↔ idleOn
  idle_awake : (k.tcb k.sched.idleTask).state = .runnable ∧ (k.tcb k.sched.idleTask).waitingOn = none

/-- Between bodies the idle task stands in a runqueue exactly when it is current. -/
def Exclusive (k : State) : Prop := Core (k.current = k.sched.idleTask) k

/-- A body kept the invariant and did not switch threads. -/
structure Stays (idleOn : Prop) (k k' : State) : Prop where
  core : Core idleOn k'
  current : k'.current = k.current
  idleTask : k'.sched.idleTask = k.sched.idleTask

theorem Stays.exclusive {k k' : State} (stays : Stays (k.current = k.sched.idleTask) k k') : Exclusive k' := by
  have core := stays.core
  rwa [← stays.current, ← stays.idleTask] at core

theorem Stays.trans {on : Prop} {k k' k'' : State} (first : Stays on k k') (second : Stays on k' k'') : Stays on k k'' :=
  ⟨second.core, second.current.trans first.current, second.idleTask.trans first.idleTask⟩

/-- A computation from `k` keeps the invariant and stops at no check of the queues. -/
def Keeps {α : Type} (on : Prop) (k : State) (out : α → State) (m : Except Bug α) : Prop :=
  Sat m (fun a => Stays on k (out a)) (fun b => b.ofQueues = false)

/-! ## Runqueues -/

/-- The parts of a scheduler besides its queues. -/
structure Scheduler.Same (s s' : Scheduler) : Prop where
  runnable : s'.rqRunnable = s.rqRunnable
  expired : s'.rqExpired = s.rqExpired
  idleTask : s'.idleTask = s.idleTask

section
variable {s : Scheduler} {t : L4id} {i : RqId}

theorem onRq_iff (wf : s.queues.Wf) : s.onRq t ↔ s.taskRq t ≠ none := by
  constructor
  · rintro ⟨i, mem⟩ none
    exact wf.not_mem (i := i) none mem
  · intro some
    obtain ⟨i, home⟩ := Option.ne_none_iff_exists'.mp some
    exact ⟨i, (wf.mem_iff i t).mpr home⟩

theorem schedRqAddTask_ok (front : Bool) (wf : s.queues.Wf) (off : s.taskRq t = none) :
    ∃ s', schedRqAddTask t i front s = .ok s' ∧ s'.queues = s.queues.insert front i t ∧ s.Same s' := by
  have free : ¬ s.onRq t := fun on => (onRq_iff wf).mp on off
  rw [schedRqAddTask, if_neg free]
  refine ⟨_, rfl, ?_, ⟨rfl, rfl, rfl⟩⟩
  simp only [Scheduler.queues, Queues.insert, Queues.mk.injEq, and_true]
  constructor <;> funext j <;> by_cases same : j = i
  · subst same; simp
  · simp [same]
  · subst same; simp
  · simp [same]

theorem schedRqRemoveTask_ok (wf : s.queues.Wf) (on : s.taskRq t = some i) :
    ∃ s', schedRqRemoveTask t s = .ok s' ∧ s'.queues = s.queues.remove i t ∧ s.Same s' := by
  have linked : s.onRq t := (onRq_iff wf).mpr (by simp [on])
  have counted : ¬ (s.schedRq i).total - 1 < 0 := by
    have mem : t ∈ s.queues.list i := (wf.mem_iff i t).mpr on
    have positive : 0 < s.queues.count i := wf.count_pos_iff.mpr (List.ne_nil_of_mem mem)
    change 0 < (s.schedRq i).total at positive
    omega
  simp only [schedRqRemoveTask, linked, not_true_eq_false, if_false, on, counted]
  refine ⟨_, rfl, ?_, ⟨rfl, rfl, rfl⟩⟩
  have erased := wf.erase_everywhere (i := i) on
  simp only [Scheduler.queues, Queues.remove, Queues.mk.injEq, and_true] at erased ⊢
  constructor
  · rw [← erased]
    funext j
    by_cases same : j = i
    · subst same; simp
    · simp [same]
  · funext j
    by_cases same : j = i
    · subst same; simp
    · simp [same]

end

/-! ## One thread changes place -/

section
variable {on : Prop} {k k' : State} {t : L4id} {q : Wqh}

variable (core : Core on k)
include core

/-- A change that touches none of the places. -/
theorem Core.same (waits : k'.waits = k.waits) (sched : k'.sched = k.sched)
    (places : ∀ u, (k'.tcb u).place = (k.tcb u).place) : Core on k' := by
  have state : ∀ u, (k'.tcb u).state = (k.tcb u).state := fun u => congrArg Prod.fst (places u)
  have home : ∀ u, (k'.tcb u).waitingOn = (k.tcb u).waitingOn := fun u => congrArg (·.2.1) (places u)
  have entry : ∀ u, (k'.tcb u).wq = (k.tcb u).wq := fun u => congrArg (·.2.2) (places u)
  constructor
  · rw [waits]; exact core.waits
  · intro u; rw [entry, home]; exact core.entry u
  · rw [sched]; exact core.rqs
  · rw [sched]; exact core.two
  · rw [sched]; exact core.used
  · simp only [sched, state]; exact core.running
  · simp only [sched, state, home]; exact core.waiting
  · rw [sched]; exact core.idle
  · simp only [sched, state, home]; exact core.idle_awake

theorem Core.modify {f : Ktcb → Ktcb} (t : L4id) (same : (f (k.tcb t)).place = (k.tcb t).place) : Core on (k.modify t f) := by
  refine core.same (waits_modify (congrArg (·.2.1) same)) rfl fun u => ?_
  rw [State.modify_tcb]
  split
  · next self => rw [self]; exact same
  · rfl

/-- What has to be shown when one thread other than the idle task moves. -/
structure Moved (t : L4id) (k k' : State) : Prop where
  waits : k'.waits.Wf
  entry : (k'.tcb t).wq = (k'.tcb t).waitingOn.map fun _ => t
  rqs : k'.sched.queues.Wf
  sched : k.sched.Same k'.sched
  used : ∀ i, k'.sched.taskRq t = some i → i = k.sched.rqRunnable ∨ i = k.sched.rqExpired
  running : k'.sched.taskRq t ≠ none ↔ (k'.tcb t).state = .runnable
  waiting : (k'.tcb t).waitingOn ≠ none ↔ (k'.tcb t).state = .sleeping
  others : ∀ u, u ≠ t → k'.sched.taskRq u = k.sched.taskRq u ∧ (k'.tcb u).place = (k.tcb u).place
  current : k'.current = k.current

theorem Core.move (busy : t ≠ k.sched.idleTask) (moved : Moved t k k') : Stays on k k' := by
  have idle := moved.others k.sched.idleTask busy.symm
  have state : ∀ u, u ≠ t → (k'.tcb u).state = (k.tcb u).state := fun u apart => congrArg Prod.fst (moved.others u apart).2
  have home : ∀ u, u ≠ t → (k'.tcb u).waitingOn = (k.tcb u).waitingOn :=
    fun u apart => congrArg (·.2.1) (moved.others u apart).2
  have entry : ∀ u, u ≠ t → (k'.tcb u).wq = (k.tcb u).wq := fun u apart => congrArg (·.2.2) (moved.others u apart).2
  refine ⟨⟨moved.waits, fun u => ?_, moved.rqs, ?_, fun u i => ?_, fun u other => ?_, fun u other => ?_, ?_, ?_⟩,
    moved.current, moved.sched.idleTask⟩
  · by_cases self : u = t
    · subst self; exact moved.entry
    · rw [entry u self, home u self]; exact core.entry u
  · rw [moved.sched.runnable, moved.sched.expired]; exact core.two
  · rw [moved.sched.runnable, moved.sched.expired]
    by_cases self : u = t
    · subst self; exact moved.used i
    · rw [(moved.others u self).1]; exact core.used u i
  · rw [moved.sched.idleTask] at other
    by_cases self : u = t
    · subst self; exact moved.running
    · rw [(moved.others u self).1, state u self]; exact core.running u other
  · rw [moved.sched.idleTask] at other
    by_cases self : u = t
    · subst self; exact moved.waiting
    · rw [home u self, state u self]; exact core.waiting u other
  · rw [moved.sched.idleTask, idle.1]; exact core.idle
  · rw [moved.sched.idleTask, state _ busy.symm, home _ busy.symm]; exact core.idle_awake

/-- A thread of no wait queue that is not runnable stands nowhere. -/
theorem Core.off (busy : t ≠ k.sched.idleTask) (state : (k.tcb t).state ≠ .runnable) : k.sched.taskRq t = none := by
  by_contra linked
  exact state ((core.running t busy).mp linked)

theorem Core.awake (state : (k.tcb t).state ≠ .sleeping) : (k.tcb t).waitingOn = none := by
  by_cases busy : t = k.sched.idleTask
  · rw [busy]; exact core.idle_awake.2
  · by_contra waits
    exact state ((core.waiting t busy).mp waits)

theorem Core.busy_of_waiting (home : (k.tcb t).waitingOn = some q) : t ≠ k.sched.idleTask := by
  rintro rfl
  exact nomatch core.idle_awake.2.symm.trans home

theorem Core.asleep (home : (k.tcb t).waitingOn = some q) : (k.tcb t).state = .sleeping :=
  (core.waiting t (core.busy_of_waiting home)).mp (by simp [home])

/-! ## Sleeping -/

/-- A runnable thread other than the idle task goes to sleep. -/
theorem Core.waitOnPrepare (q : Wqh) (busy : k.current ≠ k.sched.idleTask)
    (runnable : (k.tcb k.current).state = .runnable) : Keeps on k id (waitOnPrepare q k) := by
  obtain ⟨i, linked⟩ := Option.ne_none_iff_exists'.mp ((core.running k.current busy).mpr runnable)
  obtain ⟨σ, removed, queues, same⟩ := schedRqRemoveTask_ok core.rqs linked
  have home : σ.taskRq = update k.sched.taskRq k.current none := congrArg Queues.home queues
  have slept : Kernel.waitOnPrepare q k = .ok (slept k.current q k σ) := waitOnPrepare_ok.mpr ⟨σ, removed, rfl⟩
  have free : (k.tcb k.current).waitingOn = none := core.awake (by simp [runnable])
  rw [Keeps, slept, sat_ok]
  change Stays on k (Kernel.slept k.current q k σ)
  refine core.move busy ⟨?_, ?_, ?_, same, fun i => ?_, ?_, ?_, fun u apart => ⟨?_, ?_⟩, rfl⟩
  · rw [slept_waits]; exact core.waits.insert false free
  · simp [slept_tcb_self]
  · change σ.queues.Wf
    rw [queues]; exact core.rqs.remove linked
  · simp [Kernel.slept, home]
  · rw [slept_tcb_self]; simp [Kernel.slept, home]
  · simp [slept_tcb_self]
  · simp [Kernel.slept, home, apart]
  · rw [slept_tcb_of_ne apart]

/-! ## Waking -/

/-- Thread `t` waits nowhere, and nothing else about places changed. -/
structure Loose (t : L4id) (k k1 : State) : Prop where
  waits : k1.waits.Wf
  sched : k1.sched = k.sched
  current : k1.current = k.current
  self : (k1.tcb t).waitingOn = none ∧ (k1.tcb t).wq = none
  others : ∀ u, u ≠ t → (k1.tcb u).place = (k.tcb u).place

/-- A resume of a thread that stands nowhere. -/
theorem Core.resume {k1 : State} (busy : t ≠ k.sched.idleTask) (state : (k.tcb t).state ≠ .runnable)
    (loose : Loose t k k1) : Keeps on k id (schedResumeAsync t k1) := by
  have off : k1.sched.taskRq t = none := by
    rw [loose.sched]; exact core.off busy state
  obtain ⟨σ, added, queues, same⟩ := schedRqAddTask_ok (i := k1.sched.rqRunnable) true (loose.sched ▸ core.rqs) off
  rw [Keeps, schedResumeAsync_ok.mpr ⟨σ, added, rfl⟩, sat_ok]
  have rq : σ.taskRq = update k1.sched.taskRq t (some k1.sched.rqRunnable) := congrArg Queues.home queues
  have waits : (({ k1.modify t (fun c => { c with state := .runnable }) with sched := σ } : State)).waits = k1.waits :=
    waits_modify (t := t) (k := k1) (f := fun c => { c with state := .runnable }) rfl
  change Stays on k ({ k1.modify t (fun c => { c with state := .runnable }) with sched := σ } : State)
  refine core.move busy ⟨?_, ?_, ?_, ?_, fun i => ?_, ?_, ?_, fun u apart => ⟨?_, ?_⟩, loose.current⟩
  · rw [waits]; exact loose.waits
  · simp [loose.self]
  · change σ.queues.Wf
    rw [queues]; exact Queues.Wf.insert true (loose.sched ▸ core.rqs) off
  · rw [loose.sched] at same; exact same
  · simp only [rq, update_self, Option.some.injEq, loose.sched]
    exact fun eq => .inl eq.symm
  · simp [rq]
  · simp [loose.self]
  · simp [rq, apart, loose.sched]
  · simpa [apart] using loose.others u apart

/-- A sleeper taken off its queue, with changes that touch no place. -/
theorem Core.loose {k1 : State} {i : Bool} (home : (k.tcb t).waitingOn = some q)
    (waits : k1.waits = (wqhTake q t i k).waits) (sched : k1.sched = k.sched) (current : k1.current = k.current)
    (places : ∀ u, (k1.tcb u).place = ((wqhTake q t i k).tcb u).place) : Loose t k k1 where
  waits := by rw [waits, waits_wqhTake]; exact core.waits.remove home
  sched := sched
  current := current
  self := by
    have place := places t
    rw [wqhTake_tcb_self] at place
    exact ⟨congrArg (·.2.1) place, congrArg (·.2.2) place⟩
  others u apart := by rw [places u, wqhTake_tcb_of_ne apart]

theorem Core.wake {i : Bool} (home : (k.tcb t).waitingOn = some q) : Keeps on k id (schedResumeAsync t (wqhTake q t i k)) :=
  core.resume (core.busy_of_waiting home) (by simp [core.asleep home]) (core.loose home rfl rfl rfl fun _ => rfl)

omit core in
theorem Keeps.resume {k1 : State} {sync : Bool} (keeps : Keeps on k id (schedResumeAsync t k1)) :
    Keeps on k id (schedResume sync t k1) := by
  unfold schedResume schedResumeSync
  split
  · split
    · exact rfl
    · exact keeps
  · exact keeps

theorem Core.wakeUp (q : Wqh) (flags : WakeupFlags) : Keeps on k Prod.fst (wakeUp q flags k) := by
  have counted : 0 ≤ (k.wqh q).sleepers := core.waits.count_nonneg (i := q)
  unfold Kernel.wakeUp
  rw [if_neg (by omega)]
  split
  · next sleeping =>
    have full : (k.wqh q).taskList ≠ [] := core.waits.count_pos_iff.mp sleeping
    split
    · next empty => exact absurd empty full
    · next t _ list =>
      have home : (k.tcb t).waitingOn = some q := core.waits.home_of_mem (i := q) (show t ∈ (k.wqh q).taskList by simp [list])
      exact Sat.bind (core.wake home).resume fun k' stays => stays
  · exact ⟨core, rfl, rfl⟩

theorem Core.wakeUpAll (q : Wqh) (i : Bool) : Keeps on k id (wakeUpAll q i k) := by
  have counted : 0 ≤ (k.wqh q).sleepers := core.waits.count_nonneg (i := q)
  unfold Kernel.wakeUpAll
  rw [if_neg (by omega)]
  -- each turn takes the head of the queue, so the invariant at its start is all the next turn needs
  generalize (k.wqh q).sleepers.toNat = fuel
  clear counted
  induction fuel generalizing k with
  | zero => exact ⟨core, rfl, rfl⟩
  | succ fuel rest =>
    unfold wakeUpAllLoop
    split
    · next sleeping =>
      have full : (k.wqh q).taskList ≠ [] := core.waits.count_pos_iff.mp sleeping
      split
      · next empty => exact absurd empty full
      · next t _ list =>
        have home : (k.tcb t).waitingOn = some q :=
          core.waits.home_of_mem (i := q) (show t ∈ (k.wqh q).taskList by simp [list])
        refine Sat.bind (core.wake home) fun k' stays => ?_
        exact (rest stays.core).mono fun k'' more => stays.trans more
    · exact ⟨core, rfl, rfl⟩

theorem Core.wakeUpTask (t : L4id) (flags : WakeupFlags) : Keeps on k Prod.fst (wakeUpTask t flags k) := by
  unfold Kernel.wakeUpTask wakeUpTaskTake
  cases home : (k.tcb t).waitingOn with
  | none => exact ⟨core, rfl, rfl⟩
  | some q => exact Sat.bind (core.wake home).resume fun k' stays => stays

/-- A thread that is not active stands nowhere, and may be resumed. -/
theorem Core.schedResumeAsync (inactive : (k.tcb t).state = .inactive) : Keeps on k id (schedResumeAsync t k) := by
  have busy : t ≠ k.sched.idleTask := by
    rintro rfl
    exact nomatch inactive.symm.trans core.idle_awake.1
  have free : (k.tcb t).waitingOn = none := core.awake (by simp [inactive])
  have entry := core.entry t
  rw [free] at entry
  exact core.resume busy (by simp [inactive]) ⟨core.waits, rfl, rfl, ⟨free, entry⟩, fun _ _ => rfl⟩

/-! ## Suspending -/

theorem Core.schedSuspend (busy : k.current ≠ k.sched.idleTask)
    (runnable : (k.tcb k.current).state = .runnable) : Keeps on k id (schedSuspend k) := by
  obtain ⟨i, linked⟩ := Option.ne_none_iff_exists'.mp ((core.running k.current busy).mpr runnable)
  obtain ⟨σ, removed, queues, same⟩ := schedRqRemoveTask_ok core.rqs linked
  have home : σ.taskRq = update k.sched.taskRq k.current none := congrArg Queues.home queues
  have free : (k.tcb k.current).waitingOn = none := core.awake (by simp [runnable])
  have entry := core.entry k.current
  rw [free] at entry
  have stays : Stays on k { k.modify k.current (fun c =>
      { c with state := .inactive, flags := { c.flags with suspending := false } }) with sched := σ } := by
    refine core.move busy ⟨?_, ?_, ?_, same, fun i => ?_, ?_, ?_, fun u apart => ⟨?_, ?_⟩, rfl⟩
    · have waits := waits_modify (t := k.current) (k := k) (f := fun c =>
        { c with state := .inactive, flags := { c.flags with suspending := false } }) rfl
      exact waits ▸ core.waits
    · simp [free, entry]
    · change σ.queues.Wf
      rw [queues]; exact core.rqs.remove linked
    · simp [home]
    · simp [home]
    · simp [free]
    · simp [home, apart]
    · simp [apart]
  unfold Kernel.schedSuspend
  simp only [removed, bind, Except.bind]
  split
  · exact stays
  · exact Sat.bind (stays.core.wakeUp (.pager k.current) {}) fun r more => stays.trans more

/-! ## IPC and mutexes -/

omit core in
/-- The exchange at a rendezvous stops at no check of the queues, and touches no place. -/
theorem ipcExchange_sat (access : Access) (dest source sleeper : L4id) (k : State) :
    Sat (ipcExchange access dest source sleeper k)
      (fun r => r.1.waits = k.waits ∧ r.1.sched = k.sched ∧ r.1.current = k.current ∧
        ∀ u, (r.1.tcb u).place = (k.tcb u).place) (fun b => b.ofQueues = false) := by
  cases exchanged : ipcExchange access dest source sleeper k with
  | error b =>
    unfold ipcExchange ipcSignalError at exchanged
    simp only at exchanged
    split at exchanged
    · split_ifs at exchanged
      · cases exchanged; rfl
      · cases exchanged
      · cases exchanged
    · cases exchanged
  | ok r =>
    obtain ⟨k', ret⟩ := r
    obtain ⟨c', copied, _, _, rfl⟩ := ipcExchange_ok exchanged
    have only := copied.only
    rw [CopyOnly] at only
    have places : ∀ u, ((((k.modify dest fun _ => c').modify sleeper fun c =>
        { c with ipcFlags := signalled ret c.ipcFlags })).tcb u).place = (k.tcb u).place := by
      intro u
      have copied : ((k.modify dest fun _ => c').tcb u).place = (k.tcb u).place := by
        rw [State.modify_tcb]
        split
        · next same => rw [same, only]; rfl
        · rfl
      rw [State.modify_tcb]
      split
      · rw [← copied]; rfl
      · exact copied
    exact ⟨waits_congr rfl fun u => congrArg (·.2.1) (places u), rfl, rfl, places⟩

theorem Core.ipcSend (access : Access) (dest : L4id) (sleeper : k.present dest = true → ¬ recvReady dest k.current k →
      k.current ≠ k.sched.idleTask ∧ (k.tcb k.current).state = .runnable) : Keeps on k Prod.fst (ipcSend access dest k) := by
  unfold Kernel.ipcSend
  split_ifs with absent ready
  · exact ⟨core, rfl, rfl⟩
  · have home : (k.tcb dest).waitingOn = some (.recv dest) := ready.2.1
    refine Sat.bind (ipcExchange_sat access dest k.current dest _) fun r exchanged => ?_
    obtain ⟨waits, sched, current, places⟩ := exchanged
    refine Sat.bind (core.resume (core.busy_of_waiting home) (by simp [core.asleep home])
      (core.loose home waits sched current places)) fun k' stays => ?_
    exact stays
  · obtain ⟨busy, runnable⟩ := sleeper (by simpa using absent) ready
    exact Sat.bind (core.waitOnPrepare _ busy runnable) fun k' stays => stays

theorem Core.ipcRecv (access : Access) (source : L4id)
    (sleeper : recvFound source k = none → k.current ≠ k.sched.idleTask ∧ (k.tcb k.current).state = .runnable) :
    Keeps on k Prod.fst (ipcRecv access source k) := by
  have expects : Core on (expecting source k) := core.modify k.current rfl
  unfold Kernel.ipcRecv
  split
  · next broken =>
    have full : (k.wqh (.send k.current)).taskList ≠ [] := core.waits.count_pos_iff.mp broken.1
    exact absurd broken.2 full
  · split
    · next t found =>
      have mem : t ∈ (k.wqh (.send k.current)).taskList := by
        unfold recvFound at found
        split_ifs at found
        exact List.mem_of_find?_eq_some found
      have home : ((expecting source k).tcb t).waitingOn = some (.send k.current) :=
        (expects.waits.mem_iff (.send k.current) t).mp mem
      refine Sat.bind (ipcExchange_sat access k.current t t _) fun r exchanged => ?_
      obtain ⟨waits, sched, current, places⟩ := exchanged
      have woken : Keeps on (expecting source k) id (schedResume true t r.1) :=
        (expects.resume (expects.busy_of_waiting home) (by simp [expects.asleep home])
          (expects.loose home waits sched current places)).resume
      exact Sat.bind woken fun k' stays => ⟨stays.core, stays.current, stays.idleTask⟩
    · next alone =>
      obtain ⟨busy, runnable⟩ := sleeper alone
      refine Sat.bind (expects.waitOnPrepare (.recv k.current) busy ?_)
        fun k' stays => ⟨stays.core, stays.current, stays.idleTask⟩
      simpa [expecting] using runnable

theorem Core.addLocks (d : Int) : Core on (addLocks d k) := core.modify k.current rfl

theorem Core.mutexLock (m : Nat)
    (sleeper : k.lock m = true → k.current ≠ k.sched.idleTask ∧ (k.tcb k.current).state = .runnable) :
    Keeps on k Prod.fst (mutexLock m k) := by
  have swapped : Core on (swpLock m k).1 := core.same rfl rfl fun _ => rfl
  unfold Kernel.mutexLock
  split
  · next k1 got =>
    have same : k1 = (swpLock m k).1 := congrArg Prod.fst got.symm
    subst same
    exact ⟨swapped.addLocks 1, rfl, rfl⟩
  · next k1 missed =>
    have same : k1 = (swpLock m k).1 := congrArg Prod.fst missed.symm
    have taken : k.lock m = true := by simpa [swpLock] using congrArg Prod.snd missed
    subst same
    obtain ⟨busy, runnable⟩ := sleeper taken
    exact Sat.bind (swapped.waitOnPrepare (.mutex m) busy runnable)
      fun k' stays => ⟨stays.core, stays.current, stays.idleTask⟩

theorem Core.mutexUnlock (m : Nat) (sync : Bool) : Keeps on k Prod.fst (mutexUnlockCommon m sync k) := by
  unfold mutexUnlockCommon mutexUnlockTake swpUnlock
  split
  · have cleared : Core on { k with lock := update k.lock m false } := core.same rfl rfl fun _ => rfl
    have counted := cleared.addLocks (-1)
    revert counted
    generalize start : Kernel.addLocks (-1) { k with lock := update k.lock m false } = k1
    intro counted
    have current : k1.current = k.current := by rw [← start]; rfl
    have idleTask : k1.sched.idleTask = k.sched.idleTask := by rw [← start]; rfl
    have positive : 0 ≤ (k1.wqh (.mutex m)).sleepers := counted.waits.count_nonneg (i := Wqh.mutex m)
    simp only [bind, Except.bind, start, mutexPick]
    split
    · next stopped =>
      split_ifs at stopped
      · cases stopped; rfl
      · omega
      · next sleeping =>
        have full : (k1.wqh (.mutex m)).taskList ≠ [] := counted.waits.count_pos_iff.mp sleeping
        split at stopped
        · next empty => exact absurd empty full
        · cases stopped
    · next picked =>
      split_ifs at picked
      · next sleeping =>
        split at picked
        · cases picked
        · next t _ list =>
          cases picked
          have home : (k1.tcb t).waitingOn = some (.mutex m) :=
            counted.waits.home_of_mem (i := Wqh.mutex m) (show t ∈ (k1.wqh (.mutex m)).taskList by simp [list])
          refine Sat.bind (counted.wake home).resume fun k' stays => ?_
          exact ⟨stays.core, stays.current.trans current, stays.idleTask.trans idleTask⟩
      · cases picked
        exact ⟨counted, current, idleTask⟩
  · exact rfl

/-! ## `schedule()` -/

theorem Core.iff {on' : Prop} (same : on ↔ on') : Core on' k :=
  { core with idle := core.idle.trans same }

/-- A change of the scheduler outside the queues, up to swapping the two in use. -/
theorem Core.resched {σ : Scheduler} (queues : σ.queues = k.sched.queues) (idleTask : σ.idleTask = k.sched.idleTask)
    (pair : (σ.rqRunnable = k.sched.rqRunnable ∧ σ.rqExpired = k.sched.rqExpired) ∨
      (σ.rqRunnable = k.sched.rqExpired ∧ σ.rqExpired = k.sched.rqRunnable)) : Core on { k with sched := σ } := by
  have home : σ.taskRq = k.sched.taskRq := congrArg Queues.home queues
  refine ⟨core.waits, core.entry, queues ▸ core.rqs, ?_, fun t i => ?_, ?_, ?_, ?_, ?_⟩
  · rcases pair with ⟨first, second⟩ | ⟨first, second⟩
    · rw [first, second]; exact core.two
    · rw [first, second]; exact core.two.symm
  · rw [home]
    rcases pair with ⟨first, second⟩ | ⟨first, second⟩
    · rw [first, second]; exact core.used t i
    · rw [first, second]; exact fun linked => (core.used t i linked).symm
  · rw [idleTask, home]; exact core.running
  · rw [idleTask]; exact core.waiting
  · rw [idleTask, home]; exact core.idle
  · rw [idleTask]; exact core.idle_awake

/-- The idle task moves into or out of a runqueue. -/
theorem Core.idleMoves {on' : Prop} {σ : Scheduler} (rqs : σ.queues.Wf) (same : k.sched.Same σ)
    (others : ∀ u, u ≠ k.sched.idleTask → σ.taskRq u = k.sched.taskRq u)
    (used : ∀ i, σ.taskRq k.sched.idleTask = some i → i = k.sched.rqRunnable ∨ i = k.sched.rqExpired)
    (idle : σ.taskRq k.sched.idleTask ≠ none ↔ on') : Core on' { k with sched := σ } := by
  refine ⟨core.waits, core.entry, rqs, ?_, fun t i => ?_, fun t => ?_, ?_, ?_, ?_⟩
  · rw [same.runnable, same.expired]; exact core.two
  · rw [same.runnable, same.expired]
    by_cases self : t = k.sched.idleTask
    · rw [self]; exact used i
    · rw [others t self]; exact core.used t i
  · rw [same.idleTask]
    intro busy
    rw [others t busy]; exact core.running t busy
  · rw [same.idleTask]; exact core.waiting
  · rw [same.idleTask]; exact idle
  · rw [same.idleTask]; exact core.idle_awake

omit core in
/-- After a current has left the front of its queue, the idle task is in none. -/
theorem Core.scheduleRequeue (core : Core (k.current = k.sched.idleTask) k) :
    Sat (scheduleRequeue k) (fun k' => Stays False k k') (fun b => b.ofQueues = false) := by
  unfold Kernel.scheduleRequeue
  split
  · next runnable =>
    have linked : k.sched.taskRq k.current ≠ none := by
      by_cases idling : k.current = k.sched.idleTask
      · rw [idling]; exact core.idle.mpr idling
      · exact (core.running k.current idling).mpr runnable
    obtain ⟨i, linked⟩ := Option.ne_none_iff_exists'.mp linked
    obtain ⟨σ, removed, queues, same⟩ := schedRqRemoveTask_ok core.rqs linked
    have home : σ.taskRq = update k.sched.taskRq k.current none := congrArg Queues.home queues
    have rqs : σ.queues.Wf := queues ▸ core.rqs.remove linked
    simp only [removed, bind, Except.bind, same.idleTask]
    split
    · next idling =>
      refine ⟨core.idleMoves rqs same (fun u busy => ?_) ?_ ?_, rfl, same.idleTask⟩
      · rw [home, idling, update_of_ne busy]
      · simp [home, idling]
      · simp [home, idling]
    · next busy =>
      have off : σ.taskRq k.current = none := by simp [home]
      have away : Core False k := core.iff (by simp [busy])
      obtain ⟨σ', added, queues', same'⟩ := schedRqAddTask_ok (s := σ) (t := k.current)
        (i := if (k.tcb k.current).ticksLeft ≠ 0 then σ.rqRunnable else σ.rqExpired) false rqs off
      have home' : σ'.taskRq = update σ.taskRq k.current
        (some (if (k.tcb k.current).ticksLeft ≠ 0 then σ.rqRunnable else σ.rqExpired)) := congrArg Queues.home queues'
      rw [added]
      have free : (k.tcb k.current).waitingOn = none := core.awake (by simp [runnable])
      refine away.move (t := k.current) busy ⟨core.waits, core.entry k.current, ?_, ?_, fun j => ?_, ?_, ?_, fun u apart => ?_, rfl⟩
      · change σ'.queues.Wf
        rw [queues']; exact rqs.insert false off
      · exact ⟨same'.runnable.trans same.runnable, same'.expired.trans same.expired, same'.idleTask.trans same.idleTask⟩
      · rw [home', same.runnable, same.expired, update_self, Option.some.injEq]
        split
        · exact fun eq => .inl eq.symm
        · exact fun eq => .inr eq.symm
      · simp [home', runnable]
      · simp [free, runnable]
      · rw [home', home]
        simp [apart]
  · next asleep =>
    have busy : k.current ≠ k.sched.idleTask := by
      intro idling
      exact asleep (idling ▸ core.idle_awake.1)
    exact ⟨core.iff (by simp [busy]), rfl, rfl⟩

theorem Core.scheduleWakePending : Keeps on k id (scheduleWakePending k) := by
  unfold Kernel.scheduleWakePending
  split
  · exact Sat.bind (core.wakeUpTask k.current { interrupt := true }) fun r stays => stays
  · exact ⟨core, rfl, rfl⟩

theorem Core.scheduleSuspendPending (inUser : Bool)
    (kernelOnly : inUser = true → k.current ≠ k.sched.idleTask) : Keeps on k id (scheduleSuspendPending inUser k) := by
  unfold Kernel.scheduleSuspendPending
  split
  · next pending =>
    obtain ⟨_, runnable, user⟩ := pending
    refine Sat.bind (core.schedSuspend (kernelOnly user) runnable) fun k' stays => ?_
    exact ⟨stays.core.modify k'.current rfl, stays.current, stays.idleTask⟩
  · exact ⟨core, rfl, rfl⟩

theorem Core.scheduleRunIdle : Stays on k (scheduleRunIdle k) := by
  unfold Kernel.scheduleRunIdle
  split
  · have touched : Core on (k.modify k.current fun c => { c with flags := { c.flags with exited := false } }) :=
      core.modify k.current rfl
    exact ⟨touched.resched rfl rfl (.inl ⟨rfl, rfl⟩), rfl, rfl⟩
  · exact ⟨core, rfl, rfl⟩

/-- A runqueue that counts someone has a first thread. -/
theorem Core.schedSelectNext (irq : Bool) : Keeps on k Prod.snd (schedSelectNext irq k) := by
  unfold Kernel.schedSelectNext
  simp only
  split_ifs with hint runnable expired irq'
  · exact ⟨core, rfl, rfl⟩
  · have full : (k.sched.schedRq k.sched.rqRunnable).taskList ≠ [] := core.rqs.count_pos_iff.mp runnable
    split
    · exact ⟨core, rfl, rfl⟩
    · next empty => exact absurd empty full
  · have full : (k.sched.schedRq k.sched.rqExpired).taskList ≠ [] := core.rqs.count_pos_iff.mp expired
    rw [schedRqSwapQueues, if_neg full]
    simp only [bind, Except.bind]
    split
    · exact ⟨core.resched rfl rfl (.inr ⟨rfl, rfl⟩), rfl, rfl⟩
    · next empty => exact absurd empty full
  · exact ⟨core, rfl, rfl⟩
  · exact ⟨core, rfl, rfl⟩

omit core in
theorem refillTicks_sat (zero : Bool) (c : Ktcb) (n : Nat) :
    Sat (refillTicks zero c n) (fun c' => c'.place = c.place) (fun b => b.ofQueues = false) := by
  unfold refillTicks schedRecalcTicks
  split_ifs <;> exact rfl

omit core in
/-- The next thread is prepared, and the idle task enters a runqueue if it is the one. -/
theorem Core.schedPrepareNext (core : Core False k) (next : L4id) :
    Sat (schedPrepareNext next k) (fun k' => Core (next = k.sched.idleTask) k' ∧ k'.sched.idleTask = k.sched.idleTask)
      (fun b => b.ofQueues = false) := by
  refine Sat.bind (refillTicks_sat _ _ _) fun c place => ?_
  have prepared : Core False (k.modify next fun _ => { c with schedGranule := schedGranularity }) :=
    core.modify next place
  unfold addIdle
  split
  · next idling =>
    have off : k.sched.taskRq k.sched.idleTask = none := by
      by_contra linked
      exact core.idle.mp linked
    obtain ⟨σ, added, queues, same⟩ := schedRqAddTask_ok (i := k.sched.rqRunnable) true core.rqs (idling ▸ off)
    have home : σ.taskRq = update k.sched.taskRq next (some k.sched.rqRunnable) := congrArg Queues.home queues
    simp only [added, bind, Except.bind]
    refine ⟨prepared.idleMoves ?_ same (fun u busy => ?_) (fun i => ?_) ?_, same.idleTask⟩
    · rw [queues]; exact core.rqs.insert true (idling ▸ off)
    · rw [home, idling]
      exact update_of_ne busy _ _
    · simp only [home, idling, State.modify_sched, update_self, Option.some.injEq]
      exact fun eq => .inl eq.symm
    · simp [home, idling]
  · next busy => exact ⟨prepared.iff (by simp [busy]), rfl⟩

omit core in
/-- **`schedule()` keeps waiting and running apart**, from process or irq context. -/
theorem Exclusive.schedule (exclusive : Exclusive k) (irq inUser : Bool)
    (kernelOnly : inUser = true → k.current ≠ k.sched.idleTask) :
    Sat (schedule irq inUser k) Exclusive (fun b => b.ofQueues = false) := by
  unfold Kernel.schedule
  split
  · exact rfl
  · have touched : Core (k.current = k.sched.idleTask) (k.modify k.current fun c => { c with tsNeedResched := false }) :=
      Core.modify exclusive k.current rfl
    refine Sat.bind (Core.scheduleRequeue touched) fun k1 requeued => ?_
    refine Sat.bind requeued.core.scheduleWakePending fun k2 woken => ?_
    have first := requeued.trans woken
    refine Sat.bind (first.core.scheduleSuspendPending inUser ?_) fun k3 suspended => ?_
    · rw [first.current, first.idleTask]; exact kernelOnly
    have second := (first.trans suspended).trans suspended.core.scheduleRunIdle
    refine Sat.bind (second.core.schedSelectNext irq) fun r selected => ?_
    refine Sat.bind (selected.core.schedPrepareNext r.1) fun k4 prepared => ?_
    obtain ⟨core, idleTask⟩ := prepared
    rw [← idleTask] at core
    exact Core.same core rfl rfl fun _ => rfl

end

end Codezero.Kernel
