import Codezero.Kernel.Children
import Codezero.Kernel.SchedRuns

/-!
# Timeslices

A thread's ticks are counted down by the timer, divided when the thread is copied, and refilled when the scheduler picks
it with none left. Everything else leaves ticks and priorities alone. `schedule()` has preemption disabled but not irqs,
up to the switch, so timer ticks come in between its parts.
-/

namespace Codezero.Kernel
open Codezero.Lib

/-! ## What leaves the timeslices alone -/

/-- What the scheduler counts of a thread. -/
def Ktcb.slice (c : Ktcb) : Nat × Nat := (c.ticksLeft, c.priority)

/-- The same ticks and priorities all round. -/
structure SameSlices (k k' : State) : Prop where
  slice : ∀ t, (k'.tcb t).slice = (k.tcb t).slice
  prioTotal : k'.sched.prioTotal = k.sched.prioTotal

/-- The checks of ticks and priorities. -/
def Bug.ofSlices : Bug → Bool
  | .ticksLeft | .prioTotal => true
  | _ => false

/-- A computation from `k` leaves the timeslices alone and stops at no check of them. -/
def Leaves {α : Type} (k : State) (out : α → State) (m : Except Bug α) : Prop :=
  Sat m (fun a => SameSlices k (out a)) (fun b => b.ofSlices = false)

section
variable {s : Scheduler} {k k1 k' k'' : State} {t : L4id} {q : Wqh}

theorem SameSlices.refl : SameSlices k k := ⟨fun _ => rfl, rfl⟩

theorem SameSlices.trans (first : SameSlices k k') (second : SameSlices k' k'') : SameSlices k k'' :=
  ⟨fun t => (second.slice t).trans (first.slice t), second.prioTotal.trans first.prioTotal⟩

/-- A write to a control block outside its timeslice. -/
theorem SameSlices.modify (f : Ktcb → Ktcb) (same : (f (k.tcb t)).slice = (k.tcb t).slice) : SameSlices k (k.modify t f) := by
  refine ⟨fun u => ?_, rfl⟩
  rw [State.modify_tcb]
  split
  · next self => rw [self]; exact same
  · rfl

theorem SameSlices.sched (same : SameSlices k k') (total : s.prioTotal = k.sched.prioTotal) : SameSlices k { k' with sched := s } :=
  ⟨same.slice, total⟩

theorem Leaves.after {α : Type} {out : α → State} {m : Except Bug α} (first : SameSlices k k1) (leaves : Leaves k1 out m) :
    Leaves k out m := Sat.mono leaves fun _ same => first.trans same

theorem total_schedRqAddTask (t : L4id) (i : RqId) (front : Bool) (s : Scheduler) :
    Sat (schedRqAddTask t i front s) (fun s' => s'.prioTotal = s.prioTotal) (fun b => b.ofSlices = false) := by
  unfold schedRqAddTask
  split <;> exact rfl

theorem total_schedRqRemoveTask (t : L4id) (s : Scheduler) :
    Sat (schedRqRemoveTask t s) (fun s' => s'.prioTotal = s.prioTotal) (fun b => b.ofSlices = false) := by
  unfold schedRqRemoveTask
  split
  · exact rfl
  · split
    · exact rfl
    · split <;> exact rfl

theorem leaves_schedResumeAsync (t : L4id) (k : State) : Leaves k id (schedResumeAsync t k) :=
  Sat.bind (total_schedRqAddTask _ _ _ _) fun _ total =>
    (SameSlices.modify (fun c => { c with state := .runnable }) rfl).sched total

theorem leaves_schedResume (sync : Bool) (t : L4id) (k : State) : Leaves k id (schedResume sync t k) := by
  unfold schedResume schedResumeSync
  split_ifs
  · exact rfl
  · exact leaves_schedResumeAsync t k
  · exact leaves_schedResumeAsync t k

theorem sameSlices_wqhTake (q : Wqh) (t : L4id) (i : Bool) (k : State) : SameSlices k (wqhTake q t i k) := by
  have unset : SameSlices (wqhRemove q t k) (taskUnsetWqh t (wqhRemove q t k)) := .modify _ rfl
  have removed : SameSlices k (wqhRemove q t k) := ⟨fun _ => rfl, rfl⟩
  exact (removed.trans unset).trans (.modify _ rfl)

theorem leaves_wakeUp (q : Wqh) (flags : WakeupFlags) (k : State) : Leaves k Prod.fst (wakeUp q flags k) := by
  unfold wakeUp
  split_ifs
  · exact rfl
  · split
    · exact rfl
    · exact Sat.bind ((leaves_schedResume _ _ _).after (sameSlices_wqhTake ..)) fun _ same => same
  · exact SameSlices.refl

theorem leaves_wakeUpTask (t : L4id) (flags : WakeupFlags) (k : State) : Leaves k Prod.fst (wakeUpTask t flags k) := by
  unfold wakeUpTask wakeUpTaskTake
  cases (k.tcb t).waitingOn with
  | none => exact SameSlices.refl
  | some q => exact Sat.bind ((leaves_schedResume _ _ _).after (sameSlices_wqhTake ..)) fun _ same => same

theorem leaves_schedSuspend (k : State) : Leaves k id (schedSuspend k) := by
  refine Sat.bind (total_schedRqRemoveTask _ _) fun s total => ?_
  have suspended : SameSlices k { k.modify k.current (fun c =>
      { c with state := .inactive, flags := { c.flags with suspending := false } }) with sched := s } :=
    (SameSlices.modify _ rfl).sched total
  dsimp only
  split_ifs
  · exact suspended
  · exact Sat.bind ((leaves_wakeUp _ _ _).after suspended) fun _ same => same

theorem leaves_schedSuspendAsync (k : State) : Leaves k id (schedSuspendAsync k) :=
  Sat.bind (leaves_schedSuspend k) fun _ same => same.trans (.modify _ rfl)

/-! ## The parts of `schedule()` -/

/-- The ticks that a refill gives. -/
def assigned (c : Ktcb) (prioTotal : Nat) : Nat := configSchedTicks * c.priority / prioTotal

theorem leaves_scheduleRequeue (k : State) : Leaves k id (scheduleRequeue k) := by
  unfold scheduleRequeue
  split
  · refine Sat.bind (total_schedRqRemoveTask _ _) fun s removed => ?_
    split
    · exact SameSlices.refl.sched removed
    · exact Sat.bind (total_schedRqAddTask _ _ _ _) fun s' added => SameSlices.refl.sched (added.trans removed)
  · exact SameSlices.refl

theorem leaves_scheduleWakePending (k : State) : Leaves k id (scheduleWakePending k) := by
  unfold scheduleWakePending
  split_ifs
  · exact Sat.bind (leaves_wakeUpTask _ _ _) fun _ same => same
  · exact SameSlices.refl

theorem leaves_scheduleSuspendPending (inUser : Bool) (k : State) : Leaves k id (scheduleSuspendPending inUser k) := by
  unfold scheduleSuspendPending
  split_ifs
  · exact leaves_schedSuspendAsync k
  · exact SameSlices.refl

theorem sameSlices_scheduleRunIdle (k : State) : SameSlices k (scheduleRunIdle k) := by
  unfold scheduleRunIdle
  split
  · exact (SameSlices.modify _ rfl).sched rfl
  · exact .refl

theorem leaves_schedSelectNext (irq : Bool) (k : State) : Leaves k Prod.snd (schedSelectNext irq k) := by
  unfold schedSelectNext
  dsimp only
  split_ifs
  · exact SameSlices.refl
  · split
    · exact SameSlices.refl
    · exact rfl
  · unfold schedRqSwapQueues
    split_ifs
    · exact rfl
    · dsimp only [bind, Except.bind]
      split
      · exact ⟨fun _ => rfl, rfl⟩
      · exact rfl
  · exact SameSlices.refl
  · exact SameSlices.refl

/-- A thread found without ticks is refilled. -/
theorem sat_prepareNext (zero : Bool) (next : L4id) (k : State) :
    Sat (prepareNext zero next k) (fun k' => k'.sched.prioTotal = k.sched.prioTotal ∧
      (∀ t, (k'.tcb t).priority = (k.tcb t).priority) ∧
      ∀ t, (k'.tcb t).ticksLeft = if zero = true ∧ t = next then assigned (k.tcb next) k.sched.prioTotal else (k.tcb t).ticksLeft)
      (fun b => b.ofSlices = false ∨ k.sched.prioTotal < (k.tcb next).priority ∨ k.sched.prioTotal = 0) := by
  have ticks : Sat (refillTicks zero { k.tcb next with flags := { (k.tcb next).flags with resuming := false } } k.sched.prioTotal)
      (fun c => c.slice = (if zero then assigned (k.tcb next) k.sched.prioTotal else (k.tcb next).ticksLeft, (k.tcb next).priority))
      (fun _ => k.sched.prioTotal < (k.tcb next).priority ∨ k.sched.prioTotal = 0) := by
    unfold refillTicks schedRecalcTicks
    split_ifs with test beyond none
    · exact .inl beyond
    · exact .inr none
    · exact rfl
    · exact rfl
  have idle : Sat (addIdle next k.sched) (fun s => s.prioTotal = k.sched.prioTotal) (fun b => b.ofSlices = false) := by
    unfold addIdle
    split
    · exact total_schedRqAddTask _ _ _ _
    · exact rfl
  refine Sat.bind (ticks.weaken fun _ => .inr) fun c slice => Sat.bind (idle.weaken fun _ => .inl) fun s total => ⟨total, fun t => ?_, fun t => ?_⟩
  all_goals
    by_cases self : t = next
    · subst self
      simp_all [Ktcb.slice]
    · simp [self]

end

/-! ## Ticks, creation and scheduling -/

namespace Timeslice

/-- Where `schedule()` stands: in front of which of its parts, or behind the last. -/
inductive Phase
  | out
  | requeue
  | wakePending
  | suspendPending
  | select
  | test (next : L4id)
  | refill (next : L4id) (zero : Bool)
  | prepared (next : L4id)

/-- A cpu, with the call of `schedule()` that is under way. -/
structure Cpu where
  k : State
  phase : Phase := .out
  irq : Bool := false
  inUser : Bool := false

/-- The last is whatever else the kernel does that leaves ticks and priorities alone. -/
inductive Event
  | tick (quiet : Bool)
  | schedule (irq inUser : Bool)
  | go
  | archSetupNewThread (t : L4id) (orig : Option L4id) (flags : Word) (inSyscall : Bool)
  | other (k : State)

/-- The first statements of `schedule()`. -/
def enter (irq inUser : Bool) (s : Cpu) : Except Bug Cpu :=
  if (s.k.tcb s.k.current).ticksLeft > configSchedTicks then .error .ticksLeft
  else pure ⟨s.k.modify s.k.current fun c => { c with tsNeedResched := false }, .requeue, irq, inUser⟩

/-- The next part of `schedule()`. -/
def go (s : Cpu) : Except Bug Cpu :=
  match s.phase with
  | .out => pure s
  | .requeue => do
    let k ← scheduleRequeue s.k
    pure { s with k := k, phase := .wakePending }
  | .wakePending => do
    let k ← scheduleWakePending s.k
    pure { s with k := k, phase := .suspendPending }
  | .suspendPending => do
    let k ← scheduleSuspendPending s.inUser s.k
    pure { s with k := scheduleRunIdle k, phase := .select }
  | .select => do
    let r ← schedSelectNext s.irq s.k
    pure { s with k := r.2, phase := .test r.1 }
  | .test next => pure { s with phase := .refill next (decide ((s.k.tcb next).ticksLeft = 0)) }
  | .refill next zero => do
    let k ← prepareNext zero next s.k
    pure { s with k := k, phase := .prepared next }
  | .prepared next => pure { s with k := { s.k with current := next }, phase := .out }

def step (s : Cpu) : Event → Except Bug Cpu
  | .tick quiet => do
    let k ← SchedRuns.updateProcessTimes quiet s.k
    pure { s with k := k }
  | .schedule irq inUser => enter irq inUser s
  | .go => go s
  | .archSetupNewThread t orig flags inSyscall => do
    let k ← Children.archSetupNewThread t orig flags inSyscall s.k
    pure { s with k := k }
  | .other k => pure { s with k := k }

/-- `schedule()` is not preempted: only irqs come in between its parts, and their ticks are quiet. -/
def enabled (s : Cpu) : Event → Prop
  | .tick quiet => s.phase ≠ .out → quiet = true
  | .schedule _ _ | .archSetupNewThread _ _ _ _ => s.phase = .out
  | .go => s.phase ≠ .out
  | .other k => SameSlices s.k k

def machine : Machine Cpu Event Bug := ⟨enabled, step⟩

/-- The next parts of `schedule()`, with nothing in between. -/
def goes : Nat → Cpu → Except Bug Cpu
  | 0, s => pure s
  | n + 1, s => go s >>= goes n

theorem goes_eq_schedule (irq inUser : Bool) (k : State) : (enter irq inUser ⟨k, .out, irq, inUser⟩ >>= goes 7) =
    schedule irq inUser k >>= fun k => pure ⟨k, .out, irq, inUser⟩ := by
  unfold enter schedule
  split_ifs
  · rfl
  · simp only [goes, go, schedPrepareNext, bind_assoc, pure_bind]

theorem reaches_goes {cond : Cpu → Event → Prop} {a s s' : Cpu} (quiet : ∀ s, cond s .go) {n : Nat}
    (reached : machine.ReachesUnder cond a s) (ok : goes n s = .ok s') : machine.ReachesUnder cond a s' := by
  induction n generalizing s with
  | zero => cases ok; exact reached
  | succ n rest =>
    obtain ⟨s1, went, ok⟩ := bind_eq_ok.mp ok
    by_cases out : s.phase = .out
    · rw [go, out] at went
      cases went
      exact rest reached ok
    · exact rest (reached.next (e := Event.go) out (quiet s) went) ok

/-- Every thread's priority is part of the total, which is no more than the ticks there are to give. -/
structure Shared (k : State) : Prop where
  positive : ∀ t, 1 ≤ (k.tcb t).priority
  part : ∀ t, (k.tcb t).priority ≤ k.sched.prioTotal
  total : k.sched.prioTotal ≤ configSchedTicks

/-- No thread has more ticks than there are. -/
def Within (k : State) : Prop := ∀ t, (k.tcb t).ticksLeft ≤ configSchedTicks

/-- The thread that has been chosen, from the test of its ticks on. -/
def Phase.chosen : Phase → Option L4id
  | .refill next _ | .prepared next => some next
  | _ => none

/-- No tick takes the last tick of the thread chosen. -/
def Careful (s : Cpu) : Event → Prop
  | .tick _ => s.phase.chosen = some s.k.current → (s.k.tcb s.k.current).ticksLeft ≠ 1
  | _ => True

/-- The thread chosen has a tick, or is about to be refilled. -/
def Phase.Ready (k : State) : Phase → Prop
  | .refill next zero => zero = false → 1 ≤ (k.tcb next).ticksLeft
  | .prepared next => 1 ≤ (k.tcb next).ticksLeft
  | _ => True

section
variable {s s' : Cpu} {k k' : State} {t : L4id}

theorem Shared.congr (shared : Shared k) (priority : ∀ t, (k'.tcb t).priority = (k.tcb t).priority)
    (total : k'.sched.prioTotal = k.sched.prioTotal) : Shared k' :=
  ⟨fun t => by rw [priority]; exact shared.positive t, fun t => by rw [priority, total]; exact shared.part t, by rw [total]; exact shared.total⟩

theorem Shared.some (shared : Shared k) : 0 < k.sched.prioTotal := lt_of_lt_of_le (shared.positive 0) (shared.part 0)

/-- A refill gives at least one tick and no more than there are. -/
theorem Shared.assigned (shared : Shared k) (t : L4id) :
    1 ≤ assigned (k.tcb t) k.sched.prioTotal ∧ assigned (k.tcb t) k.sched.prioTotal ≤ configSchedTicks := by
  unfold Kernel.assigned
  constructor
  · rw [Nat.one_le_div_iff shared.some]
    exact le_trans shared.total (Nat.le_mul_of_pos_right _ (shared.positive t))
  · exact Nat.div_le_of_le_mul (by rw [Nat.mul_comm]; exact Nat.mul_le_mul_right _ (shared.part t))

/-- The ticks of a thread are divided with its copy. -/
theorem Shared.setup {orig : Option L4id} {flags : Word} {inSyscall : Bool} (shared : Shared k) (within : Within k)
    (ok : Children.archSetupNewThread t orig flags inSyscall k = .ok k') : Shared k' ∧ Within k' := by
  unfold Children.archSetupNewThread at ok
  split at ok
  · split at ok
    · exact nomatch ok
    · cases ok; exact ⟨shared, within⟩
  · split at ok
    · exact nomatch ok
    · next o =>
      split at ok
      · cases ok
        have bound := within o
        have given : ((k.tcb o).ticksLeft + 1) / 2 ≤ configSchedTicks := by omega
        have kept : (if (k.tcb o).ticksLeft / 2 = 0 then 1 else (k.tcb o).ticksLeft / 2) ≤ configSchedTicks := by
          unfold configSchedTicks at bound ⊢
          split <;> omega
        refine ⟨shared.congr (fun u => ?_) rfl, fun u => ?_⟩
        · rw [State.modify_tcb, State.modify_tcb]
          split_ifs <;> rfl
        · rw [State.modify_tcb]
          split
          · exact kept
          · rw [State.modify_tcb]
            split
            · exact given
            · exact within u
      · cases ok; exact ⟨shared, within⟩

structure Sound (s : Cpu) : Prop where
  shared : Shared s.k
  within : Within s.k
  ready : s.phase.Ready s.k

/-- A part that leaves the timeslices alone. -/
theorem Sound.same {phase : Phase} {irq inUser : Bool} (sound : Sound s) (same : SameSlices s.k k') (ready : phase.Ready k') :
    Sound ⟨k', phase, irq, inUser⟩ := by
  refine ⟨sound.shared.congr (fun t => congrArg Prod.snd (same.slice t)) same.prioTotal, fun t => ?_, ready⟩
  exact (congrArg Prod.fst (same.slice t)).trans_le (sound.within t)

theorem Sound.go (sound : Sound s) : Sat (go s) Sound (fun b => b.ofSlices = false) := by
  obtain ⟨k, phase, irq, inUser⟩ := s
  cases phase with
  | out => exact sound
  | requeue => exact Sat.bind (leaves_scheduleRequeue k) fun _ same => sound.same same trivial
  | wakePending => exact Sat.bind (leaves_scheduleWakePending k) fun _ same => sound.same same trivial
  | suspendPending =>
    exact Sat.bind (leaves_scheduleSuspendPending inUser k) fun k' same => sound.same (same.trans (sameSlices_scheduleRunIdle k')) trivial
  | select => exact Sat.bind (leaves_schedSelectNext irq k) fun _ same => sound.same same trivial
  | test next => exact ⟨sound.shared, sound.within, fun more => Nat.one_le_iff_ne_zero.mpr (of_decide_eq_false more)⟩
  | refill next zero =>
    refine Sat.bind ((sat_prepareNext zero next k).weaken fun b beyond => beyond.resolve_right ?_) ?_
    · have part := sound.shared.part next
      have some := sound.shared.some
      dsimp only at part some
      omega
    · rintro k' ⟨total, priority, ticks⟩
      obtain ⟨least, most⟩ := sound.shared.assigned next
      refine ⟨sound.shared.congr priority total, fun t => ?_, ?_⟩
      · change (k'.tcb t).ticksLeft ≤ _
        rw [ticks]
        split
        · exact most
        · exact sound.within t
      · change 1 ≤ (k'.tcb next).ticksLeft
        rw [ticks]
        split
        · exact least
        · next other => exact sound.ready (by simpa using other)
  | prepared next => exact ⟨sound.shared.congr (fun _ => rfl) rfl, sound.within, trivial⟩

theorem Sound.tick {quiet : Bool} (sound : Sound s) (careful : Careful s (.tick quiet))
    (ok : SchedRuns.updateProcessTimes quiet s.k = .ok k') : Sound { s with k := k' } := by
  unfold SchedRuns.updateProcessTimes at ok
  split_ifs at ok with zero
  · cases ok; exact sound
  · cases ok
    refine ⟨sound.shared.congr (fun t => ?_) rfl, fun t => ?_, ?_⟩
    · rw [State.modify_tcb]; split <;> rfl
    · have bound := sound.within t
      rw [State.modify_tcb]
      split
      · next self => subst self; dsimp only; omega
      · exact bound
    -- the tick is charged to the thread chosen only if that has another
    · have kept : ∀ next, s.phase.chosen = some next → 1 ≤ (s.k.tcb next).ticksLeft →
          1 ≤ ((s.k.modify s.k.current fun c => { c with
            ticksLeft := (s.k.tcb s.k.current).ticksLeft - 1
            schedGranule := ((s.k.tcb s.k.current).schedGranule + (2 ^ 32 - 1)) % 2 ^ 32
            tsNeedResched := c.tsNeedResched || (s.k.tcb s.k.current).ticksLeft - 1 == 0 ||
              ((s.k.tcb s.k.current).schedGranule + (2 ^ 32 - 1)) % 2 ^ 32 == 0 }).tcb next).ticksLeft := by
        intro next chosen some
        rw [State.modify_tcb]
        split
        · next self =>
          subst self
          have another := careful chosen
          dsimp only
          omega
        · exact some
      have ready := sound.ready
      revert ready kept
      cases s.phase with
      | refill next zero => exact fun kept ready found => kept next rfl (ready found)
      | prepared next => exact fun kept ready => kept next rfl ready
      | _ => exact fun _ _ => trivial

theorem Sound.enter (sound : Sound s) (irq inUser : Bool) : Sat (enter irq inUser s) Sound (fun b => b.ofSlices = false) := by
  unfold Timeslice.enter
  rw [if_neg (not_lt.mpr (sound.within s.k.current))]
  exact sound.same (.modify _ rfl) trivial

theorem Sound.step {e : Event} (sound : Sound s) (able : enabled s e) (careful : Careful s e) (ok : step s e = .ok s') : Sound s' := by
  cases e with
  | tick quiet =>
    obtain ⟨k', counted, ok⟩ := bind_eq_ok.mp ok
    cases ok
    exact sound.tick careful counted
  | schedule irq inUser => exact (sound.enter irq inUser).ok ok
  | go => exact sound.go.ok ok
  | archSetupNewThread t orig flags inSyscall =>
    obtain ⟨k', divided, ok⟩ := bind_eq_ok.mp ok
    cases ok
    obtain ⟨shared, within⟩ := sound.shared.setup sound.within divided
    have out : s.phase = .out := able
    refine ⟨shared, within, ?_⟩
    rw [out]
    trivial
  | other k' =>
    cases ok
    refine sound.same able ?_
    have ready := sound.ready
    have ticks : ∀ t, (k'.tcb t).ticksLeft = (s.k.tcb t).ticksLeft := fun t => congrArg Prod.fst (able.slice t)
    revert ready
    cases s.phase with
    | refill next zero => exact fun ready found => (ready found).trans_eq (ticks next).symm
    | prepared next => exact fun ready => Nat.le_trans ready (ticks next).ge
    | _ => exact fun _ => trivial

/-- Every thread's ticks are within bounds, the one that `schedule()` has prepared to run next has at least one, and no check of
ticks or priorities in it fires. -/
structure Kept (s : Cpu) : Prop where
  within : ∀ t, (s.k.tcb t).ticksLeft ≤ configSchedTicks
  next : ∀ next, s.phase = .prepared next → 1 ≤ (s.k.tcb next).ticksLeft
  checks : ∀ b, (go s = .error b ∨ ∃ irq inUser, enter irq inUser s = .error b) → b ≠ .ticksLeft ∧ b ≠ .prioTotal

theorem timeslice_bounds (shared : Shared k) (within : Within k) (reached : machine.ReachesUnder Careful ⟨k, .out, false, false⟩ s) : Kept s := by
  have sound : Sound s := reached.invariant (I := Sound) (fun _ _ _ sound able careful ok => sound.step able careful ok)
    (show Sound ⟨k, .out, false, false⟩ from ⟨shared, within, trivial⟩)
  refine ⟨sound.within, fun next prepared => ?_, fun b stopped => ?_⟩
  · have ready := sound.ready
    rw [prepared] at ready
    exact ready
  · have other : b.ofSlices = false := by
      rcases stopped with stopped | ⟨irq, inUser, stopped⟩
      · exact sound.go.error stopped
      · exact (sound.enter irq inUser).error stopped
    constructor <;> rintro rfl <;> cases other

end

/-- Threads of priority 4 out of 30, of which thread 1 runs and has one tick left. -/
def lastTick (ready : List L4id) : State where
  tcb t := { state := if ready.contains t then .runnable else .inactive, priority := 4, ticksLeft := if t = 1 then 1 else 0 }
  sched := .ready ready
  current := 1

theorem lastTick_bounds (ready : List L4id) : Shared (lastTick ready) ∧ Within (lastTick ready) := by
  refine ⟨⟨fun t => ?_, fun t => ?_, ?_⟩, fun t => ?_⟩
  · exact show 1 ≤ 4 by decide
  · exact show 4 ≤ 30 by decide
  · exact show 30 ≤ 1000 by decide
  · change (if t = 1 then 1 else 0) ≤ 1000
    split <;> decide

/-- Thread 1 uses up its tick and expires; thread 2 is given its slice and uses one. -/
theorem timeslice_bounds_expires : ∃ s, machine.ReachesUnder Careful ⟨lastTick [1, 2], .out, false, false⟩ s ∧ s.k.current = 2 ∧
    (s.k.tcb 2).ticksLeft = 132 ∧ Kept s := by
  have used : machine.ReachesUnder Careful ⟨lastTick [1, 2], .out, false, false⟩ _ :=
    .next (e := Event.tick false) .start (absurd rfl) (fun chosen => by cases chosen) rfl
  have called := used.next (e := Event.schedule true true) rfl trivial rfl
  have expired := reaches_goes (n := 7) (fun _ => trivial) called rfl
  have ran := expired.next (e := Event.tick false) (absurd rfl) (fun chosen => by cases chosen) rfl
  exact ⟨_, ran, rfl, rfl, timeslice_bounds (lastTick_bounds _).1 (lastTick_bounds _).2 ran⟩

/-- A timer irq behind the test of its ticks takes the last one of the thread chosen. It goes on without, and the next irq of
the timer stops the kernel. -/
theorem chosen_without_ticks : Shared (lastTick [1]) ∧ Within (lastTick [1]) ∧
    ∃ s s', machine.Reaches ⟨lastTick [1], .out, false, false⟩ s ∧ s.phase = .prepared 1 ∧ (s.k.tcb 1).ticksLeft = 0 ∧
      go s = .ok s' ∧ step s' (.tick false) = .error .ticksLeft := by
  have called : machine.Reaches ⟨lastTick [1], .out, false, false⟩ _ := .next (e := Event.schedule false false) .start rfl trivial rfl
  have tested := reaches_goes (n := 5) (fun _ => trivial) called rfl
  have ticked := tested.next (e := Event.tick true) (fun _ => rfl) trivial rfl
  exact ⟨(lastTick_bounds _).1, (lastTick_bounds _).2, _, _, reaches_goes (n := 1) (fun _ => trivial) ticked rfl, rfl, rfl, rfl, rfl⟩

end Timeslice

end Codezero.Kernel
