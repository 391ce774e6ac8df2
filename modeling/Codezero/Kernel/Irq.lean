import Codezero.Kernel.Settles

/-!
# Irqs and the threads that wait for them

An irq adds one to a notification slot of the registered thread's utcb and wakes up one waiter of the irq's queue.
A waiter looks at the slot in its own utcb. Registering for an irq sets up its queue anew, whoever stands in it.
-/

namespace Codezero.Kernel.Irq
open Codezero.Lib
open IpcRuns (Settles settles_wakeUp take_state wakeUp_ok)
open Function (update update_of_ne update_self)

/-! ## The model -/

def enoirq : Int := -137
def irqsMax : L4id := 64
def taskNotifyMaxvalue : BitVec 8 := 255

/-- `TASK_NOTIFY_SLOTS`. -/
def taskNotifySlots : Nat := 8

structure IrqDesc where
  task : Option L4id := none
  taskNotifySlot : Word := 0
  /-- The kernel has a handler and a chip for it. -/
  wired : Bool := false
  /-- `waitqueue_head_init` has run on its queue. -/
  ready : Bool := false

/-- The queue `wqh_irq` of a descriptor. -/
def wqhIrq (irq : L4id) : Wqh := .other irq.toNat

/-- The kernel with its irq descriptors, the memory that holds the threads' notification slots, and their `utcb_address`. `inWait` is the irq of an `irq_wait`
that has not returned; the last three fields record the irqs delivered to each thread, the counts returned to it,
and whether a slot came to its highest value. -/
structure Irqs where
  k : State
  desc : L4id → IrqDesc := fun _ => {}
  notify : Word → BitVec 8 := fun _ => 0
  utcb : L4id → Word := fun t => t <<< 8
  inWait : L4id → Option L4id := fun _ => none
  delivered : L4id → L4id → Nat := fun _ _ => 0
  returned : L4id → L4id → Nat := fun _ _ => 0
  peaked : Bool := false

namespace Irqs

def slot (s : Irqs) (irq : L4id) : Word := (s.desc irq).taskNotifySlot

/-- `&utcb->notify[slot]` in the utcb of `t`. The slot is not checked. -/
def notifyAt (s : Irqs) (t : L4id) (slot : Word) : Word := s.utcb t + 32 + slot

/-- `utcb->notify[desc->task_notify_slot]` in the utcb of `t`. -/
def count (s : Irqs) (t irq : L4id) : BitVec 8 := s.notify (s.notifyAt t (s.slot irq))

def setCount (t irq : L4id) (v : BitVec 8) (s : Irqs) : Irqs :=
  { s with notify := update s.notify (s.notifyAt t (s.slot irq)) v }

/-- Thread `t` runs. -/
def enter (t : L4id) (s : Irqs) : Irqs := { s with k := { s.k with current := t } }

end Irqs

/-- `irq_register`; `irq_enable` is in that the irq can now be delivered. -/
def irqRegister (t : L4id) (notifySlot : Word) (irq : L4id) (s : Irqs) : Irqs × Int :=
  if (s.desc irq).wired = false then (s, enoirq)
  else if irq > irqsMax then (s, enoirq)
  else
    ({ s with
        desc := update s.desc irq { s.desc irq with task := some t, taskNotifySlot := notifySlot, ready := true }
        k := s.k.setWqh (wqhIrq irq) {} }, 0)

/-- `irq_control_register`; `utcb` is the answer of `tcb_check_and_lazy_map_utcb`. -/
def irqControlRegister (t : L4id) (notifySlot : Word) (irq : L4id) (utcb : Int) (s : Irqs) : Irqs × Int :=
  if utcb < 0 then (s, utcb) else irqRegister t notifySlot irq s

/-- The increment of `irq_thread_notify`. -/
def irqNotify (t irq : L4id) (s : Irqs) : Irqs :=
  if s.count t irq ≠ taskNotifyMaxvalue then s.setCount t irq (s.count t irq + 1) else s

/-- `irq_thread_notify`. Where the utcb is gone it destroys the task, which stops at a `BUG()` unless the interrupted
thread is the task or its pager, and goes on to the utcb all the same. -/
def irqThreadNotify (irq : L4id) (utcb : Int) (s : Irqs) : Except Bug Irqs :=
  match (s.desc irq).task with
  | none => .error .nullPointer
  | some t =>
    if utcb < 0 then .error .nullPointer
    else do
      let s := irqNotify t irq s
      let (k, _) ← wakeUp (wqhIrq irq) {} s.k
      pure { s with k := k }

/-- A turn of the loop of `irq_wait`, and the read that ends it: the count, unless the thread went to sleep. A queue
that was never set up has no links to insert at. -/
def irqWaitTurn (t irq : L4id) (s : Irqs) : Except Bug (Irqs × Option Nat) :=
  if s.count t irq ≠ 0 then pure (s.setCount t irq 0, some (s.count t irq).toNat)
  else if (s.desc irq).ready = false then .error .nullPointer
  else do
    let (k, _) ← waitOn (wqhIrq irq) s.k
    pure ({ s with k := k }, none)

/-- The events of a run: a thread registers, begins to wait or runs on after a wake-up, and an irq comes in. -/
inductive Event
  | register (t : L4id) (notifySlot : Word) (irq : L4id) (utcb : Int)
  | wait (t irq : L4id) (utcb : Int)
  | resume (t : L4id)
  | irq (irq : L4id) (utcb : Int)

def enabled (s : Irqs) : Event → Prop
  | .register t _ _ _ | .wait t _ _ => (s.k.tcb t).state = .runnable ∧ s.inWait t = none
  | .resume t => (s.k.tcb t).state = .runnable ∧ (s.inWait t).isSome = true
  | .irq irq _ => (s.desc irq).task.isSome = true

instance (s : Irqs) : (e : Event) → Decidable (enabled s e)
  | .register t _ _ _ => inferInstanceAs (Decidable ((s.k.tcb t).state = .runnable ∧ s.inWait t = none))
  | .wait t _ _ => inferInstanceAs (Decidable ((s.k.tcb t).state = .runnable ∧ s.inWait t = none))
  | .resume t => inferInstanceAs (Decidable ((s.k.tcb t).state = .runnable ∧ (s.inWait t).isSome = true))
  | .irq irq _ => inferInstanceAs (Decidable ((s.desc irq).task.isSome = true))

/-- The end of a turn, for the record. -/
def Irqs.record (t irq : L4id) (s : Irqs) : Option Nat → Irqs
  | none => { s with inWait := update s.inWait t (some irq) }
  | some n =>
    { s with
      inWait := update s.inWait t none
      returned := update s.returned t (update (s.returned t) irq (s.returned t irq + n)) }

def Irqs.turn (t irq : L4id) (s : Irqs) : Except Bug Irqs := do
  let (s, count) ← irqWaitTurn t irq s
  pure (s.record t irq count)

/-- The irq went to `t`, for the record. -/
def Irqs.deliver (t irq : L4id) (s : Irqs) : Irqs :=
  { s with
    delivered := update s.delivered t (update (s.delivered t) irq (s.delivered t irq + 1))
    peaked := s.peaked || s.count t irq = taskNotifyMaxvalue }

def step (s : Irqs) : Event → Except Bug Irqs
  | .register t notifySlot irq utcb => pure (irqControlRegister t notifySlot irq utcb (s.enter t)).1
  | .wait t irq utcb => if irq > irqsMax ∨ utcb < 0 then pure (s.enter t) else (s.enter t).turn t irq
  | .resume t =>
    match s.inWait t with
    | none => pure s
    | some irq =>
      match waitReturn t (s.enter t).k with
      | (k, code) =>
        if code < 0 then pure { s with k := k, inWait := update s.inWait t none }
        else Irqs.turn t irq { s with k := k }
  | .irq irq utcb => do
    let s' ← irqThreadNotify irq utcb s
    pure (match (s.desc irq).task with
      | none => s'
      | some t => s'.deliver t irq)

def machine : Machine Irqs Event Bug := ⟨enabled, step⟩

instance (s : Irqs) (e : Event) : Decidable (machine.enabled s e) := inferInstanceAs (Decidable (enabled s e))

/-! ## What holds in orderly runs -/

/-- The count in the slot of the registered thread. -/
def Irqs.pending (s : Irqs) (t irq : L4id) : Nat := if (s.desc irq).task = some t then (s.count t irq).toNat else 0

/-- Only the registered thread sleeps on an irq, with its slot at zero; every irq has a slot of its own, and a slot without
an irq is zero; every irq was counted. -/
structure Sound (s : Irqs) : Prop where
  wf : s.k.waits.Wf
  asleep : ∀ t q, (s.k.tcb t).waitingOn = some q → (s.k.tcb t).state = .sleeping
  drained : ∀ t irq, (s.k.tcb t).waitingOn = some (wqhIrq irq) → (s.desc irq).task = some t ∧ s.count t irq = 0
  apart : ∀ t u m n, (s.desc m).task = some t → (s.desc n).task = some u →
    s.notifyAt t (s.slot m) = s.notifyAt u (s.slot n) → m = n
  unused : ∀ a, (∀ n u, (s.desc n).task = some u → s.notifyAt u (s.slot n) ≠ a) → s.notify a = 0
  counted : s.peaked = false → ∀ t irq, s.returned t irq + s.pending t irq = s.delivered t irq

/-- Nobody registers for an irq while a thread waits for it, with a slot that the utcb does not have or that another irq uses,
or where the last holder has irqs to collect (but with the same slot again it may); and only the registered thread waits. -/
def Orderly (s : Irqs) : Event → Prop
  | .register t notifySlot irq utcb => 0 ≤ utcb → (s.desc irq).wired = true → irq ≤ irqsMax →
      (s.k.wqh (wqhIrq irq)).taskList = [] ∧ notifySlot.toNat < taskNotifySlots ∧
        (∀ n u, n ≠ irq → (s.desc n).task = some u → s.notifyAt u (s.slot n) ≠ s.notifyAt t notifySlot) ∧
        ((s.desc irq).task = some t ∧ s.slot irq = notifySlot ∨ ∀ u, (s.desc irq).task = some u → s.count u irq = 0)
  | .wait t irq utcb => 0 ≤ utcb → irq ≤ irqsMax → (s.desc irq).task = some t
  | .resume t => ∀ irq, s.inWait t = some irq → (s.desc irq).task = some t
  | .irq _ _ => True

section
variable {s s' : Irqs} {t u irq m n : L4id} {v : BitVec 8} {k k' : State}

variable {q : Wqh} {utcb : Int} {notifySlot : Word} {e : Event}

theorem wqhIrq_inj (same : wqhIrq m = wqhIrq n) : m = n := BitVec.eq_of_toNat_eq (Wqh.other.inj same)

@[simp] theorem setCount_desc : (s.setCount t irq v).desc = s.desc := rfl
@[simp] theorem setCount_slot : (s.setCount t irq v).slot = s.slot := rfl

theorem update_entry {α β γ : Type} [DecidableEq α] [DecidableEq β] (f : α → β → γ) (a a' : α) (b b' : β) (v : γ) :
    update f a (update (f a) b v) a' b' = if a' = a ∧ b' = b then v else f a' b' := by
  by_cases row : a' = a
  · subst row
    by_cases column : b' = b
    · subst column; simp
    · simp [column]
  · simp [row]

theorem setCount_count : (s.setCount t irq v).count u m =
    if s.notifyAt u (s.slot m) = s.notifyAt t (s.slot irq) then v else s.count u m :=
  Function.update_apply ..

/-- With slots apart, setting a registered thread's count touches no other irq's. -/
theorem Sound.setCount_pending (sound : Sound s) (task : (s.desc irq).task = some t) :
    (s.setCount t irq v).pending u m = if u = t ∧ m = irq then v.toNat else s.pending u m := by
  simp only [Irqs.pending, setCount_count, setCount_desc]
  by_cases self : u = t ∧ m = irq
  · obtain ⟨rfl, rfl⟩ := self
    simp [task]
  · rw [if_neg self]
    by_cases holds : (s.desc m).task = some u
    · have other : s.notifyAt u (s.slot m) ≠ s.notifyAt t (s.slot irq) := fun same => by
        obtain rfl := sound.apart u t m irq holds task same
        exact self ⟨Option.some.inj (holds.symm.trans task), rfl⟩
      rw [if_neg other]
    · simp [holds]

/-- A registered thread's count changes; a thread asleep on the irq keeps it at zero. -/
theorem Sound.recount (sound : Sound s) (task : (s.desc irq).task = some t)
    (asleep : (s.k.tcb t).waitingOn = some (wqhIrq irq) → v = 0)
    (k : s'.k = s.k) (desc : s'.desc = s.desc) (utcb : s'.utcb = s.utcb) (notify : s'.notify = (s.setCount t irq v).notify)
    (counted : s'.peaked = false → ∀ u m, s'.returned u m + (s.setCount t irq v).pending u m = s'.delivered u m) : Sound s' := by
  have slot : s'.slot = s.slot := by unfold Irqs.slot; rw [desc]
  have place : s'.notifyAt = s.notifyAt := by unfold Irqs.notifyAt; rw [utcb]
  have count : ∀ u m, s'.count u m = (s.setCount t irq v).count u m := fun u m => by
    rw [Irqs.count, notify, slot, place]
    rfl
  constructor
  · rw [k]; exact sound.wf
  · rw [k]; exact sound.asleep
  · intro u m home
    rw [k] at home
    obtain ⟨holds, zero⟩ := sound.drained u m home
    rw [desc, count, setCount_count]
    refine ⟨holds, ?_⟩
    split_ifs with same
    · obtain rfl := sound.apart u t m irq holds task same
      obtain rfl := Option.some.inj (holds.symm.trans task)
      exact asleep home
    · exact zero
  · rw [desc, slot, place]; exact sound.apart
  · intro a idle
    rw [desc, slot, place] at idle
    rw [notify]
    exact (update_of_ne (idle irq t task).symm ..).trans (sound.unused a idle)
  · intro low u m
    have same : s'.pending u m = (s.setCount t irq v).pending u m := by
      rw [Irqs.pending, Irqs.pending, count]
      exact if_congr (by rw [desc, setCount_desc]) rfl rfl
    rw [same, counted low u m]

/-- Threads may wake up and run. -/
theorem Sound.settles (sound : Sound s) (settles : Settles s.k k') : Sound { s with k := k' } where
  wf := settles.wf sound.wf
  asleep u q home := by
    obtain ⟨before, state, -⟩ := settles.still u q home
    exact state.trans (sound.asleep u q before)
  drained u m home := sound.drained u m (settles.still u _ home).1
  apart := sound.apart
  unused := sound.unused
  counted := sound.counted

theorem Sound.enter (sound : Sound s) : Sound (s.enter t) := sound.settles ⟨id, fun _ _ home => ⟨home, rfl, rfl⟩, fun _ => rfl⟩

theorem Sound.awake (sound : Sound s) (running : (s.k.tcb t).state = .runnable) : (s.k.tcb t).waitingOn = none := by
  by_contra waiting
  obtain ⟨q, home⟩ := Option.ne_none_iff_exists'.mp waiting
  rw [sound.asleep t q home] at running
  exact nomatch running

/-- A turn of `irq_wait` takes the count, or finds none and sleeps. -/
theorem turn_cases (current : s.k.current = t) (ok : s.turn t irq = .ok s') :
    (s.count t irq ≠ 0 ∧ s' = (s.setCount t irq 0).record t irq (some (s.count t irq).toNat)) ∨
      (s.count t irq = 0 ∧ ∃ σ, s' = Irqs.record t irq { s with k := slept t (wqhIrq irq) s.k σ } none) := by
  obtain ⟨⟨s1, c⟩, turn, ok⟩ := bind_eq_ok.mp ok
  cases ok
  unfold irqWaitTurn at turn
  split_ifs at turn with some unready
  · cases turn
    exact .inl ⟨some, rfl⟩
  · obtain ⟨⟨k1, exit⟩, slept, turn⟩ := bind_eq_ok.mp turn
    cases turn
    obtain ⟨k2, prepared, slept⟩ := bind_eq_ok.mp slept
    cases slept
    obtain ⟨σ, -, rfl⟩ := waitOnPrepare_ok.mp prepared
    exact .inr ⟨by simpa using some, σ, by rw [current]; rfl⟩

theorem Sound.turn (sound : Sound s) (current : s.k.current = t) (running : (s.k.tcb t).state = .runnable)
    (task : (s.desc irq).task = some t) (ok : s.turn t irq = .ok s') : Sound s' := by
  have free := sound.awake running
  rcases turn_cases current ok with ⟨-, rfl⟩ | ⟨zero, σ, rfl⟩
  · refine sound.recount task (fun _ => rfl) rfl rfl rfl rfl fun low u m => ?_
    have before := sound.counted low u m
    have returned : ((s.setCount t irq 0).record t irq (some (s.count t irq).toNat)).returned u m =
      if u = t ∧ m = irq then s.returned t irq + (s.count t irq).toNat else s.returned u m := update_entry ..
    rw [sound.setCount_pending task, returned]
    split_ifs with self
    · obtain ⟨rfl, rfl⟩ := self
      rw [Irqs.pending, if_pos task] at before
      exact before
    · exact before
  · constructor
    · change (slept t (wqhIrq irq) s.k σ).waits.Wf
      rw [slept_waits]
      exact sound.wf.insert false free
    · intro u q home
      change ((slept t (wqhIrq irq) s.k σ).tcb u).waitingOn = some q at home
      change ((slept t (wqhIrq irq) s.k σ).tcb u).state = .sleeping
      by_cases self : u = t
      · subst self; rw [slept_tcb_self]
      · rw [slept_tcb_of_ne self] at home ⊢
        exact sound.asleep u q home
    · intro u m home
      change ((slept t (wqhIrq irq) s.k σ).tcb u).waitingOn = _ at home
      by_cases self : u = t
      · subst self
        rw [slept_tcb_self] at home
        obtain rfl := wqhIrq_inj (Option.some.inj home)
        exact ⟨task, zero⟩
      · rw [slept_tcb_of_ne self] at home
        exact sound.drained u m home
    · exact sound.apart
    · exact sound.unused
    · exact sound.counted

/-- After `wake_up` on a queue that only `t` can stand in, `t` does not. -/
theorem wakeUp_sole {exit : Exit} (wf : k.waits.Wf) (sole : ∀ u, (k.tcb u).waitingOn = some q → u = t)
    (ok : wakeUp q {} k = .ok (k', exit)) : (k'.tcb t).waitingOn ≠ some q := by
  rcases wakeUp_ok ok with ⟨none, rfl⟩ | ⟨u, rest, queue, resumed⟩
  · intro home
    have mem : t ∈ (k'.wqh q).taskList := (wf.mem_iff q t).mpr home
    have some : 0 < (k'.wqh q).sleepers := wf.count_pos_iff.mpr (List.ne_nil_of_mem mem)
    omega
  · have mem : u ∈ (k.wqh q).taskList := by simp [queue]
    obtain rfl := sole u ((wf.mem_iff q u).mp mem)
    rw [(take_state resumed).2.2]
    simp

/-- An irq adds to the registered thread's count and wakes up one waiter. -/
theorem irq_cases (ok : step s (.irq irq utcb) = .ok s') : ∃ t k' exit, (s.desc irq).task = some t ∧
    wakeUp (wqhIrq irq) {} s.k = .ok (k', exit) ∧ s' = Irqs.deliver t irq { irqNotify t irq s with k := k' } := by
  obtain ⟨s1, notified, ok⟩ := bind_eq_ok.mp ok
  unfold irqThreadNotify at notified
  cases task : (s.desc irq).task with
  | none =>
    rw [task] at notified
    exact nomatch notified
  | some t =>
    rw [task] at notified ok
    cases ok
    dsimp only at notified
    split at notified
    · exact nomatch notified
    · obtain ⟨⟨k', exit⟩, woken, notified⟩ := bind_eq_ok.mp notified
      cases notified
      have same : (irqNotify t irq s).k = s.k := by unfold irqNotify; split_ifs <;> rfl
      rw [same] at woken
      exact ⟨t, k', exit, rfl, woken, rfl⟩

theorem Sound.notified (sound : Sound s) (ok : step s (.irq irq utcb) = .ok s') : Sound s' := by
  obtain ⟨t, k', exit, task, woken, rfl⟩ := irq_cases ok
  have settled := sound.settles (settles_wakeUp woken)
  have away : (k'.tcb t).waitingOn ≠ some (wqhIrq irq) := by
    refine wakeUp_sole sound.wf (fun u home => ?_) woken
    exact Option.some.inj ((sound.drained u irq home).1.symm.trans task)
  by_cases low : s.count t irq = taskNotifyMaxvalue
  · -- nothing is added, and the record says so
    have full : irqNotify t irq s = s := if_neg (not_not.mpr low)
    rw [full]
    refine settled.recount (v := s.count t irq) task (fun home => absurd home away) rfl rfl rfl ?_ fun peaked => ?_
    · exact (Function.update_eq_self ..).symm
    · simp [Irqs.deliver, show ({ s with k := k' } : Irqs).count t irq = taskNotifyMaxvalue from low] at peaked
  · have added : irqNotify t irq s = s.setCount t irq (s.count t irq + 1) := if_pos low
    rw [added]
    refine settled.recount (v := s.count t irq + 1) task (fun home => absurd home away) rfl rfl rfl rfl fun peaked u m => ?_
    have before := settled.counted (Bool.or_eq_false_iff.mp peaked).1 u m
    have delivered : (Irqs.deliver t irq { s.setCount t irq (s.count t irq + 1) with k := k' }).delivered u m =
      if u = t ∧ m = irq then s.delivered t irq + 1 else s.delivered u m := update_entry ..
    rw [settled.setCount_pending task, delivered]
    split_ifs with self
    · obtain ⟨rfl, rfl⟩ := self
      have next : (s.count u m + 1).toNat = (s.count u m).toNat + 1 := by
        have : (s.count u m).toNat ≠ 255 := fun max => low (BitVec.eq_of_toNat_eq max)
        have := (s.count u m).isLt
        rw [BitVec.toNat_add]
        change ((s.count u m).toNat + 1) % 256 = _
        omega
      rw [Irqs.pending, if_pos task] at before
      change s.returned u m + _ = _
      rw [next, ← before]
      rfl
    · exact before

theorem setWqh_empty (wf : k.waits.Wf) (empty : (k.wqh q).taskList = []) : (k.setWqh q {}).waits = k.waits := by
  refine waits_congr ?_ fun _ => rfl
  have none : k.wqh q = {} := by
    have count : (k.wqh q).sleepers = (k.wqh q).taskList.length := wf.count_eq q
    cases head : k.wqh q with
    | mk sleepers taskList => simp_all
  funext r
  by_cases same : r = q
  · subst same; simp [none]
  · simp [same]

/-- A slot that no other irq uses is zero if this one's use of it is. -/
theorem Sound.unused_but (sound : Sound s) {a : Word} (others : ∀ n u, n ≠ irq → (s.desc n).task = some u → s.notifyAt u (s.slot n) ≠ a)
    (own : ∀ u, (s.desc irq).task = some u → s.notifyAt u (s.slot irq) = a → s.count u irq = 0) : s.notify a = 0 := by
  by_cases used : ∃ u, (s.desc irq).task = some u ∧ s.notifyAt u (s.slot irq) = a
  · obtain ⟨u, task, rfl⟩ := used
    exact own u task rfl
  · refine sound.unused a fun n u task same => ?_
    by_cases self : n = irq
    · subst self
      exact used ⟨u, task, same⟩
    · exact others n u self task same

/-- The descriptor after a registration. -/
def registered (s : Irqs) (t : L4id) (notifySlot : Word) (irq : L4id) : Irqs :=
  { s with
    desc := update s.desc irq { s.desc irq with task := some t, taskNotifySlot := notifySlot, ready := true }
    k := s.k.setWqh (wqhIrq irq) {} }

theorem registered_self : ((registered s t notifySlot irq).desc irq).task = some t ∧
    (registered s t notifySlot irq).slot irq = notifySlot := by
  simp [registered, Irqs.slot]

theorem registered_of_ne (other : n ≠ irq) : (registered s t notifySlot irq).desc n = s.desc n ∧
    (registered s t notifySlot irq).slot n = s.slot n := by
  simp [registered, Irqs.slot, other]

theorem Sound.registered (sound : Sound s) (empty : (s.k.wqh (wqhIrq irq)).taskList = [])
    (others : ∀ n u, n ≠ irq → (s.desc n).task = some u → s.notifyAt u (s.slot n) ≠ s.notifyAt t notifySlot)
    (held : (s.desc irq).task = some t ∧ s.slot irq = notifySlot ∨ ∀ u, (s.desc irq).task = some u → s.count u irq = 0) :
    Sound (registered s t notifySlot irq) := by
  have waits : (Irq.registered s t notifySlot irq).k.waits = s.k.waits := setWqh_empty sound.wf empty
  obtain ⟨task, slot⟩ := @registered_self s t irq notifySlot
  constructor
  · rw [waits]; exact sound.wf
  · exact sound.asleep
  · intro u m home
    have mem : u ∈ (s.k.wqh (wqhIrq m)).taskList := (sound.wf.mem_iff _ u).mpr home
    have other : m ≠ irq := by
      rintro rfl
      rw [empty] at mem
      exact nomatch mem
    obtain ⟨desc, slot⟩ := @registered_of_ne s t irq m notifySlot other
    rw [desc, Irqs.count, slot]
    exact sound.drained u m home
  · intro u w m n first second same
    by_cases left : m = irq <;> by_cases right : n = irq
    · rw [left, right]
    · obtain ⟨desc, slot'⟩ := @registered_of_ne s t irq n notifySlot right
      subst left
      obtain rfl := Option.some.inj (task.symm.trans first)
      rw [slot, slot'] at same
      exact absurd same.symm (others n w right (desc ▸ second))
    · obtain ⟨desc, slot'⟩ := @registered_of_ne s t irq m notifySlot left
      subst right
      obtain rfl := Option.some.inj (task.symm.trans second)
      rw [slot, slot'] at same
      exact absurd same (others m u left (desc ▸ first))
    · obtain ⟨descM, slotM⟩ := @registered_of_ne s t irq m notifySlot left
      obtain ⟨descN, slotN⟩ := @registered_of_ne s t irq n notifySlot right
      rw [slotM, slotN] at same
      exact sound.apart u w m n (descM ▸ first) (descN ▸ second) same
  · intro a idle
    refine sound.unused_but (fun n u (other : n ≠ irq) holds => ?_) fun u holds same => ?_
    · obtain ⟨desc, slot'⟩ := @registered_of_ne s t irq n notifySlot other
      exact slot' ▸ idle n u (desc ▸ holds)
    · rcases held with ⟨again, old⟩ | drained
      · obtain rfl := Option.some.inj (again.symm.trans holds)
        rw [old] at same
        exact absurd same (slot ▸ idle irq t task)
      · exact drained u holds
  · intro low u m
    have before := sound.counted low u m
    suffices same : (Irq.registered s t notifySlot irq).pending u m = s.pending u m by rw [same]; exact before
    by_cases self : m = irq
    · subst self
      simp only [Irqs.pending, Irqs.count, task, slot]
      rcases held with ⟨again, old⟩ | drained
      · rw [again, old]
        rfl
      · have none : (if (s.desc m).task = some u then (s.notify (s.notifyAt u (s.slot m))).toNat else 0) = 0 := by
          split_ifs with holds
          · rw [show s.notify (s.notifyAt u (s.slot m)) = 0 from drained u holds]; rfl
          · rfl
        rw [none]
        split_ifs with holds
        · obtain rfl := Option.some.inj holds
          rw [show (Irq.registered s t notifySlot m).notify ((Irq.registered s t notifySlot m).notifyAt t notifySlot) = 0 from
            sound.unused_but others fun u task _ => drained u task]
          rfl
        · rfl
    · obtain ⟨desc, slot'⟩ := @registered_of_ne s t irq m notifySlot self
      simp only [Irqs.pending, Irqs.count, slot']
      exact if_congr (by rw [desc]) rfl rfl

theorem Sound.register (sound : Sound s) (orderly : Orderly s (.register t notifySlot irq utcb)) :
    Sound (irqControlRegister t notifySlot irq utcb (s.enter t)).1 := by
  unfold irqControlRegister irqRegister
  split_ifs with gone unwired far
  · exact sound.enter
  · exact sound.enter
  · exact sound.enter
  · obtain ⟨empty, -, others, held⟩ := orderly (by omega) (by simpa [Irqs.enter] using unwired) (by simpa using far)
    exact sound.enter.registered empty others held

theorem waitReturn_settles (t : L4id) (k : State) : Settles k (waitReturn t k).1 ∧ (waitReturn t k).1.current = k.current ∧
    ((waitReturn t k).1.tcb t).state = (k.tcb t).state := by
  unfold waitReturn
  split
  · exact ⟨.modify (fun c => { c with flags := { c.flags with interrupted := false } }) rfl rfl (fun _ => ⟨rfl, rfl⟩) rfl rfl,
      rfl, by simp⟩
  · exact ⟨.refl, rfl, rfl⟩

/-- What a run preserves: an orderly step of a sound state is sound. -/
theorem Sound.step (sound : Sound s) (able : enabled s e) (orderly : Orderly s e) (ok : step s e = .ok s') : Sound s' := by
  cases e with
  | register t notifySlot irq utcb =>
    cases ok
    exact sound.register orderly
  | wait t irq utcb =>
    simp only [Irq.step] at ok
    split_ifs at ok with refused
    · cases ok
      exact sound.enter
    · obtain ⟨low, mapped⟩ := not_or.mp refused
      exact sound.enter.turn rfl able.1 (orderly (by omega) (by simpa using low)) ok
  | resume t =>
    obtain ⟨running, inside⟩ := able
    obtain ⟨irq, inside⟩ := Option.isSome_iff_exists.mp inside
    simp only [Irq.step, inside] at ok
    obtain ⟨settles, current, state⟩ := waitReturn_settles t (s.enter t).k
    have returned := sound.enter.settles settles
    split at ok
    · cases ok
      exact ⟨returned.wf, returned.asleep, returned.drained, returned.apart, returned.unused, returned.counted⟩
    · exact returned.turn current (state.trans running) (orderly irq inside) ok
  | irq irq utcb => exact sound.notified ok

/-- The registered thread does not sleep on a count, no waiter is forgotten, and the counts add up. -/
structure Kept (s : Irqs) : Prop where
  woken : ∀ t irq, (s.desc irq).task = some t → (s.k.tcb t).waitingOn = some (wqhIrq irq) → s.count t irq = 0
  remembered : ∀ irq, (s.k.wqh (wqhIrq irq)).sleepers = ({t | (s.k.tcb t).waitingOn = some (wqhIrq irq)} : Set L4id).ncard
  summed : s.peaked = false → ∀ t irq, (s.desc irq).task = some t →
    s.returned t irq + (s.count t irq).toNat = s.delivered t irq

theorem sleepers_eq_ncard (wf : k.waits.Wf) :
    (k.wqh q).sleepers = ({t | (k.tcb t).waitingOn = some q} : Set L4id).ncard := by
  have same : ({t | (k.tcb t).waitingOn = some q} : Set L4id) = ((k.wqh q).taskList.toFinset : Set L4id) := by
    ext t
    rw [List.coe_toFinset]
    exact (wf.mem_iff q t).symm
  have nodup : (k.wqh q).taskList.Nodup := wf.nodup q
  rw [same, Set.ncard_coe_finset, List.toFinset_card_of_nodup nodup]
  exact wf.count_eq q

theorem Sound.kept (sound : Sound s) : Kept s where
  woken t irq _ home := (sound.drained t irq home).2
  remembered irq := sleepers_eq_ncard sound.wf
  summed low t irq task := by
    have counted := sound.counted low t irq
    rwa [Irqs.pending, if_pos task] at counted

/-- A kernel before its first registration. -/
structure IrqBoot (k : State) : Prop where
  wf : k.waits.Wf
  asleep : ∀ t q, (k.tcb t).waitingOn = some q → (k.tcb t).state = .sleeping
  none : ∀ t irq, (k.tcb t).waitingOn ≠ some (wqhIrq irq)

def start (k : State) (wired : L4id → Bool) (utcb : L4id → Word) : Irqs := { k, utcb, desc := fun irq => { wired := wired irq } }

theorem IrqBoot.sound {wired : L4id → Bool} {utcb : L4id → Word} (boot : IrqBoot k) : Sound (start k wired utcb) where
  wf := boot.wf
  asleep := boot.asleep
  drained t irq home := absurd home (boot.none t irq)
  apart _ _ _ _ first := nomatch first
  unused _ _ := rfl
  counted _ _ _ := rfl

end

end Codezero.Kernel.Irq
