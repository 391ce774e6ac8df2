import Codezero.Kernel.MutexControlRuns

/-!
# Interrupted callers of the mutex control

A call takes `mutex_control_mutex`, runs its body, releases the mutex and then perhaps sleeps. Here these are
steps of their own, and a sleeper can be interrupted at either of its two sleeps.
-/

namespace Codezero.Kernel.MutexControlIntr
open Codezero.Lib
open Codezero.Kernel.MutexControlRuns (contendersOf contenders_owed Quiet)
open Function (update update_eq_self update_of_ne update_self)

inductive Call
  | lock (key : Word)
  | unlock (key : Word) (c : Nat)
  deriving DecidableEq, Repr

/-- Unlocks are made for at least one contender. -/
def Call.counts : Call → Prop
  | .lock _ => True
  | .unlock _ c => 1 ≤ c

instance (call : Call) : Decidable call.counts := by
  cases call <;> unfold Call.counts <;> infer_instance

inductive Pc
  | out
  /-- Before a turn of `mutex_lock`. -/
  | enter (call : Call)
  | headAsleep (call : Call)
  /-- Between `mutex_queue_head_lock` and the body. -/
  | inside (call : Call)
  /-- Between the body and `mutex_queue_head_unlock`. -/
  | leave (exit : Exit)
  /-- In `wait_on_prepared_wait`. -/
  | asleep
  deriving DecidableEq, Repr

def Pc.isInside : Pc → Bool
  | .inside _ | .leave _ => true
  | _ => false

structure Return where
  thread : L4id
  /-- Whether the call was interrupted. -/
  struck : Bool
  code : Int
  deriving DecidableEq, Repr

structure Sys where
  ctl : Ctl
  pc : L4id → Pc := fun _ => .out
  /-- Who was interrupted in the present call. -/
  struck : L4id → Bool := fun _ => false
  returns : List Return := []

namespace Sys

def goto (s : Sys) (t : L4id) (p : Pc) : Sys := { s with pc := update s.pc t p }

def setK (s : Sys) (k : State) : Sys := { s with ctl := { s.ctl with k := k } }

def enter (s : Sys) (t : L4id) : Ctl := { s.ctl with k := { s.ctl.k with current := t } }

def finish (s : Sys) (t : L4id) (code : Int) : Sys :=
  { s with
    pc := update s.pc t .out
    struck := update s.struck t false
    returns := s.returns ++ [⟨t, s.struck t, code⟩] }

end Sys

/-- After a turn of `mutex_lock`. -/
def afterTurn (call : Call) : Exit → Pc
  | .sleep => .headAsleep call
  | _ => .inside call

def body (addr : Nat) (ctl : Ctl) : Call → Except Bug (Ctl × Exit)
  | .lock key => mutexControlLock (some addr) key ctl
  | .unlock key c => mutexControlUnlock (some addr) key c ctl

/-- After `mutex_queue_head_unlock`. -/
def afterBody (s : Sys) (t : L4id) : Exit → Sys
  | .sleep => s.goto t .asleep
  | .ret code | .yield code => s.finish t code

/-- The next step of a thread in a call; `m` is `mutex_control_mutex`. -/
def go (m : Nat) (s : Sys) (t : L4id) (addr : Nat) : Except Bug Sys :=
  match s.pc t with
  | .out => pure s
  | .enter call => do
    let (k, exit) ← mutexQueueHeadLock m (s.enter t).k
    pure ((s.setK k).goto t (afterTurn call exit))
  | .headAsleep call =>
    -- An interrupted `mutex_lock` returns -EINTR, which `mutex_queue_head_lock` drops; any other takes a turn.
    let (k, code) := waitReturn t s.ctl.k
    pure ((s.setK k).goto t (if code < 0 then .inside call else .enter call))
  | .inside call => do
    let (ctl, exit) ← body addr (s.enter t) call
    pure ({ s with ctl := ctl }.goto t (.leave exit))
  | .leave exit => do
    let (k, _) ← mutexQueueHeadUnlock m (s.enter t).k
    pure (afterBody (s.setK k) t exit)
  | .asleep =>
    let (k, code) := waitReturn t s.ctl.k
    pure ((s.setK k).finish t code)

inductive Event
  | call (t : L4id) (call : Call)
  | go (t : L4id) (addr : Nat)
  | interrupt (t : L4id)

def step (m : Nat) (s : Sys) : Event → Except Bug Sys
  | .call t call => pure (s.goto t (.enter call))
  | .go t addr => go m s t addr
  | .interrupt t => do
    let (k, _) ← wakeUpTask t { interrupt := true } s.ctl.k
    pure { s.setK k with struck := update s.struck t true }

/-- A thread runs unless it is asleep, or has yet to leave the critical section before it sleeps. -/
def enabled (s : Sys) : Event → Prop
  | .call t call => s.pc t = .out ∧ (s.ctl.k.tcb t).waitingOn = none ∧ call.counts
  | .go t addr => s.pc t ≠ .out ∧ ((s.ctl.k.tcb t).waitingOn = none ∨ s.pc t = .leave .sleep) ∧
      ∀ q ∈ s.ctl.mq.list, q.addr ≠ addr
  | .interrupt t => s.pc t ≠ .out ∧ (s.ctl.k.tcb t).waitingOn ≠ none

instance (s : Sys) (e : Event) : Decidable (enabled s e) := by
  cases e <;> unfold enabled <;> infer_instance

def machine (m : Nat) : Machine Sys Event Bug := ⟨enabled, step m⟩

instance (m : Nat) (s : Sys) (e : Event) : Decidable ((machine m).enabled s e) :=
  inferInstanceAs (Decidable (enabled s e))

/-- The counter has room for what an unlock is about to add. -/
def Fits (s : Sys) (t : L4id) : Prop :=
  match s.pc t with
  | .inside (.unlock key c) => contendersOf key s.ctl.mq + c ≤ intMax
  | _ => True

/-- Interrupts strike only contenders, and no counter overflows. -/
def Gentle (s : Sys) : Event → Prop
  | .call _ _ => True
  | .go t _ => Fits s t
  | .interrupt t => ∃ a, (s.ctl.k.tcb t).waitingOn = some (.contenders a)

instance (s : Sys) (t : L4id) : Decidable (Fits s t) := by
  unfold Fits
  split <;> infer_instance

def Wqh.isContenders : Wqh → Bool
  | .contenders _ => true
  | _ => false

theorem contends_iff {w : Option Wqh} : w.any Wqh.isContenders = true ↔ ∃ a, w = some (.contenders a) := by
  cases w with
  | none => simp
  | some q => cases q <;> simp [Wqh.isContenders]

instance (s : Sys) (e : Event) : Decidable (Gentle s e) :=
  match e with
  | .call _ _ => isTrue trivial
  | .go t _ => inferInstanceAs (Decidable (Fits s t))
  | .interrupt t => decidable_of_iff ((s.ctl.k.tcb t).waitingOn.any Wqh.isContenders = true) contends_iff

/-- What interruption is to leave in place. -/
structure Survives (m : Nat) (s : Sys) : Prop where
  /-- One thread at a time is between the lock and the unlock of the queue head. -/
  exclusive : ∀ t u, (s.pc t).isInside = true → (s.pc u).isInside = true → t = u
  /-- An interrupted call returns -EINTR. -/
  interrupted : ∀ r ∈ s.returns, r.struck = true → r.code = eintr
  /-- A counter is positive exactly when a holder sleeps. -/
  owing : ∀ q ∈ s.ctl.mq.list, 0 < q.contenders ↔ (s.ctl.k.wqh (.holders q.addr)).taskList ≠ []
  /-- No check stops a step. -/
  checks : ∀ e b, enabled s e → Gentle s e → step m s e = .error b → b.ofMutexQueue = false

/-! ## The mutex of the queue head -/

section
variable {m : Nat} {k : State}

/-- How a turn of `mutex_lock` left off. -/
structure Turn (m : Nat) (k : State) (r : State × Exit) : Prop where
  flags : ∀ t, (r.1.tcb t).flags = (k.tcb t).flags
  nlocks : ∀ t, t ≠ k.current → (r.1.tcb t).nlocks = (k.tcb t).nlocks
  lock : r.1.lock m = true
  outcome : (k.lock m = false ∧ r.2 = .ret 0 ∧ r.1.waits = k.waits ∧
      (r.1.tcb k.current).nlocks = (k.tcb k.current).nlocks + 1) ∨
    (k.lock m = true ∧ r.2 = .sleep ∧ r.1.waits = k.waits.insert false (.mutex m) k.current ∧
      (r.1.tcb k.current).nlocks = (k.tcb k.current).nlocks)

theorem headLock_sat : Sat (mutexQueueHeadLock m k) (Turn m k) (fun b => b.ofMutexQueue = false) := by
  unfold mutexQueueHeadLock mutexLock swpLock
  cases locked : k.lock m with
  | false =>
    refine ⟨fun t => ?_, fun t other => ?_, by simp [addLocks], .inl ⟨locked, rfl, ?_, by simp [addLocks]⟩⟩
    · by_cases self : t = k.current
      · subst self; simp [addLocks]
      · simp [addLocks, self]
    · simp [addLocks, other]
    · exact waits_modify (t := k.current) (k := setLock m true k) (f := fun c => { c with nlocks := c.nlocks + 1 }) rfl
  | true =>
    refine Sat.bind (waitOnPrepare_sat (.mutex m) (setLock m true k)) fun k' slept => ?_
    obtain ⟨waits, frame⟩ := slept
    exact ⟨frame.flags, fun t _ => frame.nlocks t, by rw [frame.lock]; simp [setLock],
      .inr ⟨locked, rfl, waits, frame.nlocks k.current⟩⟩

/-- How `mutex_queue_head_unlock` left off. -/
structure Released (m : Nat) (k : State) (r : State × Exit) : Prop where
  flags : ∀ t, (r.1.tcb t).flags = (k.tcb t).flags
  nlocks : ∀ t, t ≠ k.current → (r.1.tcb t).nlocks = (k.tcb t).nlocks
  own : (r.1.tcb k.current).nlocks = (k.tcb k.current).nlocks - 1
  lock : r.1.lock m = false
  waits : r.1.waits = k.waits ∨ ∃ t, k.waits.home t = some (.mutex m) ∧ r.1.waits = k.waits.remove (.mutex m) t

theorem addLocks_waits {d : Int} {b : Bool} : (addLocks d (setLock m b k)).waits = k.waits :=
  waits_modify (t := k.current) (k := setLock m b k) (f := fun c => { c with nlocks := c.nlocks + d }) rfl

theorem headUnlock_sat (wf : k.waits.Wf) (locked : k.lock m = true) (counted : 1 ≤ (k.tcb k.current).nlocks) :
    Sat (mutexQueueHeadUnlock m k) (Released m k) (fun b => b.ofMutexQueue = false) := by
  have dropped : ∀ t, ((addLocks (-1) (setLock m false k)).tcb t).flags = (k.tcb t).flags ∧
      ((addLocks (-1) (setLock m false k)).tcb t).nlocks = (k.tcb t).nlocks + if t = k.current then -1 else 0 := by
    intro t
    by_cases self : t = k.current
    · subst self; simp [addLocks, setLock]
    · simp [addLocks, setLock, self]
  have count : (k.wqh (.mutex m)).sleepers = ((k.wqh (.mutex m)).taskList.length : Int) := wf.count_eq (.mutex m)
  unfold mutexQueueHeadUnlock mutexUnlockAsync mutexUnlockCommon
  refine Sat.bind_eq (fun b stopped => ?_) fun r taken => ?_
  · rcases mutexUnlockTake_error stopped with ⟨_, free⟩ | ⟨_, few⟩ | ⟨_, negative⟩ | ⟨_, some_, empty⟩
    · exact absurd (free.symm.trans locked) (by decide)
    · omega
    · omega
    · rw [empty] at count
      simp only [List.length_nil] at count
      omega
  obtain ⟨k1, sleeper⟩ := r
  obtain ⟨_, ⟨rfl, _, rfl⟩ | ⟨t, rest, list, rfl, rfl⟩⟩ := mutexUnlockTake_ok taken
  · refine ⟨fun t => (dropped t).1, fun t other => ?_, ?_, by simp [addLocks, setLock], .inl addLocks_waits⟩
    · rw [(dropped t).2, if_neg other, Int.add_zero]
    · rw [(dropped _).2, if_pos rfl]; rfl
  · have home : k.waits.home t = some (.mutex m) := wf.home_of_mem (by rw [show k.waits.list (.mutex m) = _ from list]; simp)
    refine Sat.bind_eq (fun b stopped => schedResumeAsync_error stopped) fun k2 resumed => ?_
    obtain ⟨waits, frame⟩ := frame_take resumed
    refine ⟨fun u => (frame.flags u).trans (dropped u).1, fun u other => ?_, ?_, ?_, .inr ⟨t, home, ?_⟩⟩
    · rw [frame.nlocks, (dropped u).2, if_neg other, Int.add_zero]
    · rw [frame.nlocks, (dropped _).2, if_pos rfl]; rfl
    · rw [frame.lock]; simp [addLocks, setLock]
    · rw [waits, addLocks_waits]

end

/-! ## The invariant -/

/-- The wait queues a thread can be in at each place of its call. -/
def Pc.Allows (m : Nat) : Pc → Option Wqh → Prop
  | .out, _ => True
  | .enter _, w | .inside _, w => w = none
  | .headAsleep _, w => w = none ∨ w = some (.mutex m)
  | .leave .sleep, w | .asleep, w => w = none ∨ ∃ a, w = some (.holders a) ∨ w = some (.contenders a)
  | .leave _, w => w = none

def Pc.Counts : Pc → Prop
  | .enter call | .headAsleep call | .inside call => call.counts
  | _ => True

/-- Being woken is allowed everywhere. -/
theorem Pc.allows_none (m : Nat) (p : Pc) : p.Allows m none := by
  cases p with
  | leave exit => cases exit <;> simp [Allows]
  | _ => simp [Allows]

structure Inv (m : Nat) (D : Word → Tally L4id) (s : Sys) : Prop where
  linked : Linked D s.ctl.k.waits s.ctl.mq
  owner : ∃ o : Option L4id, s.ctl.k.lock m = o.isSome ∧ ∀ t, (s.pc t).isInside = true ↔ o = some t
  flag : ∀ t, (s.ctl.k.tcb t).flags.interrupted = s.struck t
  /-- Who was struck goes on to, or is in, the sleep after its body. -/
  struck : ∀ t, s.struck t = true → s.pc t = .asleep ∨ s.pc t = .leave .sleep
  place : ∀ t, (s.pc t).Allows m (s.ctl.k.waits.home t)
  nlocks : ∀ t, (if (s.pc t).isInside then 1 else 0) ≤ (s.ctl.k.tcb t).nlocks
  counted : ∀ t, (s.pc t).Counts
  bound : ∀ key, (D key).owed ≤ intMax
  returns : ∀ r ∈ s.returns, r.struck = true → r.code = eintr

section
variable {m : Nat} {D D' : Word → Tally L4id} {s s' : Sys} {t : L4id} {p : Pc} {addr : Nat}

variable {w : Queues Wqh L4id} {mq : MutexQueueHead} {call : Call} {key : Word} {d : Tally L4id} {exit : Exit}

/-- A step of thread `t` to `p`, with what it did to the kernel. -/
theorem Inv.change {b : Bool} (inv : Inv m D s) (pcs : s'.pc = update s.pc t p)
    (strucks : s'.struck = update s.struck t b) (linked : Linked D' s'.ctl.k.waits s'.ctl.mq)
    (left : Left t s.ctl.k.waits s'.ctl.k.waits)
    (owner : ∃ o : Option L4id, s'.ctl.k.lock m = o.isSome ∧ ∀ u, (update s.pc t p u).isInside = true ↔ o = some u)
    (flags : ∀ u, u ≠ t → (s'.ctl.k.tcb u).flags = (s.ctl.k.tcb u).flags)
    (flag : (s'.ctl.k.tcb t).flags.interrupted = b) (struck : b = true → p = .asleep ∨ p = .leave .sleep)
    (place : p.Allows m (s'.ctl.k.waits.home t))
    (others : ∀ u, u ≠ t → (s'.ctl.k.tcb u).nlocks = (s.ctl.k.tcb u).nlocks)
    (own : (if p.isInside then 1 else 0) ≤ (s'.ctl.k.tcb t).nlocks) (counted : p.Counts)
    (bound : ∀ key, (D' key).owed ≤ intMax) (returns : ∀ r ∈ s'.returns, r.struck = true → r.code = eintr) :
    Inv m D' s' where
  linked := linked
  owner := pcs ▸ owner
  flag u := by
    rw [strucks]
    by_cases self : u = t
    · subst self; rwa [update_self]
    · rw [update_of_ne self, flags u self]; exact inv.flag u
  struck u hit := by
    rw [strucks] at hit
    rw [pcs]
    by_cases self : u = t
    · subst self
      rw [update_self] at hit ⊢
      exact struck hit
    · rw [update_of_ne self] at hit ⊢
      exact inv.struck u hit
  place u := by
    rw [pcs]
    by_cases self : u = t
    · subst self; rwa [update_self]
    · rw [update_of_ne self]
      rcases left u self with same | gone
      · rw [same]; exact inv.place u
      · rw [gone]; exact Pc.allows_none m _
  nlocks u := by
    rw [pcs]
    by_cases self : u = t
    · subst self; rwa [update_self]
    · rw [update_of_ne self, others u self]; exact inv.nlocks u
  counted u := by
    rw [pcs]
    by_cases self : u = t
    · subst self; rwa [update_self]
    · rw [update_of_ne self]; exact inv.counted u
  bound := bound
  returns := returns

/-- The critical section has the same thread in it, or nobody, as long as `t` does not cross its border. -/
theorem Inv.same_owner (inv : Inv m D s) {k : State} (lock : k.lock m = s.ctl.k.lock m)
    (same : p.isInside = (s.pc t).isInside) :
    ∃ o : Option L4id, k.lock m = o.isSome ∧ ∀ u, (update s.pc t p u).isInside = true ↔ o = some u := by
  obtain ⟨o, locked, only⟩ := inv.owner
  refine ⟨o, lock.trans locked, fun u => ?_⟩
  by_cases self : u = t
  · subst self; rw [update_self, same]; exact only u
  · rw [update_of_ne self]; exact only u

theorem Inv.unstruck (inv : Inv m D s) (awake : s.pc t ≠ .asleep) (staying : s.pc t ≠ .leave .sleep) :
    s.struck t = false := by
  by_contra hit
  rcases inv.struck t (by simpa using hit) with place | place
  · exact awake place
  · exact staying place

/-- Wait queues of mutex queues are not touched by what happens in the queue of the mutex itself. -/
theorem insert_elsewhere (linked : Linked D w mq) (free : w.home t = none) :
    Linked D (w.insert false (.mutex m) t) mq :=
  linked.elsewhere (linked.waits.insert false free) fun a => by simp [Queues.insert]

theorem remove_elsewhere (linked : Linked D w mq)
    (home : w.home t = some (.mutex m)) : Linked D (w.remove (.mutex m) t) mq :=
  linked.elsewhere (linked.waits.remove home) fun a => by simp [Queues.remove]

theorem left_remove {q : Wqh} {u : L4id} : Left t w (w.remove q u) := by
  intro v _
  by_cases self : v = u
  · subst self; exact .inr (by simp [Queues.remove])
  · exact .inl (by simp [Queues.remove, self])

/-- A turn for the mutex of the queue head. -/
theorem Inv.enter (inv : Inv m D s) (at_ : s.pc t = .enter call) :
    Sat (go m s t addr) (Inv m D) (fun b => b.ofMutexQueue = false) := by
  have free : s.ctl.k.waits.home t = none := by
    have place := inv.place t
    rwa [at_] at place
  have calm := inv.unstruck (t := t) (by rw [at_]; exact Pc.noConfusion) (by rw [at_]; exact Pc.noConfusion)
  have call_ : call.counts := by
    have counted := inv.counted t
    rwa [at_] at counted
  have held := inv.nlocks t
  simp only [at_, Pc.isInside, Bool.false_eq_true, if_false] at held
  unfold go
  rw [at_]
  refine Sat.bind headLock_sat fun r turn => ?_
  obtain ⟨k, exit⟩ := r
  obtain ⟨flags, nlocks, lock, ⟨unlocked, exited, waits, own⟩ | ⟨locked, exited, waits, own⟩⟩ := turn
  · change exit = _ at exited
    subst exited
    refine inv.change (t := t) (p := .inside call) rfl (b := false) (by simp [← calm, Sys.goto, Sys.setK])
      (waits ▸ inv.linked) (waits ▸ Left.refl) ⟨some t, by simpa [Sys.goto, Sys.setK] using lock, fun u => ?_⟩
      (fun u _ => flags u) ?_ (by simp) ?_ (fun u other => nlocks u other) ?_ call_ inv.bound inv.returns
    · -- The word was clear, so nobody else is inside.
      obtain ⟨o, same, only⟩ := inv.owner
      have nobody : o = none := by
        rw [show s.ctl.k.lock m = false from unlocked] at same
        simpa using same.symm
      subst nobody
      by_cases self : u = t
      · subst self; simp [Pc.isInside]
      · rw [update_of_ne self, only u]
        simpa using Ne.symm self
    · rw [← calm, ← inv.flag t]
      exact congrArg TaskFlags.interrupted (flags t)
    · change k.waits.home t = none
      rw [waits]; exact free
    · change _ ≤ (k.tcb t).nlocks
      have counted : (k.tcb t).nlocks = (s.ctl.k.tcb t).nlocks + 1 := own
      rw [counted]
      simp only [Pc.isInside, if_true]
      omega
  · change exit = _ at exited
    subst exited
    refine inv.change (t := t) (p := .headAsleep call) rfl (b := false) (by simp [← calm, Sys.goto, Sys.setK]) ?_ ?_
      (inv.same_owner (lock.trans locked.symm) (by rw [at_]; rfl)) (fun u _ => flags u) ?_ (by simp) ?_
      (fun u other => nlocks u other) ?_ call_ inv.bound inv.returns
    · change Linked D k.waits s.ctl.mq
      rw [waits]
      exact insert_elsewhere inv.linked free
    · change Left t s.ctl.k.waits k.waits
      rw [waits]
      exact Left.insert
    · rw [← calm, ← inv.flag t]
      exact congrArg TaskFlags.interrupted (flags t)
    · refine .inr ?_
      change k.waits.home t = _
      rw [waits]
      simp [Queues.insert, Sys.enter]
    · change _ ≤ (k.tcb t).nlocks
      have counted : (k.tcb t).nlocks = (s.ctl.k.tcb t).nlocks := own
      rw [counted]
      simpa [Pc.isInside] using held

/-- Woken at the mutex, and not interrupted there: another turn. -/
theorem Inv.headAsleep (inv : Inv m D s) (at_ : s.pc t = .headAsleep call)
    (free : s.ctl.k.waits.home t = none) : Sat (go m s t addr) (Inv m D) (fun b => b.ofMutexQueue = false) := by
  have calm := inv.unstruck (t := t) (by rw [at_]; exact Pc.noConfusion) (by rw [at_]; exact Pc.noConfusion)
  have flag := (inv.flag t).trans calm
  have back : waitReturn t s.ctl.k = (s.ctl.k, 0) := by simp [waitReturn, flag]
  have counted := inv.counted t
  rw [at_] at counted
  have held := inv.nlocks t
  rw [at_] at held
  unfold go
  rw [at_]
  simp only [back]
  exact inv.change (t := t) (p := .enter call) rfl (b := false) (by simp [← calm, Sys.goto, Sys.setK]) inv.linked Left.refl
    (inv.same_owner rfl (by rw [at_]; rfl)) (fun _ _ => rfl) flag (by simp) free (fun _ _ => rfl) held counted inv.bound
    inv.returns

/-- How a body left off, with the tallies after it. -/
structure BodyDone (m : Nat) (s : Sys) (t : L4id) (r : Ctl × Exit) (D' : Word → Tally L4id) : Prop where
  linked : Linked D' r.1.k.waits r.1.mq
  bound : ∀ key, (D' key).owed ≤ intMax
  frame : Frame (s.enter t).k r.1.k
  left : Left t s.ctl.k.waits r.1.k.waits
  place : (Pc.leave r.2).Allows m (r.1.k.waits.home t)

theorem bound_update (bound : ∀ key, (D key).owed ≤ intMax) (here : d.owed ≤ intMax)
    (key' : Word) : (update D key d key').owed ≤ intMax := by
  by_cases same : key' = key
  · subst same; rwa [update_self]
  · rw [update_of_ne same]; exact bound key'

/-- A caller that sleeps does so at the tally that now has it. -/
theorem leave_allows {ctl : Ctl}
    (linked : Linked (update D key d) ctl.k.waits ctl.mq) (sleeps : exit = .sleep → d.Has t)
    (awake : exit ≠ .sleep → ctl.k.waits.home t = none) : (Pc.leave exit).Allows m (ctl.k.waits.home t) := by
  by_cases asleep : exit = .sleep
  · have has : (update D key d key).Has t := by
      rw [update_self]
      exact sleeps asleep
    obtain ⟨q, _, home⟩ := linked.home_of_has has
    subst asleep
    exact .inr ⟨q.addr, home⟩
  · rw [awake asleep]
    exact Pc.allows_none m _

theorem body_sat (inv : Inv m D s) (at_ : s.pc t = .inside call) (fits : Fits s t)
    (fresh : ∀ q ∈ s.ctl.mq.list, q.addr ≠ addr) :
    Sat (body addr (s.enter t) call) (fun r => ∃ D', BodyDone m s t r D') (fun b => b.ofMutexQueue = false) := by
  have free : s.ctl.k.waits.home t = none := by
    have place := inv.place t
    rwa [at_] at place
  cases call with
  | lock key =>
    refine (Linked.lock (s := s.enter t) inv.linked free fresh (inv.bound key)).mono fun r done => ?_
    refine ⟨_, done.linked, bound_update inv.bound ?_, done.frame, done.homes,
      leave_allows done.linked (fun sleeps => ?_) done.awake⟩
    · have before := inv.bound key
      unfold Tally.arrive
      split
      · change (D key).owed - 1 ≤ intMax
        omega
      · exact before
    · have settled : ¬ 0 < (D key).owed := fun owes => by
        rw [done.exit, if_pos owes] at sleeps
        exact Exit.noConfusion sleeps
      refine .inl ?_
      rw [Tally.arrive_waits (by omega)]
      exact List.mem_append_right _ (List.mem_singleton.mpr rfl)
  | unlock key c =>
    have brought : 1 ≤ c := by
      have counted := inv.counted t
      rwa [at_] at counted
    have room : (D key).owed + c ≤ intMax := by
      unfold Fits at fits
      rw [at_] at fits
      change contendersOf key s.ctl.mq + c ≤ intMax at fits
      rw [contenders_owed inv.linked] at fits
      omega
    refine (Linked.unlock (s := s.enter t) inv.linked free fresh brought room).mono fun r done => ?_
    refine ⟨_, done.linked, bound_update inv.bound ?_, done.frame, done.homes,
      leave_allows done.linked (fun sleeps => .inr ?_) done.awake⟩
    · have owed := Tally.release_owed (d := D key) (t := t) (c := c)
      change (Tally.release t c (D key)).owed ≤ intMax
      omega
    · have more : ¬ (D key).owed + c ≤ (D key).waiting.length := fun enough => by
        rw [done.exit, if_pos enough] at sleeps
        exact Exit.noConfusion sleeps
      exact if_neg more

theorem Inv.inside (inv : Inv m D s) (at_ : s.pc t = .inside call) (fits : Fits s t)
    (fresh : ∀ q ∈ s.ctl.mq.list, q.addr ≠ addr) :
    Sat (go m s t addr) (fun s' => ∃ D', Inv m D' s') (fun b => b.ofMutexQueue = false) := by
  have calm := inv.unstruck (t := t) (by rw [at_]; exact Pc.noConfusion) (by rw [at_]; exact Pc.noConfusion)
  have held := inv.nlocks t
  rw [at_] at held
  unfold go
  rw [at_]
  refine Sat.bind (body_sat inv at_ fits fresh) fun r done => ?_
  obtain ⟨ctl, exit⟩ := r
  obtain ⟨D', linked, bound, frame, left, place⟩ := done
  refine ⟨D', inv.change (t := t) (p := .leave exit) rfl (b := false) (by simp [← calm, Sys.goto]) linked left
    (inv.same_owner (congrFun frame.lock m) (by rw [at_]; rfl)) (fun u _ => frame.flags u) ?_ (by simp) place
    (fun u _ => frame.nlocks u) (held.trans (frame.nlocks t).ge) trivial bound inv.returns⟩
  rw [← calm, ← inv.flag t]
  exact congrArg TaskFlags.interrupted (frame.flags t)

/-- The critical section is left empty. -/
theorem Inv.vacated (inv : Inv m D s) {k : State} (inside : (s.pc t).isInside = true) (lock : k.lock m = false)
    (outside : p.isInside = false) :
    ∃ o : Option L4id, k.lock m = o.isSome ∧ ∀ u, (update s.pc t p u).isInside = true ↔ o = some u := by
  obtain ⟨o, _, only⟩ := inv.owner
  have mine := (only t).mp inside
  refine ⟨none, lock, fun u => ?_⟩
  by_cases self : u = t
  · subst self
    rw [update_self, outside]
    exact iff_of_false (by decide) (Option.some_ne_none u).symm
  · rw [update_of_ne self, only u, mine]
    exact iff_of_false (fun same => self (Option.some.inj same).symm) (Option.some_ne_none u).symm

theorem Inv.leave (inv : Inv m D s) (at_ : s.pc t = .leave exit) :
    Sat (go m s t addr) (Inv m D) (fun b => b.ofMutexQueue = false) := by
  have inside : (s.pc t).isInside = true := by rw [at_]; rfl
  obtain ⟨o, same, only⟩ := inv.owner
  have locked : s.ctl.k.lock m = true := by rw [same, (only t).mp inside]; rfl
  have held := inv.nlocks t
  rw [inside, if_pos rfl] at held
  have spot := inv.place t
  rw [at_] at spot
  unfold go
  rw [at_]
  refine Sat.bind (headUnlock_sat (k := (s.enter t).k) inv.linked.waits locked held) fun r done => ?_
  obtain ⟨k, _⟩ := r
  obtain ⟨flags, nlocks, own, lock, waits⟩ := done
  -- The thread is not in the queue of the mutex, so the one taken from there is another.
  have elsewhere : s.ctl.k.waits.home t ≠ some (.mutex m) := by
    intro home
    rw [home] at spot
    cases exit <;> simp [Pc.Allows] at spot
  have linked : Linked D k.waits s.ctl.mq ∧ Left t s.ctl.k.waits k.waits ∧ k.waits.home t = s.ctl.k.waits.home t := by
    rcases waits with same | ⟨u, home, removed⟩
    · have same : k.waits = s.ctl.k.waits := same
      exact ⟨same ▸ inv.linked, same ▸ Left.refl, by rw [same]⟩
    · have removed : k.waits = s.ctl.k.waits.remove (.mutex m) u := removed
      have other : t ≠ u := fun eq => elsewhere (eq ▸ home)
      exact ⟨removed ▸ remove_elsewhere inv.linked home, removed ▸ left_remove, by rw [removed]; simp [Queues.remove, other]⟩
  obtain ⟨kept, left, home⟩ := linked
  have counted : 0 ≤ (k.tcb t).nlocks := by
    have own : (k.tcb t).nlocks = (s.ctl.k.tcb t).nlocks - 1 := own
    omega
  have flag : (k.tcb t).flags.interrupted = s.struck t :=
    (congrArg TaskFlags.interrupted (flags t)).trans (inv.flag t)
  have finished : ∀ code, exit ≠ .sleep → Inv m D ((s.setK k).finish t code) := by
    intro code returned
    have calm := inv.unstruck (t := t) (by rw [at_]; exact Pc.noConfusion) (by
      rw [at_]
      exact fun stays => returned (Pc.leave.inj stays))
    refine inv.change (t := t) (p := .out) rfl (b := false) rfl kept left (inv.vacated inside lock rfl) (fun u _ => flags u)
      (flag.trans calm) (by simp) trivial (fun u other => nlocks u other) counted trivial inv.bound fun r mem hit => ?_
    rcases List.mem_append.mp mem with old | new
    · exact inv.returns r old hit
    · rw [List.mem_singleton.mp new] at hit
      exact absurd (hit.symm.trans calm) (by decide)
  cases exit with
  | sleep =>
    refine inv.change (t := t) (p := .asleep) rfl (b := s.struck t) (update_eq_self t s.struck).symm kept left
      (inv.vacated inside lock rfl) (fun u _ => flags u) flag (fun _ => .inl rfl) ?_ (fun u other => nlocks u other) counted
      trivial inv.bound inv.returns
    change Pc.Allows m .asleep (k.waits.home t)
    rw [home]
    exact spot
  | ret code => exact finished code Exit.noConfusion
  | yield code => exact finished code Exit.noConfusion

/-- A sleeper comes back, with -EINTR if it was struck. -/
theorem Inv.asleep (inv : Inv m D s) (at_ : s.pc t = .asleep) :
    Sat (go m s t addr) (Inv m D) (fun b => b.ofMutexQueue = false) := by
  have held := inv.nlocks t
  rw [at_] at held
  have flag := inv.flag t
  unfold go
  rw [at_]
  cases hit : s.struck t with
  | false =>
    rw [hit] at flag
    have back : waitReturn t s.ctl.k = (s.ctl.k, 0) := by simp [waitReturn, flag]
    simp only [back]
    refine inv.change (t := t) (p := .out) rfl (b := false) rfl inv.linked Left.refl
      (inv.same_owner rfl (by rw [at_]; rfl)) (fun _ _ => rfl) flag (by simp) trivial (fun _ _ => rfl) held trivial inv.bound
      fun r mem struck => ?_
    rcases List.mem_append.mp mem with old | new
    · exact inv.returns r old struck
    · rw [List.mem_singleton.mp new] at struck
      exact absurd (struck.symm.trans hit) (by decide)
  | true =>
    rw [hit] at flag
    let cleared := s.ctl.k.modify t fun c => { c with flags := { c.flags with interrupted := false } }
    have back : waitReturn t s.ctl.k = (cleared, eintr) := by simp [waitReturn, flag, cleared]
    have waits : cleared.waits = s.ctl.k.waits :=
      waits_modify (t := t) (k := s.ctl.k) (f := fun c => { c with flags := { c.flags with interrupted := false } }) rfl
    simp only [back]
    refine inv.change (t := t) (p := .out) rfl (b := false) rfl ?_ ?_
      (inv.same_owner rfl (by rw [at_]; rfl)) (fun u other => ?_) ?_ (by simp) trivial (fun u other => ?_) ?_ trivial inv.bound
      fun r mem struck => ?_
    · change Linked D cleared.waits s.ctl.mq
      rw [waits]; exact inv.linked
    · change Left t s.ctl.k.waits cleared.waits
      rw [waits]; exact Left.refl
    · simp [Sys.finish, Sys.setK, cleared, other]
    · simp [Sys.finish, Sys.setK, cleared]
    · simp [Sys.finish, Sys.setK, cleared, other]
    · simpa [Sys.finish, Sys.setK, cleared, Pc.isInside] using held
    · rcases List.mem_append.mp mem with old | new
      · exact inv.returns r old struck
      · rw [List.mem_singleton.mp new]

/-- An interrupt that strikes a contender takes it off its queue and marks it. -/
theorem Inv.interrupt (inv : Inv m D s) (busy : s.pc t ≠ .out)
    (contends : (s.ctl.k.tcb t).waitingOn = some (.contenders addr)) :
    Sat (step m s (.interrupt t)) (fun s' => ∃ D', Inv m D' s') (fun b => b.ofMutexQueue = false) := by
  have home : s.ctl.k.waits.home t = some (.contenders addr) := contends
  have spot := inv.place t
  rw [home] at spot
  have stays : s.pc t = .asleep ∨ s.pc t = .leave .sleep := by
    cases at_ : s.pc t with
    | out => exact absurd at_ busy
    | asleep => exact .inl rfl
    | leave exit => rw [at_] at spot; cases exit <;> simp [Pc.Allows] at spot ⊢
    | _ => rw [at_] at spot; simp [Pc.Allows] at spot
  have taken : wakeUpTask t { interrupt := true } s.ctl.k =
      (schedResumeAsync t (wqhTake (.contenders addr) t true s.ctl.k) >>= fun k => pure (k, .ret 0)) := by
    simp [wakeUpTask, wakeUpTaskTake, contends, schedResume, resumed]
  unfold step
  simp only [taken, bind_assoc, pure_bind]
  refine Sat.bind_eq (fun b stopped => schedResumeAsync_error stopped) fun k resumed => ?_
  have taken := taken_of_resumed resumed
  obtain ⟨key, linked⟩ := Linked.giveUp (s := s.ctl) inv.linked home
  have marked : (k.tcb t).flags.interrupted = true := by rw [taken.flag]; simp
  have held : (if (s.pc t).isInside then 1 else 0) ≤ (k.tcb t).nlocks := by rw [taken.nlocks]; exact inv.nlocks t
  have kept : Linked (update D key ((D key).giveUp t)) k.waits s.ctl.mq := by rw [taken.waits]; exact linked
  have left : Left t s.ctl.k.waits k.waits := by rw [taken.waits]; exact left_remove
  have spot' : (s.pc t).Allows m (k.waits.home t) := by
    rw [taken.waits]
    simpa [Queues.remove] using Pc.allows_none m (s.pc t)
  exact ⟨_, inv.change (t := t) (p := s.pc t) (update_eq_self t s.pc).symm (b := true) rfl kept left
    (inv.same_owner (congrFun taken.lock m) rfl) taken.flags marked (fun _ => stays) spot' (fun u _ => taken.nlocks u) held
    (inv.counted t) (bound_update inv.bound (inv.bound key)) inv.returns⟩

/-- Every allowed step keeps the tallies, and no check stops it. -/
theorem Inv.step {e : Event} (inv : Inv m D s) (able : enabled s e) (gentle : Gentle s e) :
    Sat (MutexControlIntr.step m s e) (fun s' => ∃ D', Inv m D' s') (fun b => b.ofMutexQueue = false) := by
  cases e with
  | call t call =>
    obtain ⟨at_, free, counts⟩ := able
    have calm := inv.unstruck (t := t) (by rw [at_]; exact Pc.noConfusion) (by rw [at_]; exact Pc.noConfusion)
    have held := inv.nlocks t
    rw [at_] at held
    exact ⟨D, inv.change (t := t) (p := .enter call) rfl (b := false) (by simp [← calm, Sys.goto]) inv.linked Left.refl
      (inv.same_owner rfl (by rw [at_]; rfl)) (fun _ _ => rfl) ((inv.flag t).trans calm) (by simp) free (fun _ _ => rfl) held
      counts inv.bound inv.returns⟩
  | go t addr =>
    obtain ⟨busy, runs, fresh⟩ := able
    have free : s.pc t ≠ .leave .sleep → s.ctl.k.waits.home t = none := fun other => runs.resolve_right other
    change Sat (go m s t addr) _ _
    cases at_ : s.pc t with
    | out => exact absurd at_ busy
    | enter call => exact (inv.enter at_).mono fun s' kept => ⟨D, kept⟩
    | headAsleep call =>
      exact (inv.headAsleep at_ (free (by rw [at_]; exact Pc.noConfusion))).mono fun s' kept => ⟨D, kept⟩
    | inside call => exact inv.inside at_ gentle fresh
    | leave exit => exact (inv.leave at_).mono fun s' kept => ⟨D, kept⟩
    | asleep => exact (inv.asleep at_).mono fun s' kept => ⟨D, kept⟩
  | interrupt t =>
    obtain ⟨a, contends⟩ := gentle
    exact inv.interrupt able.1 contends

theorem Inv.survives (inv : Inv m D s) : Survives m s where
  exclusive t u first second := by
    obtain ⟨o, _, only⟩ := inv.owner
    exact Option.some.inj (((only t).mp first).symm.trans ((only u).mp second))
  interrupted := inv.returns
  owing q listed := by
    obtain ⟨count, holders, _⟩ : KeyLinked (D q.physical) s.ctl.k.waits (some q) :=
      inv.linked.queues.find listed ▸ inv.linked.each q.physical
    rw [count, show (s.ctl.k.wqh (.holders q.addr)).taskList = _ from holders]
    have stays := (inv.linked.tallies q.physical).stays
    cases held : (D q.physical).holder <;> simp [held] at stays ⊢ <;> omega
  checks e b able gentle stopped := (inv.step able gentle).error stopped

/-- A kernel in which nobody sleeps in a mutex queue or was interrupted, and the mutex of the queue head is free. -/
structure Ready (m : Nat) (k : State) : Prop where
  quiet : Quiet k
  free : k.lock m = false
  calm : ∀ t, (k.tcb t).flags.interrupted = false
  nlocks : ∀ t, 0 ≤ (k.tcb t).nlocks

theorem Ready.inv {k : State} (ready : Ready m k) : Inv m (fun _ => {}) { ctl := { k := k } } where
  linked := ready.quiet.linked
  owner := ⟨none, ready.free, fun t => iff_of_false (by simp [Pc.isInside]) (Option.some_ne_none t).symm⟩
  flag := ready.calm
  struck t hit := absurd hit (by simp)
  place _ := trivial
  nlocks t := by simpa [Pc.isInside] using ready.nlocks t
  counted _ := trivial
  bound _ := Nat.zero_le _
  returns r mem := absurd mem List.not_mem_nil

/-- **The mutex control survives interrupted contenders**: in every run whose interrupts strike contenders and
whose counters have room, the critical section stays exclusive and the accounts stay in order. -/
theorem control_survives {k : State} (ready : Ready m k)
    (reached : (machine m).ReachesUnder Gentle { ctl := { k := k } } s) : Survives m s := by
  have held : ∃ D, Inv m D s := reached.invariant (I := fun s => ∃ D, Inv m D s)
    (fun _ _ _ before able gentle stepped => by
      obtain ⟨D, inv⟩ := before
      exact (inv.step able gentle).ok stepped)
    ⟨_, ready.inv⟩
  obtain ⟨D, inv⟩ := held
  exact inv.survives

/-- **Nobody sleeps in a mutex queue that was freed.** -/
theorem sleeper_listed {k : State} (ready : Ready m k) (reached : (machine m).ReachesUnder Gentle { ctl := { k := k } } s)
    (asleep : s.ctl.k.waits.home t = some (.holders addr) ∨ s.ctl.k.waits.home t = some (.contenders addr)) :
    ∃ q ∈ s.ctl.mq.list, q.addr = addr := by
  obtain ⟨D, inv⟩ := reached.invariant (I := fun s => ∃ D, Inv m D s)
    (fun _ _ _ ⟨_, inv⟩ able gentle ok => (inv.step able gentle).ok ok) ⟨_, ready.inv⟩
  exact inv.linked.placed t addr asleep

end

theorem twoRunnable_ready : Ready 0 twoRunnable where
  quiet := MutexControlRuns.twoRunnable_quiet
  free := rfl
  calm := twoRunnable_tcb (P := fun c => c.flags.interrupted = false) rfl rfl
  nlocks := twoRunnable_tcb (P := fun c => 0 ≤ c.nlocks) (Int.le_refl 0) (Int.le_refl 0)

/-- Thread 1 sleeps as a contender and is interrupted; thread 2 then unlocks and stays as the holder. -/
def contenderStruck : List Event :=
  [.call 1 (.lock 4096), .go 1 0, .go 1 0, .go 1 1, .interrupt 1, .go 1 1,
    .call 2 (.unlock 4096 1), .go 2 1, .go 2 1, .go 2 1]

theorem control_survives_contender : ∃ s,
    (machine 0).runUnder Gentle contenderStruck { ctl := { k := twoRunnable } } = some s ∧ Survives 0 s ∧
      s.returns = [⟨1, true, eintr⟩] ∧ s.pc 2 = .asleep := by
  have outcome : ((machine 0).runUnder Gentle contenderStruck { ctl := { k := twoRunnable } }).map (fun s =>
      (s.returns, s.pc 2)) = some ([⟨1, true, eintr⟩], .asleep) := by decide +kernel
  obtain ⟨s, ran, left⟩ := Option.map_eq_some_iff.mp outcome
  obtain ⟨returns, stays⟩ : _ ∧ _ := by simpa only [Prod.mk.injEq] using left
  exact ⟨s, ran, control_survives twoRunnable_ready ((machine 0).reachesUnder_of_runUnder ran), returns, stays⟩

theorem sleeper_listed_holder : ∃ s, (machine 0).ReachesUnder Gentle { ctl := { k := twoRunnable } } s ∧
    ∃ q ∈ s.ctl.mq.list, q.addr = 0 := by
  have run : ((machine 0).runUnder Gentle contenderStruck { ctl := { k := twoRunnable } }).map
    (fun s => s.ctl.k.waits.home 2) = some (some (.holders 0)) := by decide +kernel
  obtain ⟨s, ran, home⟩ := Option.map_eq_some_iff.mp run
  have reached := (machine 0).reachesUnder_of_runUnder ran
  exact ⟨s, reached, sleeper_listed twoRunnable_ready reached (.inl home)⟩

/-! ## Interrupts that strike elsewhere -/

/-- Thread 1 stays as the holder for two contenders and is interrupted. -/
def holderStruck : List Event :=
  [.call 1 (.unlock 4096 2), .go 1 0, .go 1 0, .go 1 1, .interrupt 1, .go 1 1]

/-- Thread 1 is in the critical section. Thread 2 is interrupted in its sleep for the mutex, and goes in. -/
def headStruck : List Event :=
  [.call 1 (.lock 4096), .go 1 0, .call 2 (.lock 4096), .go 2 0, .interrupt 2, .go 2 0]

theorem control_disturbed : Ready 0 twoRunnable ∧ ∀ run ∈ [holderStruck, headStruck],
    ∃ s, (machine 0).run run { ctl := { k := twoRunnable } } = some s ∧ ¬ Survives 0 s := by
  refine ⟨twoRunnable_ready, fun run mem => ?_⟩
  simp only [List.mem_cons, List.not_mem_nil, or_false] at mem
  rcases mem with rfl | rfl
  · have outcome : ((machine 0).run holderStruck { ctl := { k := twoRunnable } }).map (fun s =>
        (s.ctl.mq.list, (s.ctl.k.wqh (.holders 0)).taskList)) = some ([⟨0, 4096, 2⟩], []) := by decide +kernel
    obtain ⟨s, ran, left⟩ := Option.map_eq_some_iff.mp outcome
    obtain ⟨list, nobody⟩ : _ ∧ _ := by simpa only [Prod.mk.injEq] using left
    refine ⟨s, ran, fun survives => ?_⟩
    have owing := (survives.owing ⟨0, 4096, 2⟩ (by rw [list]; exact List.mem_singleton.mpr rfl)).mp (by decide)
    exact owing nobody
  · have outcome : ((machine 0).run headStruck { ctl := { k := twoRunnable } }).map (fun s =>
        ((s.pc 1).isInside, (s.pc 2).isInside)) = some (true, true) := by decide +kernel
    obtain ⟨s, ran, left⟩ := Option.map_eq_some_iff.mp outcome
    obtain ⟨first, second⟩ : _ ∧ _ := by simpa only [Prod.mk.injEq] using left
    refine ⟨s, ran, fun survives => ?_⟩
    exact absurd (survives.exclusive 1 2 first second) (by decide)

end Codezero.Kernel.MutexControlIntr
