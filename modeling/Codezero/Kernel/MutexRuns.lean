import Codezero.Kernel.Mutex
import Codezero.Lib.Machine

/-!
# Runs of one kernel mutex

Threads lock, try and unlock one `struct mutex` while others interrupt its sleepers. A step is one
section under a spinlock, so an unlock and the resume of the thread it took are two steps, and so are the
look that `wake_up_task` takes at its task and the removal that follows.
-/

namespace Codezero.Kernel.MutexRuns
open Codezero.Lib

/-- Where a thread is in `mutex_lock`: outside, about to swap the lock word, or in the `schedule()` after
it queued itself. `slot` is the stack address of the call's `wq`, which depends on the caller's frame. -/
inductive Pc
  | out
  | trying (slot : Nat)
  | asleep (slot : Nat)
  deriving DecidableEq, Repr

structure Thread where
  pc : Pc := .out
  /-- Between a successful lock and its unlock. -/
  holds : Bool := false
  /-- The last lock or trylock succeeded and was not yet undone. -/
  lastOk : Bool := false
  /-- Taken from the queue by an interrupting wake-up, and not yet returned. -/
  struck : Bool := false
  deriving DecidableEq, Repr

/-- What `wake_up_task` keeps of its first look: `task`, `wqh = task->waiting_on` and `wq = task->wq`. -/
structure Peek where
  task : L4id
  wqh : Wqh
  wq : Nat
  deriving DecidableEq, Repr

/-- A thread off its queue that is still to be resumed: by `sched_resume_sync` of the thread in `sync`, or
asynchronously. -/
structure Wake where
  sleeper : L4id
  sync : Option L4id := none
  deriving DecidableEq, Repr

/-- A return of `mutex_lock`, with what was true of its caller. -/
structure Ret where
  thread : L4id
  code : Int
  struck : Bool
  holds : Bool
  deriving DecidableEq, Repr

structure Sys where
  k : State
  th : L4id → Thread := fun _ => {}
  peeks : List Peek := []
  wakes : List Wake := []
  /-- Threads that an unlock took from the queue and that are not yet back at the lock word. -/
  woken : List L4id := []
  returns : List Ret := []

inductive Event
  | lock (t : L4id) (slot : Nat)
  | turn (t : L4id)
  | back (t : L4id)
  | trylock (t : L4id)
  | unlock (t : L4id) (sync : Bool)
  | peek (t : L4id)
  | remove (p : Peek)
  | resume (w : Wake)
  deriving DecidableEq, Repr

def Pc.slot : Pc → Nat
  | .out => 0
  | .trying slot => slot
  | .asleep slot => slot

def Sys.set (t : L4id) (f : Thread → Thread) (s : Sys) : Sys := { s with th := Function.update s.th t (f (s.th t)) }

def Sys.enter (t : L4id) (s : Sys) : State := { s.k with current := t }

/-- The removal of `wake_up_task` through a `wq` that is no longer the one in the queue: that node is
unlinked, as it already was, and the counter goes down all the same. -/
def wqhTakeStale (q : Wqh) (t : L4id) (k : State) : State :=
  (taskUnsetWqh t (k.setWqh q { k.wqh q with sleepers := (k.wqh q).sleepers - 1 })).modify t fun c =>
    { c with flags := { c.flags with interrupted := true } }

/-- Thread `t` is at the lock word. -/
def Sys.retry (t : L4id) (s : Sys) : Sys := { s with woken := s.woken.filter (· ≠ t) }

def Sys.return (t : L4id) (code : Int) (s : Sys) : Sys :=
  { s with returns := s.returns ++ [⟨t, code, (s.th t).struck, (s.th t).holds⟩] }

/-- The turn of `mutex_lock` at the lock word. -/
def turnStep (m : Nat) (t : L4id) (s : Sys) : Except Bug Sys := do
  let (k, exit) ← mutexLock m (s.enter t)
  match exit with
  | .sleep => pure (({ s with k := k }.retry t).set t fun x => { x with pc := .asleep x.pc.slot })
  | _ => pure ((({ s with k := k }.retry t).set t fun x => { x with pc := .out, holds := true, lastOk := true }).return t 0)

/-- A sleeper runs again in `mutex_lock`. -/
def backStep (t : L4id) (s : Sys) : Sys :=
  let (k, code) := waitReturn t s.k
  if code = 0 then { s with k := k }.set t fun x => { x with pc := .trying x.pc.slot }
  else ({ s with k := k }.return t code).set t fun x => { x with pc := .out, lastOk := false, struck := false }

def trylockStep (m : Nat) (t : L4id) (s : Sys) : Sys :=
  let (k, got) := mutexTrylock m (s.enter t)
  { s with k := k }.set t fun x => { x with holds := x.holds || got, lastOk := got }

/-- The section of `mutex_unlock_common`. -/
def unlockStep (m : Nat) (t : L4id) (sync : Bool) (s : Sys) : Except Bug Sys := do
  let (k, sleeper) ← mutexUnlockTake m (s.enter t)
  let s := { s with k := k }.set t fun x => { x with holds := false, lastOk := false }
  match sleeper with
  | none => pure s
  | some u =>
    let wake : Wake := { sleeper := u, sync := if sync then some t else none }
    pure { s with wakes := s.wakes ++ [wake], woken := s.woken ++ [u] }

/-- The second section of `wake_up_task` with `WAKEUP_INTERRUPT`. -/
def removeStep (p : Peek) (s : Sys) : Sys :=
  let s := { s with peeks := s.peeks.erase p }
  if (s.k.tcb p.task).waitingOn ≠ some p.wqh then s
  else
    let k := if (s.th p.task).pc.slot = p.wq then wqhTake p.wqh p.task true s.k else wqhTakeStale p.wqh p.task s.k
    let wake : Wake := { sleeper := p.task }
    { s with k := k, wakes := s.wakes ++ [wake] }.set p.task fun x => { x with struck := true }

/-- The resume that an unlock or `wake_up_task` ends with. -/
def Wake.run (w : Wake) (s : Sys) : Except Bug State :=
  match w.sync with
  | some t => schedResumeSync w.sleeper (s.enter t)
  | none => schedResumeAsync w.sleeper s.k

def resumeStep (w : Wake) (s : Sys) : Except Bug Sys := do
  let k ← w.run s
  pure { s with k := k, wakes := s.wakes.erase w }

def step (m : Nat) (s : Sys) : Event → Except Bug Sys
  | .lock t slot => pure (s.set t fun x => { x with pc := .trying slot })
  | .turn t => turnStep m t s
  | .back t => pure (backStep t s)
  | .trylock t => pure (trylockStep m t s)
  | .unlock t sync => unlockStep m t sync s
  | .peek t =>
    match (s.k.tcb t).waitingOn with
    | none => pure s
    | some q => pure { s with peeks := s.peeks ++ [⟨t, q, (s.th t).pc.slot⟩] }
  | .remove p => pure (removeStep p s)
  | .resume w => resumeStep w s

def Pc.isTrying : Pc → Bool
  | .trying _ => true
  | _ => false

def Pc.isAsleep : Pc → Bool
  | .asleep _ => true
  | _ => false

def enabled (s : Sys) : Event → Prop
  | .lock t _ => (s.k.tcb t).state = .runnable ∧ (s.th t).pc = .out
  | .turn t => (s.k.tcb t).state = .runnable ∧ (s.th t).pc.isTrying = true
  | .back t => (s.k.tcb t).state = .runnable ∧ (s.th t).pc.isAsleep = true
  | .trylock t => (s.k.tcb t).state = .runnable ∧ (s.th t).pc = .out
  | .unlock t _ => (s.k.tcb t).state = .runnable ∧ (s.th t).pc = .out ∧ (s.th t).lastOk = true
  | .peek _ => True
  | .remove p => p ∈ s.peeks
  | .resume w => w ∈ s.wakes

instance (s : Sys) (e : Event) : Decidable (enabled s e) := by
  cases e <;> unfold enabled <;> infer_instance

def machine (m : Nat) : Machine Sys Event Bug := ⟨enabled, step m⟩

instance (m : Nat) (s : Sys) (e : Event) : Decidable ((machine m).enabled s e) := inferInstanceAs (Decidable (enabled s e))

/-- What a run must keep to: nobody locks what it holds, and a wake-up that looked at one wait does not
remove another one of a different frame. -/
def Proper (s : Sys) : Event → Prop
  | .lock t _ => (s.th t).holds = false
  | .remove p => (s.k.tcb p.task).waitingOn = some p.wqh → (s.th p.task).pc.slot = p.wq
  | _ => True

instance (s : Sys) (e : Event) : Decidable (Proper s e) := by
  cases e <;> unfold Proper <;> infer_instance

/-! ## The invariant -/

/-- One thread's control block against its place in the mutex code. -/
structure Thread.Ok (m : Nat) (c : Ktcb) (x : Thread) : Prop where
  queued : ∀ q, c.waitingOn = some q → q = .mutex m ∧ x.pc.isAsleep = true ∧ c.state = .sleeping
  flag : c.flags.interrupted = x.struck
  struck : x.struck = true → c.waitingOn = none ∧ x.pc.isAsleep = true
  apart : x.pc ≠ .out → x.holds = false
  lastOk : x.lastOk = true → x.holds = true
  counted : (if x.holds then 1 else 0) ≤ c.nlocks

structure Inv (m : Nat) (s : Sys) : Prop where
  waits : s.k.waits.Wf
  threads : ∀ t, (s.th t).Ok m (s.k.tcb t)
  owner : ∃ o : Option L4id, s.k.lock m = o.isSome ∧ ∀ t, (s.th t).holds = true ↔ o = some t
  woken : ∀ t ∈ s.woken, (s.k.tcb t).waitingOn = none ∧ (s.th t).struck = false ∧ (s.th t).pc ≠ .out
  unlost : s.k.lock m = false → (s.k.wqh (.mutex m)).taskList ≠ [] → s.woken ≠ []
  wakes : ∀ w ∈ s.wakes, (s.k.tcb w.sleeper).waitingOn = none ∧ (s.k.tcb w.sleeper).state = .sleeping ∧
    (s.th w.sleeper).pc.isAsleep = true
  once : (s.wakes.map Wake.sleeper).Nodup
  returns : ∀ r ∈ s.returns, r.code = eintr → r.struck = true ∧ r.holds = false

section
variable {m : Nat} {c c' : Ktcb} {x : Thread} {s s' : Sys} {t u : L4id}

theorem Thread.Ok.awake (ok : x.Ok m c) (place : x.pc.isAsleep = false) : c.waitingOn = none ∧ x.struck = false := by
  constructor
  · cases home : c.waitingOn with
    | none => rfl
    | some q => exact absurd ((ok.queued q home).2.1.symm.trans place) (by decide)
  · cases hit : x.struck with
    | false => rfl
    | true => exact absurd ((ok.struck hit).2.symm.trans place) (by decide)

/-- A running thread in `mutex_lock` is in no queue. -/
theorem Thread.Ok.running (ok : x.Ok m c) (runnable : c.state = .runnable) : c.waitingOn = none := by
  cases home : c.waitingOn with
  | none => rfl
  | some q => exact absurd ((ok.queued q home).2.2.symm.trans runnable) (by decide)

@[simp] theorem Sys.set_th_self (f : Thread → Thread) : (s.set t f).th t = f (s.th t) := by simp [Sys.set]
@[simp] theorem Sys.set_th_of_ne (f : Thread → Thread) (other : u ≠ t) : (s.set t f).th u = s.th u := by
  simp [Sys.set, other]
@[simp] theorem Sys.set_k (f : Thread → Thread) : (s.set t f).k = s.k := rfl
@[simp] theorem Sys.set_wakes (f : Thread → Thread) : (s.set t f).wakes = s.wakes := rfl
@[simp] theorem Sys.set_woken (f : Thread → Thread) : (s.set t f).woken = s.woken := rfl
@[simp] theorem Sys.set_returns (f : Thread → Thread) : (s.set t f).returns = s.returns := rfl

/-- What has to be shown when only thread `t` changes and no wake-up is added. -/
theorem Inv.change (inv : Inv m s) (waits : s'.k.waits.Wf)
    (others : ∀ u, u ≠ t → s'.th u = s.th u ∧ s'.k.tcb u = s.k.tcb u) (ok : (s'.th t).Ok m (s'.k.tcb t))
    (owner : ∃ o : Option L4id, s'.k.lock m = o.isSome ∧ ∀ u, (s'.th u).holds = true ↔ o = some u)
    (kept : ∀ u ∈ s'.woken, u ∈ s.woken)
    (woken : t ∈ s'.woken → (s'.k.tcb t).waitingOn = none ∧ (s'.th t).struck = false ∧ (s'.th t).pc ≠ .out)
    (unlost : s'.k.lock m = false → (s'.k.wqh (.mutex m)).taskList ≠ [] → s'.woken ≠ [])
    (untouched : ∀ w ∈ s.wakes, w.sleeper ≠ t) (wakes : s'.wakes = s.wakes)
    (returns : ∀ r ∈ s'.returns, r.code = eintr → r.struck = true ∧ r.holds = false) : Inv m s' where
  waits := waits
  threads u := by
    by_cases self : u = t
    · subst self; exact ok
    · rw [(others u self).1, (others u self).2]; exact inv.threads u
  owner := owner
  woken u mem := by
    by_cases self : u = t
    · subst self; exact woken mem
    · rw [(others u self).1, (others u self).2]; exact inv.woken u (kept u mem)
  unlost := unlost
  wakes w mem := by
    rw [wakes] at mem
    have apart := others w.sleeper (untouched w mem)
    rw [apart.1, apart.2]; exact inv.wakes w mem
  once := wakes ▸ inv.once
  returns := returns

theorem Inv.not_waking (inv : Inv m s) (awake : (s.th t).pc.isAsleep = false ∨ (s.k.tcb t).state = .runnable) :
    ∀ w ∈ s.wakes, w.sleeper ≠ t := by
  rintro w mem rfl
  obtain ⟨_, sleeping, asleep⟩ := inv.wakes w mem
  rcases awake with place | runnable
  · exact absurd (asleep.symm.trans place) (by decide)
  · exact absurd (sleeping.symm.trans runnable) (by decide)

/-- A thread outside `mutex_lock` is in no queue and waits for nothing. -/
theorem Inv.outside (inv : Inv m s) (out : (s.th t).pc = .out) :
    (s.k.tcb t).waitingOn = none ∧ (s.th t).struck = false ∧ t ∉ s.woken := by
  obtain ⟨free, calm⟩ := (inv.threads t).awake (by rw [out]; rfl)
  exact ⟨free, calm, fun mem => (inv.woken t mem).2.2 out⟩

/-- The owner stays the same when no thread starts or stops to hold the mutex. -/
theorem Inv.same_owner (inv : Inv m s) (word : s'.k.lock m = s.k.lock m) (same : ∀ u, (s'.th u).holds = (s.th u).holds) :
    ∃ o : Option L4id, s'.k.lock m = o.isSome ∧ ∀ u, (s'.th u).holds = true ↔ o = some u := by
  obtain ⟨o, owned, owns⟩ := inv.owner
  exact ⟨o, word.trans owned, fun u => by rw [same]; exact owns u⟩

theorem Sys.set_holds {f : Thread → Thread} (same : (f (s.th t)).holds = (s.th t).holds) (u : L4id) :
    ((s.set t f).th u).holds = (s.th u).holds := by
  by_cases self : u = t
  · subst self; simpa using same
  · simp [self]

theorem Inv.lock (inv : Inv m s) (slot : Nat) (out : (s.th t).pc = .out) (free : (s.th t).holds = false) :
    Inv m (s.set t fun x => { x with pc := .trying slot }) := by
  have ok := inv.threads t
  obtain ⟨nowhere, calm, unwoken⟩ := inv.outside out
  refine inv.change (t := t) inv.waits (fun u other => by simp [other]) ?_ (inv.same_owner rfl (Sys.set_holds rfl))
    (fun u mem => mem) (fun mem => absurd mem unwoken) inv.unlost (inv.not_waking (.inl (by rw [out]; rfl))) rfl inv.returns
  rw [Sys.set_th_self]
  exact ⟨fun q home => by simp [nowhere] at home, ok.flag, fun hit => by simp [calm] at hit, fun _ => free, ok.lastOk,
    ok.counted⟩

/-- The state a successful swap leaves. -/
theorem lockedBy_tcb {k : State} {d : Int} {b : Bool} : ((addLocks d (setLock m b { k with current := t })).tcb u) =
    if u = t then { k.tcb u with nlocks := (k.tcb u).nlocks + d } else k.tcb u := by
  rw [addLocks, State.modify_tcb]; rfl

theorem lockedBy_waits {k : State} {d : Int} {b : Bool} :
    (addLocks d (setLock m b { k with current := t })).waits = k.waits :=
  waits_modify (k := setLock m b { k with current := t }) rfl

/-- A thread that found the word clear owns the mutex, by lock or trylock. -/
theorem Inv.acquire (inv : Inv m s) (word : s.k.lock m = false) (place : (s.th t).pc.isAsleep = false)
    (k : s'.k = addLocks 1 (setLock m true (s.enter t)))
    (self : s'.th t = { s.th t with pc := .out, holds := true, lastOk := true })
    (others : ∀ u, u ≠ t → s'.th u = s.th u) (kept : ∀ u ∈ s'.woken, u ∈ s.woken ∧ u ≠ t) (wakes : s'.wakes = s.wakes)
    (returns : ∀ r ∈ s'.returns, r.code = eintr → r.struck = true ∧ r.holds = false) : Inv m s' := by
  have ok := inv.threads t
  obtain ⟨nowhere, calm⟩ := ok.awake place
  obtain ⟨o, same, owns⟩ := inv.owner
  have nobody : o = none := by simpa [word] using same
  have locked : s'.k.lock m = true := by rw [k]; simp [addLocks, setLock]
  have free : (s.th t).holds = false := by
    have := owns t
    simpa [nobody] using this
  refine inv.change (t := t) ?_ (fun u other => ⟨others u other, ?_⟩) ?_ ⟨some t, by rw [locked]; rfl, fun u => ?_⟩
    (fun u mem => (kept u mem).1) (fun mem => absurd rfl (kept t mem).2) (fun clear => by simp [locked] at clear)
    (inv.not_waking (.inl place)) wakes returns
  · rw [k, Sys.enter, lockedBy_waits]; exact inv.waits
  · rw [k, Sys.enter, lockedBy_tcb, if_neg other]
  · rw [k, Sys.enter, lockedBy_tcb, if_pos rfl, self]
    have counted := ok.counted
    rw [free] at counted
    refine ⟨fun q home => by simp [nowhere] at home, ok.flag, fun hit => by simp [calm] at hit,
      fun away => absurd rfl away, fun _ => rfl, ?_⟩
    simp only [Bool.false_eq_true, if_false, if_true] at counted ⊢
    omega
  · by_cases same : u = t
    · subst same; simp [self]
    · rw [others u same, owns u, nobody]
      exact iff_of_false (Option.some_ne_none u).symm fun eq => same (Option.some.inj eq).symm

theorem Inv.turn (inv : Inv m s) (trying : (s.th t).pc.isTrying = true) (ok : turnStep m t s = .ok s') : Inv m s' := by
  have place : (s.th t).pc.isAsleep = false := by cases at_ : (s.th t).pc <;> simp_all [Pc.isTrying, Pc.isAsleep]
  have inside : (s.th t).pc ≠ .out := by intro out; simp [out, Pc.isTrying] at trying
  have thread := inv.threads t
  obtain ⟨nowhere, calm⟩ := thread.awake place
  obtain ⟨⟨k, exit⟩, took, ok⟩ := bind_eq_ok.mp ok
  rcases mutexLock_ok took with ⟨word, rfl, rfl⟩ | ⟨word, rfl, σ, rfl⟩
  · cases ok
    refine inv.acquire (t := t) word place rfl (by simp [Sys.return, Sys.retry])
      (fun u other => by simp [Sys.return, Sys.retry, other]) (fun u mem => ?_) rfl fun r mem => ?_
    · simpa [Sys.return, Sys.retry] using mem
    rcases List.mem_append.mp mem with old | new
    · exact inv.returns r old
    · rw [List.mem_singleton.mp new]
      exact fun loud => absurd (show (0 : Int) = eintr from loud) (by decide)
  · cases ok
    have same : (setLock m true (s.enter t)).waits = s.k.waits := rfl
    have locked : (slept t (.mutex m) (setLock m true (s.enter t)) σ).lock m = true := by
      simp [slept, taskSetWqh, wqhInsertTail, setLock, Sys.enter]
    refine inv.change (t := t) ?_ (fun u other => ⟨by simp [other, Sys.retry], slept_tcb_of_ne other⟩) ?_
      (inv.same_owner (locked.trans word.symm) (Sys.set_holds rfl)) (fun u mem => ?_) (fun mem => ?_)
      (fun clear => absurd (locked.symm.trans clear) (by decide)) (inv.not_waking (.inl place)) rfl inv.returns
    · change (slept t (.mutex m) (setLock m true (s.enter t)) σ).waits.Wf
      rw [slept_waits, same]
      exact inv.waits.insert false nowhere
    · change Thread.Ok m ((slept t (.mutex m) (setLock m true (s.enter t)) σ).tcb t) _
      rw [slept_tcb_self, Sys.set_th_self]
      exact ⟨fun q home => ⟨(Option.some.inj home).symm, rfl, rfl⟩, thread.flag, fun hit => by simp [Sys.retry, calm] at hit,
        fun _ => thread.apart inside, thread.lastOk, thread.counted⟩
    · exact (List.mem_filter.mp mem).1
    · simp [Sys.retry] at mem

theorem Inv.trylock (inv : Inv m s) (out : (s.th t).pc = .out) : Inv m (trylockStep m t s) := by
  have place : (s.th t).pc.isAsleep = false := by rw [out]; rfl
  have thread := inv.threads t
  obtain ⟨_, _, unwoken⟩ := inv.outside out
  cases word : s.k.lock m with
  | false =>
    have got : trylockStep m t s = { s with k := addLocks 1 (setLock m true (s.enter t)) }.set t fun x =>
        { x with holds := true, lastOk := true } := by
      simp [trylockStep, mutexTrylock, swpLock, Sys.enter, word, setLock]
    rw [got]
    refine inv.acquire (t := t) word place rfl (by simp [out]) (fun u other => by simp [other]) (fun u mem => ⟨mem, ?_⟩)
      rfl inv.returns
    rintro rfl
    exact unwoken mem
  | true =>
    have still : Function.update s.k.lock m true = s.k.lock := by rw [← word]; exact Function.update_eq_self m _
    have same : trylockStep m t s = { s with k := s.enter t }.set t fun x => { x with lastOk := false } := by
      simp [trylockStep, mutexTrylock, swpLock, Sys.enter, word, still]
    rw [same]
    refine inv.change (t := t) inv.waits (fun u other => ⟨by simp [other], rfl⟩) ?_
      (inv.same_owner rfl (Sys.set_holds rfl)) (fun u mem => mem) (fun mem => absurd mem unwoken)
      (fun clear => absurd (word.symm.trans clear) (by decide)) (inv.not_waking (.inl place)) rfl inv.returns
    rw [Sys.set_th_self]
    exact ⟨thread.queued, thread.flag, thread.struck, thread.apart,
      fun ok => absurd ok Bool.false_ne_true, thread.counted⟩

/-- A sleeper that runs again goes back to the lock word, or returns because an interrupting wake-up took
it off the queue. -/
theorem Inv.back (inv : Inv m s) (runnable : (s.k.tcb t).state = .runnable) (asleep : (s.th t).pc.isAsleep = true) :
    Inv m (backStep t s) := by
  have thread := inv.threads t
  have nowhere := thread.running runnable
  have inside : (s.th t).pc ≠ .out := by intro out; simp [out, Pc.isAsleep] at asleep
  have free := thread.apart inside
  cases flag : (s.k.tcb t).flags.interrupted with
  | false =>
    have calm : (s.th t).struck = false := thread.flag ▸ flag
    have same : backStep t s = s.set t fun x => { x with pc := .trying x.pc.slot } := by
      simp [backStep, waitReturn, flag]
    rw [same]
    refine inv.change (t := t) inv.waits (fun u other => by simp [other]) ?_ (inv.same_owner rfl (Sys.set_holds rfl))
      (fun u mem => mem) (fun _ => ?_) inv.unlost (inv.not_waking (.inr runnable)) rfl inv.returns
    · rw [Sys.set_th_self]
      exact ⟨fun q home => by simp [nowhere] at home, thread.flag, fun hit => by simp [calm] at hit, fun _ => free,
        thread.lastOk, thread.counted⟩
    · rw [Sys.set_th_self]
      exact ⟨nowhere, calm, nofun⟩
  | true =>
    have struck : (s.th t).struck = true := thread.flag ▸ flag
    have unwoken : t ∉ s.woken := fun mem => absurd ((inv.woken t mem).2.1.symm.trans struck) (by decide)
    have loud : ¬ eintr = 0 := by decide
    have same : backStep t s = ({ s with k := s.k.modify t fun c => { c with flags := { c.flags with interrupted := false } } }.return
        t eintr).set t fun x => { x with pc := .out, lastOk := false, struck := false } := by
      simp [backStep, waitReturn, flag, loud]
    rw [same]
    refine inv.change (t := t) ?_ (fun u other => by simp [other, Sys.return]) ?_ (inv.same_owner rfl (Sys.set_holds rfl))
      (fun u mem => mem) (fun mem => absurd mem unwoken) inv.unlost (inv.not_waking (.inr runnable)) rfl fun r mem => ?_
    · rw [Sys.set_k, Sys.return, waits_modify (by rfl)]; exact inv.waits
    · rw [Sys.set_th_self, Sys.set_k]
      simp only [Sys.return, State.modify_tcb_self]
      exact ⟨fun q home => by simp [nowhere] at home, rfl, nofun, fun away => absurd rfl away, nofun, thread.counted⟩
    · rcases List.mem_append.mp mem with old | new
      · exact inv.returns r old
      · rw [List.mem_singleton.mp new]
        exact fun _ => ⟨struck, free⟩

/-- What has to be shown when a sleeper `u` is taken off the queue and is to be resumed. -/
theorem Inv.take (inv : Inv m s) {k : State} {i : Bool} {w : Wake} (home : (s.k.tcb u).waitingOn = some (.mutex m))
    (sleeper : w.sleeper = u) (state : s'.k = wqhTake (.mutex m) u i k) (before : k.waits = s.k.waits)
    (others : ∀ v, v ≠ u → (s'.th v).Ok m (k.tcb v)) (ok : (s'.th u).Ok m ((wqhTake (.mutex m) u i k).tcb u))
    (same : (k.tcb u).state = (s.k.tcb u).state)
    (owner : ∃ o : Option L4id, s'.k.lock m = o.isSome ∧ ∀ v, (s'.th v).holds = true ↔ o = some v)
    (woken : ∀ v ∈ s'.woken, (v ∈ s.woken ∧ k.tcb v = s.k.tcb v ∧ s'.th v = s.th v) ∨ (v = u ∧ (s'.th u).struck = false))
    (unlost : s'.woken ≠ []∨ (s'.k.lock m = s.k.lock m ∧ s'.woken = s.woken)) (place : (s'.th u).pc = (s.th u).pc)
    (untouched : ∀ w ∈ s.wakes, k.tcb w.sleeper = s.k.tcb w.sleeper ∧ (s'.th w.sleeper).pc = (s.th w.sleeper).pc)
    (wakes : s'.wakes = s.wakes ++ [w]) (returns : s'.returns = s.returns) : Inv m s' := by
  obtain ⟨_, asleep, sleeping⟩ := (inv.threads u).queued _ home
  have fresh : ∀ w ∈ s.wakes, w.sleeper ≠ u := by
    rintro w mem rfl
    exact nomatch (inv.wakes w mem).1.symm.trans home
  refine ⟨?_, fun v => ?_, owner, fun v mem => ?_, fun clear _ => ?_, fun w' mem => ?_, ?_, returns ▸ inv.returns⟩
  · rw [state, waits_wqhTake, before]
    exact inv.waits.remove home
  · rw [state]
    by_cases self : v = u
    · subst self; exact ok
    · rw [wqhTake_tcb_of_ne self]; exact others v self
  · rw [state]
    rcases woken v mem with ⟨old, block, thread⟩ | ⟨rfl, calm⟩
    · have apart : v ≠ u := by
        rintro rfl
        exact nomatch (inv.woken v old).1.symm.trans home
      rw [wqhTake_tcb_of_ne apart, block, thread]
      exact inv.woken v old
    · rw [wqhTake_tcb_self, place]
      refine ⟨rfl, calm, fun gone => ?_⟩
      rw [gone] at asleep
      exact nomatch asleep
  · rcases unlost with some | ⟨word, list⟩
    · exact some
    · rw [list]
      exact inv.unlost (word ▸ clear) (List.ne_nil_of_mem ((inv.waits.mem_iff (.mutex m) u).mpr home))
  · rw [wakes] at mem
    rw [state]
    rcases List.mem_append.mp mem with old | new
    · obtain ⟨block, stays⟩ := untouched w' old
      rw [wqhTake_tcb_of_ne (fresh w' old), block, stays]
      exact inv.wakes w' old
    · rw [List.mem_singleton.mp new, sleeper, wqhTake_tcb_self, place]
      exact ⟨rfl, same.trans sleeping, asleep⟩
  · rw [wakes, List.map_append, List.map_singleton, sleeper]
    refine List.nodup_append.mpr ⟨inv.once, List.nodup_singleton u, fun a mem b new eq => ?_⟩
    obtain ⟨w', old, rfl⟩ := List.mem_map.mp mem
    exact fresh w' old (eq.trans (List.mem_singleton.mp new))

/-- An unlock by the owner, with the sleeper it took. -/
theorem Inv.unlock {sync : Bool} (inv : Inv m s) (out : (s.th t).pc = .out) (last : (s.th t).lastOk = true)
    (ok : unlockStep m t sync s = .ok s') : Inv m s' := by
  have thread := inv.threads t
  have holds := thread.lastOk last
  obtain ⟨nowhere, calm, unwoken⟩ := inv.outside out
  have unwaking := inv.not_waking (t := t) (.inl (by rw [out]; rfl))
  obtain ⟨o, owned, owns⟩ := inv.owner
  have mine : o = some t := (owns t).mp holds
  have others : ∀ u, u ≠ t → (s.th u).holds = false := fun u other => by
    have unowned := owns u
    cases held : (s.th u).holds with
    | false => rfl
    | true => exact absurd (Option.some.inj (mine.symm.trans (unowned.mp held))) (Ne.symm other)
  have counted := thread.counted
  rw [holds] at counted
  have released : Thread.Ok m { s.k.tcb t with nlocks := (s.k.tcb t).nlocks + -1 }
      { s.th t with holds := false, lastOk := false } := by
    refine ⟨fun q home => by simp [nowhere] at home, thread.flag, fun hit => by simp [calm] at hit, fun _ => rfl,
      fun ok => absurd ok Bool.false_ne_true, ?_⟩
    simp only [Bool.false_eq_true, if_false, if_true] at counted ⊢
    omega
  have unheld : ∀ u, (((s.set t fun x => { x with holds := false, lastOk := false }).th u).holds = true) ↔
      (none : Option L4id) = some u := fun u => by
    by_cases self : u = t
    · subst self; simp
    · simp [self, others u self]
  obtain ⟨⟨k, sleeper⟩, took, ok⟩ := bind_eq_ok.mp ok
  obtain ⟨_, ⟨rfl, count, rfl⟩ | ⟨u, rest, list, rfl, rfl⟩⟩ := mutexUnlockTake_ok took
  · cases ok
    have empty : (s.k.wqh (.mutex m)).taskList = [] := by
      have length := inv.waits.count_eq (.mutex m)
      rw [show s.k.waits.count (.mutex m) = 0 from count] at length
      exact List.eq_nil_of_length_eq_zero (Int.ofNat_eq_zero.mp length.symm)
    refine inv.change (t := t) ?_ (fun u other => ⟨by simp [other], ?_⟩) ?_ ⟨none, ?_, unheld⟩ (fun u mem => mem)
      (fun mem => absurd mem unwoken) (fun _ some => absurd empty some) unwaking rfl inv.returns
    · rw [Sys.set_k, Sys.enter, lockedBy_waits]; exact inv.waits
    · rw [Sys.set_k, Sys.enter, lockedBy_tcb, if_neg other]
    · rw [Sys.set_k, Sys.enter, lockedBy_tcb, if_pos rfl, Sys.set_th_self]; exact released
    · simp [addLocks, setLock]
  · cases ok
    have mem : u ∈ (s.k.wqh (.mutex m)).taskList := by
      change u ∈ ((s.enter t).wqh (.mutex m)).taskList
      simp [list]
    have home : (s.k.tcb u).waitingOn = some (.mutex m) := inv.waits.home_of_mem (i := Wqh.mutex m) mem
    have apart : u ≠ t := by
      rintro rfl
      exact absurd (home.symm.trans nowhere) (Option.some_ne_none _)
    have sleeper := inv.threads u
    have calmU : (s.th u).struck = false := by
      cases hit : (s.th u).struck with
      | false => rfl
      | true => exact absurd (home.symm.trans (sleeper.struck hit).1) (Option.some_ne_none _)
    refine inv.take (u := u) home rfl rfl ?_ (fun v other => ?_) ?_ ?_ ⟨none, ?_, unheld⟩ (fun v mem => ?_)
      (.inl (by simp)) (by simp [apart]) (fun w mem => ?_) rfl rfl
    · rw [Sys.enter, lockedBy_waits]
    · rw [Sys.enter, lockedBy_tcb]
      split
      · next self => subst self; simpa using released
      · next self => simpa [self] using inv.threads v
    · rw [wqhTake_tcb_self, Sys.enter, lockedBy_tcb, if_neg apart]
      simp only [Sys.set_th_of_ne _ apart]
      exact ⟨fun _ home => absurd home.symm (Option.some_ne_none _), by simpa using sleeper.flag, fun hit => by simp [calmU] at hit, sleeper.apart, sleeper.lastOk,
        sleeper.counted⟩
    · rw [Sys.enter, lockedBy_tcb, if_neg apart]
    · simp [wqhTake, taskUnsetWqh, wqhRemove, addLocks, setLock]
    · rcases List.mem_append.mp mem with old | new
      · have other : v ≠ t := by
          rintro rfl
          exact unwoken old
        exact .inl ⟨old, by rw [Sys.enter, lockedBy_tcb, if_neg other], by simp [other]⟩
      · exact .inr ⟨List.mem_singleton.mp new, by simpa [apart] using calmU⟩
    · have busy := unwaking w mem
      exact ⟨by rw [Sys.enter, lockedBy_tcb, if_neg busy], by simp [busy]⟩

/-- The removal by an interrupting wake-up, of the wait it looked at. -/
theorem Inv.remove (inv : Inv m s) (p : Peek)
    (fresh : (s.k.tcb p.task).waitingOn = some p.wqh → (s.th p.task).pc.slot = p.wq) : Inv m (removeStep p s) := by
  by_cases waits : (s.k.tcb p.task).waitingOn = some p.wqh
  · have thread := inv.threads p.task
    obtain ⟨same, asleep, sleeping⟩ := thread.queued _ waits
    rw [same] at waits
    have state : removeStep p s = { s with
        peeks := s.peeks.erase p
        k := wqhTake (.mutex m) p.task true s.k
        wakes := s.wakes ++ [Wake.mk p.task none] }.set p.task fun x => { x with struck := true } := by
      simp [removeStep, same ▸ waits, fresh (same ▸ waits), same]
    rw [state]
    refine inv.take (u := p.task) waits rfl rfl rfl (fun v other => ?_) ?_ rfl (inv.same_owner rfl (Sys.set_holds rfl))
      (fun v mem => .inl ⟨mem, rfl, ?_⟩) (.inr ⟨rfl, rfl⟩) (by simp) (fun w mem => ⟨rfl, ?_⟩) rfl rfl
    · simpa [other] using inv.threads v
    · rw [wqhTake_tcb_self, Sys.set_th_self]
      exact ⟨nofun, by simp, fun _ => ⟨rfl, asleep⟩, thread.apart, thread.lastOk, thread.counted⟩
    · have other : v ≠ p.task := by
        rintro rfl
        exact nomatch (inv.woken _ mem).1.symm.trans waits
      simp [other]
    · by_cases self : w.sleeper = p.task
      · rw [self]; simp
      · simp [self]
  · have state : removeStep p s = { s with peeks := s.peeks.erase p } := by simp [removeStep, waits]
    rw [state]
    exact ⟨inv.waits, inv.threads, inv.owner, inv.woken, inv.unlost, inv.wakes, inv.once, inv.returns⟩

theorem Inv.resume {w : Wake} (inv : Inv m s) (pending : w ∈ s.wakes) (ok : resumeStep w s = .ok s') : Inv m s' := by
  obtain ⟨k', resumed, ok⟩ := bind_eq_ok.mp ok
  cases ok
  obtain ⟨nowhere, sleeping, asleep⟩ := inv.wakes w pending
  have thread := inv.threads w.sleeper
  have effect : k'.waits = s.k.waits ∧ k'.wqh = s.k.wqh ∧ k'.lock = s.k.lock ∧
      ∀ u, k'.tcb u = if u = w.sleeper then { s.k.tcb u with state := .runnable } else s.k.tcb u := by
    have run : ∃ k0 : State, k0.tcb = s.k.tcb ∧ k0.wqh = s.k.wqh ∧ k0.lock = s.k.lock ∧
        schedResumeAsync w.sleeper k0 = .ok k' := by
      unfold Wake.run at resumed
      cases sync : w.sync with
      | none => exact ⟨s.k, rfl, rfl, rfl, by simpa [sync] using resumed⟩
      | some t =>
        rw [sync] at resumed
        exact ⟨s.enter t, rfl, rfl, rfl, schedResumeAsync_of_schedResume (show schedResume true _ _ = _ from resumed)⟩
    obtain ⟨k0, tcb, wqh, word, resumed⟩ := run
    obtain ⟨σ, _, rfl⟩ := schedResumeAsync_ok.mp resumed
    have blocks : ∀ u, (k0.modify w.sleeper fun c => { c with state := .runnable }).tcb u =
        if u = w.sleeper then { s.k.tcb u with state := .runnable } else s.k.tcb u := by
      intro u
      rw [State.modify_tcb, tcb]
    refine ⟨?_, wqh, word, blocks⟩
    refine waits_congr wqh fun u => ?_
    rw [show _ = _ from blocks u]
    split <;> rfl
  obtain ⟨waits, wqh, word, blocks⟩ := effect
  refine ⟨?_, fun u => ?_, ?_, fun u mem => ?_, ?_, fun w' mem => ?_, ?_, inv.returns⟩
  · change k'.waits.Wf
    rw [waits]; exact inv.waits
  · change Thread.Ok m (k'.tcb u) (s.th u)
    rw [blocks]
    split
    · next self =>
      subst self
      exact ⟨fun q home => by simp [nowhere] at home, thread.flag, thread.struck, thread.apart, thread.lastOk,
        thread.counted⟩
    · exact inv.threads u
  · change ∃ o : Option L4id, k'.lock m = o.isSome ∧ _
    rw [word]; exact inv.owner
  · obtain ⟨free, rest⟩ := inv.woken u mem
    refine ⟨?_, rest⟩
    change (k'.tcb u).waitingOn = none
    rw [blocks]
    split <;> exact free
  · change k'.lock m = false → (k'.wqh (.mutex m)).taskList ≠ [] → _
    rw [word, wqh]; exact inv.unlost
  · have old := List.mem_of_mem_erase mem
    have other : w'.sleeper ≠ w.sleeper := by
      intro eq
      have same : w' = w := List.inj_on_of_nodup_map inv.once old pending eq
      rw [same] at mem
      exact ((List.Nodup.of_map _ inv.once).mem_erase_iff.mp mem).1 rfl
    change (k'.tcb w'.sleeper).waitingOn = none ∧ (k'.tcb w'.sleeper).state = .sleeping ∧ _
    rw [blocks, if_neg other]
    exact inv.wakes w' old
  · exact inv.once.sublist (List.Sublist.map _ List.erase_sublist)

theorem Inv.step {e : Event} (inv : Inv m s) (able : enabled s e) (proper : Proper s e)
    (ok : MutexRuns.step m s e = .ok s') : Inv m s' := by
  cases e with
  | lock t slot => cases ok; exact inv.lock slot able.2 proper
  | turn t => exact inv.turn able.2 ok
  | back t => cases ok; exact inv.back able.1 able.2
  | trylock t => cases ok; exact inv.trylock able.2
  | unlock t sync => exact inv.unlock able.2.1 able.2.2 ok
  | peek t =>
    simp only [MutexRuns.step] at ok
    split at ok <;> cases ok
    · exact inv
    · exact ⟨inv.waits, inv.threads, inv.owner, inv.woken, inv.unlost, inv.wakes, inv.once, inv.returns⟩
  | remove p => cases ok; exact inv.remove p proper
  | resume w => exact inv.resume able ok

end

/-! ## Every run -/

/-- A kernel before the first use of mutex `m`, with nobody asleep. -/
structure Unused (m : Nat) (k : State) : Prop where
  queues : ∀ q, k.wqh q = {}
  awake : ∀ t, (k.tcb t).waitingOn = none
  calm : ∀ t, (k.tcb t).flags.interrupted = false
  counted : ∀ t, 0 ≤ (k.tcb t).nlocks
  clear : k.lock m = false

theorem Unused.inv {m : Nat} {k : State} (unused : Unused m k) : Inv m { k := k } where
  waits := ⟨fun q => by simp [State.waits, unused.queues], fun q => by simp [State.waits, unused.queues],
    fun q t => by simp [State.waits, unused.queues, unused.awake]⟩
  threads t := ⟨fun q home => by simp [unused.awake] at home, unused.calm t, nofun, fun away => absurd rfl away,
    nofun, unused.counted t⟩
  owner := ⟨none, unused.clear, fun t => by simp⟩
  woken _ mem := nomatch mem
  unlost _ some := absurd (by simp [unused.queues]) some
  wakes _ mem := nomatch mem
  once := List.nodup_nil
  returns _ mem := nomatch mem

structure Safe (m : Nat) (s : Sys) : Prop where
  /-- One owner at a time, and the word is locked exactly while there is one. -/
  exclusive : ∀ t u, (s.th t).holds = true → (s.th u).holds = true → t = u
  locked : s.k.lock m = true ↔ ∃ t, (s.th t).holds = true
  /-- An unlock goes through. -/
  unlocks : ∀ t sync, enabled s (.unlock t sync) → ∃ s', MutexRuns.step m s (.unlock t sync) = .ok s'
  /-- If the mutex is free and threads sleep, an unlock took one off the queue that is on its way to retry. -/
  unlost : s.k.lock m = false → (s.k.wqh (.mutex m)).taskList ≠ [] →
    ∃ t ∈ s.woken, (s.th t).pc ≠ .out ∧ t ∉ (s.k.wqh (.mutex m)).taskList
  /-- Only an interrupting wake-up makes a lock return `-EINTR`, and then its caller does not hold the mutex. -/
  returns : ∀ r ∈ s.returns, r.code = eintr → r.struck = true ∧ r.holds = false

theorem Inv.safe {m : Nat} {s : Sys} (inv : Inv m s) : Safe m s where
  exclusive t u first second := by
    obtain ⟨o, _, owns⟩ := inv.owner
    exact Option.some.inj (((owns t).mp first).symm.trans ((owns u).mp second))
  locked := by
    obtain ⟨o, owned, owns⟩ := inv.owner
    rw [owned, Option.isSome_iff_exists]
    exact exists_congr fun t => (owns t).symm
  unlocks t sync able := by
    obtain ⟨_, _, last⟩ := able
    have thread := inv.threads t
    have holds := thread.lastOk last
    obtain ⟨o, owned, owns⟩ := inv.owner
    have locked : s.k.lock m = true := by rw [owned, (owns t).mp holds]; rfl
    have counted : 0 ≤ (s.k.wqh (.mutex m)).sleepers := inv.waits.count_nonneg (i := Wqh.mutex m)
    cases took : mutexUnlockTake m (s.enter t) with
    | ok r =>
      obtain ⟨k, sleeper⟩ := r
      simp only [MutexRuns.step, unlockStep, took, bind, Except.bind]
      cases sleeper with
      | none => exact ⟨_, rfl⟩
      | some u => exact ⟨_, rfl⟩
    | error b =>
      rcases mutexUnlockTake_error took with ⟨_, clear⟩ | ⟨_, few⟩ | ⟨_, negative⟩ | ⟨_, sleeping, empty⟩
      · exact absurd (locked.symm.trans clear) (by decide)
      · have enough := thread.counted
        rw [holds, if_pos rfl] at enough
        change (s.k.tcb t).nlocks < 1 at few
        omega
      · change (s.k.wqh (.mutex m)).sleepers < 0 at negative
        omega
      · exact absurd empty (inv.waits.count_pos_iff.mp sleeping)
  unlost clear some := by
    obtain ⟨t, woken⟩ := List.exists_mem_of_ne_nil _ (inv.unlost clear some)
    obtain ⟨nowhere, _, inside⟩ := inv.woken t woken
    exact ⟨t, woken, inside, inv.waits.not_mem (i := Wqh.mutex m) nowhere⟩
  returns := inv.returns

/-- **Kernel mutex**: exclusion, no lost wake-up and faithful interruption, in every run in which a wake-up
removes the wait it looked at. -/
theorem mutex_safe {m : Nat} {k : State} {s : Sys} (unused : Unused m k)
    (reached : (machine m).ReachesUnder Proper { k := k } s) : Safe m s := by
  have inv : Inv m s := reached.invariant (I := Inv m) (fun _ _ _ inv able proper ok => inv.step able proper ok) unused.inv
  exact inv.safe

theorem twoRunnable_unused : Unused 0 twoRunnable where
  queues _ := rfl
  awake := twoRunnable_tcb (P := fun c => c.waitingOn = none) rfl rfl
  calm := twoRunnable_tcb (P := fun c => c.flags.interrupted = false) rfl rfl
  counted := twoRunnable_tcb (P := fun c => 0 ≤ c.nlocks) (Int.le_refl 0) (Int.le_refl 0)
  clear := rfl

/-- Thread 1 sleeps for the mutex of thread 2, in a call whose `wq` stands at address 100, and is interrupted. -/
def interruption : List Event :=
  [.lock 2 50, .turn 2, .lock 1 100, .turn 1, .peek 1, .remove ⟨1, .mutex 0, 100⟩, .resume ⟨1, none⟩, .back 1]

theorem mutex_safe_interruption : ∃ s, (machine 0).runUnder Proper interruption { k := twoRunnable } = some s ∧
    s.returns.map (fun r => (r.thread, r.code)) = [(2, 0), (1, eintr)] ∧ Safe 0 s := by
  have ran : (machine 0).runUnder Proper interruption { k := twoRunnable } =
    some (((machine 0).runUnder Proper interruption { k := twoRunnable }).get (by decide)) := by simp
  exact ⟨_, ran, by decide, mutex_safe twoRunnable_unused ((machine 0).reachesUnder_of_runUnder ran)⟩

/-! ## A wake-up that looked too early -/

/-- A waker looks at thread 1 asleep at 100. Before it removes it, thread 1 is woken, locks, unlocks, and goes
to sleep again in a call from a deeper frame, at 200. The removal unlinks the old node. -/
def staleWake : List Event :=
  [.lock 2 50, .turn 2, .lock 1 100, .turn 1, .peek 1, .unlock 2 false, .resume ⟨1, none⟩, .back 1, .turn 1,
    .unlock 1 false, .lock 2 50, .turn 2, .lock 1 200, .turn 1, .remove ⟨1, .mutex 0, 100⟩, .unlock 2 false]

theorem mutex_wake_stale : Unused 0 twoRunnable ∧ ∃ s, (machine 0).run staleWake { k := twoRunnable } = some s ∧
    s.k.lock 0 = false ∧ (s.k.wqh (.mutex 0)).taskList = [1] ∧ (s.k.wqh (.mutex 0)).sleepers = 0 ∧ ¬ Safe 0 s := by
  have outcome : ((machine 0).run staleWake { k := twoRunnable }).map (fun s =>
      (s.k.lock 0, (s.k.wqh (.mutex 0)).taskList, (s.k.wqh (.mutex 0)).sleepers, s.woken)) =
    some (false, [1], 0, []) := by decide +kernel
  obtain ⟨s, ran, left⟩ := Option.map_eq_some_iff.mp outcome
  obtain ⟨clear, list, count, nobody⟩ : _ ∧ _ ∧ _ ∧ _ := by simpa only [Prod.mk.injEq] using left
  refine ⟨twoRunnable_unused, s, ran, clear, list, count, fun safe => ?_⟩
  obtain ⟨t, woken, _⟩ := safe.unlost clear (by simp [list])
  rw [nobody] at woken
  exact nomatch woken

end Codezero.Kernel.MutexRuns
