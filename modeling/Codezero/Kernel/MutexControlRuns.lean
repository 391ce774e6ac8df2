import Codezero.Kernel.MutexTally
import Codezero.Lib.Machine

/-!
# Runs of the kernel half for one key

Threads call `mutex_control_lock` and `mutex_control_unlock` on one key in any order. Each body runs under
`mutex_control_mutex`, so it is one step. Who of the callers has been released is read off the threads.
-/

namespace Codezero.Kernel.MutexControlRuns
open Codezero.Lib

structure Sys where
  ctl : Ctl
  /-- Callers of lock and of unlock that went to sleep and have not been woken, oldest first. -/
  lockers : List L4id := []
  unlockers : List L4id := []
  /-- Lock calls that returned at once or were woken. -/
  released : Nat := 0
  /-- The sum of the contenders that unlock calls passed. -/
  total : Nat := 0

/-- `addr` is the memory that `mutex_cap_alloc` returns, should the call need a queue. -/
inductive Event
  | lock (t : L4id) (addr : Nat)
  | unlock (t : L4id) (c : Nat) (addr : Nat)

def asleep (k : State) (t : L4id) : Bool := (k.tcb t).waitingOn ≠ none

/-- The callers after a step to `ctl`, of which the woken ones are gone. -/
def Sys.after (s : Sys) (ctl : Ctl) : Sys where
  ctl := ctl
  lockers := s.lockers.filter (asleep ctl.k)
  unlockers := s.unlockers.filter (asleep ctl.k)
  released := s.released + (s.lockers.filter (fun t => !asleep ctl.k t)).length
  total := s.total

def Sys.enter (s : Sys) (t : L4id) : Ctl := { s.ctl with k := { s.ctl.k with current := t } }

def step (key : Word) (s : Sys) : Event → Except Bug Sys
  | .lock t addr => do
    let (ctl, exit) ← mutexControlLock (some addr) key (s.enter t)
    let s := s.after ctl
    match exit with
    | .sleep => pure { s with lockers := s.lockers ++ [t] }
    | _ => pure { s with released := s.released + 1 }
  | .unlock t c addr => do
    let (ctl, exit) ← mutexControlUnlock (some addr) key c (s.enter t)
    let s := { s.after ctl with total := s.total + c }
    match exit with
    | .sleep => pure { s with unlockers := s.unlockers ++ [t] }
    | _ => pure s

/-- A caller is not asleep, and allocation returns memory that is not in use. -/
def callable (s : Sys) (t : L4id) (addr : Nat) : Prop :=
  (s.ctl.k.tcb t).waitingOn = none ∧ ∀ q ∈ s.ctl.mq.list, q.addr ≠ addr

def enabled (s : Sys) : Event → Prop
  | .lock t addr => callable s t addr
  | .unlock t c addr => callable s t addr ∧ 1 ≤ c

instance (s : Sys) (e : Event) : Decidable (enabled s e) := by
  cases e <;> unfold enabled callable <;> infer_instance

def machine (key : Word) : Machine Sys Event Bug := ⟨enabled, step key⟩

instance (key : Word) (s : Sys) (e : Event) : Decidable ((machine key).enabled s e) :=
  inferInstanceAs (Decidable (enabled s e))

/-- The counter of a key, 0 if it has no queue. -/
def contendersOf (key : Word) (mq : MutexQueueHead) : Int :=
  match mutexControlFind key mq with
  | none => 0
  | some q => q.contenders

theorem contenders_owed {D : Word → Tally L4id} {w : Queues Wqh L4id} {mq : MutexQueueHead} {key : Word}
    (linked : Linked D w mq) : contendersOf key mq = (D key).owed := by
  have each := linked.each key
  unfold contendersOf
  cases found : mutexControlFind key mq with
  | none => rw [found] at each; rw [show D key = {} from each]; rfl
  | some q => rw [found] at each; exact each.1

/-- The counter has room for what an unlock adds. -/
def Fits (key : Word) (s : Sys) : Event → Prop
  | .unlock _ c _ => contendersOf key s.ctl.mq + c ≤ intMax
  | _ => True

instance (key : Word) (s : Sys) (e : Event) : Decidable (Fits key s e) := by
  cases e <;> unfold Fits <;> infer_instance

/-! ## The accounts -/

structure Accounts (key : Word) (s : Sys) : Prop where
  /-- At most one thread sleeps on `wqh_holders`, and then none on `wqh_contenders`. -/
  one_holder : ∀ q, mutexControlFind key s.ctl.mq = some q → (s.ctl.k.wqh (.holders q.addr)).taskList.length ≤ 1
  apart : ∀ q, mutexControlFind key s.ctl.mq = some q →
    (s.ctl.k.wqh (.holders q.addr)).taskList = [] ∨ (s.ctl.k.wqh (.contenders q.addr)).taskList = []
  /-- The counter is positive exactly when a holder sleeps. -/
  owing : ∀ q, mutexControlFind key s.ctl.mq = some q →
    (0 < q.contenders ↔ (s.ctl.k.wqh (.holders q.addr)).taskList ≠ [])
  /-- Without a queue no caller is unreleased, and no thread is in a queue of the mutexes. -/
  nobody : mutexControlFind key s.ctl.mq = none → s.lockers = [] ∧ s.unlockers = [] ∧
    ∀ t a, (s.ctl.k.tcb t).waitingOn ≠ some (.holders a) ∧ (s.ctl.k.tcb t).waitingOn ≠ some (.contenders a)
  /-- What is released and what is owed add up to what the unlocks brought. -/
  sum : s.released + contendersOf key s.ctl.mq = s.total
  /-- The unreleased lock calls are the sleepers of `wqh_contenders`. -/
  waiting : ∀ q, mutexControlFind key s.ctl.mq = some q → s.lockers = (s.ctl.k.wqh (.contenders q.addr)).taskList
  /-- No check of the queues stops a call. -/
  checks : ∀ e b, enabled s e → Fits key s e → step key s e = .error b → b.ofMutexQueue = false

/-- One key's tally, with nothing owed or awaited at any other. -/
def onlyAt (key : Word) (d : Tally L4id) : Word → Tally L4id := Function.update (fun _ => {}) key d

@[simp] theorem onlyAt_self {key : Word} {d : Tally L4id} : onlyAt key d key = d := Function.update_self ..

@[simp] theorem update_onlyAt {key : Word} {d d' : Tally L4id} :
    Function.update (onlyAt key d) key d' = onlyAt key d' := Function.update_idem ..

@[simp] theorem onlyAt_empty {key key' : Word} : onlyAt key {} key' = {} := by
  simp [onlyAt, Function.update_apply]

/-- The run's callers and numbers are those of the key's tally. -/
structure Inv (key : Word) (d : Tally L4id) (s : Sys) : Prop where
  linked : Linked (onlyAt key d) s.ctl.k.waits s.ctl.mq
  lockers : s.lockers = d.waiting
  unlockers : s.unlockers = d.holder.toList
  sum : s.released + d.owed = s.total
  bound : d.owed ≤ intMax

section
variable {key : Word} {d : Tally L4id} {s s' : Sys} {t : L4id} {addr c : Nat}

theorem Inv.queue (inv : Inv key d s) : KeyLinked d s.ctl.k.waits (mutexControlFind key s.ctl.mq) := by
  have linked := inv.linked.each key
  rwa [onlyAt_self] at linked

theorem Inv.contenders (inv : Inv key d s) : contendersOf key s.ctl.mq = d.owed := by
  rw [contenders_owed inv.linked, onlyAt_self]

theorem Inv.wf (inv : Inv key d s) : d.Wf := by
  have wf := inv.linked.tallies key
  rwa [onlyAt_self] at wf

/-- The caller is a thread that no tally has. -/
theorem Inv.outside (inv : Inv key d s) (free : s.ctl.k.waits.home t = none) : ¬ d.Has t := by
  have outside : ¬ (onlyAt key d key).Has t := inv.linked.not_has free
  rwa [onlyAt_self] at outside

/-- Who of the callers is still asleep after a body that leaves tally `d'` behind. -/
theorem Inv.asleep_iff {d' : Tally L4id} {ctl : Ctl} {u : L4id} (inv : Inv key d s)
    (free : s.ctl.k.waits.home t = none)
    (linked : Linked (onlyAt key d') ctl.k.waits ctl.mq) (left : Left t s.ctl.k.waits ctl.k.waits)
    (held : d.Has u) : asleep ctl.k u = true ↔ d'.Has u := by
  have other : u ≠ t := by
    rintro rfl
    exact inv.outside free held
  have linked' : Linked (Function.update (onlyAt key d) key d') ctl.k.waits ctl.mq := by rwa [update_onlyAt]
  have still := inv.linked.still linked' left other (by rwa [onlyAt_self])
  rw [← still]
  exact decide_eq_true_iff

/-- The callers of a key whose tally lost nobody are those of before. -/
theorem filter_kept {k : State} {l : List L4id} (kept : ∀ u ∈ l, asleep k u = true) :
    l.filter (asleep k) = l ∧ l.filter (fun u => !asleep k u) = [] :=
  ⟨List.filter_eq_self.mpr kept, List.filter_eq_nil_iff.mpr (by simpa using kept)⟩

theorem Inv.lock (inv : Inv key d s) (free : s.ctl.k.waits.home t = none)
    (fresh : ∀ q ∈ s.ctl.mq.list, q.addr ≠ addr) :
    Sat (step key s (.lock t addr)) (Inv key (d.arrive t)) (fun b => b.ofMutexQueue = false) := by
  have bound : (onlyAt key d key).owed ≤ intMax := by rw [onlyAt_self]; exact inv.bound
  have body := Linked.lock (s := s.enter t) inv.linked free fresh bound
  refine Sat.bind body fun r done => ?_
  obtain ⟨ctl, exit⟩ := r
  obtain ⟨linked, _, exited, left, _⟩ := done
  rw [onlyAt_self] at exited
  rw [onlyAt_self, update_onlyAt] at linked
  change Linked (onlyAt key (d.arrive t)) ctl.k.waits ctl.mq at linked
  have here : ∀ u, d.Has u → (asleep ctl.k u = true ↔ (d.arrive t).Has u) := fun u => inv.asleep_iff free linked left
  by_cases owes : 0 < d.owed
  · -- The caller consumes a wake-up; nobody waited, and the holder leaves with the last one.
    have alone := inv.wf.apart owes
    have holders : d.holder.toList.filter (asleep ctl.k) = (d.arrive t).holder.toList := by
      cases holder : d.holder with
      | none => exact absurd (inv.wf.stays.mp owes) (by simp [holder])
      | some h =>
        have sleeps := here h (.inr holder)
        by_cases last : d.owed = 1
        · have gone : ¬ asleep ctl.k h = true := by
            rw [sleeps]
            simp [Tally.Has, Tally.arrive, last, alone]
          simp [Tally.arrive, last, gone]
        · have stays : asleep ctl.k h = true := sleeps.mpr (by simp [Tally.Has, Tally.arrive, owes, last, holder])
          simp [Tally.arrive, owes, last, holder, stays]
    have fewer := Tally.arrive_owed (t := t) owes
    have sum := inv.sum
    simp only [owes, if_true] at exited
    subst exited
    refine ⟨linked, ?_, ?_, ?_, ?_⟩
    · simp [Sys.after, inv.lockers, alone, Tally.arrive, owes]
    · simp [Sys.after, inv.unlockers, holders]
    · simp only [Sys.after, inv.lockers, alone, List.filter_nil, List.length_nil]
      omega
    · have := inv.bound
      omega
  · -- The caller waits behind the others.
    have settled : d.owed = 0 := by omega
    have quiet : d.holder = none := by
      cases holder : d.holder with
      | none => rfl
      | some h => exact absurd (inv.wf.stays.mpr (by simp [holder])) owes
    have arrived := Tally.arrive_waits (t := t) settled
    have kept := filter_kept (k := ctl.k) (l := d.waiting) fun u mem =>
      (here u (.inl mem)).mpr (.inl (by rw [arrived]; exact List.mem_append_left _ mem))
    simp only [owes, if_false] at exited
    subst exited
    refine ⟨linked, ?_, ?_, ?_, ?_⟩
    · simp [Sys.after, inv.lockers, kept.1, arrived]
    · simp [Sys.after, inv.unlockers, quiet, arrived]
    · have sum := inv.sum
      simp only [Sys.after, inv.lockers, kept.2, List.length_nil, arrived]
      omega
    · rw [arrived]
      exact inv.bound

theorem Inv.unlock (inv : Inv key d s) (free : s.ctl.k.waits.home t = none)
    (fresh : ∀ q ∈ s.ctl.mq.list, q.addr ≠ addr) (brought : 1 ≤ c) (fits : d.owed + c ≤ intMax) :
    Sat (step key s (.unlock t c addr)) (Inv key (d.release t c)) (fun b => b.ofMutexQueue = false) := by
  have room : (onlyAt key d key).owed + c ≤ intMax := by rw [onlyAt_self]; exact fits
  have body := Linked.unlock (s := s.enter t) inv.linked free fresh brought room
  refine Sat.bind body fun r done => ?_
  obtain ⟨ctl, exit⟩ := r
  obtain ⟨linked, _, exited, left, _⟩ := done
  rw [onlyAt_self] at exited
  rw [onlyAt_self, update_onlyAt] at linked
  change Linked (onlyAt key (d.release t c)) ctl.k.waits ctl.mq at linked
  have here : ∀ u, d.Has u → (asleep ctl.k u = true ↔ (d.release t c).Has u) := fun u => inv.asleep_iff free linked left
  have outside := inv.outside free
  -- The caller is the only one who can be the holder now.
  have holder : ∀ u, d.Has u → (d.release t c).holder ≠ some u := by
    intro u held same
    have self : u = t := by
      unfold Tally.release at same
      split at same
      · exact nomatch same
      · exact (Option.some.inj same).symm
    exact outside (self ▸ held)
  have nodup : (onlyAt key d key).waiting.Nodup := inv.linked.waiting_nodup
  rw [onlyAt_self] at nodup
  obtain ⟨waiting, freed⟩ := Tally.release_filter (t := t) (c := c) (p := asleep ctl.k) nodup fun u mem =>
    (here u (.inl mem)).trans (or_iff_left (holder u (.inl mem)))
  have replaced : d.holder.toList.filter (asleep ctl.k) = [] := by
    refine List.filter_eq_nil_iff.mpr fun u mem sleeps => ?_
    have held : d.holder = some u := Option.mem_toList.mp mem
    have has := ((here u (.inr held)).mp sleeps).resolve_right (holder u (.inr held))
    have owes : 0 < d.owed := inv.wf.stays.mpr (by simp [held])
    simp [Tally.release, inv.wf.apart owes] at has
  have sum := inv.sum
  have owed := Tally.release_owed (d := d) (t := t) (c := c)
  have bound : (d.release t c).owed ≤ intMax := by omega
  have lockers : s.lockers.filter (asleep ctl.k) = (d.release t c).waiting := by rw [inv.lockers, waiting]
  have total : s.released + (s.lockers.filter (fun u => !asleep ctl.k u)).length + (d.release t c).owed = s.total + c := by
    rw [inv.lockers, freed]
    omega
  by_cases enough : d.owed + c ≤ d.waiting.length
  · simp only [enough, if_true] at exited
    subst exited
    exact ⟨linked, lockers, by simp [Sys.after, inv.unlockers, replaced, Tally.release, enough], total, bound⟩
  · simp only [enough, if_false] at exited
    subst exited
    exact ⟨linked, lockers, by simp [Sys.after, inv.unlockers, replaced, Tally.release, enough], total, bound⟩

/-- Every allowed call moves the tally, and no check of the queues stops it. -/
theorem Inv.step {e : Event} (inv : Inv key d s) (enabled : enabled s e) (fits : Fits key s e) :
    Sat (MutexControlRuns.step key s e) (fun s' => ∃ d', Inv key d' s') (fun b => b.ofMutexQueue = false) := by
  cases e with
  | lock t addr => exact (inv.lock enabled.1 enabled.2).mono fun s' kept => ⟨_, kept⟩
  | unlock t c addr =>
    obtain ⟨⟨free, fresh⟩, brought⟩ := enabled
    have room : contendersOf key s.ctl.mq + c ≤ intMax := fits
    rw [inv.contenders] at room
    exact (inv.unlock free fresh brought (by omega)).mono fun s' kept => ⟨_, kept⟩

theorem Inv.nobody (inv : Inv key d s) (absent : mutexControlFind key s.ctl.mq = none) : s.lockers = [] ∧
    s.unlockers = [] ∧ ∀ t a, s.ctl.k.waits.home t ≠ some (.holders a) ∧ s.ctl.k.waits.home t ≠ some (.contenders a) := by
  have empty : d = {} := by
    have linked := inv.queue
    rwa [absent] at linked
  subst empty
  -- With no tally left anywhere, a sleeper of a mutex queue would have nowhere to belong to.
  have nowhere : ∀ t a, ¬ (s.ctl.k.waits.home t = some (.holders a) ∨ s.ctl.k.waits.home t = some (.contenders a)) := by
    intro t a home
    obtain ⟨key', has⟩ := inv.linked.has_of_home home
    rw [onlyAt_empty] at has
    rcases has with waits | holds
    · exact nomatch waits
    · exact nomatch holds
  exact ⟨inv.lockers, inv.unlockers, fun t a => ⟨fun home => nowhere t a (.inl home), fun home => nowhere t a (.inr home)⟩⟩

theorem Inv.accounts (inv : Inv key d s) : Accounts key s := by
  have queue : ∀ q, mutexControlFind key s.ctl.mq = some q → q.contenders = d.owed ∧
      (s.ctl.k.wqh (.holders q.addr)).taskList = d.holder.toList ∧
      (s.ctl.k.wqh (.contenders q.addr)).taskList = d.waiting := fun q found => by
    have linked := inv.queue
    rwa [found] at linked
  have stays : 0 < d.owed ↔ d.holder.toList ≠ [] := by
    rw [inv.wf.stays]
    cases d.holder <;> simp
  refine ⟨fun q found => ?_, fun q found => ?_, fun q found => ?_, inv.nobody, ?_, fun q found => ?_,
    fun e b enabled fits stopped => (inv.step enabled fits).error stopped⟩
  · rw [(queue q found).2.1]
    cases d.holder <;> simp
  · obtain ⟨_, holders, contenders⟩ := queue q found
    rw [holders, contenders]
    by_cases owes : 0 < d.owed
    · exact .inr (inv.wf.apart owes)
    · exact .inl (not_not.mp (mt stays.mpr owes))
  · obtain ⟨count, holders, _⟩ := queue q found
    rw [count, holders, ← stays]
    omega
  · rw [inv.contenders]
    exact_mod_cast inv.sum
  · rw [(queue q found).2.2]
    exact inv.lockers

end

/-- A kernel in which nobody sleeps in a mutex queue, since there is none yet. -/
structure Quiet (k : State) : Prop where
  waits : k.waits.Wf
  nobody : ∀ t a, (k.tcb t).waitingOn ≠ some (.holders a) ∧ (k.tcb t).waitingOn ≠ some (.contenders a)

theorem Quiet.linked {k : State} (quiet : Quiet k) : Linked (fun _ => {}) k.waits {} where
  waits := quiet.waits
  queues := ⟨List.nodup_nil, List.nodup_nil⟩
  tallies _ := Tally.wf_empty
  each _ := rfl
  placed t a home := absurd home (not_or.mpr (quiet.nobody t a))

theorem Quiet.inv {k : State} {key : Word} (quiet : Quiet k) : Inv key {} { ctl := { k := k } } where
  linked := by
    have nothing : onlyAt key {} = fun _ => {} := funext fun _ => onlyAt_empty
    rw [nothing]
    exact quiet.linked
  lockers := rfl
  unlockers := rfl
  sum := rfl
  bound := Nat.zero_le _

/-- **Wake-ups balance.** However callers of lock and unlock of a key interleave, as long as the counter has
room for what unlocks add, the accounts of the key are in order after every call. -/
theorem wake_ups_balance {k : State} {key : Word} {s : Sys} (quiet : Quiet k)
    (reached : (machine key).ReachesUnder (Fits key) { ctl := { k := k } } s) : Accounts key s := by
  have held : ∃ d, Inv key d s := reached.invariant (I := fun s => ∃ d, Inv key d s)
    (fun _ _ _ before enabled fits stepped => by
      obtain ⟨d, inv⟩ := before
      exact (inv.step enabled fits).ok stepped)
    ⟨{}, quiet.inv⟩
  obtain ⟨d, inv⟩ := held
  exact inv.accounts

theorem Quiet.of_awake {k : State} (awake : ∀ t, (k.tcb t).waitingOn = none) (empty : ∀ q, k.wqh q = {}) : Quiet k where
  waits :=
    { count_eq := fun q => by simp [State.waits, empty]
      nodup := fun q => by simp [State.waits, empty]
      mem_iff := fun q t => by simp [State.waits, empty, awake] }
  nobody t a := by simp [awake]

theorem twoRunnable_quiet : Quiet twoRunnable :=
  .of_awake (twoRunnable_tcb (P := fun c => c.waitingOn = none) rfl rfl) fun _ => rfl

/-- Thread 1 waits as a contender until thread 2 unlocks; thread 2 owes one more and stays for it. -/
def waitedFor : List Event := [.lock 1 0, .unlock 2 2 1]

theorem wake_ups_balance_waited : ∃ s, (machine 4096).runUnder (Fits 4096) waitedFor { ctl := { k := twoRunnable } } = some s ∧
    Accounts 4096 s ∧ s.unlockers = [2] ∧ s.released = 1 ∧ s.total = 2 := by
  have outcome : ((machine 4096).runUnder (Fits 4096) waitedFor { ctl := { k := twoRunnable } }).map (fun s =>
      (s.unlockers, s.released, s.total)) = some ([2], 1, 2) := by decide +kernel
  obtain ⟨s, ran, left⟩ := Option.map_eq_some_iff.mp outcome
  obtain ⟨unlockers, released, total⟩ : _ ∧ _ ∧ _ := by simpa only [Prod.mk.injEq] using left
  exact ⟨s, ran, wake_ups_balance twoRunnable_quiet ((machine 4096).reachesUnder_of_runUnder ran), unlockers, released, total⟩

/-- Two threads take turns to unlock with the largest count that a call of `sys_mutex_control` can carry. Each
takes over from the other, and the ninth call overflows the counter. -/
def overflow : List Event :=
  .unlock 1 0x0fffffff 0 :: [2, 1, 2, 1, 2, 1, 2, 1].map fun t => .unlock t 0x0fffffff 1

theorem contenders_overflow : Quiet twoRunnable ∧
    ∃ s q, (machine 4096).run overflow { ctl := { k := twoRunnable } } = some s ∧
      mutexControlFind 4096 s.ctl.mq = some q ∧ q.contenders < 0 ∧
      (s.ctl.k.wqh (.holders q.addr)).taskList = [1] ∧ ¬ Accounts 4096 s := by
  have outcome : ((machine 4096).run overflow { ctl := { k := twoRunnable } }).map (fun s =>
      (mutexControlFind 4096 s.ctl.mq, (s.ctl.k.wqh (.holders 0)).taskList)) =
    some (some ⟨0, 4096, -1879048201⟩, [1]) := by decide +kernel
  obtain ⟨s, ran, left⟩ := Option.map_eq_some_iff.mp outcome
  obtain ⟨found, holders⟩ : _ ∧ _ := by simpa only [Prod.mk.injEq] using left
  refine ⟨twoRunnable_quiet, s, _, ran, found, by decide, holders, fun accounts => ?_⟩
  have owing := (accounts.owing _ found).mpr (by simp [holders])
  exact absurd owing (by decide)

end Codezero.Kernel.MutexControlRuns
