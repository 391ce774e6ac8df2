import Codezero.Kernel.Wait

/-!
# Kernel mutexes

`struct mutex` is a lock word swapped atomically and a wait queue. A blocked locker is woken by the
unlock and tries again.
-/

namespace Codezero.Kernel

/-- `__mutex_lock`: swap in `MUTEX_LOCKED`; success is having found `MUTEX_UNLOCKED`. -/
def swpLock (m : Nat) (k : State) : State × Bool :=
  ({ k with lock := Function.update k.lock m true }, !k.lock m)

/-- `__mutex_unlock`. -/
def swpUnlock (m : Nat) (k : State) : Except Bug State :=
  if k.lock m then .ok { k with lock := Function.update k.lock m false } else .error .mutexNotLocked

/-- `current->nlocks++` or `--`. -/
def addLocks (d : Int) (k : State) : State := k.modify k.current fun c => { c with nlocks := c.nlocks + d }

/-- `mutex_trylock`. -/
def mutexTrylock (m : Nat) (k : State) : State × Bool :=
  match swpLock m k with
  | (k, true) => (addLocks 1 k, true)
  | (k, false) => (k, false)

/-- One turn of the loop of `mutex_lock`. A turn that slept goes on with `waitReturn`: an interrupted
sleeper returns its code, any other takes another turn. -/
def mutexLock (m : Nat) (k : State) : Except Bug (State × Exit) :=
  match swpLock m k with
  | (k, true) => pure (addLocks 1 k, .ret 0)
  | (k, false) => do
    let k ← waitOnPrepare (.mutex m) k
    pure (k, .sleep)

/-- The choice that `mutex_unlock_common` makes under its spinlock, once the lock word is clear. -/
def mutexPick (m : Nat) (k : State) : Except Bug (State × Option L4id) :=
  if (k.tcb k.current).nlocks < 0 then .error .nlocks
  else if (k.wqh (.mutex m)).sleepers < 0 then .error .sleepers
  else if (k.wqh (.mutex m)).sleepers > 0 then
    match (k.wqh (.mutex m)).taskList with
    | [] => .error .taskListEmpty
    | t :: _ => .ok (wqhTake (.mutex m) t false k, some t)
  else .ok (k, none)

/-- The locked section of `mutex_unlock_common`, with the sleeper it took off the queue. -/
def mutexUnlockTake (m : Nat) (k : State) : Except Bug (State × Option L4id) := do
  let k ← swpUnlock m k
  mutexPick m (addLocks (-1) k)

/-- `mutex_unlock_common`: `mutex_unlock` is the synchronous one, `mutex_unlock_async` the other. -/
def mutexUnlockCommon (m : Nat) (sync : Bool) (k : State) : Except Bug (State × Exit) := do
  let (k, sleeper) ← mutexUnlockTake m k
  match sleeper with
  | none => pure (k, .ret 0)
  | some t => do
    let k ← schedResume sync t k
    pure (k, resumed sync 0)

def mutexUnlock (m : Nat) : State → Except Bug (State × Exit) := mutexUnlockCommon m true

def mutexUnlockAsync (m : Nat) : State → Except Bug (State × Exit) := mutexUnlockCommon m false

section
variable {m : Nat} {k k' : State}

/-- The lock word with `b` in it. -/
def setLock (m : Nat) (b : Bool) (k : State) : State := { k with lock := Function.update k.lock m b }

/-- The two ways through a turn of `mutex_lock`. -/
theorem mutexLock_ok {exit : Exit} (ok : mutexLock m k = .ok (k', exit)) :
    (k.lock m = false ∧ k' = addLocks 1 (setLock m true k) ∧ exit = .ret 0) ∨
      (k.lock m = true ∧ exit = .sleep ∧ ∃ σ, k' = slept k.current (.mutex m) (setLock m true k) σ) := by
  unfold mutexLock swpLock at ok
  cases locked : k.lock m with
  | false =>
    simp only [locked] at ok
    cases ok
    exact .inl ⟨rfl, rfl, rfl⟩
  | true =>
    simp only [locked] at ok
    obtain ⟨k1, slept, ok⟩ := Lib.bind_eq_ok.mp ok
    cases ok
    obtain ⟨σ, _, rfl⟩ := waitOnPrepare_ok.mp slept
    exact .inr ⟨rfl, rfl, σ, rfl⟩

/-- The locked section of an unlock: the word is cleared and the first sleeper, if any, is taken. -/
theorem mutexUnlockTake_ok {sleeper : Option L4id} (ok : mutexUnlockTake m k = .ok (k', sleeper)) :
    k.lock m = true ∧
      ((sleeper = none ∧ (k.wqh (.mutex m)).sleepers = 0 ∧ k' = addLocks (-1) (setLock m false k)) ∨
        ∃ t rest, (k.wqh (.mutex m)).taskList = t :: rest ∧ sleeper = some t ∧
          k' = wqhTake (.mutex m) t false (addLocks (-1) (setLock m false k))) := by
  obtain ⟨k1, cleared, picked⟩ := Lib.bind_eq_ok.mp ok
  unfold swpUnlock at cleared
  split_ifs at cleared with locked
  cases cleared
  refine ⟨locked, ?_⟩
  unfold mutexPick at picked
  split_ifs at picked with _ negative sleeping
  · split at picked
    · exact nomatch picked
    · next t rest list =>
      cases picked
      exact .inr ⟨t, rest, list, rfl, rfl⟩
  · cases picked
    refine .inl ⟨rfl, ?_, rfl⟩
    change ¬ (k.wqh (.mutex m)).sleepers < 0 at negative
    change ¬ (k.wqh (.mutex m)).sleepers > 0 at sleeping
    omega

/-- What can stop an unlock. -/
theorem mutexUnlockTake_error {b : Bug} (stopped : mutexUnlockTake m k = .error b) :
    (b = .mutexNotLocked ∧ k.lock m = false) ∨ (b = .nlocks ∧ (k.tcb k.current).nlocks < 1) ∨
      (b = .sleepers ∧ (k.wqh (.mutex m)).sleepers < 0) ∨
      (b = .taskListEmpty ∧ 0 < (k.wqh (.mutex m)).sleepers ∧ (k.wqh (.mutex m)).taskList = []) := by
  unfold mutexUnlockTake swpUnlock at stopped
  split_ifs at stopped with locked
  · change mutexPick m (addLocks (-1) (setLock m false k)) = _ at stopped
    unfold mutexPick at stopped
    split_ifs at stopped with few negative sleeping
    · cases stopped
      refine .inr (.inl ⟨rfl, ?_⟩)
      simp only [addLocks, setLock, State.modify_current, State.modify_tcb_self] at few
      omega
    · cases stopped
      exact .inr (.inr (.inl ⟨rfl, negative⟩))
    · split at stopped
      · next empty =>
        cases stopped
        exact .inr (.inr (.inr ⟨rfl, sleeping, empty⟩))
      · cases stopped
  · cases stopped
    exact .inl ⟨rfl, by simpa using locked⟩

end

end Codezero.Kernel
