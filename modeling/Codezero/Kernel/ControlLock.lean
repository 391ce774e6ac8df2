import Codezero.Cap.Exregs
import Codezero.Cap.ThreadRights
import Codezero.Kernel.Mutex
import Codezero.Lib.Machine

/-!
# The thread control lock

`sys_exchange_registers` and `thread_start` hold `thread_control_lock` of their target, which both take with
`mutex_trylock`. Any number of threads make these calls, preempted between any two of their statements that touch the
lock, the target or the capabilities.
-/

namespace Codezero.Kernel.ControlLock
open Codezero.Lib Codezero.Cap
open Function (update update_eq_self_iff update_of_ne update_self)

def eperm : Int := -1
def eagain : Int := -11

/-! ## The model -/

/-- The number of a thread's `thread_control_lock`. -/
def threadControlLock (task : L4id) : Nat := task.toNat

/-- What `check_access` returns: the mapping is there or was paged in, it is not, or the page-in was interrupted. -/
inductive Access
  | granted
  | fault
  | interrupted
  deriving DecidableEq, Repr

def Access.code : Access → Int
  | .granted => 0
  | .fault => efault
  | .interrupted => eintr

/-- Where a thread is in a call: before the trylock, in the locked section, before the unlock (with `err` either
`-EACTIVE` or 0). -/
inductive Call
  | out
  | tryExregs (task : L4id) (exregs : ExregsData)
  | exregs (task : L4id) (exregs : ExregsData)
  | copy (task : L4id) (exregs : ExregsData)
  | tryStart (task : L4id)
  | start (task : L4id)
  | unlock (task : L4id) (active : Bool)
  | returned (code : Int)

structure Sys where
  k : State
  /-- The saved registers of each thread. -/
  context : L4id → Reg → Word := fun _ _ => 0
  call : L4id → Call := fun _ => .out

/-- What the capability checks read and no call here changes: the lists that each thread searches, and the ids of its
space and container. -/
structure Rights where
  caps : L4id → CapLists
  spid : L4id → Word
  cid : L4id → Word

inductive Event
  | exchangeRegisters (t : L4id) (access : Access) (tid : L4id) (exregs : ExregsData)
  | threadRun (t : L4id) (access : Access) (tid : L4id) (flags : Word)
  | go (t : L4id)

def Sys.enter (s : Sys) (t : L4id) : State := { s.k with current := t }

def Sys.goto (s : Sys) (t : L4id) (c : Call) : Sys := { s with call := update s.call t c }

variable (r : Rights)

def Rights.target (t : L4id) : Target := { tid := t, spid := r.spid t, cid := r.cid t }

/-- The thread as `sys_exchange_registers` sees it. -/
def exregsTask (s : Sys) (task : L4id) : ExregsTask :=
  { ids := r.target task, state := (s.k.tcb task).state, pager := (s.k.tcb task).pager, context := s.context task,
    utcbAddress := (s.k.tcb task).utcbAddress }

/-- `sys_exchange_registers` up to its trylock. -/
def sysExchangeRegisters (s : Sys) (access : Access) (tid : L4id) (exregs : ExregsData) : Call :=
  if access.code < 0 then .returned access.code
  else if s.k.present tid then .tryExregs tid exregs
  else .returned esrch

/-- `space_is_pager`. -/
def spaceIsPager (s : Sys) (t : L4id) : Except Bug Bool :=
  match (s.k.tcb t).pager with
  | none => .error .nullPointer
  | some p => pure (r.spid t = r.spid p)

/-- `sys_thread_control` with `THREAD_RUN`, up to `thread_start`. -/
def sysThreadControl (s : Sys) (t : L4id) (access : Access) (tid : L4id) (flags : Word) : Except Bug Call :=
  if access.code < 0 then pure (.returned access.code)
  else if s.k.present tid then do
    if ← spaceIsPager r s t then do
      let err ← capThreadCheck (r.caps t) (some (r.target tid)) flags (r.cid t)
      pure (if err < 0 then .returned err else .tryStart tid)
    else pure (.returned eperm)
  else pure (.returned esrch)

/-- `mutex_trylock` on the target's lock. -/
def trylock (s : Sys) (t task : L4id) (next : Call) : Sys :=
  let locked := mutexTrylock (threadControlLock task) (s.enter t)
  { s with k := locked.1 }.goto t (if locked.2 then next else .returned eagain)

/-- The checks of `sys_exchange_registers` under the lock. A failed capability check returns from where it is. -/
def checkStep (s : Sys) (t task : L4id) (exregs : ExregsData) : Except Bug Sys := do
  if ← exregsActive t (exregsTask r s task) exregs then pure (s.goto t (.unlock task true))
  else do
    let err ← capExregsCheck (r.caps t) (r.target task) exregs
    pure (s.goto t (if err < 0 then .returned enocap else .copy task exregs))

/-- The copy of the registers. -/
def copyStep (s : Sys) (t task : L4id) (exregs : ExregsData) : Except Bug Sys := do
  let (copied, _) ← exregsCopy (exregsTask r s task) exregs
  let k := s.k.modify task fun c => { c with utcbAddress := copied.utcbAddress }
  pure ({ s with k := k, context := update s.context task copied.context }.goto t (.unlock task false))

def step (s : Sys) : Event → Except Bug Sys
  | .exchangeRegisters t access tid exregs => pure (s.goto t (sysExchangeRegisters s access tid exregs))
  | .threadRun t access tid flags => do
    let c ← sysThreadControl r s t access tid flags
    pure (s.goto t c)
  | .go t =>
    match s.call t with
    | .tryExregs task exregs => pure (trylock s t task (.exregs task exregs))
    | .exregs task exregs => checkStep r s t task exregs
    | .copy task exregs => copyStep r s t task exregs
    | .tryStart task => pure (trylock s t task (.start task))
    | .start task => do
      let k ← schedResumeAsync task (s.enter t)
      pure ({ s with k := k }.goto t (.unlock task false))
    | .unlock task active => do
      let (k, _) ← mutexUnlock (threadControlLock task) (s.enter t)
      pure ({ s with k := k }.goto t (.returned (if active then eactive else 0)))
    | .out | .returned _ => pure s

/-- The thread that a call in progress works on. -/
def Call.on : Call → Option L4id
  | .out | .returned _ => none
  | .tryExregs task _ | .exregs task _ | .copy task _ | .tryStart task | .start task | .unlock task _ => some task

def enabled (s : Sys) : Event → Prop
  | .exchangeRegisters t _ _ _ => (s.call t).on = none
  | .threadRun t _ _ flags => (s.call t).on = none ∧ flags &&& threadActionMask = threadRun
  | .go t => (s.call t).on ≠ none

instance (s : Sys) : (e : Event) → Decidable (enabled s e)
  | .exchangeRegisters t _ _ _ => inferInstanceAs (Decidable ((s.call t).on = none))
  | .threadRun t _ _ flags => inferInstanceAs (Decidable ((s.call t).on = none ∧ flags &&& threadActionMask = threadRun))
  | .go t => inferInstanceAs (Decidable ((s.call t).on ≠ none))

def machine : Machine Sys Event Bug := ⟨enabled, step r⟩

instance (s : Sys) (e : Event) : Decidable ((machine r).enabled s e) := inferInstanceAs (Decidable (enabled s e))

/-! ## Who holds the locks -/

/-- The thread whose lock a call holds. -/
def Call.holds : Call → Option L4id
  | .exregs task _ | .copy task _ | .start task | .unlock task _ => some task
  | .out | .returned _ | .tryExregs _ _ | .tryStart _ => none

/-- Locks and lock counts are those of the calls in progress, and nobody sleeps for a lock. -/
structure Sound (s : Sys) : Prop where
  held : ∀ task, s.k.lock (threadControlLock task) = true ↔ ∃ t, (s.call t).holds = some task
  alone : ∀ t u task, (s.call t).holds = some task → (s.call u).holds = some task → t = u
  nlocks : ∀ t, (s.k.tcb t).nlocks = if (s.call t).holds = none then 0 else 1
  queue : ∀ task, (s.k.wqh (.mutex (threadControlLock task))).sleepers = 0

/-- No call fails its capability check under the lock. -/
def Permitted (s : Sys) : Event → Prop
  | .go t =>
    match s.call t with
    | .exregs task exregs =>
      exregsActive t (exregsTask r s task) exregs = .ok false → capExregsCheck (r.caps t) (r.target task) exregs ≠ .ok enocap
    | _ => True
  | _ => True

section
variable {r} {s s' : Sys} {t u task : L4id} {c : Call} {k : State}

variable {access : Access} {flags : Word} {l : CapLists} {exregs : ExregsData} {err : Int} {e : Event}

theorem threadControlLock_inj (same : threadControlLock t = threadControlLock u) : t = u := BitVec.eq_of_toNat_eq same

@[simp] theorem goto_k : (s.goto t c).k = s.k := rfl
@[simp] theorem goto_call_self : (s.goto t c).call t = c := by simp [Sys.goto]
@[simp] theorem goto_call_of_ne (apart : u ≠ t) : (s.goto t c).call u = s.call u := by simp [Sys.goto, apart]

theorem holds_of_on (idle : c.on = none) : c.holds = none := by
  cases c <;> first | rfl | exact nomatch idle

theorem on_of_holds (holds : c.holds = some task) : c.on = some task := by
  cases c <;> first | exact holds | exact nomatch holds

/-- Before its trylock a call holds nothing. -/
theorem sysThreadControl_holds (ok : sysThreadControl r s t access task flags = .ok c) :
    c.holds = none := by
  unfold sysThreadControl at ok
  split_ifs at ok
  · cases ok; rfl
  · obtain ⟨yes, -, ok⟩ := bind_eq_ok.mp ok
    cases yes
    · cases ok; rfl
    · obtain ⟨err, -, ok⟩ := bind_eq_ok.mp ok
      cases ok
      split_ifs <;> rfl
  · cases ok; rfl

/-- A move that neither takes nor releases a lock. -/
theorem Sound.move (sound : Sound s) (calls : s'.call = update s.call t c) (same : c.holds = (s.call t).holds)
    (lock : s'.k.lock = s.k.lock) (nlocks : ∀ u, (s'.k.tcb u).nlocks = (s.k.tcb u).nlocks) (wqh : s'.k.wqh = s.k.wqh) : Sound s' := by
  have holds : ∀ u, (s'.call u).holds = (s.call u).holds := by
    intro u
    rw [calls]
    by_cases self : u = t
    · subst self; simpa using same
    · simp [self]
  refine ⟨fun task => ?_, fun t u task => ?_, fun u => ?_, fun task => ?_⟩
  · simp only [lock, holds]; exact sound.held task
  · simp only [holds]; exact sound.alone t u task
  · rw [nlocks, holds]; exact sound.nlocks u
  · rw [wqh]; exact sound.queue task

theorem Sound.goto (sound : Sound s) (same : c.holds = (s.call t).holds) : Sound (s.goto t c) :=
  sound.move rfl same rfl (fun _ => rfl) rfl

/-- Thread `t` takes the free lock of `task`. -/
theorem Sound.take (sound : Sound s) (free : s.k.lock (threadControlLock task) = false) (none : (s.call t).holds = none)
    (takes : c.holds = some task) : Sound ({ s with k := addLocks 1 (setLock (threadControlLock task) true (s.enter t)) }.goto t c) := by
  have nobody : ∀ u, (s.call u).holds ≠ some task := fun u holds => by
    rw [(sound.held task).mpr ⟨u, holds⟩] at free
    exact nomatch free
  refine ⟨fun other => ?_, fun u v other first second => ?_, fun u => ?_, fun other => sound.queue other⟩
  · change update s.k.lock (threadControlLock task) true (threadControlLock other) = true ↔ _
    by_cases same : other = task
    · subst same
      rw [update_self]
      exact ⟨fun _ => ⟨t, by simpa using takes⟩, fun _ => rfl⟩
    · have apart : threadControlLock other ≠ threadControlLock task := fun same' => same (threadControlLock_inj same')
      rw [update_of_ne apart, sound.held other]
      refine exists_congr fun u => ?_
      by_cases self : u = t
      · subst self; simp [none, takes, Ne.symm same]
      · simp [self]
  · by_cases self : u = t
    · by_cases self' : v = t
      · rw [self, self']
      · subst self
        simp only [goto_call_self, takes, Option.some.injEq] at first
        simp only [goto_call_of_ne self', ← first] at second
        exact absurd second (nobody v)
    · by_cases self' : v = t
      · subst self'
        simp only [goto_call_self, takes, Option.some.injEq] at second
        simp only [goto_call_of_ne self, ← second] at first
        exact absurd first (nobody u)
      · simp only [goto_call_of_ne self, goto_call_of_ne self'] at first second
        exact sound.alone u v other first second
  · by_cases self : u = t
    · subst self
      have before := sound.nlocks u
      rw [if_pos none] at before
      simp [addLocks, setLock, Sys.enter, takes, before]
    · simpa [addLocks, setLock, Sys.enter, self] using sound.nlocks u

/-- Thread `t` releases the lock that it holds. -/
theorem Sound.release (sound : Sound s) (holder : (s.call t).holds = some task) (releases : c.holds = none) :
    Sound ({ s with k := addLocks (-1) (setLock (threadControlLock task) false (s.enter t)) }.goto t c) := by
  refine ⟨fun other => ?_, fun u v other first second => ?_, fun u => ?_, fun other => sound.queue other⟩
  · change update s.k.lock (threadControlLock task) false (threadControlLock other) = true ↔ _
    by_cases same : other = task
    · subst same
      rw [update_self]
      refine ⟨fun locked => (nomatch locked), fun ⟨u, holds⟩ => ?_⟩
      by_cases self : u = t
      · subst self; simp [releases] at holds
      · rw [goto_call_of_ne self] at holds
        exact absurd (sound.alone u t other holds holder) self
    · have apart : threadControlLock other ≠ threadControlLock task := fun same' => same (threadControlLock_inj same')
      rw [update_of_ne apart, sound.held other]
      refine exists_congr fun u => ?_
      by_cases self : u = t
      · subst self; simp [releases, holder, Ne.symm same]
      · simp [self]
  · have moved : ∀ u, ((Sys.goto { s with k := addLocks (-1) (setLock (threadControlLock task) false (s.enter t)) } t c).call u).holds = some other →
        (s.call u).holds = some other := fun u holds => by
      by_cases self : u = t
      · subst self; simp [releases] at holds
      · rwa [goto_call_of_ne self] at holds
    exact sound.alone u v other (moved u first) (moved v second)
  · by_cases self : u = t
    · subst self
      have before := sound.nlocks u
      rw [if_neg (by rw [holder]; exact Option.some_ne_none task)] at before
      simp [addLocks, setLock, Sys.enter, releases, before]
    · simpa [addLocks, setLock, Sys.enter, self] using sound.nlocks u

/-- An unlock that nobody sleeps for. -/
theorem mutexUnlock_free {m : Nat} (locked : k.lock m = true) (counted : 1 ≤ (k.tcb k.current).nlocks)
    (queue : (k.wqh (.mutex m)).sleepers = 0) : mutexUnlock m k = .ok (addLocks (-1) (setLock m false k), .ret 0) := by
  have few : ¬ ((addLocks (-1) (setLock m false k)).tcb (addLocks (-1) (setLock m false k)).current).nlocks < 0 := by
    simp only [addLocks, setLock, State.modify_current, State.modify_tcb_self]
    omega
  have picked : mutexPick m (addLocks (-1) (setLock m false k)) = .ok (addLocks (-1) (setLock m false k), none) := by
    rw [mutexPick, if_neg few, if_neg (by change ¬ (k.wqh (.mutex m)).sleepers < 0; omega),
      if_neg (by change ¬ (k.wqh (.mutex m)).sleepers > 0; omega)]
  have taken : mutexUnlockTake m k = .ok (addLocks (-1) (setLock m false k), none) := by
    rw [mutexUnlockTake, swpUnlock, if_pos locked]
    exact picked
  rw [mutexUnlock, mutexUnlockCommon, taken]
  rfl

/-- The unlock of a call in progress goes through. -/
theorem Sound.unlocks (sound : Sound s) (holder : (s.call t).holds = some task) : mutexUnlock (threadControlLock task) (s.enter t) =
    .ok (addLocks (-1) (setLock (threadControlLock task) false (s.enter t)), .ret 0) := by
  refine mutexUnlock_free ((sound.held task).mpr ⟨t, holder⟩) ?_ (sound.queue task)
  change 1 ≤ (s.k.tcb t).nlocks
  rw [sound.nlocks t, if_neg (by rw [holder]; exact Option.some_ne_none task)]

/-- A trylock takes a free lock, and leaves one that is held. -/
theorem trylock_cases (s : Sys) (t task : L4id) (next : Call) :
    (s.k.lock (threadControlLock task) = false ∧
      trylock s t task next = { s with k := addLocks 1 (setLock (threadControlLock task) true (s.enter t)) }.goto t next) ∨
    (s.k.lock (threadControlLock task) = true ∧
      trylock s t task next = { s with k := setLock (threadControlLock task) true (s.enter t) }.goto t (.returned eagain)) := by
  unfold trylock mutexTrylock swpLock
  cases locked : s.k.lock (threadControlLock task)
  · exact .inl ⟨rfl, by simp [Sys.enter, setLock, locked]⟩
  · exact .inr ⟨rfl, by simp [Sys.enter, setLock, locked]⟩

theorem Sound.trylock {next : Call} (sound : Sound s) (empty : (s.call t).holds = none) (takes : next.holds = some task) :
    Sound (trylock s t task next) := by
  rcases trylock_cases s t task next with ⟨free, same⟩ | ⟨locked, same⟩ <;> rw [same]
  · exact sound.take free empty takes
  · refine sound.move rfl empty.symm ?_ (fun _ => rfl) rfl
    exact update_eq_self_iff.mpr locked.symm

theorem modify_nlocks {f : Ktcb → Ktcb} (same : (f (k.tcb t)).nlocks = (k.tcb t).nlocks) (u : L4id) :
    ((k.modify t f).tcb u).nlocks = (k.tcb u).nlocks := by
  by_cases self : u = t
  · subst self; simpa using same
  · simp [self]

theorem capExregsCheck_code {target : Target}
    (ok : capExregsCheck l target exregs = .ok err) : err = enocap ∨ err = 0 := by
  obtain ⟨found, -, ok⟩ := bind_eq_ok.mp ok
  cases found <;> cases ok
  · exact .inl rfl
  · exact .inr rfl

theorem Sound.check (sound : Sound s) (here : s.call t = .exregs task exregs)
    (permitted : exregsActive t (exregsTask r s task) exregs = .ok false → capExregsCheck (r.caps t) (r.target task) exregs ≠ .ok enocap)
    (ok : checkStep r s t task exregs = .ok s') : Sound s' := by
  obtain ⟨active, looked, ok⟩ := bind_eq_ok.mp ok
  cases active with
  | true => cases ok; exact sound.goto (by rw [here]; rfl)
  | false =>
    obtain ⟨err, checked, ok⟩ := bind_eq_ok.mp ok
    cases ok
    obtain rfl | rfl := capExregsCheck_code checked
    · exact absurd checked (permitted looked)
    · exact sound.goto (by rw [here]; rfl)

theorem Sound.copy (sound : Sound s) (here : s.call t = .copy task exregs)
    (ok : copyStep r s t task exregs = .ok s') : Sound s' := by
  obtain ⟨copied, -, ok⟩ := bind_eq_ok.mp ok
  cases ok
  exact sound.move rfl (by rw [here]; rfl) rfl
    (modify_nlocks (k := s.k) (f := fun c => { c with utcbAddress := copied.1.utcbAddress }) rfl) rfl

theorem Sound.step (sound : Sound s) (able : enabled s e) (permitted : Permitted r s e) (ok : step r s e = .ok s') :
    Sound s' := by
  cases e with
  | exchangeRegisters t access tid exregs =>
    cases ok
    refine sound.goto ?_
    rw [holds_of_on able]
    unfold sysExchangeRegisters
    split_ifs <;> rfl
  | threadRun t access tid flags =>
    obtain ⟨c, call, ok⟩ := bind_eq_ok.mp ok
    cases ok
    exact sound.goto ((sysThreadControl_holds call).trans (holds_of_on able.1).symm)
  | go t =>
    simp only [ControlLock.step] at ok
    split at ok
    · next task exregs here =>
      cases ok
      exact sound.trylock (by rw [here]; rfl) rfl
    · next task exregs here =>
      refine sound.check here (fun inactive => ?_) ok
      simp only [Permitted, here] at permitted
      exact permitted inactive
    · next task exregs here => exact sound.copy here ok
    · next task here =>
      cases ok
      exact sound.trylock (by rw [here]; rfl) rfl
    · next task here =>
      obtain ⟨k, resumed, ok⟩ := bind_eq_ok.mp ok
      cases ok
      obtain ⟨σ, -, rfl⟩ := schedResumeAsync_ok.mp resumed
      exact sound.move rfl (by rw [here]; rfl) rfl
        (modify_nlocks (k := s.enter t) (f := fun c => { c with state := .runnable }) rfl) rfl
    · next task active here =>
      have holder : (s.call t).holds = some task := by rw [here]; rfl
      rw [sound.unlocks holder] at ok
      cases ok
      exact sound.release holder rfl
    · cases ok; exact sound
    · cases ok; exact sound

/-! ## Every run -/

/-- No call is in progress, no lock was ever taken. -/
structure Boot (s : Sys) : Prop where
  calls : ∀ t, s.call t = .out
  locks : ∀ m, s.k.lock m = false
  nlocks : ∀ t, (s.k.tcb t).nlocks = 0
  queues : ∀ m, (s.k.wqh (.mutex m)).sleepers = 0

theorem Boot.sound (boot : Boot s) : Sound s where
  held task := by simp [boot.locks, boot.calls, Call.holds]
  alone t _ _ holds := by simp [boot.calls, Call.holds] at holds
  nlocks t := by simp [boot.nlocks, boot.calls, Call.holds]
  queue task := boot.queues _

/-- With no call in progress every lock is free and nobody counts one; a trylock fails only against another call on the
same thread; and the unlock that ends a call goes through. -/
structure Kept (r : Rights) (s : Sys) : Prop where
  free : (∀ t, (s.call t).on = none) → ∀ t, s.k.lock (threadControlLock t) = false ∧ (s.k.tcb t).nlocks = 0
  again : ∀ t e s', enabled s e → step r s e = .ok s' → s.call t ≠ .returned eagain → s'.call t = .returned eagain →
    ∃ u task, u ≠ t ∧ (s.call t).on = some task ∧ (s.call u).on = some task
  released : ∀ t task active, s.call t = .unlock task active →
    ∃ s', step r s (.go t) = .ok s' ∧ (s'.call t).on = none

theorem capThreadCheck_code {target : Option Target} {cid : Word}
    (ok : capThreadCheck l target flags cid = .ok err) : err = enocap ∨ err = 0 := by
  obtain ⟨found, -, ok⟩ := bind_eq_ok.mp ok
  cases found <;> cases ok
  · exact .inl rfl
  · exact .inr rfl

theorem sysThreadControl_code (ok : sysThreadControl r s t access task flags = .ok c) :
    c ≠ .returned eagain := by
  unfold sysThreadControl at ok
  split_ifs at ok
  · cases ok
    cases access <;> simp [Access.code, eagain, efault, eintr]
  · obtain ⟨yes, -, ok⟩ := bind_eq_ok.mp ok
    cases yes
    · cases ok; simp [eperm, eagain]
    · obtain ⟨err, checked, ok⟩ := bind_eq_ok.mp ok
      cases ok
      rcases capThreadCheck_code checked with rfl | rfl <;> simp [enocap, eagain]
  · cases ok; simp [esrch, eagain]

/-- Only a trylock that finds the lock taken answers `-EAGAIN`. -/
theorem again_cases (ok : step r s e = .ok s') (before : s.call t ≠ .returned eagain)
    (after : s'.call t = .returned eagain) :
    ∃ task, (s.call t).on = some task ∧ (s.call t).holds = none ∧ s.k.lock (threadControlLock task) = true := by
  have other : ∀ {u : L4id} {q : Sys} {c : Call}, s' = q.goto u c → q.call = s.call → c = .returned eagain ∧ u = t := by
    intro u q c same calls
    subst same
    by_cases self : t = u
    · subst self; simpa using after
    · rw [goto_call_of_ne self, calls] at after
      exact absurd after before
  cases e with
  | exchangeRegisters u access tid exregs =>
    cases ok
    obtain ⟨code, -⟩ := other rfl rfl
    unfold sysExchangeRegisters at code
    split_ifs at code
    · cases access <;> simp [Access.code, eagain, efault, eintr] at code
    · simp [esrch, eagain] at code
  | threadRun u access tid flags =>
    obtain ⟨c, call, ok⟩ := bind_eq_ok.mp ok
    cases ok
    exact absurd (other rfl rfl).1 (sysThreadControl_code call)
  | go u =>
    -- a trylock answers so only for a lock that is taken
    have tries : ∀ {task : L4id} {next : Call}, next.holds = some task → s' = trylock s u task next → (s.call u).on = some task →
        (s.call u).holds = none → ∃ task, (s.call t).on = some task ∧ (s.call t).holds = none ∧ s.k.lock (threadControlLock task) = true := by
      intro task next takes same on empty
      rcases trylock_cases s u task next with ⟨-, result⟩ | ⟨locked, result⟩
      · obtain ⟨rfl, -⟩ := other (same.trans result) rfl
        exact nomatch takes
      · obtain ⟨-, rfl⟩ := other (same.trans result) rfl
        exact ⟨task, on, empty, locked⟩
    simp only [ControlLock.step] at ok
    split at ok
    · next here =>
      cases ok
      exact tries rfl rfl (by rw [here]; rfl) (by rw [here]; rfl)
    · obtain ⟨active, -, ok⟩ := bind_eq_ok.mp ok
      cases active with
      | true => cases ok; exact nomatch (other rfl rfl).1
      | false =>
        obtain ⟨err, -, ok⟩ := bind_eq_ok.mp ok
        cases ok
        obtain ⟨code, -⟩ := other rfl rfl
        split_ifs at code
        simp [enocap, eagain] at code
    · obtain ⟨copied, -, ok⟩ := bind_eq_ok.mp ok
      cases ok
      exact nomatch (other rfl rfl).1
    · next here =>
      cases ok
      exact tries rfl rfl (by rw [here]; rfl) (by rw [here]; rfl)
    · obtain ⟨k, -, ok⟩ := bind_eq_ok.mp ok
      cases ok
      exact nomatch (other rfl rfl).1
    · next active here =>
      obtain ⟨k, -, ok⟩ := bind_eq_ok.mp ok
      cases ok
      obtain ⟨code, -⟩ := other rfl rfl
      cases active <;> simp [eactive, eagain] at code
    · cases ok; exact absurd after before
    · cases ok; exact absurd after before

theorem Sound.kept (sound : Sound s) : Kept r s where
  free idle t := by
    have none : ∀ u, (s.call u).holds = none := fun u => holds_of_on (idle u)
    refine ⟨?_, by rw [sound.nlocks t, if_pos (none t)]⟩
    rw [Bool.eq_false_iff, Ne, sound.held t]
    rintro ⟨u, holds⟩
    exact nomatch (none u).symm.trans holds
  again t e s' _ ok before after := by
    obtain ⟨task, on, empty, locked⟩ := again_cases ok before after
    obtain ⟨u, holds⟩ := (sound.held task).mp locked
    refine ⟨u, task, ?_, on, on_of_holds holds⟩
    rintro rfl
    exact nomatch empty.symm.trans holds
  released t task active here := by
    have holder : (s.call t).holds = some task := by rw [here]; rfl
    simp only [ControlLock.step, here, sound.unlocks holder]
    exact ⟨_, rfl, by simp [Call.on]⟩

/-- Any threads, targets, arguments and capability lists. -/
theorem control_lock_kept (boot : Boot s) (reached : (machine r).ReachesUnder (Permitted r) s s') : Kept r s' :=
  (reached.invariant (I := Sound) (fun _ _ _ sound able permitted ok => sound.step able permitted ok) boot.sound).kept

end

instance (s : Sys) (e : Event) : Decidable (Permitted r s e) := by
  unfold Permitted
  split
  · split <;> infer_instance
  · infer_instance

/-- Threads 1 and 2 in one space; the first may run and change the second and is its pager. -/
def pagerAndChild : Sys where
  k := { twoRunnable with tcb := fun t => { state := if t = 1 then .runnable else .inactive, pager := some 1 }, sched := .ready [1] }

def pagerRights (access : Word) : Rights where
  caps _ := { space := [{ type := capTypeExregs ||| capRtypeSpace, resid := 7, access := access },
    { type := capTypeTctrl ||| capRtypeSpace, resid := 7, access := capTctrlRun }] }
  spid _ := 7
  cid _ := 3

def allowed : Rights := pagerRights capExregsRwPc
def denied : Rights := pagerRights 0

theorem pagerAndChild_boot : Boot pagerAndChild := ⟨fun _ => rfl, fun _ => rfl, fun _ => rfl, fun _ => rfl⟩

/-- The child's program counter is set while a second thread tries to run it; then it is run. -/
def setAndRun : List Event :=
  [.exchangeRegisters 1 .granted 2 { validVect := fieldToBit regPc }, .go 1, .threadRun 3 .granted 2 threadRun, .go 3,
    .go 1, .go 1, .go 1, .threadRun 1 .granted 2 threadRun, .go 1, .go 1, .go 1]

theorem control_lock_kept_pager : ∃ s, (machine allowed).runUnder (Permitted allowed) setAndRun pagerAndChild = some s ∧
    s.call 1 = .returned 0 ∧ s.call 3 = .returned eagain ∧ Kept allowed s := by
  have ran : ((machine allowed).runUnder (Permitted allowed) setAndRun pagerAndChild).map
      (fun s => (s.call 1, s.call 3)) = some (.returned 0, .returned eagain) := rfl
  obtain ⟨s, ran, codes⟩ := Option.map_eq_some_iff.mp ran
  exact ⟨s, ran, congrArg Prod.fst codes, congrArg Prod.snd codes,
    control_lock_kept pagerAndChild_boot (Machine.reachesUnder_of_runUnder _ ran)⟩

/-- A call without the right for the program counter. -/
def deniedCall : List Event := [.exchangeRegisters 1 .granted 2 { validVect := fieldToBit regPc }, .go 1, .go 1]

/-- After the call is refused its lock stays taken, and the caller's next one is told to try again. -/
theorem control_lock_lost : ∃ s s', (machine denied).run deniedCall pagerAndChild = some s ∧
    s.call 1 = .returned enocap ∧ (∀ t, (s.call t).on = none) ∧ s.k.lock (threadControlLock 2) = true ∧
    (s.k.tcb 1).nlocks = 1 ∧ (machine denied).run (deniedCall.take 2) s = some s' ∧ s'.call 1 = .returned eagain := by
  refine ⟨_, _, rfl, rfl, fun t => ?_, rfl, rfl, rfl, rfl⟩
  by_cases self : t = 1
  · subst self; rfl
  · simp only [trylock, goto_call_of_ne self]
    rfl

end Codezero.Kernel.ControlLock
