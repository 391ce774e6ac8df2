import Codezero.Kernel.MutexTally
import Codezero.Lib.Machine

/-!
# The lock word by itself

Threads run `__l4_mutex_lock` and `__l4_mutex_unlock` on one word, one access at a time. Whoever swaps in -2 and did
not find it there owns the word until its store. The value under it is the mutex: unlocked, or the number of lock
calls that found it locked.
-/

namespace Codezero.User.LockWord
open Codezero.Lib Codezero.Kernel

variable {T : Type}

/-! ## The model -/

/-- `L4_MUTEX_UNLOCKED`, and the value that owns the word. -/
def l4MutexUnlocked : Word := -1
def grabbed : Word := -2

/-- Where a thread stands: outside, before its `swp` or its `str`, or inside the section that the mutex guards. -/
inductive Pc
  | out
  | lockSwp
  | lockStr (r : Word)
  | held
  | unlockSwp
  | unlockStr (r : Word)
  deriving DecidableEq, Repr

structure Locked (T : Type) where
  word : Word := l4MutexUnlocked
  pc : T → Pc := fun _ => .out
  /-- The lock calls that returned `L4_MUTEX_CONTENDED` since the last one that succeeded. -/
  contended : Nat := 0
  /-- The values that unlock calls returned, each with the count at that time. -/
  returns : List (Word × Nat) := []

inductive Event (T : Type)
  | lock (t : T)
  | unlock (t : T)
  | go (t : T)

variable [DecidableEq T]

def Locked.goto (s : Locked T) (t : T) (pc : Pc) : Locked T := { s with pc := Function.update s.pc t pc }

/-- `swp` of -2, with the branch back to it. -/
def swap (s : Locked T) (t : T) (spin : Pc) (grab : Word → Pc) : Locked T :=
  ({ s with word := grabbed }).goto t (if s.word = grabbed then spin else grab s.word)

/-- The rest of `__l4_mutex_lock`: `L4_MUTEX_SUCCESS` if the value stored is `L4_MUTEX_LOCKED`. -/
def lockStr (s : Locked T) (t : T) (r : Word) : Locked T :=
  if r + 1 = 0 then ({ s with word := r + 1, contended := 0 }).goto t .held
  else ({ s with word := r + 1, contended := s.contended + 1 }).goto t .out

/-- The rest of `__l4_mutex_unlock`, which returns what its `swp` found. -/
def unlockStr (s : Locked T) (t : T) (r : Word) : Locked T :=
  ({ s with word := l4MutexUnlocked, returns := (r, s.contended) :: s.returns }).goto t .out

def step (s : Locked T) : Event T → Except Bug (Locked T)
  | .lock t => pure (s.goto t .lockSwp)
  | .unlock t => pure (s.goto t .unlockSwp)
  | .go t =>
    match s.pc t with
    | .lockSwp => pure (swap s t .lockSwp .lockStr)
    | .lockStr r => pure (lockStr s t r)
    | .unlockSwp => pure (swap s t .unlockSwp .unlockStr)
    | .unlockStr r => pure (unlockStr s t r)
    | .out | .held => pure s

/-- A thread outside may lock, only a holder unlocks. -/
def enabled (s : Locked T) : Event T → Prop
  | .lock t => s.pc t = .out
  | .unlock t => s.pc t = .held
  | .go t => s.pc t ≠ .out ∧ s.pc t ≠ .held

instance (s : Locked T) : (e : Event T) → Decidable (enabled s e)
  | .lock t => inferInstanceAs (Decidable (s.pc t = .out))
  | .unlock t => inferInstanceAs (Decidable (s.pc t = .held))
  | .go t => inferInstanceAs (Decidable (s.pc t ≠ .out ∧ s.pc t ≠ .held))

def machine : Machine (Locked T) (Event T) Bug := ⟨enabled, step⟩

instance (s : Locked T) (e : Event T) : Decidable (machine.enabled s e) := inferInstanceAs (Decidable (enabled s e))

/-! ## The value of the mutex -/

/-- Between a lock that returned `L4_MUTEX_SUCCESS` and its unlock. -/
def Pc.inside : Pc → Bool
  | .held | .unlockSwp | .unlockStr _ => true
  | _ => false

/-- The thread owns the word, over the value it found. -/
def Pc.owns : Pc → Option Word
  | .lockStr r | .unlockStr r => some r
  | _ => none

/-- What a value of the mutex says: nobody is inside, or one thread is and the value counts the contended calls. -/
def Means (s : Locked T) (v : Word) : Prop :=
  (v = l4MutexUnlocked ∧ ∀ t, (s.pc t).inside = false) ∨
    (v = s.contended ∧ s.contended < 2 ^ 31 ∧ ∃ h, ∀ t, (s.pc t).inside = true ↔ t = h)

/-- The word has a value, or one thread owns it over one; every unlock returned its count. -/
structure Sound (s : Locked T) : Prop where
  value : (Means s s.word ∧ ∀ t, (s.pc t).owns = none) ∨
    s.word = grabbed ∧ ∃ u r, (s.pc u).owns = some r ∧ Means s r ∧ ∀ t, t ≠ u → (s.pc t).owns = none
  returned : ∀ e ∈ s.returns, e.1.toInt = e.2

/-- The word of a mutex is an `int`, so fewer than 2^31 lock calls find one holder's mutex locked. -/
def Fits (s : Locked T) : Event T → Prop
  | .go t =>
    match s.pc t with
    | .lockStr r => r + 1 ≠ 0 → s.contended + 1 < 2 ^ 31
    | _ => True
  | _ => True

instance (s : Locked T) (e : Event T) : Decidable (Fits s e) := by
  unfold Fits
  split
  · split <;> infer_instance
  · infer_instance

section
variable {s s' : Locked T} {t u : T} {v r : Word} {p : Pc}

@[simp] theorem goto_word : (s.goto t p).word = s.word := rfl
@[simp] theorem goto_contended : (s.goto t p).contended = s.contended := rfl
@[simp] theorem goto_returns : (s.goto t p).returns = s.returns := rfl
@[simp] theorem goto_pc_self : (s.goto t p).pc t = p := by simp [Locked.goto]
@[simp] theorem goto_pc_of_ne (apart : u ≠ t) : (s.goto t p).pc u = s.pc u := by simp [Locked.goto, apart]

/-- A move that keeps a thread inside or outside. -/
theorem goto_inside (same : p.inside = (s.pc t).inside) (u : T) : ((s.goto t p).pc u).inside = (s.pc u).inside := by
  by_cases self : u = t
  · subst self; simpa using same
  · simp [self]

omit [DecidableEq T] in
theorem Means.congr (means : Means s v) (inside : ∀ t, (s'.pc t).inside = (s.pc t).inside)
    (contended : s'.contended = s.contended) : Means s' v := by
  unfold Means at means ⊢
  simpa only [inside, contended] using means

theorem toNat_natCast {n : Nat} (few : n < 2 ^ 31) : ((n : Nat) : Word).toNat = n := by
  rw [BitVec.natCast_eq_ofNat, BitVec.toNat_ofNat]
  omega

omit [DecidableEq T] in
theorem Means.ne_grabbed (means : Means s v) : v ≠ grabbed := by
  rintro rfl
  rcases means with ⟨same, -⟩ | ⟨same, few, -⟩
  · exact absurd same (by decide)
  · have value : (grabbed : Word).toNat = s.contended := by rw [same, toNat_natCast few]
    have large : (grabbed : Word).toNat = 4294967294 := by decide
    omega

omit [DecidableEq T] in
/-- One thread owns the word at a time. -/
theorem Sound.owner (sound : Sound s) (owns : (s.pc t).owns = some r) :
    Means s r ∧ ∀ u, u ≠ t → (s.pc u).owns = none := by
  rcases sound.value with ⟨-, free⟩ | ⟨-, u, v, owner, means, others⟩
  · exact nomatch (free t).symm.trans owns
  · by_cases same : t = u
    · subst same
      cases owner.symm.trans owns
      exact ⟨means, others⟩
    · exact nomatch (others t same).symm.trans owns

/-- A `swp` spins, or takes the word with its value. -/
theorem Sound.swap {spin : Pc} {grab : Word → Pc} (sound : Sound s) (pc : s.pc t = spin) (free : spin.owns = none)
    (owns : ∀ r, (grab r).owns = some r) (inside : ∀ r, (grab r).inside = spin.inside) : Sound (swap s t spin grab) := by
  have moved : ∀ u, ((LockWord.swap s t spin grab).pc u).inside = (s.pc u).inside := by
    refine goto_inside (s := { s with word := grabbed }) ?_
    split_ifs
    · rw [pc]
    · rw [inside, ← pc]
  refine ⟨.inr ⟨rfl, ?_⟩, sound.returned⟩
  rcases sound.value with ⟨means, none⟩ | ⟨taken, u, r, owner, means, others⟩
  · have untaken : s.word ≠ grabbed := means.ne_grabbed
    refine ⟨t, s.word, ?_, means.congr moved rfl, fun u apart => ?_⟩
    · simp [LockWord.swap, untaken, owns]
    · simpa [LockWord.swap, apart] using none u
  · have apart : u ≠ t := by
      rintro rfl
      rw [pc, free] at owner
      exact nomatch owner
    refine ⟨u, r, ?_, means.congr moved rfl, fun w other => ?_⟩
    · simpa [LockWord.swap, apart] using owner
    · by_cases self : w = t
      · subst self; simp [LockWord.swap, taken, free]
      · simpa [LockWord.swap, self] using others w other

theorem Sound.lockStr (sound : Sound s) (pc : s.pc t = .lockStr r) (fits : r + 1 ≠ 0 → s.contended + 1 < 2 ^ 31) :
    Sound (lockStr s t r) := by
  obtain ⟨means, others⟩ := sound.owner (t := t) (r := r) (by rw [pc]; rfl)
  have none : ∀ p : Pc, p.owns = none → ∀ s' : Locked T, s'.pc = s.pc → ∀ u, ((s'.goto t p).pc u).owns = none := by
    intro p free s' same u
    by_cases self : u = t
    · subst self; simpa using free
    · simpa [self, same] using others u self
  rcases means with ⟨free, outside⟩ | ⟨same, few, h, inside⟩
  · -- the mutex was free and is the caller's
    have zero : r + 1 = ((0 : Nat) : Word) := by rw [free]; decide
    rw [LockWord.lockStr, if_pos (by rw [free]; decide)]
    refine ⟨.inl ⟨.inr ⟨zero, Nat.two_pow_pos 31, t, fun u => ?_⟩, none _ rfl _ rfl⟩, sound.returned⟩
    by_cases self : u = t
    · subst self; simp [Pc.inside]
    · simpa [self] using outside u
  · have value : r.toNat = s.contended := by rw [same, toNat_natCast few]
    have more : r + 1 ≠ 0 := fun zero => by
      have sum : (r + 1).toNat = 0 := by rw [zero]; rfl
      rw [BitVec.toNat_add, value, show (1 : Word).toNat = 1 from rfl] at sum
      omega
    rw [LockWord.lockStr, if_neg more]
    refine ⟨.inl ⟨.inr ⟨?_, fits more, h, fun u => ?_⟩, none _ rfl _ rfl⟩, sound.returned⟩
    · change r + 1 = ((s.contended + 1 : Nat) : Word)
      rw [same, Nat.cast_add, Nat.cast_one]
    · rw [goto_inside (s := { s with word := r + 1, contended := s.contended + 1 }) (by rw [pc]; rfl) u]
      exact inside u

theorem Sound.unlockStr (sound : Sound s) (pc : s.pc t = .unlockStr r) : Sound (unlockStr s t r) := by
  obtain ⟨means, others⟩ := sound.owner (t := t) (r := r) (by rw [pc]; rfl)
  have holds : (s.pc t).inside = true := by rw [pc]; rfl
  rcases means with ⟨-, outside⟩ | ⟨same, few, h, inside⟩
  · rw [outside t] at holds
    exact nomatch holds
  · obtain rfl := (inside t).mp holds
    refine ⟨.inl ⟨.inl ⟨rfl, fun u => ?_⟩, fun u => ?_⟩, ?_⟩
    · by_cases self : u = t
      · subst self; simp [LockWord.unlockStr, Pc.inside]
      · have := (inside u).not.mpr self
        simpa [LockWord.unlockStr, self] using this
    · by_cases self : u = t
      · subst self; simp [LockWord.unlockStr, Pc.owns]
      · simpa [LockWord.unlockStr, self] using others u self
    · intro e mem
      rcases List.mem_cons.mp mem with rfl | mem
      · have value : r.toNat = s.contended := by rw [same, toNat_natCast few]
        change r.toInt = s.contended
        rw [BitVec.toInt_eq_toNat_of_lt (by omega), value]
      · exact sound.returned e mem

theorem Sound.goto_plain (sound : Sound s) (inside : p.inside = (s.pc t).inside) (before : (s.pc t).owns = none)
    (after : p.owns = none) : Sound (s.goto t p) := by
  have moved := goto_inside inside
  refine ⟨?_, sound.returned⟩
  rcases sound.value with ⟨means, none⟩ | ⟨taken, u, r, owner, means, others⟩
  · refine .inl ⟨means.congr moved rfl, fun u => ?_⟩
    by_cases self : u = t
    · subst self; simpa using after
    · simpa [self] using none u
  · have apart : u ≠ t := by
      rintro rfl
      exact nomatch before.symm.trans owner
    refine .inr ⟨taken, u, r, by simpa [apart] using owner, means.congr moved rfl, fun w other => ?_⟩
    by_cases self : w = t
    · subst self; simpa using after
    · simpa [self] using others w other

theorem Sound.step {e : Event T} (sound : Sound s) (able : enabled s e) (fits : Fits s e) (ok : step s e = .ok s') : Sound s' := by
  cases e with
  | lock t =>
    cases ok
    have out : s.pc t = .out := able
    exact sound.goto_plain (by rw [out]; rfl) (by rw [out]; rfl) rfl
  | unlock t =>
    cases ok
    have holds : s.pc t = .held := able
    exact sound.goto_plain (by rw [holds]; rfl) (by rw [holds]; rfl) rfl
  | go t =>
    simp only [LockWord.step] at ok
    split at ok <;> cases ok
    · next pc => exact sound.swap pc rfl (fun _ => rfl) (fun _ => rfl)
    · next r pc => exact sound.lockStr pc (by simpa only [Fits, pc] using fits)
    · next pc => exact sound.swap pc rfl (fun _ => rfl) (fun _ => rfl)
    · next r pc => exact sound.unlockStr pc
    · exact sound
    · exact sound

omit [DecidableEq T] in
theorem sound_start : Sound ({} : Locked T) :=
  ⟨.inl ⟨.inl ⟨rfl, fun _ => rfl⟩, fun _ => rfl⟩, fun _ mem => nomatch mem⟩

/-! ## Every run -/

/-- One thread at a time is inside, unlock calls return the number of contended ones, and a lock that follows an unlock
succeeds, as does any that finds nobody inside and nobody at the word. -/
structure Kept (s : Locked T) : Prop where
  exclusive : ∀ t u, (s.pc t).inside = true → (s.pc u).inside = true → t = u
  returned : ∀ e ∈ s.returns, e.1.toInt = e.2
  follows : ∀ t r, s.pc t = .unlockStr r → ∀ u, (unlockStr s t r).pc u = .out →
    ∃ s', machine.run [.lock u, .go u, .go u] (unlockStr s t r) = some s' ∧ s'.pc u = .held
  free : (∀ t, (s.pc t).inside = false ∧ (s.pc t).owns = none) →
    ∀ t, s.pc t = .out → ∃ s', machine.run [.lock t, .go t, .go t] s = some s' ∧ s'.pc t = .held

omit [DecidableEq T] in
theorem Sound.exclusive (sound : Sound s) (first : (s.pc t).inside = true) (second : (s.pc u).inside = true) : t = u := by
  have value : ∃ v, Means s v := by
    rcases sound.value with ⟨means, -⟩ | ⟨-, _, r, -, means, -⟩
    · exact ⟨_, means⟩
    · exact ⟨r, means⟩
  obtain ⟨v, ⟨-, outside⟩ | ⟨-, -, h, inside⟩⟩ := value
  · exact nomatch (outside t).symm.trans first
  · rw [(inside t).mp first, (inside u).mp second]

/-- The three steps of a lock call that finds nobody at the word. -/
theorem lock_run (out : s.pc t = .out) (free : s.word ≠ grabbed) : machine.run [.lock t, .go t, .go t] s =
    some (lockStr (({ s with word := grabbed } : Locked T).goto t (.lockStr s.word)) t s.word) := by
  have swaps : swap (s.goto t .lockSwp) t .lockSwp .lockStr = ({ s with word := grabbed } : Locked T).goto t (.lockStr s.word) := by
    simp [swap, free, Locked.goto]
  simp only [Machine.run, machine, enabled, step, out, goto_pc_self, swaps, pure, Except.pure, ne_eq, reduceCtorEq,
    not_false_eq_true, and_self, if_true]

/-- The three steps of an unlock call that finds nobody at the word. -/
theorem unlock_run (holds : s.pc t = .held) (free : s.word ≠ grabbed) : machine.run [.unlock t, .go t, .go t] s =
    some (unlockStr (({ s with word := grabbed } : Locked T).goto t (.unlockStr s.word)) t s.word) := by
  have swaps : swap (s.goto t .unlockSwp) t .unlockSwp .unlockStr = ({ s with word := grabbed } : Locked T).goto t (.unlockStr s.word) := by
    simp [swap, free, Locked.goto]
  simp only [Machine.run, machine, enabled, step, holds, goto_pc_self, swaps, pure, Except.pure, ne_eq, reduceCtorEq,
    not_false_eq_true, and_self, if_true]

theorem lock_succeeds (out : s.pc t = .out) (word : s.word = l4MutexUnlocked) :
    ∃ s', machine.run [.lock t, .go t, .go t] s = some s' ∧ s'.pc t = .held := by
  refine ⟨_, lock_run out (by rw [word]; decide), ?_⟩
  rw [lockStr, if_pos (by rw [word]; decide)]
  simp

theorem Sound.kept (sound : Sound s) : Kept s where
  exclusive _ _ := sound.exclusive
  returned := sound.returned
  follows _ _ _ _ out := lock_succeeds out rfl
  free alone t out := by
    refine lock_succeeds out ?_
    rcases sound.value with ⟨⟨word, -⟩ | ⟨-, -, h, inside⟩, -⟩ | ⟨-, u, r, owner, -, -⟩
    · exact word
    · exact nomatch (alone h).1.symm.trans ((inside h).mpr rfl)
    · exact nomatch (alone u).2.symm.trans owner

/-- Every run of any number of threads, in which no holder sees 2^31 contended calls. -/
theorem lock_word_kept (reached : machine.ReachesUnder Fits ({} : Locked T) s) : Kept s :=
  (reached.invariant (I := Sound) (fun _ _ _ sound able fits ok => sound.step able fits ok) sound_start).kept

end

/-- One thread locks, the other finds the mutex locked, the first unlocks. -/
def contention : List (Event Bool) :=
  [.lock true, .go true, .go true, .lock false, .go false, .go false, .unlock true, .go true, .go true]

theorem lock_word_kept_contention : ∃ s, machine.runUnder Fits contention {} = some s ∧ s.returns = [(1, 1)] ∧ Kept s := by
  have ran : (machine.runUnder Fits contention {}).map (fun s => s.returns) = some [(1, 1)] := rfl
  obtain ⟨s, ran, returns⟩ := Option.map_eq_some_iff.mp ran
  exact ⟨s, ran, returns, lock_word_kept (machine.reachesUnder_of_runUnder ran)⟩

/-! ## Where the count is lost -/

/-- One thread holds the mutex, and the other has found it locked `n` times. -/
def tried (n : Nat) : Locked Bool := { word := n, pc := fun t => if t then .held else .out, contended := n }

theorem tried_succ {n : Nat} (few : n < 2 ^ 31) : machine.run [.lock false, .go false, .go false] (tried n) = some (tried (n + 1)) := by
  have value : ((n : Nat) : Word).toNat = n := toNat_natCast few
  have free : ((n : Nat) : Word) ≠ grabbed := fun same => by
    have large : (grabbed : Word).toNat = 4294967294 := by decide
    rw [same] at value
    omega
  have more : ((n : Nat) : Word) + 1 ≠ 0 := fun zero => by
    have sum : (((n : Nat) : Word) + 1).toNat = 0 := by rw [zero]; rfl
    rw [BitVec.toNat_add, value, show (1 : Word).toNat = 1 from rfl] at sum
    omega
  rw [lock_run rfl free, Option.some.injEq]
  change lockStr _ false ((n : Nat) : Word) = tried (n + 1)
  rw [lockStr, if_neg more]
  simp only [tried, Locked.goto, Locked.mk.injEq, Nat.cast_add, Nat.cast_one, and_true, true_and]
  funext t
  cases t <;> rfl

theorem reaches_tried {n : Nat} (few : n ≤ 2 ^ 31) : machine.Reaches ({} : Locked Bool) (tried n) := by
  induction n with
  | zero =>
    refine @Machine.reaches_of_run _ _ _ machine _ [.lock true, .go true, .go true] _ _ ?_
    rw [lock_run rfl (by decide), Option.some.injEq]
    change lockStr _ true l4MutexUnlocked = tried 0
    rw [lockStr, if_pos (by decide)]
    simp only [tried, Locked.goto, Locked.mk.injEq, and_true]
    refine ⟨by decide, ?_⟩
    funext t
    cases t <;> rfl
  | succ n before => exact (before (by omega)).trans (machine.reaches_of_run (tried_succ (by omega)))

/-- After 2^31 contended calls the unlock returns a negative number. -/
theorem lock_count_lost : ∃ s, machine.Reaches ({} : Locked Bool) s ∧ ∃ e ∈ s.returns, e.1.toInt ≠ e.2 := by
  have free : ((2 ^ 31 : Nat) : Word) ≠ grabbed := by decide
  refine ⟨_, (reaches_tried le_rfl).trans (machine.reaches_of_run (unlock_run (t := true) rfl free)), ?_⟩
  refine ⟨(((2 ^ 31 : Nat) : Word), 2 ^ 31), List.mem_cons_self, ?_⟩
  decide

end Codezero.User.LockWord
