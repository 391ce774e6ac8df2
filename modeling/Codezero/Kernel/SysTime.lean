import Codezero.Lib.Machine
import Codezero.Kernel.Scheduler

/-!
# Reading the time

`sys_time` reads the seconds and the ticks of the second separately and lets the timer tick it was interrupted by clear
the flag it raised. Each call is followed access by access, with any number of callers and with ticks between any two
accesses. All callers raise the same flag.
-/

namespace Codezero.Kernel.SysTime
open Codezero.Lib

variable {T : Type}

def ebusy : Int := -16

/-! ## The model -/

/-- `struct timeval`. -/
structure Timeval where
  sec : Word
  usec : Word
  deriving DecidableEq, Repr

/-- `struct time_info`. -/
structure TimeInfo where
  reader : Word := 0
  thz : Word := 0
  sec : BitVec 64 := 0
  deriving DecidableEq, Repr

/-- The time as `sys_time` converts it. -/
def TimeInfo.now (systime : TimeInfo) : Timeval :=
  { sec := systime.sec.setWidth 32, usec := 1000000 * systime.thz / BitVec.ofNat 32 configSchedTicks }

/-- `update_system_time`. -/
def updateSystemTime (systime : TimeInfo) : TimeInfo :=
  let systime := if systime.reader ≠ 0 then { systime with reader := 0 } else systime
  let systime := { systime with thz := systime.thz + 1 }
  if systime.thz = BitVec.ofNat 32 configSchedTicks then { systime with thz := 0, sec := systime.sec + 1 } else systime

/-- The next access of a call, with its local variables: the number of retries left and what it has stored. -/
inductive Pc
  | out
  | setReader (retries : Nat)
  | readSec (retries : Nat)
  | readThz (retries : Nat) (sec : Word)
  | test (retries : Nat) (tv : Timeval)
  | returned (code : Int) (tv : Option Timeval)
  deriving DecidableEq, Repr

/-- A thread's call, with what happened during it. -/
structure Call where
  pc : Pc := .out
  /-- The system times at the instants of the call. -/
  instants : List Timeval := []
  /-- A tick came since the attempt raised the flag. -/
  disturbed : Bool := false
  /-- The attempts that no tick disturbed. -/
  steady : Nat := 0
  deriving DecidableEq, Repr

/-- `sys_time` up to its loop, after `check_access` gave `err`. -/
def sysTime (err : Int) (set : Bool) : Pc :=
  if err < 0 then .returned err none else if set then .returned enosys none else .setReader 20

/-- The end of an attempt, with the retries that it leaves. -/
def leave (systime : TimeInfo) (retries : Nat) (tv : Timeval) : Pc :=
  if systime.reader ≠ 0 ∨ retries = 0 then .returned (if retries = 0 then ebusy else 0) (some tv) else .setReader retries

def Call.go (systime : TimeInfo) (c : Call) : TimeInfo × Call :=
  match c.pc with
  | .setReader retries => ({ systime with reader := 1 }, { c with pc := .readSec retries, disturbed := false })
  | .readSec retries => (systime, { c with pc := .readThz retries systime.now.sec })
  | .readThz retries sec => (systime, { c with pc := .test retries { sec := sec, usec := systime.now.usec } })
  | .test retries tv =>
    (systime, { c with pc := leave systime (retries - 1) tv, steady := if c.disturbed then c.steady else c.steady + 1 })
  | .out | .returned _ _ => (systime, c)

/-- The call is between its first and its last access. -/
def Pc.running : Pc → Bool
  | .out | .returned _ _ => false
  | _ => true

/-- The call is between raising the flag and testing it. -/
def Pc.attempting : Pc → Bool
  | .readSec _ | .readThz _ _ | .test _ _ => true
  | _ => false

/-- What a tick is to a call. -/
def Call.tick (now : Timeval) (c : Call) : Call :=
  if c.pc.running then { c with instants := now :: c.instants, disturbed := true } else c

structure Clock (T : Type) where
  systime : TimeInfo := {}
  call : T → Call := fun _ => {}

inductive Event (T : Type)
  | call (t : T) (err : Int) (set : Bool)
  | go (t : T)
  | tick

variable [DecidableEq T]

def step (s : Clock T) : Event T → Except Bug (Clock T)
  | .call t err set => pure { s with call := Function.update s.call t { pc := sysTime err set, instants := [s.systime.now] } }
  | .go t =>
    let next := (s.call t).go s.systime
    pure { systime := next.1, call := Function.update s.call t next.2 }
  | .tick =>
    let systime := updateSystemTime s.systime
    pure { systime := systime, call := fun t => (s.call t).tick systime.now }

def enabled (s : Clock T) : Event T → Prop
  | .call t _ _ => (s.call t).pc.running = false
  | .go t => (s.call t).pc.running = true
  | .tick => True

instance (s : Clock T) : (e : Event T) → Decidable (enabled s e)
  | .call t _ _ => inferInstanceAs (Decidable ((s.call t).pc.running = false))
  | .go t => inferInstanceAs (Decidable ((s.call t).pc.running = true))
  | .tick => inferInstanceAs (Decidable True)

def machine : Machine (Clock T) (Event T) Bug := ⟨enabled, step⟩

instance (s : Clock T) (e : Event T) : Decidable (machine.enabled s e) := inferInstanceAs (Decidable (enabled s e))

/-! ## What an attempt has read -/

/-- What the call has read so far was never the time. -/
def Torn (systime : TimeInfo) (c : Call) : Prop :=
  match c.pc with
  | .readThz _ sec => sec ≠ systime.now.sec
  | .test _ tv => tv ∉ c.instants
  | _ => False

/-- No caller raises the flag under another one whose reading is torn, and the last attempt is not the first that no tick
disturbs. -/
def Orderly (s : Clock T) : Event T → Prop
  | .go t =>
    match (s.call t).pc with
    | .setReader _ => ∀ u, u ≠ t → ¬ Torn s.systime (s.call u)
    | .test retries _ => retries ≤ 1 → (s.call t).disturbed = true
    | _ => True
  | _ => True

/-- What a call in its state can rely on: an attempt that no tick disturbed still sees the flag, and none with a torn
reading does. -/
structure Sound (systime : TimeInfo) (c : Call) : Prop where
  now : c.pc.running = true → systime.now ∈ c.instants
  steady : c.pc.running = true → c.steady = 0
  raised : c.pc.attempting = true → c.disturbed = false → systime.reader ≠ 0
  cleared : Torn systime c → systime.reader = 0
  snapshot : ∀ tv, c.pc = .returned 0 tv → ∃ v ∈ c.instants, tv = some v
  busy : ∀ tv, c.pc = .returned ebusy tv → c.steady = 0

section
variable {systime : TimeInfo} {s s' : Clock T} {c : Call} {t : T}

/-- A call that is not in its loop is sound by what it returned. -/
theorem sound_idle (idle : c.pc.running = false) (snapshot : ∀ tv, c.pc = .returned 0 tv → ∃ v ∈ c.instants, tv = some v)
    (busy : ∀ tv, c.pc = .returned ebusy tv → c.steady = 0) : Sound systime c where
  now running := nomatch idle.symm.trans running
  steady running := nomatch idle.symm.trans running
  raised attempting := by cases pc : c.pc <;> simp [pc, Pc.running, Pc.attempting] at idle attempting
  cleared torn := by unfold Torn at torn; split at torn <;> simp_all [Pc.running]
  snapshot := snapshot
  busy := busy

/-- A call in its loop. -/
theorem sound_running (running : c.pc.running = true) (now : systime.now ∈ c.instants) (steady : c.steady = 0)
    (raised : c.pc.attempting = true → c.disturbed = false → systime.reader ≠ 0) (cleared : Torn systime c → systime.reader = 0) :
    Sound systime c where
  now _ := now
  steady _ := steady
  raised := raised
  cleared := cleared
  snapshot _ same := by rw [same] at running; exact nomatch running
  busy _ _ := steady

theorem sound_sysTime (systime : TimeInfo) (err : Int) (set : Bool) :
    Sound systime { pc := sysTime err set, instants := [systime.now] } := by
  unfold sysTime
  split_ifs with failed
  · refine sound_idle rfl (fun tv same => ?_) (fun _ _ => rfl)
    cases same
    exact absurd failed (lt_irrefl _)
  · exact sound_idle rfl (fun tv same => nomatch same) (fun _ _ => rfl)
  · exact sound_running rfl (List.mem_singleton_self _) rfl (fun attempting => nomatch attempting) (fun torn => torn.elim)

theorem updateSystemTime_reader (systime : TimeInfo) : (updateSystemTime systime).reader = 0 := by
  unfold updateSystemTime
  by_cases raised : systime.reader = 0 <;> simp only [raised, ne_eq, not_true_eq_false, not_false_eq_true, if_true, if_false] <;>
    split <;> simp

/-- A tick clears the flag of every attempt and is noted by it. -/
theorem Sound.tick (sound : Sound systime c) : Sound (updateSystemTime systime) (c.tick (updateSystemTime systime).now) := by
  unfold Call.tick
  split_ifs with running
  · exact sound_running running List.mem_cons_self (sound.steady running) (fun _ undisturbed => nomatch undisturbed)
      (fun _ => updateSystemTime_reader systime)
  · exact sound_idle (Bool.eq_false_iff.mpr running) sound.snapshot sound.busy

/-- The flag is tested: an attempt that no tick disturbed ends the call, and so does the last one. -/
theorem Sound.test {retries : Nat} {tv : Timeval} (sound : Sound systime c) (pc : c.pc = .test retries tv)
    (last : retries ≤ 1 → c.disturbed = true) :
    Sound systime { c with pc := leave systime (retries - 1) tv, steady := if c.disturbed then c.steady else c.steady + 1 } := by
  have running : c.pc.running = true := by rw [pc]; rfl
  unfold leave
  by_cases stays : systime.reader ≠ 0 ∨ retries - 1 = 0
  · rw [if_pos stays]
    refine sound_idle rfl (fun o same => ?_) (fun o same => ?_)
    · have more : retries - 1 ≠ 0 := fun none => by simp [none, ebusy] at same
      have seen : systime.reader ≠ 0 := stays.resolve_right more
      obtain ⟨-, rfl⟩ : _ ∧ some tv = o := by simpa using same
      refine ⟨tv, ?_, rfl⟩
      by_contra torn
      exact seen (sound.cleared (by rwa [Torn, pc]))
    · have none : retries - 1 = 0 := by
        by_contra more
        simp [more, ebusy] at same
      simp only [last (by omega), if_true]
      exact sound.steady running
  · rw [if_neg stays]
    rw [not_or, not_not] at stays
    have disturbed : c.disturbed = true := by
      by_contra undisturbed
      exact sound.raised (by rw [pc]; rfl) (Bool.eq_false_iff.mpr undisturbed) stays.1
    refine sound_running rfl (sound.now running) ?_ (fun attempting => nomatch attempting) (fun torn => torn.elim)
    simp only [disturbed, if_true]
    exact sound.steady running

/-- An access of the call itself. -/
theorem Sound.go (sound : Sound systime c) (last : ∀ retries tv, c.pc = .test retries tv → retries ≤ 1 → c.disturbed = true) :
    Sound (c.go systime).1 (c.go systime).2 := by
  unfold Call.go
  split
  · next retries pc =>
    have running : c.pc.running = true := by rw [pc]; rfl
    exact sound_running rfl (sound.now running) (sound.steady running) (fun _ _ => show (1 : Word) ≠ 0 by decide) (fun torn => torn.elim)
  · next retries pc =>
    have running : c.pc.running = true := by rw [pc]; rfl
    exact sound_running rfl (sound.now running) (sound.steady running) (fun _ => sound.raised (by rw [pc]; rfl))
      (fun torn => absurd rfl torn)
  · next retries sec pc =>
    have running : c.pc.running = true := by rw [pc]; rfl
    refine sound_running rfl (sound.now running) (sound.steady running) (fun _ => sound.raised (by rw [pc]; rfl)) (fun torn => ?_)
    -- the pair is the time of this instant unless the second changed since it was read
    refine sound.cleared ?_
    rw [Torn, pc]
    rintro rfl
    exact torn (sound.now running)
  · next retries tv pc => exact sound.test pc (last retries tv pc)
  · exact sound
  · exact sound

/-- Another caller raises the flag, or leaves the time alone. -/
theorem Sound.other {d : Call} (sound : Sound systime c) (whole : ∀ retries, d.pc = .setReader retries → ¬ Torn systime c) :
    Sound (d.go systime).1 c := by
  unfold Call.go
  split
  · next retries pc =>
    exact ⟨sound.now, sound.steady, fun _ _ => show (1 : Word) ≠ 0 by decide, fun torn => absurd torn (whole retries pc),
      sound.snapshot, sound.busy⟩
  all_goals exact sound

theorem sound_step {e : Event T} (sound : ∀ t, Sound s.systime (s.call t)) (orderly : Orderly s e) (ok : step s e = .ok s') (t : T) :
    Sound s'.systime (s'.call t) := by
  cases e with
  | call u err set =>
    cases ok
    by_cases self : t = u
    · subst self
      simpa using sound_sysTime s.systime err set
    · simpa [self] using sound t
  | go u =>
    cases ok
    by_cases self : t = u
    · subst self
      simp only [Function.update_self]
      refine (sound t).go (fun retries tv pc => ?_)
      simpa only [Orderly, pc] using orderly
    · simp only [Function.update_of_ne self]
      refine (sound t).other (fun retries pc => ?_)
      simp only [Orderly, pc] at orderly
      exact orderly t self
  | tick =>
    cases ok
    exact (sound t).tick

/-! ## Every run -/

/-- A call that returned 0 stored the time of one of its instants, and one that returned `-EBUSY` had no attempt without
a tick. -/
structure Kept (s : Clock T) : Prop where
  snapshot : ∀ t tv, (s.call t).pc = .returned 0 tv → ∃ v ∈ (s.call t).instants, tv = some v
  busy : ∀ t tv, (s.call t).pc = .returned ebusy tv → (s.call t).steady = 0

/-- Any number of threads, any ticks. -/
theorem sys_time_kept (reached : machine.ReachesUnder Orderly ({} : Clock T) s) : Kept s := by
  have sound : ∀ t, Sound s.systime (s.call t) :=
    reached.invariant (I := fun s => ∀ t, Sound s.systime (s.call t))
      (fun _ _ _ sound _ orderly ok => sound_step sound orderly ok)
      (fun _ => sound_idle rfl (fun _ same => by cases same) (fun _ same => by cases same))
  exact ⟨fun t => (sound t).snapshot, fun t => (sound t).busy⟩

end

instance (systime : TimeInfo) (c : Call) : Decidable (Torn systime c) := by
  unfold Torn
  split <;> infer_instance

instance [Fintype T] (s : Clock T) (e : Event T) : Decidable (Orderly s e) := by
  unfold Orderly
  split
  · split <;> infer_instance
  · infer_instance

/-- A tick clears the flag of two callers; one of them tries again and is done. -/
def secondAttempt : List (Event Bool) :=
  [.call true 0 false, .go true, .go true, .call false 0 false, .go false, .tick, .go true, .go true, .go true, .go true, .go true, .go true]

theorem sys_time_kept_second : ∃ s, machine.runUnder Orderly secondAttempt {} = some s ∧
    (s.call true).pc = .returned 0 (some ⟨0, 1000⟩) ∧ Kept s := by
  have ran : (machine.runUnder Orderly secondAttempt {}).map (fun s => (s.call true).pc) = some (.returned 0 (some ⟨0, 1000⟩)) := rfl
  obtain ⟨s, ran, returned⟩ := Option.map_eq_some_iff.mp ran
  exact ⟨s, ran, returned, sys_time_kept (machine.reachesUnder_of_runUnder ran)⟩

/-! ## Where the two promises break -/

theorem idle_ticks {n : Nat} (few : n < 1000) : (machine (T := Bool)).Reaches {} { systime := { thz := BitVec.ofNat 32 n } } := by
  induction n with
  | zero => exact .start
  | succ n before =>
    refine (before (by omega)).next (e := .tick) trivial trivial ?_
    have next : BitVec.ofNat 32 n + 1#32 = BitVec.ofNat 32 (n + 1) := (BitVec.ofNat_add n 1).symm
    have within : BitVec.ofNat 32 (n + 1) ≠ BitVec.ofNat 32 configSchedTicks := fun same => by
      have := congrArg BitVec.toNat same
      simp only [BitVec.toNat_ofNat, configSchedTicks] at this
      omega
    simp [machine, step, updateSystemTime, next, within, pure, Except.pure, Call.tick, Pc.running]

/-- The second ends between the two reads of one caller, and another raises the flag that the tick cleared. -/
def tornRead : List (Event Bool) :=
  [.call true 0 false, .go true, .go true, .tick, .call false 0 false, .go false, .go true, .go true]

/-- Nineteen attempts that a tick disturbs and one that none does. -/
def lastAttempt : List (Event Bool) :=
  .call true 0 false :: (List.replicate 19 [.go true, .tick, .go true, .go true, .go true]).flatten ++
    [.go true, .go true, .go true, .go true]

theorem sys_time_broken :
    (∃ s, machine.Reaches ({} : Clock Bool) s ∧ (s.call true).pc = .returned 0 (some ⟨0, 0⟩) ∧
      (s.call true).instants = [⟨1, 0⟩, ⟨0, 999000⟩]) ∧
    ∃ s, machine.Reaches ({} : Clock Bool) s ∧ (∃ tv, (s.call true).pc = .returned ebusy tv) ∧ (s.call true).steady = 1 := by
  constructor
  · have ran : (machine.run tornRead { systime := { thz := BitVec.ofNat 32 999 } }).map
        (fun s => ((s.call true).pc, (s.call true).instants)) =
        some (.returned 0 (some ⟨0, 0⟩), [⟨1, 0⟩, ⟨0, 999000⟩]) := rfl
    obtain ⟨s, ran, same⟩ := Option.map_eq_some_iff.mp ran
    exact ⟨s, (idle_ticks (by decide)).trans (machine.reaches_of_run ran), congrArg Prod.fst same, congrArg Prod.snd same⟩
  · have ran : (machine.run lastAttempt {}).map (fun s => ((s.call true).pc, (s.call true).steady)) =
        some (.returned ebusy (some ⟨0, 19000⟩), 1) := rfl
    obtain ⟨s, ran, same⟩ := Option.map_eq_some_iff.mp ran
    exact ⟨s, machine.reaches_of_run ran, ⟨_, congrArg Prod.fst same⟩, congrArg Prod.snd same⟩

end Codezero.Kernel.SysTime
