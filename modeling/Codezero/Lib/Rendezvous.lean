import Mathlib

/-!
# Synchronous rendezvous

Parties send to a named party or receive from those they accept. A party that finds no partner waits:
a sender in the queue of its receiver, a receiver in its own place. The model keeps the history of
calls, pairings and returns, and says what holds of it after any sequence of moves.
-/

namespace Codezero.Lib.Rendezvous
open Function (update update_eq_self update_self)

/-- What a call asks for. -/
inductive Side (Θ A : Type)
  | send (dest : Θ)
  | recv (asked : A)
  deriving DecidableEq

/-- How a call came to return: it met its partner itself, it was woken, or it was interrupted. -/
inductive Fate
  | met
  | woken
  | interrupted
  deriving DecidableEq

variable {Θ A ν : Type}

/-- One send met one receive. The notes are those of the two parties right after the exchange, the code is
the one the exchange gave the party that had not waited. -/
structure Pairing (Θ A ν : Type) where
  sendId : Nat
  recvId : Nat
  sender : Θ
  receiver : Θ
  asked : A
  sendNote : ν
  recvNote : ν
  code : Int

structure Return (ν : Type) where
  id : Nat
  code : Int
  note : ν
  fate : Fate

/-- Calls are numbered in the order they start: call `i` is entry `i` of `started`. -/
@[ext]
structure Meet (Θ A ν : Type) where
  senders : Θ → List Θ
  waiting : Θ → Bool
  pc : Θ → Option (Nat × Side Θ A)
  interrupted : Θ → Bool
  note : Θ → ν
  started : List (Θ × Side Θ A) := []
  pairs : List (Pairing Θ A ν) := []
  returns : List (Return ν) := []
  dismissed : List Nat := []

def Pairing.Involves (p : Pairing Θ A ν) (id : Nat) : Prop := p.sendId = id ∨ p.recvId = id

def Pairing.noteOf (p : Pairing Θ A ν) (id : Nat) : ν := if p.sendId = id then p.sendNote else p.recvNote

/-- The call of the party that waited: calls are numbered as they start. -/
def Pairing.waiter (p : Pairing Θ A ν) : Nat := min p.sendId p.recvId

def Meet.Queued (m : Meet Θ A ν) (t : Θ) : Prop := m.waiting t = true ∨ ∃ r, t ∈ m.senders r

namespace Meet
variable [DecidableEq Θ]

/-- A call starts and waits. -/
def start (t : Θ) (side : Side Θ A) (n : ν) (m : Meet Θ A ν) : Meet Θ A ν :=
  { m with
    pc := update m.pc t (some (m.started.length, side))
    note := update m.note t n
    started := m.started ++ [(t, side)] }

def sleepSend (t r : Θ) (n : ν) (m : Meet Θ A ν) : Meet Θ A ν :=
  { m.start t (.send r) n with senders := update m.senders r (m.senders r ++ [t]) }

def sleepRecv (r : Θ) (a : A) (n : ν) (m : Meet Θ A ν) : Meet Θ A ν :=
  { m.start r (.recv a) n with waiting := update m.waiting r true }

/-- Sender `t` starts, finds `r` waiting in call `rid`, and returns. -/
def meetSend (t r : Θ) (rid : Nat) (a : A) (nS nR : ν) (code : Int) (m : Meet Θ A ν) : Meet Θ A ν :=
  { m with
    waiting := update m.waiting r false
    note := update (update m.note t nS) r nR
    started := m.started ++ [(t, .send r)]
    pairs := m.pairs ++ [⟨m.started.length, rid, t, r, a, nS, nR, code⟩]
    returns := m.returns ++ [⟨m.started.length, code, nS, .met⟩] }

/-- Receiver `r` starts, takes sender `t` of call `sid` from its queue, and returns. -/
def meetRecv (r t : Θ) (sid : Nat) (a : A) (nS nR : ν) (code : Int) (m : Meet Θ A ν) : Meet Θ A ν :=
  { m with
    senders := update m.senders r ((m.senders r).erase t)
    note := update (update m.note r nR) t nS
    started := m.started ++ [(r, .recv a)]
    pairs := m.pairs ++ [⟨sid, m.started.length, t, r, a, nS, nR, code⟩]
    returns := m.returns ++ [⟨m.started.length, code, nR, .met⟩] }

/-- `t` is taken out of whatever queue it waits in. -/
def leave (t : Θ) (m : Meet Θ A ν) : Meet Θ A ν :=
  { m with
    senders := fun r => (m.senders r).erase t
    waiting := update m.waiting t false }

def interrupt (t : Θ) (m : Meet Θ A ν) : Meet Θ A ν :=
  { m.leave t with interrupted := update m.interrupted t true }

/-- A waiting sender is woken with nothing having happened to it. -/
def dismiss (t : Θ) (id : Nat) (m : Meet Θ A ν) : Meet Θ A ν :=
  { m.leave t with dismissed := id :: m.dismissed }

/-- The call ends; its party's note becomes `n`. -/
def abandon (t : Θ) (n : ν) (m : Meet Θ A ν) : Meet Θ A ν :=
  { m with
    pc := update m.pc t none
    interrupted := update m.interrupted t false
    note := update m.note t n }

def finish (t : Θ) (id : Nat) (code : Int) (n : ν) (m : Meet Θ A ν) : Meet Θ A ν :=
  { m.abandon t n with
    returns := m.returns ++ [⟨id, code, m.note t, if m.interrupted t then .interrupted else .woken⟩] }

def touch (t : Θ) (n : ν) (m : Meet Θ A ν) : Meet Θ A ν := { m with note := update m.note t n }

end Meet

section
variable [DecidableEq Θ] (accepts : A → Θ → Prop)

/-- The moves of the protocol, with the test each is made under. -/
inductive Move (m : Meet Θ A ν) : Meet Θ A ν → Prop
  | sleepSend (t r : Θ) (n : ν) (out : m.pc t = none)
      (alone : ∀ id a, m.waiting r = true → m.pc r = some (id, .recv a) → ¬ accepts a t) :
      Move m (m.sleepSend t r n)
  | sleepRecv (r : Θ) (a : A) (n : ν) (out : m.pc r = none) (alone : ∀ t ∈ m.senders r, ¬ accepts a t) :
      Move m (m.sleepRecv r a n)
  | meetSend (t r : Θ) (rid : Nat) (a : A) (nS nR : ν) (code : Int) (out : m.pc t = none)
      (waits : m.waiting r = true) (asks : m.pc r = some (rid, .recv a)) (fits : accepts a t) :
      Move m (m.meetSend t r rid a nS nR code)
  | meetRecv (r t : Θ) (sid : Nat) (a : A) (nS nR : ν) (code : Int) (older younger : List Θ)
      (out : m.pc r = none) (queue : m.senders r = older ++ t :: younger)
      (sends : m.pc t = some (sid, .send r)) (fits : accepts a t) (passed : ∀ u ∈ older, ¬ accepts a u) :
      Move m (m.meetRecv r t sid a nS nR code)
  | interrupt (t : Θ) (queued : m.Queued t) : Move m (m.interrupt t)
  | dismiss (t r : Θ) (id : Nat) (queued : t ∈ m.senders r) (sends : m.pc t = some (id, .send r)) :
      Move m (m.dismiss t id)
  | finish (t : Θ) (id : Nat) (side : Side Θ A) (code : Int) (n : ν) (calls : m.pc t = some (id, side))
      (free : ¬ m.Queued t) : Move m (m.finish t id code n)
  | abandon (t : Θ) (n : ν) (free : ¬ m.Queued t) : Move m (m.abandon t n)
  | touch (t : Θ) (n : ν) (out : m.pc t = none) : Move m (m.touch t n)

/-- How a call of a pairing returns: with the note of the exchange and never interrupted; with the code of
the exchange if it had not waited, and as the waiter if it was woken. -/
structure Settles (p : Pairing Θ A ν) (ρ : Return ν) : Prop where
  note : ρ.note = p.noteOf ρ.id
  calm : ρ.fate ≠ .interrupted
  code : ρ.fate = .met → ρ.code = p.code
  woken : ρ.fate = .woken → ρ.id = p.waiter

/-- What holds of queues and history after any moves. -/
structure Inv (m : Meet Θ A ν) : Prop where
  calls : ∀ t id side, m.pc t = some (id, side) → m.started[id]? = some (t, side)
  sender : ∀ t r, t ∈ m.senders r → ∃ id, m.pc t = some (id, .send r)
  receiver : ∀ r, m.waiting r = true → ∃ id a, m.pc r = some (id, .recv a)
  unmatched : ∀ t r id a, t ∈ m.senders r → m.waiting r = true → m.pc r = some (id, .recv a) → ¬ accepts a t
  fifo : ∀ r, (m.senders r).Pairwise fun t u =>
    ∀ i j x y, m.pc t = some (i, x) → m.pc u = some (j, y) → i < j
  paired_calls : ∀ p ∈ m.pairs, m.started[p.sendId]? = some (p.sender, .send p.receiver) ∧
    m.started[p.recvId]? = some (p.receiver, .recv p.asked) ∧ accepts p.asked p.sender
  paired_once : m.pairs.Pairwise fun p q => ∀ id, p.Involves id → ¬ q.Involves id
  queued_unpaired : ∀ t id side, m.Queued t → m.pc t = some (id, side) → ∀ p ∈ m.pairs, ¬ p.Involves id
  queued_calm : ∀ t, m.Queued t → m.interrupted t = false
  out_calm : ∀ t, m.pc t = none → m.interrupted t = false
  paired_note : ∀ t id side, m.pc t = some (id, side) → ∀ p ∈ m.pairs, p.Involves id →
    p.noteOf id = m.note t ∧ m.interrupted t = false ∧ id = p.waiter
  unqueued : ∀ t id side, m.pc t = some (id, side) → ¬ m.Queued t →
    m.interrupted t = true ∨ id ∈ m.dismissed ∨ ∃ p ∈ m.pairs, p.Involves id
  returned : ∀ ρ ∈ m.returns, ρ.id < m.started.length ∧ ∀ t side, m.pc t ≠ some (ρ.id, side)
  return_note : ∀ ρ ∈ m.returns, ∀ p ∈ m.pairs, p.Involves ρ.id → Settles p ρ
  return_paired : ∀ ρ ∈ m.returns, ρ.fate ≠ .interrupted → ρ.id ∈ m.dismissed ∨ ∃ p ∈ m.pairs, p.Involves ρ.id
  dismissed_send : ∀ id ∈ m.dismissed, ∃ t r, m.started[id]? = some (t, .send r)

end

variable {accepts : A → Θ → Prop} {m : Meet Θ A ν}

theorem getElem?_append_of_some {α : Type} {l : List α} {i : Nat} {a : α} (l' : List α) (found : l[i]? = some a) :
    (l ++ l')[i]? = some a := by
  have bound : i < l.length := (List.getElem?_eq_some_iff.mp found).1
  rw [List.getElem?_append_left bound, found]

section
variable (inv : Inv accepts m)
include inv

variable {t u r : Θ} {id : Nat} {side x y : Side Θ A} {p : Pairing Θ A ν} {a : A}

theorem Inv.id_lt (calls : m.pc t = some (id, side)) : id < m.started.length :=
  (List.getElem?_eq_some_iff.mp (inv.calls t id side calls)).1

theorem Inv.pair_id_lt (mem : p ∈ m.pairs) (involved : p.Involves id) :
    id < m.started.length := by
  obtain ⟨sent, received, _⟩ := inv.paired_calls p mem
  rcases involved with rfl | rfl
  · exact (List.getElem?_eq_some_iff.mp sent).1
  · exact (List.getElem?_eq_some_iff.mp received).1

/-- A call number names its party. -/
theorem Inv.same_party (first : m.pc t = some (id, x))
    (second : m.pc u = some (id, y)) : t = u := by
  have eq := (inv.calls t id x first).symm.trans (inv.calls u id y second)
  simp only [Option.some.injEq, Prod.mk.injEq] at eq
  exact eq.1

theorem Inv.not_queued_of_out (out : m.pc t = none) : ¬ m.Queued t := by
  rintro (waits | ⟨r, mem⟩)
  · obtain ⟨id, a, calls⟩ := inv.receiver t waits
    exact nomatch out.symm.trans calls
  · obtain ⟨id, calls⟩ := inv.sender t r mem
    exact nomatch out.symm.trans calls

theorem Inv.send_place {s : Θ} (first : t ∈ m.senders r) (second : t ∈ m.senders s) : r = s := by
  obtain ⟨i, calls⟩ := inv.sender t r first
  obtain ⟨j, again⟩ := inv.sender t s second
  have eq := calls.symm.trans again
  simp only [Option.some.injEq, Prod.mk.injEq, Side.send.injEq] at eq
  exact eq.2

theorem Inv.not_waiting_of_sender (mem : t ∈ m.senders r) : m.waiting t = false := by
  by_contra waits
  obtain ⟨i, calls⟩ := inv.sender t r mem
  obtain ⟨j, a, again⟩ := inv.receiver t (by simpa using waits)
  exact nomatch calls.symm.trans again

theorem Inv.nodup (r : Θ) : (m.senders r).Nodup := by
  refine (inv.fifo r).imp_of_mem fun {t u} memT memU younger same => ?_
  subst same
  obtain ⟨i, calls⟩ := inv.sender t r memT
  exact absurd (younger i i _ _ calls calls) (Nat.lt_irrefl i)

theorem Inv.not_fresh (calls : m.pc t = some (id, side)) :
    id ≠ m.started.length := fun same => absurd (inv.id_lt calls) (by omega)

/-- The number of the next call is in no record yet. -/
theorem Inv.fresh : (∀ t x, m.pc t ≠ some (m.started.length, x)) ∧
    (∀ q ∈ m.pairs, ¬ q.Involves m.started.length) ∧ ∀ ρ ∈ m.returns, ρ.id ≠ m.started.length := by
  refine ⟨fun t x calls => inv.not_fresh calls rfl, fun q mem involved => ?_, fun ρ mem same => ?_⟩
  · exact absurd (inv.pair_id_lt mem involved) (Nat.lt_irrefl _)
  · exact absurd (inv.returned ρ mem).1 (by omega)

/-- A return added to the history, for a call that is over. -/
theorem Inv.addReturn (ρ : Return ν) (known : ρ.id < m.started.length) (ended : ∀ t side, m.pc t ≠ some (ρ.id, side))
    (noted : ∀ p ∈ m.pairs, p.Involves ρ.id → Settles p ρ)
    (paired : ρ.fate ≠ .interrupted → ρ.id ∈ m.dismissed ∨ ∃ p ∈ m.pairs, p.Involves ρ.id) :
    Inv accepts { m with returns := m.returns ++ [ρ] } :=
  { inv with
    queued_unpaired := inv.queued_unpaired
    queued_calm := inv.queued_calm
    unqueued := inv.unqueued
    returned := by
      intro x mem
      rcases List.mem_append.mp mem with old | new
      · exact inv.returned x old
      · rw [List.mem_singleton.mp new]; exact ⟨known, ended⟩
    return_note := by
      intro x mem
      rcases List.mem_append.mp mem with old | new
      · exact inv.return_note x old
      · rw [List.mem_singleton.mp new]; exact noted
    return_paired := by
      intro x mem
      rcases List.mem_append.mp mem with old | new
      · exact inv.return_paired x old
      · rw [List.mem_singleton.mp new]; exact paired }

/-- A call that has been numbered and nothing else. -/
theorem Inv.addStarted (call : Θ × Side Θ A) : Inv accepts { m with started := m.started ++ [call] } :=
  { inv with
    calls := fun t id side calls => getElem?_append_of_some _ (inv.calls t id side calls)
    paired_calls := fun p mem => by
      obtain ⟨sent, received, fits⟩ := inv.paired_calls p mem
      exact ⟨getElem?_append_of_some _ sent, getElem?_append_of_some _ received, fits⟩
    queued_unpaired := inv.queued_unpaired
    queued_calm := inv.queued_calm
    unqueued := inv.unqueued
    returned := fun ρ mem => ⟨by
      have := (inv.returned ρ mem).1
      simp only [List.length_append]; omega, (inv.returned ρ mem).2⟩
    dismissed_send := fun id mem => by
      obtain ⟨t, r, found⟩ := inv.dismissed_send id mem
      exact ⟨t, r, getElem?_append_of_some _ found⟩ }

/-- A call takes part in at most one pairing. -/
theorem Inv.same_pairing {q : Pairing Θ A ν} (first : p ∈ m.pairs) (second : q ∈ m.pairs)
    (hit : p.Involves id) (again : q.Involves id) : p = q := by
  by_contra apart
  have symmetric : Std.Symm fun p q : Pairing Θ A ν => ∀ id, p.Involves id → ¬ q.Involves id :=
    ⟨fun p q disjoint id hit again => disjoint id again hit⟩
  exact inv.paired_once.forall first second apart id hit again

/-- A receive that came back without interruption met a sender. -/
theorem Inv.received {ρ : Return ν} (mem : ρ ∈ m.returns) (call : m.started[ρ.id]? = some (r, .recv a))
    (calm : ρ.fate ≠ .interrupted) : ∃ p ∈ m.pairs, p.recvId = ρ.id ∧ p.receiver = r ∧ p.asked = a := by
  rcases inv.return_paired ρ mem calm with dismissed | ⟨p, paired, involved⟩
  · obtain ⟨t, s, sends⟩ := inv.dismissed_send _ dismissed
    exact nomatch call.symm.trans sends
  · obtain ⟨sent, received, _⟩ := inv.paired_calls p paired
    rcases involved with same | same
    · rw [same] at sent
      exact nomatch call.symm.trans sent
    · rw [same] at received
      have eq := call.symm.trans received
      simp only [Option.some.injEq, Prod.mk.injEq, Side.recv.injEq] at eq
      exact ⟨p, paired, same, eq.1.symm, eq.2.symm⟩

/-- The first accepted sender of the queue has the smallest call number of all accepted ones. -/
theorem Inv.oldest {older younger : List Θ} {sid : Nat}
    (queue : m.senders r = older ++ t :: younger) (passed : ∀ v ∈ older, ¬ accepts a v)
    (sends : m.pc t = some (sid, x)) (mem : u ∈ m.senders r) (fits : accepts a u) (calls : m.pc u = some (id, y)) :
    sid ≤ id := by
  have order := inv.fifo r
  rw [queue] at order mem
  rcases List.mem_append.mp mem with old | rest
  · exact absurd fits (passed u old)
  · rcases List.mem_cons.mp rest with rfl | young
    · have eq := sends.symm.trans calls
      simp only [Option.some.injEq, Prod.mk.injEq] at eq
      exact Nat.le_of_eq eq.1
    · have later := (List.pairwise_cons.mp (List.pairwise_append.mp order).2.1).1 u young
      exact Nat.le_of_lt (later sid id x y sends calls)

end

section
variable [DecidableEq Θ]

/-- Calls after a start: the new one, or one that was there. -/
theorem Meet.start_pc {t u : Θ} {side x : Side Θ A} (n : ν) {id : Nat}
    (calls : (m.start t side n).pc u = some (id, x)) :
    (u = t ∧ id = m.started.length ∧ x = side) ∨ (u ≠ t ∧ m.pc u = some (id, x)) := by
  by_cases same : u = t
  · subst same
    simp only [Meet.start, update_self, Option.some.injEq, Prod.mk.injEq] at calls
    exact .inl ⟨rfl, calls.1.symm, calls.2.symm⟩
  · exact .inr ⟨same, by simpa [Meet.start, same] using calls⟩

variable (inv : Inv accepts m)
include inv

theorem Inv.touch (t : Θ) (n : ν) (out : m.pc t = none) : Inv accepts (m.touch t n) :=
  { inv with
    queued_unpaired := inv.queued_unpaired
    queued_calm := inv.queued_calm
    unqueued := inv.unqueued
    paired_note := by
      intro u id side calls
      have apart : u ≠ t := by
        rintro rfl
        exact nomatch out.symm.trans calls
      simpa [Meet.touch, apart] using inv.paired_note u id side calls }
theorem Inv.abandon (t : Θ) (n : ν) (free : ¬ m.Queued t) : Inv accepts (m.abandon t n) := by
  have pcs : ∀ u x, (m.abandon t n).pc u = some x → u ≠ t ∧ m.pc u = some x := by
    intro u x calls
    by_cases same : u = t
    · subst same; simp [Meet.abandon] at calls
    · exact ⟨same, by simpa [Meet.abandon, same] using calls⟩
  have kept : ∀ u, m.Queued u → (m.abandon t n).pc u = m.pc u := by
    intro u queued
    have apart : u ≠ t := by rintro rfl; exact free queued
    simp [Meet.abandon, apart]
  exact
  { calls := fun u id side calls => inv.calls u id side (pcs u _ calls).2
    sender := fun u r mem => by
      rw [kept u (.inr ⟨r, mem⟩)]; exact inv.sender u r mem
    receiver := fun r waits => by
      rw [kept r (.inl waits)]; exact inv.receiver r waits
    unmatched := fun u r id a mem waits calls => inv.unmatched u r id a mem waits (pcs r _ calls).2
    fifo := fun r => (inv.fifo r).imp fun younger i j x y calls calls' =>
      younger i j x y (pcs _ _ calls).2 (pcs _ _ calls').2
    paired_calls := inv.paired_calls
    paired_once := inv.paired_once
    queued_unpaired := fun u id side queued calls => inv.queued_unpaired u id side queued (pcs u _ calls).2
    queued_calm := fun u queued => by
      by_cases same : u = t
      · simp [Meet.abandon, same]
      · simpa [Meet.abandon, same] using inv.queued_calm u queued
    out_calm := fun u out => by
      by_cases same : u = t
      · simp [Meet.abandon, same]
      · simpa [Meet.abandon, same] using inv.out_calm u (by simpa [Meet.abandon, same] using out)
    paired_note := fun u id side calls => by
      obtain ⟨apart, calls⟩ := pcs u _ calls
      simpa [Meet.abandon, apart] using inv.paired_note u id side calls
    unqueued := fun u id side calls out => by
      obtain ⟨apart, calls⟩ := pcs u _ calls
      simpa [Meet.abandon, apart] using inv.unqueued u id side calls out
    returned := fun ρ mem => ⟨(inv.returned ρ mem).1, fun u side calls =>
      (inv.returned ρ mem).2 u side (pcs u _ calls).2⟩
    return_note := inv.return_note
    return_paired := inv.return_paired
    dismissed_send := inv.dismissed_send }

theorem Inv.finish (t : Θ) (id : Nat) (side : Side Θ A) (code : Int) (n : ν) (calls : m.pc t = some (id, side))
    (free : ¬ m.Queued t) : Inv accepts (m.finish t id code n) := by
  have quiet := inv.paired_note t id side calls
  have paired := inv.unqueued t id side calls free
  refine (inv.abandon t n free).addReturn _ (inv.id_lt calls) ?_ ?_ ?_
  · intro u x again
    by_cases same : u = t
    · subst same; simp [Meet.abandon] at again
    · exact same (inv.same_party (by simpa [Meet.abandon, same] using again) calls)
  · intro p mem involved
    obtain ⟨noted, calm, waiter⟩ := quiet p mem involved
    exact ⟨noted.symm, by simp [calm], by simp [calm], fun _ => waiter⟩
  · intro calm
    have calm : m.interrupted t = false := by
      by_contra loud
      simp [loud] at calm
    simpa [calm, Meet.abandon] using paired

theorem Inv.queued_leave {t u : Θ} : (m.leave t).Queued u ↔ u ≠ t ∧ m.Queued u := by
  by_cases same : u = t
  · subst same
    simp [Meet.Queued, Meet.leave, (inv.nodup _).mem_erase_iff]
  · simp [Meet.Queued, Meet.leave, (inv.nodup _).mem_erase_iff, same]

/-- Leaving the queues needs a reason for not being paired: an interruption or a dismissal. -/
theorem Inv.leave (t : Θ) (queued : m.Queued t) (i : Bool) (d : List Nat)
    (reason : ∀ id side, m.pc t = some (id, side) → i = true ∨ id ∈ d)
    (sends : ∀ id ∈ d, ∃ t r, m.started[id]? = some (t, .send r)) :
    Inv accepts { m.leave t with interrupted := update m.interrupted t i, dismissed := d ++ m.dismissed } := by
  have places : ∀ u r, u ∈ (m.senders r).erase t ↔ u ≠ t ∧ u ∈ m.senders r := fun u r =>
    (inv.nodup r).mem_erase_iff
  have waits : ∀ r, (m.leave t).waiting r = true → r ≠ t ∧ m.waiting r = true := by
    intro r waits
    by_cases same : r = t
    · subst same; simp [Meet.leave] at waits
    · exact ⟨same, by simpa [Meet.leave, same] using waits⟩
  have calls_of : ∃ id side, m.pc t = some (id, side) := by
    rcases queued with waits | ⟨r, mem⟩
    · obtain ⟨id, a, calls⟩ := inv.receiver t waits; exact ⟨_, _, calls⟩
    · obtain ⟨id, calls⟩ := inv.sender t r mem; exact ⟨_, _, calls⟩
  exact
  { inv with
    sender := fun u r mem => inv.sender u r ((places u r).mp mem).2
    receiver := fun r w => inv.receiver r (waits r w).2
    unmatched := fun u r id a mem w => inv.unmatched u r id a ((places u r).mp mem).2 (waits r w).2
    fifo := fun r => (inv.fifo r).sublist List.erase_sublist
    queued_unpaired := fun u id side q => inv.queued_unpaired u id side ((inv.queued_leave).mp q).2
    queued_calm := fun u q => by
      obtain ⟨apart, q⟩ := inv.queued_leave.mp q
      simpa [apart] using inv.queued_calm u q
    out_calm := fun u out => by
      have apart : u ≠ t := by
        rintro rfl
        obtain ⟨id, side, calls⟩ := calls_of
        exact nomatch out.symm.trans calls
      simpa [apart] using inv.out_calm u out
    paired_note := fun u id side calls p mem involved => by
      have apart : u ≠ t := by
        rintro rfl
        exact inv.queued_unpaired u id side queued calls p mem involved
      simpa [apart, Meet.leave] using inv.paired_note u id side calls p mem involved
    unqueued := fun u id side calls out => by
      by_cases same : u = t
      · subst same
        rcases reason id side calls with loud | listed
        · exact .inl (by simpa using loud)
        · exact .inr (.inl (List.mem_append_left _ listed))
      · have before := inv.unqueued u id side calls fun q => out (inv.queued_leave.mpr ⟨same, q⟩)
        rcases before with loud | listed | paired
        · exact .inl (by simpa [same] using loud)
        · exact .inr (.inl (List.mem_append_right _ listed))
        · exact .inr (.inr paired)
    return_paired := fun ρ mem calm => (inv.return_paired ρ mem calm).imp_left (List.mem_append_right _)
    dismissed_send := fun id mem => by
      rcases List.mem_append.mp mem with new | old
      · exact sends id new
      · exact inv.dismissed_send id old }

theorem Inv.interrupt (t : Θ) (queued : m.Queued t) : Inv accepts (m.interrupt t) :=
  inv.leave t queued true [] (fun _ _ _ => .inl rfl) (fun _ mem => nomatch mem)

theorem Inv.dismiss (t r : Θ) (id : Nat) (queued : t ∈ m.senders r) (sends : m.pc t = some (id, .send r)) :
    Inv accepts (m.dismiss t id) := by
  have calm := inv.queued_calm t (.inr ⟨r, queued⟩)
  have left := inv.leave t (.inr ⟨r, queued⟩) false [id]
    (fun j side calls => by
      have eq := sends.symm.trans calls
      simp only [Option.some.injEq, Prod.mk.injEq] at eq
      exact .inr (by simp [eq.1]))
    (fun j mem => by
      rw [List.mem_singleton.mp mem]; exact ⟨t, r, inv.calls t id _ sends⟩)
  have same : update m.interrupted t false = m.interrupted := by
    rw [← calm]; exact update_eq_self t _
  rw [same] at left
  exact left
/-- The running party `u`, in its new call, takes the waiting party `v` out of its queue. -/
theorem Inv.pair (u v : Θ) (new : Nat) {old : Nat} {side : Side Θ A} (p : Pairing Θ A ν) (nu nv : ν)
    (queued : m.Queued v) (calls : m.pc v = some (old, side)) (out : m.pc u = none)
    (fresh : ∀ t x, m.pc t ≠ some (new, x)) (unpaired : ∀ q ∈ m.pairs, ¬ q.Involves new)
    (unreturned : ∀ ρ ∈ m.returns, ρ.id ≠ new)
    (ids : ∀ id, p.Involves id ↔ id = old ∨ id = new) (noted : p.noteOf old = nv) (waited : old = p.waiter)
    (started : m.started[p.sendId]? = some (p.sender, .send p.receiver) ∧
      m.started[p.recvId]? = some (p.receiver, .recv p.asked) ∧ accepts p.asked p.sender) :
    Inv accepts { m.leave v with
      note := update (update m.note u nu) v nv, pairs := m.pairs ++ [p] } := by
  have places : ∀ t r, t ∈ (m.senders r).erase v ↔ t ≠ v ∧ t ∈ m.senders r := fun t r =>
    (inv.nodup r).mem_erase_iff
  have waits : ∀ r, (m.leave v).waiting r = true → r ≠ v ∧ m.waiting r = true := by
    intro r waits
    by_cases same : r = v
    · subst same; simp [Meet.leave] at waits
    · exact ⟨same, by simpa [Meet.leave, same] using waits⟩
  have alone : ∀ q ∈ m.pairs, ∀ id, q.Involves id → ¬ p.Involves id := by
    intro q mem id involved hit
    rcases (ids id).mp hit with rfl | rfl
    · exact inv.queued_unpaired v id side queued calls q mem involved
    · exact unpaired q mem involved
  -- only `v` is in a call of the new pairing
  have party : ∀ t id x, m.pc t = some (id, x) → p.Involves id → t = v ∧ id = old := by
    intro t id x calls' hit
    rcases (ids id).mp hit with rfl | rfl
    · exact ⟨inv.same_party calls' calls, rfl⟩
    · exact absurd calls' (fresh t x)
  exact
  { inv with
    sender := fun t r mem => inv.sender t r ((places t r).mp mem).2
    receiver := fun r w => inv.receiver r (waits r w).2
    unmatched := fun t r id a mem w => inv.unmatched t r id a ((places t r).mp mem).2 (waits r w).2
    fifo := fun r => (inv.fifo r).sublist List.erase_sublist
    paired_calls := fun q mem => by
      rcases List.mem_append.mp mem with known | new
      · exact inv.paired_calls q known
      · rw [List.mem_singleton.mp new]; exact started
    paired_once := List.pairwise_append.mpr ⟨inv.paired_once, List.pairwise_singleton _ _, fun q mem p' new => by
      rw [List.mem_singleton.mp new]; exact alone q mem⟩
    queued_unpaired := fun t id x q calls' p' mem involved => by
      obtain ⟨apart, q⟩ := inv.queued_leave.mp q
      rcases List.mem_append.mp mem with known | new
      · exact inv.queued_unpaired t id x q calls' p' known involved
      · rw [List.mem_singleton.mp new] at involved
        exact apart (party t id x calls' involved).1
    queued_calm := fun t q => inv.queued_calm t (inv.queued_leave.mp q).2
    out_calm := inv.out_calm
    paired_note := fun t id x calls' q mem involved => by
      rcases List.mem_append.mp mem with known | new
      · have apart : t ≠ v := by
          rintro rfl
          exact inv.queued_unpaired t id x queued calls' q known involved
        have running : t ≠ u := by
          rintro rfl
          exact nomatch out.symm.trans calls'
        simpa [apart, running, Meet.leave] using inv.paired_note t id x calls' q known involved
      · rw [List.mem_singleton.mp new] at involved ⊢
        obtain ⟨rfl, rfl⟩ := party t id x calls' involved
        exact ⟨by simpa using noted, inv.queued_calm t queued, waited⟩
    unqueued := fun t id x calls' free => by
      by_cases same : t = v
      · subst same
        have eq := calls.symm.trans calls'
        simp only [Option.some.injEq, Prod.mk.injEq] at eq
        exact .inr (.inr ⟨p, by simp, (ids id).mpr (.inl eq.1.symm)⟩)
      · have before := inv.unqueued t id x calls' fun q => free (inv.queued_leave.mpr ⟨same, q⟩)
        rcases before with loud | listed | ⟨q, mem, involved⟩
        · exact .inl loud
        · exact .inr (.inl listed)
        · exact .inr (.inr ⟨q, List.mem_append_left _ mem, involved⟩)
    return_note := fun ρ mem q paired involved => by
      rcases List.mem_append.mp paired with known | new
      · exact inv.return_note ρ mem q known involved
      · rw [List.mem_singleton.mp new] at involved
        rcases (ids ρ.id).mp involved with same | same
        · exact absurd calls (same ▸ (inv.returned ρ mem).2 v side)
        · exact absurd same (unreturned ρ mem)
    return_paired := fun ρ mem calm => (inv.return_paired ρ mem calm).imp_right
      fun ⟨q, known, involved⟩ => ⟨q, List.mem_append_left _ known, involved⟩ }

/-- Leaving as a waiting receiver touches no sender queue. -/
theorem Inv.leave_receiver {r : Θ} (waits : m.waiting r = true) : (m.leave r).senders = m.senders := by
  funext s
  refine List.erase_of_not_mem fun mem => ?_
  rw [inv.not_waiting_of_sender mem] at waits
  exact nomatch waits

/-- Leaving as a waiting sender touches one queue. -/
theorem Inv.leave_sender {t r : Θ} (mem : t ∈ m.senders r) :
    (m.leave t).senders = update m.senders r ((m.senders r).erase t) ∧ (m.leave t).waiting = m.waiting := by
  constructor
  · funext s
    by_cases same : s = r
    · subst same; simp [Meet.leave]
    · have absent : t ∉ m.senders s := fun other => same (inv.send_place other mem)
      simp [Meet.leave, same, List.erase_of_not_mem absent]
  · have awake := inv.not_waiting_of_sender mem
    rw [Meet.leave, ← awake]
    exact update_eq_self t _

theorem Inv.meetSend (t r : Θ) (rid : Nat) (a : A) (nS nR : ν) (code : Int) (out : m.pc t = none)
    (waits : m.waiting r = true) (asks : m.pc r = some (rid, .recv a)) (fits : accepts a t) :
    Inv accepts (m.meetSend t r rid a nS nR code) := by
  obtain ⟨fresh, unpaired, unreturned⟩ := inv.fresh
  have apart : m.started.length ≠ rid := fun same => inv.not_fresh asks same.symm
  have begun := inv.addStarted (t, Side.send r)
  let p : Pairing Θ A ν := ⟨m.started.length, rid, t, r, a, nS, nR, code⟩
  have paired := begun.pair t r m.started.length p nS nR (.inl waits) asks out fresh unpaired unreturned
    (fun id => by simp only [p, Pairing.Involves]; grind)
    (by simp [p, Pairing.noteOf, apart])
    (by have := inv.id_lt asks; simp only [p, Pairing.waiter]; omega)
    ⟨by simp [p], getElem?_append_of_some _ (inv.calls r rid _ asks), fits⟩
  have logged := paired.addReturn ⟨m.started.length, code, nS, .met⟩ (by simp [Meet.leave])
    (fun u x => fresh u x)
    (fun q mem involved => by
      rcases List.mem_append.mp mem with known | new
      · exact absurd involved (unpaired q known)
      · rw [List.mem_singleton.mp new]
        exact ⟨by simp [p, Pairing.noteOf], nofun, fun _ => rfl, nofun⟩)
    (fun _ => .inr ⟨p, List.mem_append_right _ (List.mem_singleton_self p), .inl rfl⟩)
  have same := inv.leave_receiver waits
  simp only [Meet.leave] at logged same
  rw [same] at logged
  exact logged

theorem Inv.meetRecv (r t : Θ) (sid : Nat) (a : A) (nS nR : ν) (code : Int) (out : m.pc r = none)
    (mem : t ∈ m.senders r) (sends : m.pc t = some (sid, .send r)) (fits : accepts a t) :
    Inv accepts (m.meetRecv r t sid a nS nR code) := by
  obtain ⟨fresh, unpaired, unreturned⟩ := inv.fresh
  have apart : sid ≠ m.started.length := inv.not_fresh sends
  have begun := inv.addStarted (r, Side.recv a)
  let p : Pairing Θ A ν := ⟨sid, m.started.length, t, r, a, nS, nR, code⟩
  have paired := begun.pair r t m.started.length p nR nS (.inr ⟨r, mem⟩) sends out fresh unpaired unreturned
    (fun id => by simp only [p, Pairing.Involves]; grind)
    (by simp [p, Pairing.noteOf])
    (by have := inv.id_lt sends; simp only [p, Pairing.waiter]; omega)
    ⟨getElem?_append_of_some _ (inv.calls t sid _ sends), by simp [p], fits⟩
  have logged := paired.addReturn ⟨m.started.length, code, nR, .met⟩ (by simp [Meet.leave])
    (fun u x => fresh u x)
    (fun q known involved => by
      rcases List.mem_append.mp known with known | new
      · exact absurd involved (unpaired q known)
      · rw [List.mem_singleton.mp new]
        exact ⟨by simp [p, Pairing.noteOf, apart], nofun, fun _ => rfl, nofun⟩)
    (fun _ => .inr ⟨p, List.mem_append_right _ (List.mem_singleton_self p), .inr rfl⟩)
  obtain ⟨lists, places⟩ := inv.leave_sender mem
  simp only [Meet.leave] at logged lists places
  rw [lists, places] at logged
  exact logged
/-- A call that starts and waits, with the queues that say where: `t` is new in them. -/
theorem Inv.start (t : Θ) (side : Side Θ A) (n : ν) (senders : Θ → List Θ) (waiting : Θ → Bool)
    (out : m.pc t = none)
    (queued : ∀ u, Meet.Queued { m with senders, waiting } u ↔ u = t ∨ m.Queued u)
    (sender : ∀ u r, u ∈ senders r → (u = t ∧ side = .send r) ∨ u ∈ m.senders r)
    (receiver : ∀ r, waiting r = true → (r = t ∧ ∃ a, side = .recv a) ∨ m.waiting r = true)
    (fifo : ∀ r, senders r = m.senders r ∨ senders r = m.senders r ++ [t])
    (unmatched : ∀ u r id a, u ∈ senders r → waiting r = true →
      (m.start t side n).pc r = some (id, .recv a) → ¬ accepts a u) :
    Inv accepts { m.start t side n with senders, waiting } := by
  have known := inv.not_queued_of_out out
  have apart : ∀ u, m.Queued u → u ≠ t := by rintro u q rfl; exact known q
  have kept : ∀ u, u ≠ t → (m.start t side n).pc u = m.pc u := fun u h => by simp [Meet.start, h]
  obtain ⟨fresh, unpaired, unreturned⟩ := inv.fresh
  have begun := inv.addStarted (t, side)
  exact
  { begun with
    calls := fun u id x calls => by
      rcases Meet.start_pc n calls with ⟨rfl, rfl, rfl⟩ | ⟨_, calls⟩
      · simp [Meet.start]
      · exact begun.calls u id x calls
    sender := fun u r mem => by
      rcases sender u r mem with ⟨rfl, rfl⟩ | mem
      · exact ⟨m.started.length, by simp [Meet.start]⟩
      · obtain ⟨id, calls⟩ := inv.sender u r mem
        exact ⟨id, (kept u (apart u (.inr ⟨r, mem⟩))).trans calls⟩
    receiver := fun r waits => by
      rcases receiver r waits with ⟨rfl, a, rfl⟩ | waits
      · exact ⟨m.started.length, a, by simp [Meet.start]⟩
      · obtain ⟨id, a, calls⟩ := inv.receiver r waits
        exact ⟨id, a, (kept r (apart r (.inl waits))).trans calls⟩
    unmatched := unmatched
    fifo := fun r => by
      have old : (m.senders r).Pairwise fun u v => ∀ i j x y,
          (m.start t side n).pc u = some (i, x) → (m.start t side n).pc v = some (j, y) → i < j := by
        refine (inv.fifo r).imp_of_mem fun {u v} memU memV younger i j x y callsU callsV => ?_
        rw [kept u (apart u (.inr ⟨r, memU⟩))] at callsU
        rw [kept v (apart v (.inr ⟨r, memV⟩))] at callsV
        exact younger i j x y callsU callsV
      rcases fifo r with same | grown
      · simpa only [same] using old
      · simp only [grown]
        refine List.pairwise_append.mpr ⟨old, List.pairwise_singleton _ _, fun u memU v new i j x y callsU callsV => ?_⟩
        rw [List.mem_singleton.mp new] at callsV
        rw [kept u (apart u (.inr ⟨r, memU⟩))] at callsU
        rcases Meet.start_pc n callsV with ⟨_, rfl, _⟩ | ⟨other, _⟩
        · exact inv.id_lt callsU
        · exact absurd rfl other
    queued_unpaired := fun u id x q calls p mem => by
      rcases Meet.start_pc n calls with ⟨_, rfl, _⟩ | ⟨other, calls⟩
      · exact unpaired p mem
      · rcases (queued u).mp q with same | q
        · exact absurd same other
        · exact inv.queued_unpaired u id x q calls p mem
    queued_calm := fun u q => by
      rcases (queued u).mp q with rfl | q
      · exact inv.out_calm u out
      · exact inv.queued_calm u q
    out_calm := fun u gone => by
      by_cases same : u = t
      · subst same; simp [Meet.start] at gone
      · exact inv.out_calm u ((kept u same).symm.trans gone)
    paired_note := fun u id x calls p mem involved => by
      rcases Meet.start_pc n calls with ⟨_, rfl, _⟩ | ⟨other, calls⟩
      · exact absurd involved (unpaired p mem)
      · simpa [Meet.start, other] using inv.paired_note u id x calls p mem involved
    unqueued := fun u id x calls free => by
      rcases Meet.start_pc n calls with ⟨rfl, _, _⟩ | ⟨other, calls⟩
      · exact absurd ((queued u).mpr (.inl rfl)) free
      · exact inv.unqueued u id x calls fun q => free ((queued u).mpr (.inr q))
    returned := fun ρ mem => ⟨(begun.returned ρ mem).1, fun u x calls => by
      rcases Meet.start_pc n calls with ⟨_, same, _⟩ | ⟨_, calls⟩
      · exact unreturned ρ mem same
      · exact (inv.returned ρ mem).2 u x calls⟩ }

theorem Inv.sleepSend (t r : Θ) (n : ν) (out : m.pc t = none)
    (alone : ∀ id a, m.waiting r = true → m.pc r = some (id, .recv a) → ¬ accepts a t) :
    Inv accepts (m.sleepSend t r n) := by
  have places : ∀ u s, u ∈ update m.senders r (m.senders r ++ [t]) s ↔
      (u = t ∧ s = r) ∨ u ∈ m.senders s := by
    intro u s
    by_cases same : s = r
    · subst same; simp [or_comm]
    · simp [same]
  refine inv.start t (.send r) n _ m.waiting out ?_ ?_ (fun s waits => .inr waits) ?_ ?_
  · intro u
    simp only [Meet.Queued, places]
    constructor
    · rintro (waits | ⟨s, ⟨rfl, _⟩ | mem⟩)
      · exact .inr (.inl waits)
      · exact .inl rfl
      · exact .inr (.inr ⟨s, mem⟩)
    · rintro (rfl | waits | ⟨s, mem⟩)
      · exact .inr ⟨r, .inl ⟨rfl, rfl⟩⟩
      · exact .inl waits
      · exact .inr ⟨s, .inr mem⟩
  · intro u s mem
    rcases (places u s).mp mem with ⟨rfl, rfl⟩ | mem
    · exact .inl ⟨rfl, rfl⟩
    · exact .inr mem
  · intro s
    by_cases same : s = r
    · subst same; simp
    · simp [same]
  · intro u s id a mem waits calls
    rcases Meet.start_pc n calls with ⟨_, _, wrong⟩ | ⟨_, before⟩
    · exact nomatch wrong
    · rcases (places u s).mp mem with ⟨rfl, rfl⟩ | mem
      · exact alone id a waits before
      · exact inv.unmatched u s id a mem waits before

theorem Inv.sleepRecv (r : Θ) (a : A) (n : ν) (out : m.pc r = none) (alone : ∀ t ∈ m.senders r, ¬ accepts a t) :
    Inv accepts (m.sleepRecv r a n) := by
  have places : ∀ u, update m.waiting r true u = true ↔ u = r ∨ m.waiting u = true := by
    intro u
    by_cases same : u = r
    · subst same; simp
    · simp [same]
  refine inv.start r (.recv a) n m.senders _ out ?_ (fun u s mem => .inr mem) ?_ (fun s => .inl rfl) ?_
  · intro u
    simp only [Meet.Queued, places, or_assoc]
  · intro s waits
    rcases (places s).mp waits with rfl | waits
    · exact .inl ⟨rfl, a, rfl⟩
    · exact .inr waits
  · intro u s id b mem waits calls
    rcases Meet.start_pc n calls with ⟨rfl, _, same⟩ | ⟨other, calls⟩
    · cases same; exact alone u mem
    · rcases (places s).mp waits with same | waits
      · exact absurd same other
      · exact inv.unmatched u s id b mem waits calls

/-- **The moves keep the invariant.** -/
theorem Inv.move {m' : Meet Θ A ν} (moved : Move accepts m m') : Inv accepts m' := by
  cases moved with
  | sleepSend t r n out alone => exact inv.sleepSend t r n out alone
  | sleepRecv r a n out alone => exact inv.sleepRecv r a n out alone
  | meetSend t r rid a nS nR code out waits asks fits => exact inv.meetSend t r rid a nS nR code out waits asks fits
  | meetRecv r t sid a nS nR code older younger out queue sends fits passed =>
    exact inv.meetRecv r t sid a nS nR code out (by simp [queue]) sends fits
  | interrupt t queued => exact inv.interrupt t queued
  | dismiss t r id queued sends => exact inv.dismiss t r id queued sends
  | finish t id side code n calls free => exact inv.finish t id side code n calls free
  | abandon t n free => exact inv.abandon t n free
  | touch t n out => exact inv.touch t n out

/-- A call that returns has not returned before. -/
theorem Inv.returns_once {m' : Meet Θ A ν} (once : (m.returns.map Return.id).Nodup) (moved : Move accepts m m') :
    (m'.returns.map Return.id).Nodup := by
  have grows : ∀ ρ : Return ν, (∀ old ∈ m.returns, old.id ≠ ρ.id) → ((m.returns ++ [ρ]).map Return.id).Nodup := by
    intro ρ new
    rw [List.map_append, List.nodup_append]
    refine ⟨once, List.nodup_singleton _, ?_⟩
    simpa using new
  have fresh : ∀ old ∈ m.returns, old.id ≠ m.started.length := fun old mem => Nat.ne_of_lt (inv.returned old mem).1
  cases moved with
  | meetSend | meetRecv => exact grows _ fresh
  | finish t id side code n calls free => exact grows _ fun old mem same => (inv.returned old mem).2 t side (same ▸ calls)
  | _ => exact once
end
end Codezero.Lib.Rendezvous
