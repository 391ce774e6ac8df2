import Codezero.Kernel.IpcRefine

/-!
# What a wake-up leaves alone

Whatever threads do to each other besides sending messages only takes sleepers out of their queues: those that are left
sleep on, and no message changes.
-/

namespace Codezero.Kernel.IpcRuns
open Codezero.Lib Codezero.Lib.Rendezvous

/-- What a control block holds of a message in transit. -/
structure Message where
  mr : Mr
  ipcFlags : Word
  extendedIpcSize : Nat
  extendedIpcBuffer : Nat → BitVec 8

def Message.of (c : Ktcb) : Message := ⟨c.mr, c.ipcFlags, c.extendedIpcSize, c.extendedIpcBuffer⟩

/-- Sleepers may have been taken out, those that are left are as they were, and no message changed. -/
structure Settles (k k' : State) : Prop where
  wf : k.waits.Wf → k'.waits.Wf
  still : ∀ u q, (k'.tcb u).waitingOn = some q → (k.tcb u).waitingOn = some q ∧ (k'.tcb u).state = (k.tcb u).state ∧
    (k'.tcb u).expectedSender = (k.tcb u).expectedSender
  message : ∀ u, Message.of (k'.tcb u) = Message.of (k.tcb u)

section
variable {k k' k'' : State} {t : L4id} {q : Wqh} {i : Bool}

theorem Settles.refl : Settles k k := ⟨id, fun _ _ home => ⟨home, rfl, rfl⟩, fun _ => rfl⟩

/-- A change of one thread's scheduling state, which it makes awake. -/
theorem Settles.modify (f : Ktcb → Ktcb) (message : Message.of (f (k.tcb t)) = Message.of (k.tcb t))
    (waits : (f (k.tcb t)).waitingOn = (k.tcb t).waitingOn)
    (asleep : (k.tcb t).waitingOn ≠ none → (f (k.tcb t)).state = (k.tcb t).state ∧ (f (k.tcb t)).expectedSender = (k.tcb t).expectedSender)
    (tcb : k'.tcb = (k.modify t f).tcb) (wqh : k'.wqh = k.wqh) : Settles k k' := by
  have home : ∀ u, (k'.tcb u).waitingOn = (k.tcb u).waitingOn := fun u => by
    rw [tcb]
    by_cases self : u = t
    · subst self; simpa using waits
    · simp [self]
  have same := waits_congr wqh home
  refine ⟨fun wf => same ▸ wf, fun u q there => ?_, fun u => ?_⟩
  · have before := (home u).symm.trans there
    rw [tcb]
    by_cases self : u = t
    · subst self
      simpa [before] using asleep (by simp [before])
    · simpa [self] using before
  · rw [tcb]
    by_cases self : u = t
    · subst self; simpa using message
    · simp [self]

theorem settles_take (home : k.waits.Wf → (k.tcb t).waitingOn = some q) (resumed : schedResumeAsync t (wqhTake q t i k) = .ok k') :
    Settles k k' := by
  obtain ⟨waits, others, self⟩ := take_state resumed
  refine ⟨fun wf => waits ▸ wf.remove (home wf), fun u r there => ?_, fun u => ?_⟩
  · have apart : u ≠ t := by
      rintro rfl
      rw [self] at there
      exact nomatch there
    rw [others u apart] at there ⊢
    exact ⟨there, rfl, rfl⟩
  · by_cases same : u = t
    · subst same; rw [self]; rfl
    · rw [others u same]

/-- What `wake_up` did: nothing to a queue without sleepers, else it took the first one out and resumed it. -/
theorem wakeUp_ok {flags : WakeupFlags} {exit : Exit} (ok : wakeUp q flags k = .ok (k', exit)) :
    ((k.wqh q).sleepers ≤ 0 ∧ k' = k) ∨
      ∃ t rest, (k.wqh q).taskList = t :: rest ∧ schedResumeAsync t (wqhTake q t flags.interrupt k) = .ok k' := by
  unfold wakeUp at ok
  split at ok
  · exact nomatch ok
  · split at ok
    · split at ok
      · exact nomatch ok
      · next t rest queue =>
        obtain ⟨k1, resumed, ok⟩ := bind_eq_ok.mp ok
        cases ok
        exact .inr ⟨t, rest, queue, schedResumeAsync_of_schedResume resumed⟩
    · next none =>
      cases ok
      exact .inl ⟨by omega, rfl⟩

theorem settles_wakeUp {flags : WakeupFlags} {exit : Exit} (ok : wakeUp q flags k = .ok (k', exit)) : Settles k k' := by
  rcases wakeUp_ok ok with ⟨_, rfl⟩ | ⟨t, rest, queue, resumed⟩
  · exact .refl
  · have mem : t ∈ (k.wqh q).taskList := by simp [queue]
    exact settles_take (fun wf => (wf.mem_iff q t).mp mem) resumed

end

end Codezero.Kernel.IpcRuns
