import Codezero.Kernel.Rendezvous

/-!
# Success of an IPC means delivery

The status of the sleeping party travels in the flag word that the user supplied, and a recycled thread
wakes its waiting senders without any status. `Careful` rules both out, and then a send that returns 0
was received, and the two parties of a rendezvous fail or succeed together.
-/

namespace Codezero.Kernel.IpcRuns
open Codezero.Lib Codezero.Lib.Rendezvous

/-- The flag words and recyclings under which the status arrives: no error bit set by the user, a transfer
type that exists, and no thread recycled while senders wait for it or an interruption is pending. -/
def Careful (s : Sys) : Event → Prop
  | .call _ args => errCode args.flags = 0 ∧ KnownType args.flags
  | .recycle t => (s.k.tcb t).flags.interrupted = false ∧ (s.k.wqh (.send t)).taskList = []
  | _ => True

theorem Careful.orderly {s : Sys} {e : Event} (careful : Careful s e) : Orderly s e := by
  cases e with
  | recycle t => exact careful.1
  | _ => trivial

/-! ## The status word -/

private theorem or_and (w b m : Word) : (w ||| b) &&& m = (w &&& m) ||| (b &&& m) := by
  ext i; simp [Bool.and_or_distrib_right]
theorem errCode_eq_zero {w : Word} : errCode w = 0 ↔ w &&& ipcEfault = 0 ∧ w &&& ipcEnoipc = 0 := by
  unfold errCode
  split_ifs with fault general
  · exact ⟨fun h => absurd h (by decide), fun h => absurd h.1 fault⟩
  · exact ⟨fun h => absurd h (by decide), fun h => absurd h.2 general⟩
  · exact ⟨fun _ => ⟨not_not.mp fault, not_not.mp general⟩, fun _ => rfl⟩

/-- A signalled status is read back as the code that was signalled. -/
theorem errCode_signalled {w : Word} {ret : Int} (clean : errCode w = 0)
    (codes : ret = 0 ∨ ret = efault ∨ ret = enoipc) : errCode (signalled ret w) = ret := by
  obtain ⟨noFault, noGeneral⟩ := errCode_eq_zero.mp clean
  rcases codes with rfl | rfl | rfl
  · exact clean
  · have set : signalled efault w &&& ipcEfault ≠ 0 := by
      rw [signalled, if_pos rfl, or_and, noFault]; decide
    rw [errCode, if_pos set]
  · have same : signalled enoipc w = w ||| ipcEnoipc := rfl
    have unset : signalled enoipc w &&& ipcEfault = 0 := by rw [same, or_and, noFault]; decide
    have set : signalled enoipc w &&& ipcEnoipc ≠ 0 := by rw [same, or_and, noGeneral]; decide
    rw [errCode, if_neg (not_not.mpr unset), if_pos set]

theorem ipcFlagsGetType_signalled (ret : Int) (w : Word) : ipcFlagsGetType (signalled ret w) = ipcFlagsGetType w := by
  have outside : ipcEfault &&& ipcFlagsTypeMask = 0 ∧ ipcEnoipc &&& ipcFlagsTypeMask = 0 := by decide
  unfold signalled ipcFlagsGetType
  split_ifs
  · rw [or_and, outside.1]; simp
  · rw [or_and, outside.2]; simp
  · rfl

theorem knownType_signalled {w : Word} (ret : Int) : KnownType (signalled ret w) ↔ KnownType w := by
  simp only [KnownType, ipcFlagsGetType_signalled]

theorem ipcHandleErrors_zero {t : L4id} {k : State} (quiet : (ipcHandleErrors t k).2 = 0) :
    (ipcHandleErrors t k).1 = k ∧ errCode (k.tcb t).ipcFlags = 0 := by
  unfold ipcHandleErrors at quiet ⊢
  split_ifs at quiet ⊢ with interrupted fault general
  · exact absurd (show eintr = 0 from quiet) (by decide)
  · exact absurd (show efault = 0 from quiet) (by decide)
  · exact absurd (show enoipc = 0 from quiet) (by decide)
  · exact ⟨rfl, errCode_eq_zero.mpr ⟨not_not.mp fault, not_not.mp general⟩⟩

/-! ## Steps that carry no message -/

/-- Nothing changes in messages and flag words, and nobody new waits. -/
structure Calmer (k k' : State) : Prop where
  note : ∀ u, Note.of (k'.tcb u) = Note.of (k.tcb u)
  waits : ∀ u, (k'.tcb u).waitingOn = none ∨ (k'.tcb u).waitingOn = (k.tcb u).waitingOn

section
variable {k k' k'' : State} {t : L4id} {q : Wqh} {i : Bool}

theorem Calmer.refl : Calmer k k := ⟨fun _ => rfl, fun _ => .inr rfl⟩

theorem Calmer.trans (first : Calmer k k') (second : Calmer k' k'') : Calmer k k'' where
  note u := (second.note u).trans (first.note u)
  waits u := by
    rcases second.waits u with gone | same
    · exact .inl gone
    · rw [same]; exact first.waits u

/-- A change of one thread's scheduling state. -/
theorem Calmer.modify (f : Ktcb → Ktcb) (note : Note.of (f (k.tcb t)) = Note.of (k.tcb t))
    (waits : (f (k.tcb t)).waitingOn = (k.tcb t).waitingOn) (same : k'.tcb = (k.modify t f).tcb) : Calmer k k' where
  note u := by
    rw [same]
    by_cases self : u = t
    · subst self; simpa using note
    · simp [self]
  waits u := by
    rw [same]
    by_cases self : u = t
    · subst self; exact .inr (by simpa using waits)
    · simp [self]

theorem calmer_take (resumed : schedResumeAsync t (wqhTake q t i k) = .ok k') : Calmer k k' := by
  obtain ⟨_, others, self⟩ := take_state resumed
  refine ⟨fun u => ?_, fun u => ?_⟩
  · by_cases same : u = t
    · subst same; rw [self]; rfl
    · rw [others u same]
  · by_cases same : u = t
    · subst same; rw [self]; exact .inl rfl
    · rw [others u same]; exact .inr rfl

theorem calmer_wakeUpAllLoop (fuel : Nat) (ok : wakeUpAllLoop q i fuel k = .ok k') : Calmer k k' := by
  induction fuel generalizing k with
  | zero => cases ok; exact .refl
  | succ fuel rest =>
    unfold wakeUpAllLoop at ok
    split at ok
    · split at ok
      · exact nomatch ok
      · obtain ⟨k1, resumed, ok⟩ := bind_eq_ok.mp ok
        exact (calmer_take resumed).trans (rest ok)
    · cases ok; exact .refl

theorem calmer_wakeUpAll (ok : wakeUpAll q i k = .ok k') : Calmer k k' := by
  unfold wakeUpAll at ok
  split at ok
  · exact nomatch ok
  · exact calmer_wakeUpAllLoop _ ok

theorem calmer_wakeUpTask {flags : WakeupFlags} {exit : Exit} (ok : wakeUpTask t flags k = .ok (k', exit)) :
    Calmer k k' := by
  rcases wakeUpTask_ok ok with ⟨_, rfl⟩ | ⟨q, _, resumed⟩
  · exact .refl
  · exact calmer_take resumed

theorem calmer_wakeUp {flags : WakeupFlags} {exit : Exit} (ok : wakeUp q flags k = .ok (k', exit)) : Calmer k k' := by
  unfold wakeUp at ok
  split at ok
  · exact nomatch ok
  · split at ok
    · split at ok
      · exact nomatch ok
      · obtain ⟨k1, resumed, ok⟩ := bind_eq_ok.mp ok
        cases ok
        exact calmer_take (schedResumeAsync_of_schedResume resumed)
    · cases ok; exact .refl

theorem calmer_schedSuspend (ok : schedSuspend k = .ok k') : Calmer k k' := by
  unfold schedSuspend at ok
  obtain ⟨σ, _, ok⟩ := bind_eq_ok.mp ok
  have left : Calmer k { k.modify k.current (fun c =>
      { c with state := .inactive, flags := { c.flags with suspending := false } }) with sched := σ } :=
    .modify (fun c => { c with state := .inactive, flags := { c.flags with suspending := false } }) rfl rfl rfl
  simp only at ok
  split at ok
  · cases ok; exact left
  · obtain ⟨⟨k1, exit⟩, woken, ok⟩ := bind_eq_ok.mp ok
    cases ok
    exact left.trans (calmer_wakeUp woken)

theorem calmer_threadRecycle (ok : threadRecycle t k = .ok k') : Calmer k k' := by
  unfold threadRecycle at ok
  obtain ⟨k1, first, ok⟩ := bind_eq_ok.mp ok
  obtain ⟨k2, second, ok⟩ := bind_eq_ok.mp ok
  rw [archClearThread_ok ok]
  refine ((calmer_wakeUpAll first).trans (calmer_wakeUpAll second)).trans ?_
  exact .modify (fun c => { c with
    state := .inactive, priority := 4, ticksLeft := 0, tsNeedResched := false
    flags := { c.flags with resuming := true } }) rfl rfl rfl

theorem calmer_threadRemove (ok : threadRemove t k = .ok k') : Calmer k k' := by
  unfold threadRemove at ok
  obtain ⟨k1, first, ok⟩ := bind_eq_ok.mp ok
  have hidden : Calmer k { k with present := Function.update k.present t false } := ⟨fun _ => rfl, fun _ => .inr rfl⟩
  exact hidden.trans ((calmer_wakeUpAll first).trans (calmer_wakeUpAll ok))

end

/-! ## The invariant -/

/-- What carefulness keeps of a thread at its place: in a call its flags name a known type, and while a
rendezvous is still to come they carry no error. -/
structure Ready (c : Ktcb) (p : Pc) : Prop where
  known : p ≠ .user → KnownType c.ipcFlags
  clean : c.waitingOn ≠ none ∨ p.isTurn = true → errCode c.ipcFlags = 0

variable {c : Ktcb} {p : Pairing L4id L4id Note} {s s' : Sys} {t dest source : L4id} {reply : Bool} {access : Access}
  {k1 k' k : State} {ret : Int}

theorem Ready.idle (free : c.waitingOn = none) : Ready c .user :=
  ⟨fun away => absurd rfl away, fun due => due.elim (absurd free) nofun⟩

theorem Ready.calm {c' : Ktcb} {p p' : Pc} (ready : Ready c p) (note : Note.of c' = Note.of c)
    (waits : c'.waitingOn = none ∨ c'.waitingOn = c.waitingOn) (place : p' = p ∨ p' = .user) : Ready c' p' := by
  have flags : c'.ipcFlags = c.ipcFlags := congrArg Note.ipcFlags note
  rcases place with rfl | rfl
  · refine ⟨flags ▸ ready.known, fun due => ?_⟩
    rw [flags]
    rcases due with waiting | turn
    · rcases waits with gone | same
      · exact absurd gone waiting
      · exact ready.clean (.inl (same ▸ waiting))
    · exact ready.clean (.inr turn)
  · refine ⟨fun away => absurd rfl away, fun due => ?_⟩
    rw [flags]
    rcases due with waiting | turn
    · rcases waits with gone | same
      · exact absurd gone waiting
      · exact ready.clean (.inl (same ▸ waiting))
    · exact nomatch turn

/-- A pairing whose status reached the party that slept, and whose message arrived if it says so. -/
structure Settled (p : Pairing L4id L4id Note) : Prop where
  status : errCode (p.noteOf p.waiter).ipcFlags = p.code
  code : p.code ≤ 0
  filled : p.code = 0 → ∀ i, i ≠ mrSender ∨ p.asked ≠ l4Anythread → p.recvNote.mr i = p.sendNote.mr i

structure Tidy (s : Sys) : Prop where
  ready : ∀ t, Ready (s.k.tcb t) (s.pc t)
  settled : ∀ p ∈ s.pairs, Settled p
  kept : s.dismissed = []
  refused : ∀ x ∈ s.refusals, x.2 < 0

theorem Tidy.calm (tidy : Tidy s) (calmer : Calmer s.k s'.k)
    (places : ∀ t, s'.pc t = s.pc t ∨ s'.pc t = .user) (pairs : s'.pairs = s.pairs) (kept : s'.dismissed = s.dismissed)
    (refusals : s'.refusals = s.refusals) : Tidy s' where
  ready t := (tidy.ready t).calm (calmer.note t) (calmer.waits t) (places t)
  settled := pairs ▸ tidy.settled
  kept := kept.trans tidy.kept
  refused := refusals ▸ tidy.refused

/-- A call that ended before any rendezvous, with a code that says so. -/
theorem Tidy.refuse {code : Int} (tidy : Tidy s) (free : (s.k.tcb t).waitingOn = none)
    (negative : code < 0) : Tidy { s with
      pc := Function.update s.pc t .user
      refusals := s.refusals ++ [(t, code)] } where
  ready u := by
    by_cases self : u = t
    · subst self; simpa using Ready.idle free
    · simpa [self] using tidy.ready u
  settled := tidy.settled
  kept := tidy.kept
  refused x mem := by
    rcases List.mem_append.mp mem with old | new
    · exact tidy.refused x old
    · rw [List.mem_singleton.mp new]; exact negative

/-- A thread that goes to sleep with a good flag word. -/
theorem Tidy.sleep (tidy : Tidy s) (known : KnownType (s.k.tcb t).ipcFlags)
    (clean : errCode (s.k.tcb t).ipcFlags = 0) (flags : (s'.k.tcb t).ipcFlags = (s.k.tcb t).ipcFlags)
    (others : ∀ u, u ≠ t → s'.k.tcb u = s.k.tcb u ∧ s'.pc u = s.pc u)
    (pairs : s'.pairs = s.pairs) (kept : s'.dismissed = s.dismissed) (refusals : s'.refusals = s.refusals) : Tidy s' where
  ready u := by
    by_cases self : u = t
    · subst self
      exact ⟨fun _ => flags ▸ known, fun _ => flags ▸ clean⟩
    · rw [(others u self).1, (others u self).2]
      exact tidy.ready u
  settled := pairs ▸ tidy.settled
  kept := kept.trans tidy.kept
  refused := refusals ▸ tidy.refused

/-- A meeting of thread `t`, whose flag word is good, with the sleeper `w`. -/
theorem Tidy.meets {w : L4id} (tidy : Tidy s)
    (known : KnownType (s.k.tcb t).ipcFlags) (clean : errCode (s.k.tcb t).ipcFlags = 0)
    (caller : (s'.k.tcb t).ipcFlags = (s.k.tcb t).ipcFlags) (asleep : (s.pc w).call ≠ none)
    (woken : (s'.k.tcb w).ipcFlags = signalled p.code (s.k.tcb w).ipcFlags ∧ (s'.k.tcb w).waitingOn = none)
    (others : ∀ u, u ≠ w → u ≠ t → s'.k.tcb u = s.k.tcb u) (places : ∀ u, u ≠ t → s'.pc u = s.pc u)
    (apart : w ≠ t) (settled : Settled p) (pairs : s'.pairs = s.pairs ++ [p]) (kept : s'.dismissed = s.dismissed)
    (refusals : s'.refusals = s.refusals) : Tidy s' where
  ready u := by
    by_cases self : u = t
    · subst self
      exact ⟨fun _ => caller ▸ known, fun _ => caller ▸ clean⟩
    · rw [places u self]
      by_cases sleeper : u = w
      · subst sleeper
        refine ⟨fun away => ?_, fun due => ?_⟩
        · rw [woken.1, knownType_signalled]; exact (tidy.ready u).known away
        · rcases due with waits | turn
          · exact absurd woken.2 waits
          · obtain ⟨peer, place⟩ := Pc.isTurn_iff.mp turn
            exact absurd (by rw [place]; rfl) asleep
      · rw [others u sleeper self]; exact tidy.ready u
  settled q mem := by
    rw [pairs] at mem
    rcases List.mem_append.mp mem with old | new
    · exact tidy.settled q old
    · rw [List.mem_singleton.mp new]; exact settled
  kept := kept.trans tidy.kept
  refused := refusals ▸ tidy.refused

/-! ## The steps that carry messages -/

/-- The pairing that a sender writes with the receiver it found asleep is settled. -/
theorem Tidy.sendMeet
    (tidy : Tidy s) (sound : Sound s) (out : s.meet.pc t = none) (known : KnownType (s.k.tcb t).ipcFlags)
    (clean : errCode (s.k.tcb t).ipcFlags = 0) (ready : recvReady dest t s.k)
    (exchanged : ipcExchange access dest t dest (wqhTake (.recv dest) dest false s.k) = .ok (k1, ret))
    (resumed : schedResumeAsync dest k1 = .ok k') : Tidy (s.sendMeet k' t dest reply ret) := by
  obtain ⟨_, others, _⟩ := sendMeet_state exchanged resumed
  obtain ⟨waiting, _⟩ := sound.placed.recvReady_iff.mp ready
  have asks := sound.placed.asks waiting
  have apart : dest ≠ t := by
    rintro rfl
    exact nomatch out.symm.trans asks
  have older : s.callId dest < s.started.length := sound.inv.id_lt asks
  have away : s.pc dest ≠ .user := by
    intro user
    simp [Sys.meet, user, Pc.call] at asks
  obtain ⟨c', copied, _, codes, rfl⟩ := ipcExchange_ok exchanged
  obtain ⟨σ, _, rfl⟩ := schedResumeAsync_ok.mp resumed
  have only := copied.only
  rw [wqhTake_tcb_self, CopyOnly] at only
  have word : c'.ipcFlags = (s.k.tcb dest).ipcFlags := by rw [only]
  have home : c'.waitingOn = none := by rw [only]
  have asleep : errCode (s.k.tcb dest).ipcFlags = 0 := (tidy.ready dest).clean (.inl (by simp [ready.2.1]))
  refine tidy.meets (t := t) (w := dest) known clean (by simp [Sys.sendMeet, apart.symm, wqhTake_tcb_of_ne apart.symm])
    (by rw [show (s.pc dest).call = _ from asks]; simp) ⟨by simp [Sys.sendMeet, word], by simp [Sys.sendMeet, home]⟩
    (fun u other _ => others u other) (fun u other => by simp [Sys.sendMeet, other]) apart ?_ rfl rfl rfl
  have waiter : min s.started.length (s.callId dest) = s.callId dest := Nat.min_eq_right (Nat.le_of_lt older)
  have first : s.started.length ≠ s.callId dest := (Nat.ne_of_lt older).symm
  refine ⟨?_, copied.code, fun zero i other => ?_⟩
  · simp only [Pairing.waiter, Pairing.noteOf, waiter, if_neg first]
    simpa [Note.of, word] using errCode_signalled asleep codes
  · have filled := copied.filled zero (by rw [wqhTake_tcb_self]; exact (tidy.ready dest).known away)
      (by rw [wqhTake_tcb_of_ne apart.symm]; exact known) i (by rw [wqhTake_tcb_self]; exact other)
    rw [wqhTake_tcb_of_ne apart.symm] at filled
    simpa [Note.of, apart.symm, wqhTake_tcb_of_ne apart.symm] using filled

/-- The pairing that a receiver writes with the sender it took from its queue is settled. -/
theorem Tidy.recvMeet {u : L4id}
    (tidy : Tidy s) (sound : Sound s) (current : s.k.current = t) (out : s.meet.pc t = none)
    (known : KnownType (s.k.tcb t).ipcFlags) (clean : errCode (s.k.tcb t).ipcFlags = 0)
    (found : recvFound source s.k = some u)
    (exchanged : ipcExchange access t u u (wqhTake (.send t) u false (expecting source s.k)) = .ok (k1, ret))
    (resumed : schedResumeAsync u k1 = .ok k') : Tidy (s.recvMeet k' t u source ret) := by
  obtain ⟨_, older, younger, queue, _⟩ := recvFound_some found
  rw [current] at queue
  have mem : u ∈ (s.k.wqh (.send t)).taskList := by simp [queue]
  have sends := sound.number mem
  have apart := sound.found_ne current out found
  obtain ⟨_, others, _⟩ := recvMeet_state current apart exchanged resumed
  have older : s.callId u < s.started.length := sound.inv.id_lt sends
  have away : s.pc u ≠ .user := by
    intro user
    simp [Sys.meet, user, Pc.call] at sends
  have home : (s.k.tcb u).waitingOn = some (.send t) := (sound.placed.waits.mem_iff (.send t) u).mp mem
  obtain ⟨c', copied, _, codes, rfl⟩ := ipcExchange_ok exchanged
  obtain ⟨σ, _, rfl⟩ := schedResumeAsync_ok.mp resumed
  have only := copied.only
  rw [wqhTake_tcb_of_ne apart.symm, CopyOnly] at only
  have word : c'.ipcFlags = (s.k.tcb t).ipcFlags := by rw [only]; simp [expecting, current]
  have taken : (wqhTake (.send t) u false (expecting source s.k)).tcb u =
      { s.k.tcb u with waitingOn := none, wq := none } := by
    rw [wqhTake_tcb_self]; simp [expecting, current, apart]
  have asleep : errCode (s.k.tcb u).ipcFlags = 0 := (tidy.ready u).clean (.inl (by simp [home]))
  refine tidy.meets (t := t) (w := u) known clean (by simp [Sys.recvMeet, apart.symm, word])
    (by rw [show (s.pc u).call = _ from sends]; simp)
    ⟨by simp [Sys.recvMeet, apart, taken], by simp [Sys.recvMeet, apart, taken]⟩
    (fun v other caller => others v other caller) (fun v other => by simp [Sys.recvMeet, other]) apart ?_ rfl rfl rfl
  have waiter : min (s.callId u) s.started.length = s.callId u := Nat.min_eq_left (Nat.le_of_lt older)
  refine ⟨?_, copied.code, fun zero i other => ?_⟩
  · simp only [Pairing.waiter, Pairing.noteOf, waiter, if_true]
    simpa [Note.of, apart, taken] using errCode_signalled asleep codes
  · have filled := copied.filled zero (by rw [wqhTake_tcb_of_ne apart.symm]; simpa [expecting, current] using known)
      (by rw [taken]; exact (tidy.ready u).known away) i
      (by rw [wqhTake_tcb_of_ne apart.symm]; simpa [expecting, current] using other)
    rw [taken] at filled
    simpa [Note.of, apart, apart.symm, taken] using filled

theorem Tidy.send (tidy : Tidy s) (sound : Sound s)
    (current : s.k.current = t) (out : s.meet.pc t = none) (known : KnownType (s.k.tcb t).ipcFlags)
    (clean : errCode (s.k.tcb t).ipcFlags = 0) (ok : s.send t dest reply access = .ok s') : Tidy s' := by
  unfold Sys.send at ok
  obtain ⟨⟨k', exit⟩, sent, ok⟩ := bind_eq_ok.mp ok
  rcases ipcSend_ok sent with ⟨absent, rfl, rfl⟩ | ⟨present, ready, k1, ret, exchanged, resumed, rfl⟩ |
    ⟨_, _, prepared, rfl⟩
  · simp only [absent, Bool.false_eq_true, false_and, if_false] at ok
    cases ok
    exact tidy.refuse (sound.free out) (by decide)
  · rw [current] at ready exchanged
    simp only [present, ready, and_self, if_true] at ok
    cases ok
    exact tidy.sendMeet sound out known clean ready exchanged resumed
  · obtain ⟨σ, _, rfl⟩ := waitOnPrepare_ok.mp prepared
    cases ok
    rw [current]
    change Tidy (s.sendSleep (slept t (.send dest) s.k σ) t dest reply)
    exact tidy.sleep known clean (by simp [Sys.sendSleep, slept_tcb_self])
      (fun u other => by simp [Sys.sendSleep, slept_tcb_of_ne other, other]) rfl rfl rfl

theorem Tidy.recv (tidy : Tidy s) (sound : Sound s)
    (current : s.k.current = t) (out : s.meet.pc t = none) (known : KnownType (s.k.tcb t).ipcFlags)
    (clean : errCode (s.k.tcb t).ipcFlags = 0) (ok : s.recv t source access = .ok s') : Tidy s' := by
  unfold Sys.recv at ok
  obtain ⟨⟨k', exit⟩, received, ok⟩ := bind_eq_ok.mp ok
  rcases ipcRecv_ok received with ⟨u, found, k1, ret, exchanged, resumed, rfl⟩ | ⟨_, prepared, rfl⟩
  · rw [current] at exchanged
    simp only [found] at ok
    cases ok
    exact tidy.recvMeet sound current out known clean found exchanged resumed
  · obtain ⟨σ, _, rfl⟩ := waitOnPrepare_ok.mp prepared
    cases ok
    have same : (expecting source s.k).current = t := current
    rw [same, current]
    change Tidy (s.recvSleep (slept t (.recv t) (expecting source s.k) σ) t source)
    exact tidy.sleep known clean (by simp [Sys.recvSleep, slept_tcb_self, expecting, current])
      (fun u other => by simp [Sys.recvSleep, slept_tcb_of_ne other, other, expecting, current]) rfl rfl rfl

/-- A woken thread that goes on to the second half of its call has a clean flag word. -/
theorem Tidy.finish (tidy : Tidy s) (free : (s.k.tcb t).waitingOn = none) : Tidy (s.finish t) where
  ready u := by
    obtain ⟨w, f, state, _, code⟩ := ipcHandleErrors_eq t s.k
    by_cases self : u = t
    · subst self
      by_cases quiet : (ipcHandleErrors u s.k).2 = 0
      · have same : (ipcHandleErrors u s.k).1 = s.k ∧ errCode (s.k.tcb u).ipcFlags = 0 :=
          ipcHandleErrors_zero quiet
        refine ⟨fun away => ?_, fun _ => ?_⟩
        · simp only [Sys.finish, same.1]
          refine (tidy.ready u).known fun user => away ?_
          simp [Sys.finish, user, Pc.after]
        · simpa only [Sys.finish, same.1] using same.2
      · have loud : (ipcHandleErrors u s.k).2 < 0 := by
          rw [code] at quiet ⊢
          unfold errCode at quiet ⊢
          split_ifs at quiet ⊢ <;> first | decide | exact absurd rfl quiet
        have user : (s.finish u).pc u = .user := by
          cases place : s.pc u <;> simp [Sys.finish, place, Pc.after, afterSend, Int.not_le.mpr loud]
        rw [user]
        exact .idle (by simp [Sys.finish, state, free])
    · have same : (s.finish t).k.tcb u = s.k.tcb u ∧ (s.finish t).pc u = s.pc u := by
        simp [Sys.finish, state, self]
      rw [same.1, same.2]
      exact tidy.ready u
  settled := tidy.settled
  kept := tidy.kept
  refused := tidy.refused

/-- Entering a call stores a flag word, which is the caller's own until it waits. -/
theorem Tidy.begin (args : IpcArgs) (tidy : Tidy s) (free : (s.k.tcb t).waitingOn = none)
    (user : s.pc t = .user) : Tidy (s.begin t args) where
  ready u := by
    obtain ⟨w, n, f, state, _⟩ := sysIpc_state args (s.enter t).k
    have same : (s.begin t args).k = (s.enter t).k.modify t fun c =>
      { c with mr := args.mr, ipcFlags := w, extendedIpcSize := n, extendedIpcBuffer := f } := state
    have place : (s.begin t args).pc = s.pc := rfl
    rw [place]
    by_cases self : u = t
    · subst self
      rw [user]
      exact .idle (by simp [same, Sys.enter, free])
    · rw [same, State.modify_tcb_of_ne _ _ _ _ self]
      exact tidy.ready u
  settled := tidy.settled
  kept := tidy.kept
  refused := tidy.refused

/-- A call that goes on to a rendezvous has stored the flag word of its arguments. -/
theorem begin_flags {args : IpcArgs}
    (engaged : ∀ code, (sysIpc args (s.enter t).k).2 ≠ .refuse code) :
    ((s.begin t args).k.tcb t).ipcFlags = args.flags := by
  obtain ⟨w, n, f, state, stored⟩ := sysIpc_state args (s.enter t).k
  have same : (s.begin t args).k = (s.enter t).k.modify t fun c =>
    { c with mr := args.mr, ipcFlags := w, extendedIpcSize := n, extendedIpcBuffer := f } := state
  rw [same, State.modify_tcb_self]
  exact stored engaged

theorem Tidy.step {e : Event} (tidy : Tidy s) (sound : Sound s) (able : enabled s e)
    (careful : Careful s e) (ok : IpcRuns.step s e = .ok s') : Tidy s' := by
  cases e with
  | call t args =>
    obtain ⟨_, running, user⟩ := able
    obtain ⟨clean, known⟩ := careful
    obtain ⟨begun, out, current⟩ := sound.begin args user
    have sound' := begun.sound sound
    have tidy' := tidy.begin args (sound.placed.awake (by simp [running])) user
    simp only [IpcRuns.step] at ok
    split at ok
    · next code refused =>
      cases ok
      have relabelled := tidy'.refuse (sound'.free out) (sysIpc_refuse refused)
      have still : Function.update (s.begin t args).pc t Pc.user = (s.begin t args).pc := by
        rw [← user]; exact Function.update_eq_self t _
      rwa [still] at relabelled
    · next sends =>
      have flags : ((s.begin t args).k.tcb t).ipcFlags = args.flags := begin_flags (by simp [sends])
      exact tidy'.send sound' current out (flags ▸ known) (flags ▸ clean) ok
    · next receives =>
      have flags : ((s.begin t args).k.tcb t).ipcFlags = args.flags := begin_flags (by simp [receives])
      exact tidy'.recv sound' current out (flags ▸ known) (flags ▸ clean) ok
  | turn t access =>
    obtain ⟨peer, place⟩ := Pc.isTurn_iff.mp able.2
    have entered := (sound.enter t).sound sound
    have tidy' : Tidy (s.enter t) := ⟨tidy.ready, tidy.settled, tidy.kept, tidy.refused⟩
    simp only [IpcRuns.step] at ok
    simp only [place] at ok
    exact tidy'.recv entered rfl (by simp [Sys.meet, Sys.enter, place, Pc.call])
      ((tidy.ready t).known (by simp [place])) ((tidy.ready t).clean (.inr able.2)) ok
  | finish t =>
    have tidy' : Tidy (s.enter t) := ⟨tidy.ready, tidy.settled, tidy.kept, tidy.refused⟩
    cases ok
    exact tidy'.finish (sound.placed.awake (by simp [able.1]))
  | interrupt t =>
    obtain ⟨⟨k, exit⟩, woken, ok⟩ := bind_eq_ok.mp ok
    cases ok
    exact tidy.calm (calmer_wakeUpTask woken) (fun _ => .inl rfl) rfl rfl rfl
  | signal caller t =>
    obtain ⟨⟨k, exit⟩, signalled, ok⟩ := bind_eq_ok.mp ok
    cases ok
    unfold threadSignal at signalled
    have calmer : Calmer s.k k := by
      split at signalled
      · cases signalled; exact ⟨fun _ => rfl, fun _ => .inr rfl⟩
      · have flagged : Calmer s.k ({ s.k with current := caller }.modify t fun c =>
            { c with flags := { c.flags with suspending := true } }) :=
          .modify (fun c => { c with flags := { c.flags with suspending := true } }) rfl rfl rfl
        exact flagged.trans (calmer_wakeUpTask signalled)
    exact tidy.calm calmer (fun _ => .inl rfl) rfl rfl rfl
  | suspend t =>
    obtain ⟨k, suspended, ok⟩ := bind_eq_ok.mp ok
    cases ok
    unfold schedSuspendAsync at suspended
    obtain ⟨k1, left, suspended⟩ := bind_eq_ok.mp suspended
    cases suspended
    have entered : Calmer s.k { s.k with current := t } := ⟨fun _ => rfl, fun _ => .inr rfl⟩
    have marked : Calmer k1 (k1.modify k1.current fun c => { c with tsNeedResched := true }) := .modify _ rfl rfl rfl
    exact tidy.calm (entered.trans ((calmer_schedSuspend left).trans marked)) (fun _ => .inl rfl) rfl rfl rfl
  | resume t =>
    obtain ⟨k, resumed, ok⟩ := bind_eq_ok.mp ok
    cases ok
    obtain ⟨σ, _, rfl⟩ := schedResumeAsync_ok.mp resumed
    exact tidy.calm (.modify (fun c => { c with state := .runnable }) rfl rfl rfl) (fun _ => .inl rfl) rfl rfl rfl
  | recycle t =>
    obtain ⟨_, alone⟩ := careful
    obtain ⟨k, recycled, ok⟩ := bind_eq_ok.mp ok
    cases ok
    refine tidy.calm (calmer_threadRecycle recycled) (fun u => ?_) rfl (by simp [alone]) rfl
    by_cases self : u = t
    · subst self; exact .inr (by simp)
    · exact .inl (by simp [self])
  | remove t =>
    obtain ⟨k, removed, ok⟩ := bind_eq_ok.mp ok
    cases ok
    exact tidy.calm (calmer_threadRemove removed) (fun _ => .inl rfl) rfl rfl rfl
  | destroySelf t =>
    obtain ⟨k, destroyed, ok⟩ := bind_eq_ok.mp ok
    cases ok
    unfold threadDestroySelf at destroyed
    obtain ⟨k1, removed, destroyed⟩ := bind_eq_ok.mp destroyed
    have entered : Calmer s.k { s.k with current := t } := ⟨fun _ => rfl, fun _ => .inr rfl⟩
    have exited : Calmer k1 (k1.modify k1.current fun c => { c with flags := { c.flags with exited := true } }) :=
      .modify _ rfl rfl rfl
    exact tidy.calm (entered.trans ((calmer_threadRemove removed).trans (exited.trans (calmer_schedSuspend destroyed))))
      (fun _ => .inl rfl) rfl rfl rfl
  | create t =>
    cases ok
    refine ⟨fun u => ?_, tidy.settled, tidy.kept, tidy.refused⟩
    by_cases self : u = t
    · subst self; simpa using Ready.idle rfl
    · simpa [self] using tidy.ready u

theorem Boot.tidy (boot : Boot k) : Tidy (start k) where
  ready t := .idle (boot.awake t)
  settled _ mem := nomatch mem
  kept := rfl
  refused _ mem := nomatch mem

/-- Every return of a call that was paired carries the code of the pairing. -/
theorem Tidy.code {ρ : Return Note} (tidy : Tidy s) (sound : Sound s)
    (logged : Logged s) (paired : p ∈ s.pairs) (mem : ρ ∈ s.returns) (involved : p.Involves ρ.id) :
    ρ.code = p.code := by
  have settles := sound.inv.return_note ρ mem p paired involved
  cases fate : ρ.fate with
  | met => exact settles.code fate
  | interrupted => exact absurd fate settles.calm
  | woken => rw [(logged.coded ρ mem).2 fate, settles.note, settles.woken fate, (tidy.settled p paired).status]

end Codezero.Kernel.IpcRuns
