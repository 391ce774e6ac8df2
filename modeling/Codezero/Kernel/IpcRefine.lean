import Codezero.Kernel.IpcRuns

/-!
# IPC refines the rendezvous protocol

Every step of a run of the kernel's IPC is a sequence of moves of the abstract protocol. `Placed` is the
consistency of wait queues and thread states that each step relies on and keeps.
-/

namespace Codezero.Kernel.IpcRuns
open Codezero.Lib Codezero.Lib.Rendezvous
open Function (eq_update_iff update update_apply update_eq_self update_of_ne update_self)

structure Placed (s : Sys) : Prop where
  waits : s.k.waits.Wf
  asleep : ∀ t q, (s.k.tcb t).waitingOn = some q → (s.k.tcb t).state = .sleeping
  kind : ∀ t q, (s.k.tcb t).waitingOn = some q → q = .recv t ∨ ∃ r, q = .send r
  expects : ∀ t, (s.k.tcb t).waitingOn = some (.recv t) → ∃ id, s.pc t = .receiving id (s.k.tcb t).expectedSender

/-- The queues are consistent and the protocol's invariant holds. -/
structure Sound (s : Sys) : Prop where
  placed : Placed s
  inv : Inv accepts s.meet

abbrev Moves : Meet L4id L4id Note → Meet L4id L4id Note → Prop := Relation.ReflTransGen (Move accepts)

/-- `s'` follows from `s` by moves of the protocol, with the queues still consistent. -/
structure Advances (s s' : Sys) : Prop where
  placed : Placed s'
  moves : Moves s.meet s'.meet

variable {s s' : Sys} {t dest source u r : L4id} {k' k k1 : State} {q : Wqh} {access : Access} {ret : Int} {reply i : Bool}

theorem Inv.moves {m m' : Meet L4id L4id Note} (inv : Inv accepts m) (moves : Moves m m') : Inv accepts m' := by
  induction moves with
  | refl => exact inv
  | tail _ moved before => exact before.move moved

theorem Advances.sound (sound : Sound s) (advances : Advances s s') : Sound s' :=
  ⟨advances.placed, Inv.moves sound.inv advances.moves⟩

theorem Advances.trans {s'' : Sys} (first : Advances s s') (second : Advances s' s'') : Advances s s'' :=
  ⟨second.placed, first.moves.trans second.moves⟩

theorem Placed.queued_iff (placed : Placed s) (t : L4id) :
    s.meet.Queued t ↔ (s.k.tcb t).waitingOn ≠ none := by
  constructor
  · rintro (waits | ⟨r, mem⟩)
    · simp only [Sys.meet, decide_eq_true_eq] at waits
      simp [waits]
    · have home := placed.waits.home_of_mem (i := .send r) mem
      exact fun none => nomatch home.symm.trans none
  · intro waits
    obtain ⟨q, home⟩ := Option.ne_none_iff_exists'.mp waits
    rcases placed.kind t q home with rfl | ⟨r, rfl⟩
    · exact .inl (by simpa [Sys.meet] using home)
    · exact .inr ⟨r, (placed.waits.mem_iff (.send r) t).mpr home⟩

theorem Placed.awake (placed : Placed s) (state : (s.k.tcb t).state ≠ .sleeping) :
    (s.k.tcb t).waitingOn = none := by
  by_contra waits
  obtain ⟨q, home⟩ := Option.ne_none_iff_exists'.mp waits
  exact state (placed.asleep t q home)

/-- A change that no part of the protocol sees, and that puts no waiting thread out of its sleep. -/
theorem Sound.unseen (sound : Sound s) (wqh : k'.wqh = s.k.wqh)
    (waitingOn : ∀ t, (k'.tcb t).waitingOn = (s.k.tcb t).waitingOn)
    (asleep : ∀ t, (s.k.tcb t).waitingOn ≠ none → (k'.tcb t).state = (s.k.tcb t).state ∧
      (k'.tcb t).expectedSender = (s.k.tcb t).expectedSender)
    (interrupted : ∀ t, (k'.tcb t).flags.interrupted = (s.k.tcb t).flags.interrupted)
    (note : ∀ t, Note.of (k'.tcb t) = Note.of (s.k.tcb t)) :
    Advances s { s with k := k' } := by
  have same : Sys.meet { s with k := k' } = s.meet := by
    refine Meet.ext ?_ ?_ rfl ?_ ?_ rfl rfl rfl rfl
    · funext r; simp [Sys.meet, wqh]
    · funext r; simp [Sys.meet, waitingOn]
    · funext t; simp [Sys.meet, interrupted]
    · funext t; simp [Sys.meet, Sys.note, note]
  have waits : k'.waits = s.k.waits := waits_congr wqh waitingOn
  refine ⟨⟨waits ▸ sound.placed.waits, fun t q home => ?_, fun t q home => ?_, fun t home => ?_⟩, same ▸ .refl⟩
  · rw [waitingOn] at home
    rw [(asleep t (by simp [home])).1]
    exact sound.placed.asleep t q home
  · exact sound.placed.kind t q (waitingOn t ▸ home)
  · rw [waitingOn] at home
    rw [(asleep t (by simp [home])).2]
    exact sound.placed.expects t home

/-- A thread outside any call changes its own registers and flags. -/
theorem Sound.touch {c : Ktcb} (sound : Sound s) (out : s.meet.pc t = none)
    (waitingOn : c.waitingOn = (s.k.tcb t).waitingOn)
    (interrupted : c.flags.interrupted = (s.k.tcb t).flags.interrupted) :
    Advances s { s with k := s.k.modify t fun _ => c } := by
  have free : (s.k.tcb t).waitingOn = none := by
    by_contra waits
    exact sound.inv.not_queued_of_out out ((sound.placed.queued_iff t).mpr waits)
  have home : ∀ u, ((s.k.modify t fun _ => c).tcb u).waitingOn = (s.k.tcb u).waitingOn := by
    intro u
    by_cases same : u = t
    · subst same; simpa using waitingOn
    · simp [same]
  have others : ∀ u q, (s.k.tcb u).waitingOn = some q → (s.k.modify t fun _ => c).tcb u = s.k.tcb u := by
    intro u q waits
    have apart : u ≠ t := by
      rintro rfl
      exact nomatch free.symm.trans waits
    simp [apart]
  have moved : Sys.meet { s with k := s.k.modify t fun _ => c } = s.meet.touch t (.of c) := by
    refine Meet.ext rfl ?_ rfl ?_ ?_ rfl rfl rfl rfl
    · funext u; simp [Sys.meet, Meet.touch, home]
    · funext u
      by_cases same : u = t
      · subst same; simpa [Sys.meet, Meet.touch] using interrupted
      · simp [Sys.meet, Meet.touch, same]
    · funext u
      by_cases same : u = t
      · subst same; simp [Sys.meet, Sys.note, Meet.touch]
      · simp [Sys.meet, Sys.note, Meet.touch, same]
  have waits : (s.k.modify t fun _ => c).waits = s.k.waits := waits_congr rfl home
  refine ⟨⟨waits ▸ sound.placed.waits, fun u q waits => ?_, fun u q waits => ?_, fun u waits => ?_⟩, ?_⟩
  · rw [home] at waits
    simp only [others u q waits]
    exact sound.placed.asleep u q waits
  · exact sound.placed.kind u q (home u ▸ waits)
  · rw [home] at waits
    simp only [others u _ waits]
    exact sound.placed.expects u waits
  · rw [moved]; exact .single (.touch t _ out)

/-- A sleep keeps the queues consistent: the sleeper stood nowhere before. -/
theorem Placed.sleep {σ : Scheduler} {pc : L4id → Pc} (placed : Placed s)
    (same : k.waits = s.k.waits) (others : ∀ u, u ≠ t → k.tcb u = s.k.tcb u ∧ pc u = s.pc u)
    (free : (s.k.tcb t).waitingOn = none) (kind : q = .recv t ∨ ∃ r, q = .send r)
    (expects : q = .recv t → ∃ id, pc t = .receiving id (k.tcb t).expectedSender) (s' : Sys)
    (state : s'.k = slept t q k σ) (calls : s'.pc = pc) : Placed s' := by
  have tcb : ∀ u, u ≠ t → s'.k.tcb u = s.k.tcb u := fun u apart => by
    rw [state, slept_tcb_of_ne apart, (others u apart).1]
  refine ⟨?_, fun u r home => ?_, fun u r home => ?_, fun u home => ?_⟩
  · rw [state, slept_waits, same]
    exact placed.waits.insert false free
  · by_cases self : u = t
    · subst self; rw [state, slept_tcb_self]
    · rw [tcb u self] at home ⊢; exact placed.asleep u r home
  · by_cases self : u = t
    · subst self
      rw [state, slept_tcb_self] at home
      cases home
      exact kind
    · rw [tcb u self] at home; exact placed.kind u r home
  · by_cases self : u = t
    · subst self
      rw [state, slept_tcb_self] at home ⊢
      rw [calls]
      exact expects (Option.some.inj home)
    · rw [tcb u self] at home ⊢
      rw [calls, (others u self).2]
      exact placed.expects u home

/-- The receiver's test in `ipc_send` is the protocol's: it waits for someone like us. -/
theorem Placed.recvReady_iff (placed : Placed s) :
    recvReady dest t s.k ↔ s.meet.waiting dest = true ∧ accepts (s.k.tcb dest).expectedSender t := by
  simp only [recvReady, Sys.meet, accepts, decide_eq_true_eq]
  constructor
  · rintro ⟨_, home, fits⟩
    exact ⟨home, fits.imp_left Eq.symm⟩
  · rintro ⟨home, fits⟩
    exact ⟨placed.asleep dest _ home, home, fits.imp_left Eq.symm⟩

theorem Placed.asks (placed : Placed s) (waits : s.meet.waiting dest = true) :
    s.meet.pc dest = some (s.callId dest, .recv (s.k.tcb dest).expectedSender) := by
  simp only [Sys.meet, decide_eq_true_eq] at waits
  obtain ⟨id, calls⟩ := placed.expects dest waits
  simp [Sys.meet, calls, Sys.callId, Pc.id, Pc.call]

theorem Sound.free (sound : Sound s) (out : s.meet.pc t = none) :
    (s.k.tcb t).waitingOn = none := by
  by_contra waits
  exact sound.inv.not_queued_of_out out ((sound.placed.queued_iff t).mpr waits)

/-- A thread outside any call stays outside. -/
theorem Sound.relabel {p : Pc} (sound : Sound s) (out : s.meet.pc t = none) (outside : p.call = none)
    (refusals : List (L4id × Int)) : Advances s { s with pc := update s.pc t p, refusals } := by
  have calls : (fun u => (update s.pc t p u).call) = s.meet.pc := by
    funext u
    by_cases same : u = t
    · subst same; simpa [outside] using out.symm
    · simp [Sys.meet, same]
  have same : Sys.meet { s with pc := update s.pc t p, refusals } = s.meet :=
    Meet.ext rfl rfl calls rfl rfl rfl rfl rfl rfl
  refine ⟨⟨sound.placed.waits, sound.placed.asleep, sound.placed.kind, fun u home => ?_⟩, same ▸ .refl⟩
  have apart : u ≠ t := by
    rintro rfl
    exact nomatch (sound.free out).symm.trans home
  simpa [apart] using sound.placed.expects u home

theorem Sound.sendSleep (reply : Bool) (σ : Scheduler) (sound : Sound s)
    (out : s.meet.pc t = none) (alone : ¬ recvReady dest t s.k) :
    Advances s (s.sendSleep (slept t (.send dest) s.k σ) t dest reply) := by
  have free := sound.free out
  refine ⟨sound.placed.sleep rfl (fun u apart => ⟨rfl, update_of_ne apart _ _⟩) free (.inr ⟨dest, rfl⟩)
    (fun wrong => nomatch wrong) _ rfl rfl, ?_⟩
  have moved : (s.sendSleep (slept t (.send dest) s.k σ) t dest reply).meet =
      s.meet.sleepSend t dest (s.note t) := by
    refine Meet.ext ?_ ?_ ?_ ?_ ?_ rfl rfl rfl rfl
    · funext r
      by_cases same : r = dest
      · subst same; simp [Sys.meet, Sys.sendSleep, Meet.sleepSend, slept_taskList]
      · simp [Sys.meet, Sys.sendSleep, Meet.sleepSend, slept_taskList, same]
    · funext u
      by_cases same : u = t
      · subst same; simp [Sys.meet, Sys.sendSleep, Meet.sleepSend, Meet.start, slept_tcb_self, free]
      · simp [Sys.meet, Sys.sendSleep, Meet.sleepSend, Meet.start, slept_tcb_of_ne same]
    · funext u
      by_cases same : u = t
      · subst same; simp [Sys.meet, Sys.sendSleep, Meet.sleepSend, Meet.start, Pc.call]
      · simp [Sys.meet, Sys.sendSleep, Meet.sleepSend, Meet.start, same]
    · funext u
      by_cases same : u = t
      · subst same; simp [Sys.meet, Sys.sendSleep, Meet.sleepSend, Meet.start, slept_tcb_self]
      · simp [Sys.meet, Sys.sendSleep, Meet.sleepSend, Meet.start, slept_tcb_of_ne same]
    · funext u
      by_cases same : u = t
      · subst same; simp [Sys.meet, Sys.sendSleep, Meet.sleepSend, Meet.start, Sys.note, Note.of, slept_tcb_self]
      · simp [Sys.meet, Sys.sendSleep, Meet.sleepSend, Meet.start, Sys.note, slept_tcb_of_ne same, same]
  rw [moved]
  refine .single (.sleepSend t dest _ out fun id a waits calls fits => alone ?_)
  have asks := sound.placed.asks waits
  have eq := asks.symm.trans calls
  simp only [Option.some.injEq, Prod.mk.injEq, Side.recv.injEq] at eq
  exact sound.placed.recvReady_iff.mpr ⟨waits, eq.2 ▸ fits⟩

/-- A waiting sender that is accepted makes the scan find someone: it makes `sleepers` positive. -/
theorem Placed.found_of_waiting (placed : Placed s) (current : s.k.current = t)
    (waiting : ∃ u ∈ (s.k.wqh (.send t)).taskList, accepts source u) : recvFound source s.k ≠ none := by
  intro alone
  obtain ⟨u, mem, fits⟩ := waiting
  have counted := (placed.waits.count_pos_iff (i := .send t)).mpr (List.ne_nil_of_mem mem)
  have positive : (s.k.wqh (.send t)).sleepers > 0 := counted
  have scan : findSender source (s.k.wqh (.send t)).taskList = none := by
    simpa [recvFound, current, positive] using alone
  have refused := List.find?_eq_none.mp scan u mem
  simp only [accepts] at fits
  simp at refused
  tauto

theorem Sound.recvSleep (σ : Scheduler) (sound : Sound s) (current : s.k.current = t)
    (out : s.meet.pc t = none) (alone : recvFound source s.k = none) :
    Advances s (s.recvSleep (slept t (.recv t) (expecting source s.k) σ) t source) := by
  have free := sound.free out
  have waits : (expecting source s.k).waits = s.k.waits := waits_modify rfl
  have self : (expecting source s.k).tcb t = { s.k.tcb t with expectedSender := source } := by
    simp [expecting, current]
  have others : ∀ u, u ≠ t → (expecting source s.k).tcb u = s.k.tcb u := fun u apart => by
    simp [expecting, current, apart]
  refine ⟨sound.placed.sleep waits (fun u apart => ⟨others u apart, update_of_ne apart _ _⟩) free (.inl rfl)
    (fun _ => ⟨s.started.length, by simp [self, Sys.recvSleep]⟩) _ rfl rfl, ?_⟩
  have moved : (s.recvSleep (slept t (.recv t) (expecting source s.k) σ) t source).meet =
      s.meet.sleepRecv t source (s.note t) := by
    refine Meet.ext ?_ ?_ ?_ ?_ ?_ rfl rfl rfl rfl
    · funext r; simp [Sys.meet, Sys.recvSleep, Meet.sleepRecv, Meet.start, slept_taskList, expecting]
    · refine eq_update_iff.mpr ⟨?_, fun u apart => ?_⟩
      · simp [Sys.meet, Sys.recvSleep, slept_tcb_self]
      · simp [Sys.meet, Sys.recvSleep, slept_tcb_of_ne apart, others u apart]
    · refine eq_update_iff.mpr ⟨?_, fun u apart => ?_⟩
      · simp [Sys.meet, Sys.recvSleep, Pc.call]
      · simp [Sys.meet, Sys.recvSleep, apart]
    · funext u
      by_cases same : u = t
      · subst same; simp [Sys.meet, Sys.recvSleep, Meet.sleepRecv, Meet.start, slept_tcb_self, self]
      · simp [Sys.meet, Sys.recvSleep, Meet.sleepRecv, Meet.start, slept_tcb_of_ne same, others u same]
    · refine eq_update_iff.mpr ⟨?_, fun u apart => ?_⟩
      · simp [Sys.meet, Sys.recvSleep, Sys.note, Note.of, slept_tcb_self, self]
      · simp [Sys.meet, Sys.recvSleep, Sys.note, slept_tcb_of_ne apart, others u apart]
  rw [moved]
  refine .single (.sleepRecv t source _ out fun u mem fits => ?_)
  exact sound.placed.found_of_waiting current ⟨u, mem, fits⟩ alone

/-- Taking a sleeper out keeps the queues consistent if the other sleepers stay as they are. -/
theorem Placed.leave (placed : Placed s) (home : (s.k.tcb t).waitingOn = some q)
    (waits : s'.k.waits = s.k.waits.remove q t)
    (others : ∀ u, u ≠ t → (s.k.tcb u).waitingOn ≠ none → (s'.k.tcb u).state = (s.k.tcb u).state ∧
      (s'.k.tcb u).expectedSender = (s.k.tcb u).expectedSender ∧ s'.pc u = s.pc u) : Placed s' := by
  have homes : ∀ u, (s'.k.tcb u).waitingOn = if u = t then none else (s.k.tcb u).waitingOn := by
    intro u
    have at_u := congrFun (congrArg Queues.home waits) u
    simpa [State.waits, Queues.remove, update_apply] using at_u
  have still : ∀ u r, (s'.k.tcb u).waitingOn = some r → u ≠ t ∧ (s.k.tcb u).waitingOn = some r := by
    intro u r there
    rw [homes] at there
    split_ifs at there with same
    exact ⟨same, there⟩
  refine ⟨waits ▸ placed.waits.remove home, fun u r there => ?_, fun u r there => ?_, fun u there => ?_⟩
  · obtain ⟨apart, there⟩ := still u r there
    rw [(others u apart (by simp [there])).1]
    exact placed.asleep u r there
  · exact placed.kind u r (still u r there).2
  · obtain ⟨apart, there⟩ := still u _ there
    obtain ⟨_, expected, calls⟩ := others u apart (by simp [there])
    rw [expected, calls]
    exact placed.expects u there

/-- The lists of the protocol after a sleeper was taken out of queue `q`. -/
theorem meet_leave (s' : Sys) {t : L4id} {q : Wqh} (placed : Placed s) (home : (s.k.tcb t).waitingOn = some q)
    (waits : s'.k.waits = s.k.waits.remove q t) :
    s'.meet.senders = (s.meet.leave t).senders ∧ s'.meet.waiting = (s.meet.leave t).waiting := by
  constructor
  · have lists := congrArg Queues.list waits
    have erased := placed.waits.erase_everywhere home
    funext r
    exact (congrFun lists (.send r)).trans (congrFun erased (.send r)).symm
  · refine eq_update_iff.mpr ⟨?_, fun u apart => ?_⟩
    · have gone := congrFun (congrArg Queues.home waits) t
      simp only [State.waits, Queues.remove, update_self] at gone
      simp [Sys.meet, gone]
    · have same := congrFun (congrArg Queues.home waits) u
      simp only [State.waits, Queues.remove, update_of_ne apart] at same
      simp [Sys.meet, same]

/-- The state a sender leaves when it met the receiver it found waiting. -/
theorem sendMeet_state
    (exchanged : ipcExchange access dest t dest (wqhTake (.recv dest) dest false s.k) = .ok (k1, ret))
    (resumed : schedResumeAsync dest k1 = .ok k') :
    k'.waits = s.k.waits.remove (.recv dest) dest ∧ (∀ u, u ≠ dest → k'.tcb u = s.k.tcb u) ∧
      (k'.tcb dest).state = .runnable ∧
      (k'.tcb dest).flags.interrupted = (s.k.tcb dest).flags.interrupted := by
  obtain ⟨c', copied, _, _, rfl⟩ := ipcExchange_ok exchanged
  obtain ⟨σ, _, rfl⟩ := schedResumeAsync_ok.mp resumed
  have only := copied.only
  rw [wqhTake_tcb_self, CopyOnly] at only
  refine ⟨?_, fun u apart => ?_, ?_, ?_⟩
  · rw [← waits_wqhTake (i := false)]
    refine waits_congr rfl fun u => ?_
    by_cases same : u = dest
    · subst same
      simp only [State.modify_tcb_self, wqhTake_tcb_self]
      rw [only]
    · simp [same]
  · simp [apart, wqhTake_tcb_of_ne apart]
  · simp
  · simp only [State.modify_tcb_self]
    rw [only]
    simp

theorem Sound.sendMeet
    (sound : Sound s) (out : s.meet.pc t = none) (ready : recvReady dest t s.k)
    (exchanged : ipcExchange access dest t dest (wqhTake (.recv dest) dest false s.k) = .ok (k1, ret))
    (resumed : schedResumeAsync dest k1 = .ok k') : Advances s (s.sendMeet k' t dest reply ret) := by
  obtain ⟨waits, others, _, interrupted⟩ := sendMeet_state exchanged resumed
  obtain ⟨waiting, fits⟩ := sound.placed.recvReady_iff.mp ready
  have asks := sound.placed.asks waiting
  have apart : dest ≠ t := by
    rintro rfl
    exact nomatch out.symm.trans asks
  have home : (s.k.tcb dest).waitingOn = some (.recv dest) := ready.2.1
  have lists := meet_leave (s.sendMeet k' t dest reply ret) sound.placed home waits
  refine ⟨sound.placed.leave home waits fun u other sleeping => ?_, ?_⟩
  · have running : u ≠ t := by
      rintro rfl
      exact sleeping (sound.free out)
    simp [Sys.sendMeet, others u other, running]
  · have moved : (s.sendMeet k' t dest reply ret).meet = s.meet.meetSend t dest (s.callId dest)
        (s.k.tcb dest).expectedSender (.of (k'.tcb t)) (.of (k'.tcb dest)) ret := by
      refine Meet.ext (lists.1.trans (sound.inv.leave_receiver waiting)) lists.2 ?_ ?_ ?_ rfl rfl rfl rfl
      · funext u
        by_cases same : u = t
        · subst same
          have user : s.meet.pc u = none := out
          simp only [Meet.meetSend, user]
          simp [Sys.meet, Sys.sendMeet]
        · simp [Sys.meet, Sys.sendMeet, Meet.meetSend, same]
      · funext u
        by_cases same : u = dest
        · subst same; simpa [Sys.meet, Sys.sendMeet, Meet.meetSend] using interrupted
        · simp [Sys.meet, Sys.sendMeet, Meet.meetSend, others u same]
      · refine eq_update_iff.mpr ⟨rfl, fun u other => ?_⟩
        by_cases same : u = t
        · subst same; simp [Sys.meet, Sys.sendMeet, Sys.note]
        · simp [Sys.meet, Sys.sendMeet, Sys.note, same, others u other]
    rw [moved]
    exact .single (.meetSend t dest _ _ _ _ ret out waiting asks fits)

/-- The state a receiver leaves when it took sender `u` from its queue. -/
theorem recvMeet_state
    (current : s.k.current = t) (apart : u ≠ t)
    (exchanged : ipcExchange access t u u (wqhTake (.send t) u false (expecting source s.k)) = .ok (k1, ret))
    (resumed : schedResumeAsync u k1 = .ok k') :
    k'.waits = s.k.waits.remove (.send t) u ∧ (∀ v, v ≠ u → v ≠ t → k'.tcb v = s.k.tcb v) ∧
      (∀ v, (k'.tcb v).flags.interrupted = (s.k.tcb v).flags.interrupted) := by
  obtain ⟨c', copied, _, _, rfl⟩ := ipcExchange_ok exchanged
  obtain ⟨σ, _, rfl⟩ := schedResumeAsync_ok.mp resumed
  have only := copied.only
  rw [wqhTake_tcb_of_ne apart.symm, CopyOnly] at only
  have same : (expecting source s.k).waits = s.k.waits := waits_modify rfl
  refine ⟨?_, fun v other running => ?_, fun v => ?_⟩
  · rw [← same, ← waits_wqhTake (i := false)]
    refine waits_congr rfl fun v => ?_
    by_cases self : v = u
    · subst self; simp [apart]
    · by_cases running : v = t
      · subst running
        simp only [State.modify_tcb_of_ne _ _ _ _ self, State.modify_tcb_self]
        rw [only, wqhTake_tcb_of_ne self]
      · simp [self, running]
  · simp [other, running, wqhTake_tcb_of_ne other, expecting, current]
  · by_cases self : v = u
    · subst self
      simp [apart, wqhTake_tcb_self, expecting, current]
    · by_cases running : v = t
      · subst running
        simp only [State.modify_tcb_of_ne _ _ _ _ self, State.modify_tcb_self]
        rw [only]
        simp [expecting, current]
      · simp [self, running, wqhTake_tcb_of_ne self, expecting, current]

theorem Sound.number (sound : Sound s) (mem : t ∈ (s.k.wqh (.send r)).taskList) :
    s.meet.pc t = some (s.callId t, .send r) := by
  obtain ⟨id, sends⟩ := sound.inv.sender t r mem
  have number : s.callId t = id := by
    simp only [Sys.meet] at sends
    cases place : s.pc t <;> simp_all [Sys.callId, Pc.id, Pc.call]
  rw [number, sends]

/-- The scan of `ipc_recv` finds the first sender in the queue that it accepts. -/
theorem recvFound_some (found : recvFound source k = some u) :
    accepts source u ∧ ∃ older younger, (k.wqh (.send k.current)).taskList = older ++ u :: younger ∧
      ∀ v ∈ older, ¬ accepts source v := by
  unfold recvFound at found
  split_ifs at found
  obtain ⟨fits, older, younger, queue, passed⟩ := List.find?_eq_some_iff_append.mp found
  refine ⟨by simpa [accepts] using fits, older, younger, queue, fun v mem => ?_⟩
  have refused := passed v mem
  simpa [accepts] using refused

/-- The receiver does not find itself in its queue. -/
theorem Sound.found_ne (sound : Sound s) (current : s.k.current = t)
    (out : s.meet.pc t = none) (found : recvFound source s.k = some u) : u ≠ t := by
  obtain ⟨_, older, younger, queue, _⟩ := recvFound_some found
  rw [current] at queue
  rintro rfl
  exact nomatch out.symm.trans (sound.number (r := u) (by simp [queue]))

theorem Sound.recvMeet
    (sound : Sound s) (current : s.k.current = t) (out : s.meet.pc t = none) (found : recvFound source s.k = some u)
    (exchanged : ipcExchange access t u u (wqhTake (.send t) u false (expecting source s.k)) = .ok (k1, ret))
    (resumed : schedResumeAsync u k1 = .ok k') : Advances s (s.recvMeet k' t u source ret) := by
  obtain ⟨fits, older, younger, queue, passed⟩ := recvFound_some found
  rw [current] at queue
  have mem : u ∈ s.meet.senders t := by
    change u ∈ (s.k.wqh (.send t)).taskList
    simp [queue]
  have sends := sound.number mem
  have apart := sound.found_ne current out found
  obtain ⟨waits, others, interrupted⟩ := recvMeet_state current apart exchanged resumed
  have home : (s.k.tcb u).waitingOn = some (.send t) :=
    (sound.placed.waits.mem_iff (.send t) u).mp mem
  have lists := meet_leave (s.recvMeet k' t u source ret) sound.placed home waits
  have left := sound.inv.leave_sender mem
  refine ⟨sound.placed.leave home waits fun v other sleeping => ?_, ?_⟩
  · have running : v ≠ t := by
      rintro rfl
      exact sleeping (sound.free out)
    simp [Sys.recvMeet, others v other running, running]
  · have moved : (s.recvMeet k' t u source ret).meet = s.meet.meetRecv t u (s.callId u) source
        (.of (k'.tcb u)) (.of (k'.tcb t)) ret := by
      refine Meet.ext (lists.1.trans left.1) (lists.2.trans left.2) ?_ ?_ ?_ rfl rfl rfl rfl
      · funext v
        by_cases same : v = t
        · subst same
          have user : s.meet.pc v = none := out
          simp only [Meet.meetRecv, user]
          simp [Sys.meet, Sys.recvMeet, Pc.call]
        · simp [Sys.meet, Sys.recvMeet, Meet.meetRecv, same]
      · funext v; exact interrupted v
      · refine eq_update_iff.mpr ⟨rfl, fun v other => ?_⟩
        by_cases same : v = t
        · subst same; simp [Sys.meet, Sys.recvMeet, Sys.note]
        · simp [Sys.meet, Sys.recvMeet, Sys.note, same, others v other same]
    rw [moved]
    exact .single (.meetRecv t u _ source _ _ ret older younger out queue sends fits passed)

/-- **A half of a call advances the protocol**: `ipc_send`. -/
theorem Sound.send (sound : Sound s)
    (current : s.k.current = t) (out : s.meet.pc t = none) (ok : s.send t dest reply access = .ok s') :
    Advances s s' := by
  unfold Sys.send at ok
  obtain ⟨⟨k', exit⟩, sent, ok⟩ := bind_eq_ok.mp ok
  rcases ipcSend_ok sent with ⟨absent, rfl, rfl⟩ | ⟨present, ready, k1, ret, exchanged, resumed, rfl⟩ |
    ⟨present, alone, prepared, rfl⟩
  · simp only [absent] at ok
    simp only [Bool.false_eq_true, false_and, if_false] at ok
    cases ok
    exact sound.relabel out rfl _
  · rw [current] at ready exchanged
    simp only [present, ready, and_self, if_true] at ok
    cases ok
    exact sound.sendMeet out ready exchanged resumed
  · rw [current] at alone
    obtain ⟨σ, _, rfl⟩ := waitOnPrepare_ok.mp prepared
    cases ok
    have advances := sound.sendSleep reply σ out alone
    rw [slept] at advances
    simpa only [current] using advances

/-- **A half of a call advances the protocol**: `ipc_recv`. -/
theorem Sound.recv (sound : Sound s) (current : s.k.current = t)
    (out : s.meet.pc t = none) (ok : s.recv t source access = .ok s') : Advances s s' := by
  unfold Sys.recv at ok
  obtain ⟨⟨k', exit⟩, received, ok⟩ := bind_eq_ok.mp ok
  rcases ipcRecv_ok received with ⟨u, found, k1, ret, exchanged, resumed, rfl⟩ | ⟨alone, prepared, rfl⟩
  · rw [current] at exchanged
    simp only [found] at ok
    cases ok
    exact sound.recvMeet current out found exchanged resumed
  · obtain ⟨σ, _, rfl⟩ := waitOnPrepare_ok.mp prepared
    cases ok
    have advances := sound.recvSleep σ current out alone
    have same : (expecting source s.k).current = t := current
    simpa only [slept, same, current] using advances

/-- The state after a sleeper was taken out and resumed with nothing else done to it. -/
theorem take_state
    (resumed : schedResumeAsync t (wqhTake q t i k) = .ok k') :
    k'.waits = k.waits.remove q t ∧ (∀ u, u ≠ t → k'.tcb u = k.tcb u) ∧
      k'.tcb t = { k.tcb t with
        waitingOn := none, wq := none, state := .runnable
        flags := { (k.tcb t).flags with interrupted := (k.tcb t).flags.interrupted || i } } := by
  obtain ⟨σ, _, rfl⟩ := schedResumeAsync_ok.mp resumed
  refine ⟨?_, fun u apart => ?_, ?_⟩
  · rw [← waits_wqhTake (i := i)]
    exact waits_modify (k := wqhTake q t i k) (f := fun c => { c with state := .runnable }) rfl
  · simp [apart, wqhTake_tcb_of_ne apart]
  · simp [wqhTake_tcb_self]

theorem Sound.interrupt (sound : Sound s)
    (home : (s.k.tcb t).waitingOn = some q) (resumed : schedResumeAsync t (wqhTake q t true s.k) = .ok k') :
    Advances s { s with k := k' } := by
  obtain ⟨waits, others, self⟩ := take_state resumed
  have lists := meet_leave { s with k := k' } sound.placed home waits
  refine ⟨sound.placed.leave home waits fun u apart _ => ?_, ?_⟩
  · simp [others u apart]
  · have moved : Sys.meet { s with k := k' } = s.meet.interrupt t := by
      refine Meet.ext lists.1 lists.2 rfl ?_ ?_ rfl rfl rfl rfl
      · refine eq_update_iff.mpr ⟨?_, fun u apart => ?_⟩
        · simp [Sys.meet, self]
        · simp [Sys.meet, others u apart]
      · funext u
        by_cases same : u = t
        · subst same; simp [Sys.meet, Sys.note, Note.of, Meet.interrupt, Meet.leave, self]
        · simp [Sys.meet, Sys.note, Meet.interrupt, Meet.leave, others u same]
    rw [moved]
    exact .single (.interrupt t ((sound.placed.queued_iff t).mpr (by simp [home])))

theorem Sound.dismiss (sound : Sound s)
    (mem : t ∈ (s.k.wqh (.send r)).taskList) (resumed : schedResumeAsync t (wqhTake (.send r) t false s.k) = .ok k') :
    Advances s { s with k := k', dismissed := s.callId t :: s.dismissed } := by
  have home : (s.k.tcb t).waitingOn = some (.send r) := (sound.placed.waits.mem_iff (.send r) t).mp mem
  obtain ⟨waits, others, self⟩ := take_state resumed
  have lists := meet_leave { s with k := k', dismissed := s.callId t :: s.dismissed } sound.placed home waits
  refine ⟨sound.placed.leave home waits fun u apart _ => ?_, ?_⟩
  · simp [others u apart]
  · have moved : Sys.meet { s with k := k', dismissed := s.callId t :: s.dismissed } = s.meet.dismiss t (s.callId t) := by
      refine Meet.ext lists.1 lists.2 rfl ?_ ?_ rfl rfl rfl rfl
      · funext u
        by_cases same : u = t
        · subst same; simp [Sys.meet, Meet.dismiss, Meet.leave, self]
        · simp [Sys.meet, Meet.dismiss, Meet.leave, others u same]
      · funext u
        by_cases same : u = t
        · subst same; simp [Sys.meet, Sys.note, Note.of, Meet.dismiss, Meet.leave, self]
        · simp [Sys.meet, Sys.note, Meet.dismiss, Meet.leave, others u same]
    rw [moved]
    exact .single (.dismiss t r _ mem (sound.number mem))

theorem Sound.finish (sound : Sound s) (inCall : (s.pc t).call ≠ none)
    (free : (s.k.tcb t).waitingOn = none) : Advances s (s.finish t) := by
  obtain ⟨⟨id, side⟩, calls⟩ := Option.ne_none_iff_exists'.mp inCall
  have number : s.callId t = id := by
    cases place : s.pc t <;> simp_all [Sys.callId, Pc.id, Pc.call]
  subst number
  obtain ⟨w, f, state, calm, _⟩ := ipcHandleErrors_eq t s.k
  have home : ∀ u, ((ipcHandleErrors t s.k).1.tcb u).waitingOn = (s.k.tcb u).waitingOn := by
    intro u
    rw [state]
    by_cases same : u = t
    · subst same; simp
    · simp [same]
  have others : ∀ u, u ≠ t → (ipcHandleErrors t s.k).1.tcb u = s.k.tcb u := fun u apart => by
    rw [state]; simp [apart]
  have wqh : (ipcHandleErrors t s.k).1.wqh = s.k.wqh := by rw [state]; rfl
  have moved : (s.finish t).meet = s.meet.finish t (s.callId t) (ipcHandleErrors t s.k).2
      (.of ((ipcHandleErrors t s.k).1.tcb t)) := by
    refine Meet.ext ?_ ?_ ?_ ?_ ?_ rfl rfl rfl rfl
    · funext r; simp [Sys.meet, Sys.finish, Meet.finish, Meet.abandon, wqh]
    · funext u; simp [Sys.meet, Sys.finish, Meet.finish, Meet.abandon, home]
    · refine eq_update_iff.mpr ⟨?_, fun u apart => ?_⟩
      · simp [Sys.meet, Sys.finish]
      · simp [Sys.meet, Sys.finish, apart]
    · refine eq_update_iff.mpr ⟨?_, fun u apart => ?_⟩
      · simp [Sys.meet, Sys.finish, state, calm]
      · simp [Sys.meet, Sys.finish, others u apart]
    · refine eq_update_iff.mpr ⟨rfl, fun u apart => ?_⟩
      simp [Sys.meet, Sys.finish, Sys.note, others u apart]
  refine ⟨⟨?_, fun u q there => ?_, fun u q there => ?_, fun u there => ?_⟩, ?_⟩
  · have waits : (s.finish t).k.waits = s.k.waits := waits_congr wqh home
    rw [waits]; exact sound.placed.waits
  · have before : (s.k.tcb u).waitingOn = some q := (home u).symm.trans there
    have apart : u ≠ t := by rintro rfl; exact absurd (before.symm.trans free) (Option.some_ne_none _)
    have same : (s.finish t).k.tcb u = s.k.tcb u := others u apart
    rw [same]; exact sound.placed.asleep u q before
  · exact sound.placed.kind u q ((home u).symm.trans there)
  · have before : (s.k.tcb u).waitingOn = some (.recv u) := (home u).symm.trans there
    have apart : u ≠ t := by rintro rfl; exact absurd (before.symm.trans free) (Option.some_ne_none _)
    have same : (s.finish t).k.tcb u = s.k.tcb u := others u apart
    rw [same]
    simpa [Sys.finish, apart] using sound.placed.expects u before
  · rw [moved]
    exact .single (.finish t _ side _ _ calls fun queued => (sound.placed.queued_iff t).mp queued free)

/-- The running thread of a step is a runnable one, so it waits nowhere. -/
theorem Sound.enter (sound : Sound s) (t : L4id) : Advances s (s.enter t) :=
  sound.unseen rfl (fun _ => rfl) (fun _ _ => ⟨rfl, rfl⟩) (fun _ => rfl) (fun _ => rfl)

/-! ## Other threads' doings -/

/-- Nobody sleeps in a queue that is neither a receive queue of its own nor a send queue. -/
theorem Placed.empty (placed : Placed s) (alone : ∀ t, (s.k.tcb t).waitingOn ≠ some q) :
    s.k.wqh q = {} := by
  have list : (s.k.wqh q).taskList = [] := by
    refine List.eq_nil_iff_forall_not_mem.mpr fun t mem => ?_
    exact alone t ((placed.waits.mem_iff q t).mp mem)
  have count : (s.k.wqh q).sleepers = (s.k.wqh q).taskList.length := placed.waits.count_eq q
  rw [list] at count
  cases whole : s.k.wqh q
  simp_all

theorem Placed.empty_pager (placed : Placed s) (t : L4id) : s.k.wqh (.pager t) = {} := by
  refine placed.empty fun u home => ?_
  rcases placed.kind u _ home with wrong | ⟨r, wrong⟩
  · exact nomatch wrong
  · exact nomatch wrong

theorem Placed.empty_recv (placed : Placed s) (awake : (s.k.tcb t).state ≠ .sleeping) :
    s.k.wqh (.recv t) = {} := by
  refine placed.empty fun u home => ?_
  rcases placed.kind u _ home with same | ⟨r, wrong⟩
  · cases same
    exact awake (placed.asleep t _ home)
  · exact nomatch wrong

/-- A suspension, when no pager sleeps for the thread: it leaves its runqueue and becomes inactive. -/
theorem schedSuspend_ok (quiet : k.wqh (.pager k.current) = {}) (ok : schedSuspend k = .ok k') :
    ∃ σ, k' = { k.modify k.current (fun c =>
      { c with state := .inactive, flags := { c.flags with suspending := false } }) with sched := σ } := by
  unfold schedSuspend at ok
  obtain ⟨σ, _, ok⟩ := bind_eq_ok.mp ok
  simp only at ok
  split at ok
  · cases ok; exact ⟨σ, rfl⟩
  · simp [wakeUp, quiet] at ok
    cases ok; exact ⟨σ, rfl⟩

/-- A thread that waits nowhere changes state. -/
theorem Sound.restate (f : Ktcb → Ktcb) (σ : Scheduler) (present : L4id → Bool) (current : L4id)
    (sound : Sound s) (free : (s.k.tcb t).waitingOn = none)
    (same : ∀ c, (f c).waitingOn = c.waitingOn ∧ (f c).flags.interrupted = c.flags.interrupted ∧ Note.of (f c) = Note.of c) :
    Advances s { s with k := { s.k.modify t f with sched := σ, present := present, current := current } } := by
  refine sound.unseen rfl (fun u => ?_) (fun u sleeping => ?_) (fun u => ?_) (fun u => ?_)
  · by_cases self : u = t
    · subst self; simpa using (same _).1
    · simp [self]
  · have apart : u ≠ t := by
      rintro rfl
      exact sleeping free
    simp [apart]
  · by_cases self : u = t
    · subst self; simpa using (same _).2.1
    · simp [self]
  · by_cases self : u = t
    · subst self; simpa using (same _).2.2
    · simp [self]

/-- The calls dismissed by waking up everyone in `l`, oldest first, without an interruption. -/
def Sys.dismissing (s : Sys) (interrupt : Bool) (l : List L4id) : List Nat :=
  if interrupt then s.dismissed else (l.map s.callId).reverse ++ s.dismissed

/-- Waking up all waiting senders of `r`. The induction is on the number of turns the loop may take, which
bounds the queue. -/
theorem Sound.wakeUpAllLoop (fuel : Nat) : ∀ {s : Sys} {k' : State}, Sound s →
    (s.k.wqh (.send r)).taskList.length ≤ fuel → wakeUpAllLoop (.send r) i fuel s.k = .ok k' →
    Advances s { s with k := k', dismissed := s.dismissing i (s.k.wqh (.send r)).taskList } ∧
      (∀ u, (k'.tcb u).waitingOn ≠ some (.send r)) ∧
      (∀ u, (s.k.tcb u).waitingOn ≠ some (.send r) → k'.tcb u = s.k.tcb u) ∧ k'.current = s.k.current := by
  induction fuel with
  | zero =>
    intro s k' sound short ok
    cases ok
    have none : (s.k.wqh (.send r)).taskList = [] := List.length_eq_zero_iff.mp (by omega)
    have same : s.dismissing i (s.k.wqh (.send r)).taskList = s.dismissed := by simp [Sys.dismissing, none]
    rw [same]
    refine ⟨⟨sound.placed, .refl⟩, fun u home => ?_, fun _ _ => rfl, rfl⟩
    have mem := (sound.placed.waits.mem_iff (.send r) u).mpr home
    exact absurd mem (by simp [State.waits, none])
  | succ fuel rest =>
    intro s k' sound short ok
    have count : (s.k.wqh (.send r)).sleepers = (s.k.wqh (.send r)).taskList.length :=
      sound.placed.waits.count_eq (.send r)
    unfold Kernel.wakeUpAllLoop at ok
    cases queue : (s.k.wqh (.send r)).taskList with
    | nil =>
      simp only [count, queue, List.length_nil] at ok
      cases ok
      have same : s.dismissing i [] = s.dismissed := by simp [Sys.dismissing]
      rw [same]
      refine ⟨⟨sound.placed, .refl⟩, fun u home => ?_, fun _ _ => rfl, rfl⟩
      have mem := (sound.placed.waits.mem_iff (.send r) u).mpr home
      exact absurd mem (by simp [State.waits, queue])
    | cons t others =>
      have positive : (s.k.wqh (.send r)).sleepers > 0 := by rw [count, queue]; simp
      simp only [positive, if_true, queue] at ok
      obtain ⟨k1, resumed, ok⟩ := bind_eq_ok.mp ok
      have mem : t ∈ (s.k.wqh (.send r)).taskList := by simp [queue]
      have home : (s.k.tcb t).waitingOn = some (.send r) := (sound.placed.waits.mem_iff (.send r) t).mp mem
      obtain ⟨waits, kept, self⟩ := take_state resumed
      have left : (k1.wqh (.send r)).taskList = others := by
        have list := congrFun (congrArg Queues.list waits) (.send r)
        simpa [State.waits, Queues.remove, queue] using list
      have current : k1.current = s.k.current := by
        obtain ⟨σ, _, rfl⟩ := schedResumeAsync_ok.mp resumed; rfl
      let s1 : Sys := { s with k := k1, dismissed := s.dismissing i [t] }
      have first : Advances s s1 := by
        cases i with
        | true => exact sound.interrupt home resumed
        | false => exact sound.dismiss mem resumed
      obtain ⟨then', gone, unchanged, current'⟩ := rest (first.sound sound) (s := s1) (by
        change (k1.wqh (.send r)).taskList.length ≤ fuel
        rw [left]; rw [queue] at short; simpa using short) ok
      refine ⟨first.trans ?_, gone, fun u apart => ?_, current'.trans current⟩
      · have log : s1.dismissing i (s1.k.wqh (.send r)).taskList = s.dismissing i (t :: others) := by
          change s1.dismissing i (k1.wqh (.send r)).taskList = _
          rw [left]
          cases i with
          | true => rfl
          | false => simp [Sys.dismissing, s1, Sys.callId]
        rw [log] at then'
        exact then'
      · have other : u ≠ t := by
          rintro rfl
          exact apart home
        have same : k1.tcb u = s.k.tcb u := kept u other
        have still := unchanged u (by change (k1.tcb u).waitingOn ≠ _; rw [same]; exact apart)
        exact still.trans same

/-- `wake_up_all` on the send queue of `r`. -/
theorem Sound.wakeUpAll (sound : Sound s)
    (ok : wakeUpAll (.send r) i s.k = .ok k') :
    Advances s { s with k := k', dismissed := s.dismissing i (s.k.wqh (.send r)).taskList } ∧
      (∀ u, (k'.tcb u).waitingOn ≠ some (.send r)) ∧
      (∀ u, (s.k.tcb u).waitingOn ≠ some (.send r) → k'.tcb u = s.k.tcb u) ∧ k'.current = s.k.current := by
  unfold Kernel.wakeUpAll at ok
  split at ok
  · exact nomatch ok
  · refine sound.wakeUpAllLoop _ ?_ ok
    have count : (s.k.wqh (.send r)).sleepers = (s.k.wqh (.send r)).taskList.length :=
      sound.placed.waits.count_eq (.send r)
    omega

theorem wakeUpAll_empty (empty : k.wqh q = {}) : wakeUpAll q i k = .ok k := by
  simp [Kernel.wakeUpAll, empty, Kernel.wakeUpAllLoop]
  rfl

/-- A thread that waits nowhere gives up the call it may be in and starts afresh. -/
theorem Sound.reset (sound : Sound s) (free : (s.k.tcb t).waitingOn = none)
    (waits : k'.waits = s.k.waits) (calm : (k'.tcb t).flags.interrupted = false)
    (others : ∀ u, u ≠ t → k'.tcb u = s.k.tcb u) :
    Advances s { s with k := k', pc := update s.pc t .user } := by
  have home : ∀ u, (k'.tcb u).waitingOn = (s.k.tcb u).waitingOn := fun u =>
    congrFun (congrArg Queues.home waits) u
  have lists : ∀ q, (k'.wqh q).taskList = (s.k.wqh q).taskList := fun q =>
    congrFun (congrArg Queues.list waits) q
  have moved : Sys.meet { s with k := k', pc := update s.pc t .user } = s.meet.abandon t (.of (k'.tcb t)) := by
    refine Meet.ext ?_ ?_ ?_ ?_ ?_ rfl rfl rfl rfl
    · funext r; exact lists (.send r)
    · funext u; simp [Sys.meet, Meet.abandon, home]
    · refine eq_update_iff.mpr ⟨by simp [Sys.meet, Pc.call], fun u apart => by simp [Sys.meet, apart]⟩
    · refine eq_update_iff.mpr ⟨calm, fun u apart => by simp [Sys.meet, others u apart]⟩
    · refine eq_update_iff.mpr ⟨rfl, fun u apart => by simp [Sys.meet, Sys.note, others u apart]⟩
  have kept : ∀ u q, (s.k.tcb u).waitingOn = some q → u ≠ t := by
    rintro u q there rfl
    exact absurd (there.symm.trans free) (Option.some_ne_none _)
  refine ⟨⟨waits ▸ sound.placed.waits, fun u q there => ?_, fun u q there => ?_, fun u there => ?_⟩, ?_⟩
  · have before := (home u).symm.trans there
    simpa [others u (kept u q before)] using sound.placed.asleep u q before
  · exact sound.placed.kind u q ((home u).symm.trans there)
  · have before := (home u).symm.trans there
    simpa [others u (kept u _ before), kept u _ before] using sound.placed.expects u before
  · rw [moved]
    exact .single (.abandon t _ fun queued => (sound.placed.queued_iff t).mp queued free)

theorem archClearThread_ok (ok : archClearThread t k = .ok k') : k' = tcbInit t k := by
  unfold archClearThread at ok
  split at ok
  · exact nomatch ok
  · cases ok; rfl

theorem tcbInit_waits (placed : Placed s) (send : s.k.wqh (.send t) = {})
    (recv : s.k.wqh (.recv t) = {}) : (tcbInit t s.k).waits = s.k.waits := by
  have pager := placed.empty_pager t
  refine waits_congr ?_ fun u => ?_
  · funext q
    simp only [tcbInit, State.setWqh_wqh, State.modify_wqh]
    split_ifs with first second third
    · rw [first, pager]
    · rw [second, recv]
    · rw [third, send]
    · rfl
  · by_cases same : u = t
    · subst same; simp [tcbInit]
    · simp [tcbInit, same]

theorem Sound.recycle (sound : Sound s) (inactive : (s.k.tcb t).state = .inactive)
    (calm : (s.k.tcb t).flags.interrupted = false) (ok : threadRecycle t s.k = .ok k') :
    Advances s { s with k := k', pc := update s.pc t .user,
                        dismissed := s.dismissing false (s.k.wqh (.send t)).taskList } := by
  unfold threadRecycle at ok
  obtain ⟨k1, woken, ok⟩ := bind_eq_ok.mp ok
  obtain ⟨k2, idle, ok⟩ := bind_eq_ok.mp ok
  obtain ⟨first, gone, unchanged, _⟩ := sound.wakeUpAll woken
  have free : (s.k.tcb t).waitingOn = none := sound.placed.awake (by simp [inactive])
  have same : k1.tcb t = s.k.tcb t := unchanged t (by simp [free])
  have empty : k1.wqh (.recv t) = {} := first.placed.empty_recv (by
    change (k1.tcb t).state ≠ _
    simp [same, inactive])
  rw [wakeUpAll_empty empty] at idle
  cases idle
  rw [archClearThread_ok ok]
  have send : k1.wqh (.send t) = {} := first.placed.empty gone
  refine first.trans ((first.sound sound).reset (t := t) ?_ ?_ ?_ fun u apart => ?_)
  · change (k1.tcb t).waitingOn = _
    rw [same, free]
  · exact tcbInit_waits first.placed send empty
  · simp [tcbInit, same, calm]
  · simp [tcbInit, apart]

theorem Sound.remove (sound : Sound s) (awake : (s.k.tcb t).state ≠ .sleeping)
    (ok : threadRemove t s.k = .ok k') :
    Advances s { s with k := k' } ∧ k'.tcb t = s.k.tcb t ∧ k'.current = s.k.current := by
  unfold threadRemove at ok
  obtain ⟨k1, woken, ok⟩ := bind_eq_ok.mp ok
  have hidden : Advances s { s with k := { s.k with present := update s.k.present t false } } :=
    sound.unseen rfl (fun _ => rfl) (fun _ _ => ⟨rfl, rfl⟩) (fun _ => rfl) (fun _ => rfl)
  obtain ⟨first, gone, unchanged, current⟩ := (hidden.sound sound).wakeUpAll woken
  have free : (s.k.tcb t).waitingOn = none := sound.placed.awake awake
  have same : k1.tcb t = s.k.tcb t := unchanged t (by simp [free])
  have empty : k1.wqh (.recv t) = {} := first.placed.empty_recv (by
    change (k1.tcb t).state ≠ _
    rwa [same])
  rw [wakeUpAll_empty empty] at ok
  cases ok
  exact ⟨hidden.trans first, same, current⟩

/-- Entering a call stores the caller's message and flags, which concern nobody else yet. -/
theorem Sound.begin (args : IpcArgs) (sound : Sound s) (user : s.pc t = .user) :
    Advances s (s.begin t args) ∧ (s.begin t args).meet.pc t = none ∧ (s.begin t args).k.current = t := by
  obtain ⟨w, n, f, state, _⟩ := sysIpc_state args (s.enter t).k
  have same : (sysIpc args (s.enter t).k).1 = (s.enter t).k.modify t fun _ =>
      { (s.enter t).k.tcb t with mr := args.mr, ipcFlags := w, extendedIpcSize := n, extendedIpcBuffer := f } := state
  have entered := sound.enter t
  have out : (s.enter t).meet.pc t = none := by simp [Sys.meet, Sys.enter, user, Pc.call]
  have touched := (entered.sound sound).touch (c := { (s.enter t).k.tcb t with
    mr := args.mr, ipcFlags := w, extendedIpcSize := n, extendedIpcBuffer := f }) out rfl rfl
  rw [← same] at touched
  refine ⟨entered.trans touched, out, ?_⟩
  change (sysIpc args (s.enter t).k).1.current = t
  rw [same]; rfl

/-- What a run must not do for the protocol to be followed: recycle a thread whose `TASK_INTERRUPTED` is
still set. `tcb_init` leaves that flag, and the thread's next sleep would take it for its own. -/
def Orderly (s : Sys) : Event → Prop
  | .recycle t => (s.k.tcb t).flags.interrupted = false
  | _ => True

/-- **IPC refines the rendezvous protocol**: every enabled step that returns is a sequence of its moves. -/
theorem Sound.step {e : Event} (sound : Sound s) (able : enabled s e) (orderly : Orderly s e)
    (ok : IpcRuns.step s e = .ok s') : Advances s s' := by
  cases e with
  | call t args =>
    obtain ⟨_, _, user⟩ := able
    obtain ⟨begun, out, current⟩ := sound.begin args user
    simp only [IpcRuns.step] at ok
    split at ok
    · next code _ =>
      cases ok
      have relabelled := (begun.sound sound).relabel (p := .user) out rfl (s.refusals ++ [(t, code)])
      have still : update (s.begin t args).pc t Pc.user = (s.begin t args).pc := by
        rw [← user]; exact update_eq_self t _
      rw [still] at relabelled
      exact begun.trans relabelled
    · exact begun.trans ((begun.sound sound).send current out ok)
    · exact begun.trans ((begun.sound sound).recv current out ok)
  | turn t access =>
    obtain ⟨peer, place⟩ := Pc.isTurn_iff.mp able.2
    have entered := sound.enter t
    simp only [IpcRuns.step] at ok
    simp only [place] at ok
    exact entered.trans ((entered.sound sound).recv rfl (by simp [Sys.meet, Sys.enter, place, Pc.call]) ok)
  | finish t =>
    obtain ⟨running, inCall⟩ := able
    have entered := sound.enter t
    cases ok
    exact entered.trans ((entered.sound sound).finish inCall (sound.placed.awake (by simp [running])))
  | interrupt t =>
    obtain ⟨⟨k, exit⟩, woken, ok⟩ := bind_eq_ok.mp ok
    cases ok
    rcases wakeUpTask_ok woken with ⟨_, rfl⟩ | ⟨q, home, resumed⟩
    · exact ⟨sound.placed, .refl⟩
    · exact sound.interrupt home resumed
  | signal caller t =>
    obtain ⟨⟨k, exit⟩, signalled, ok⟩ := bind_eq_ok.mp ok
    cases ok
    have entered := sound.enter caller
    unfold threadSignal at signalled
    split at signalled
    · cases signalled; exact entered
    · let flagged : State := (s.enter caller).k.modify t fun c => { c with flags := { c.flags with suspending := true } }
      have marked : Advances s { s with k := flagged } := by
        refine sound.unseen rfl (fun u => ?_) (fun u _ => ?_) (fun u => ?_) (fun u => ?_) <;>
          by_cases same : u = t <;> simp [flagged, Sys.enter, same, Note.of]
      have woken : wakeUpTask t { interrupt := true, sync := true } flagged = .ok (k, exit) := signalled
      rcases wakeUpTask_ok woken with ⟨_, rfl⟩ | ⟨q, home, resumed⟩
      · exact marked
      · exact marked.trans ((marked.sound sound).interrupt home resumed)
  | suspend t =>
    obtain ⟨running, _⟩ := able
    obtain ⟨k, suspended, ok⟩ := bind_eq_ok.mp ok
    cases ok
    unfold schedSuspendAsync at suspended
    obtain ⟨k1, left, suspended⟩ := bind_eq_ok.mp suspended
    cases suspended
    obtain ⟨σ, rfl⟩ := schedSuspend_ok (sound.placed.empty_pager t) left
    have free := sound.placed.awake (t := t) (by simp [running])
    have advances := sound.restate (fun c => { c with
        state := .inactive, tsNeedResched := true, flags := { c.flags with suspending := false } })
      σ s.k.present t free fun _ => ⟨rfl, rfl, rfl⟩
    simpa [State.modify] using advances
  | resume t =>
    obtain ⟨inactive, _⟩ := able
    obtain ⟨k, resumed, ok⟩ := bind_eq_ok.mp ok
    cases ok
    obtain ⟨σ, _, rfl⟩ := schedResumeAsync_ok.mp resumed
    exact sound.restate _ σ s.k.present s.k.current (sound.placed.awake (by simp [inactive])) fun _ => ⟨rfl, rfl, rfl⟩
  | recycle t =>
    obtain ⟨inactive, _⟩ := able
    obtain ⟨k, recycled, ok⟩ := bind_eq_ok.mp ok
    cases ok
    simpa [Sys.dismissing] using sound.recycle inactive orderly recycled
  | remove t =>
    obtain ⟨inactive, _⟩ := able
    obtain ⟨k, removed, ok⟩ := bind_eq_ok.mp ok
    cases ok
    exact (sound.remove (by simp [inactive]) removed).1
  | destroySelf t =>
    obtain ⟨_, running, _⟩ := able
    obtain ⟨k, destroyed, ok⟩ := bind_eq_ok.mp ok
    cases ok
    unfold threadDestroySelf at destroyed
    obtain ⟨k1, removed, destroyed⟩ := bind_eq_ok.mp destroyed
    have entered := sound.enter t
    obtain ⟨first, same, current⟩ := (entered.sound sound).remove (t := t) (by simp [Sys.enter, running]) removed
    have current : k1.current = t := current
    have same : k1.tcb t = s.k.tcb t := same
    have advances := entered.trans first
    have sound1 := advances.sound sound
    have quiet := sound1.placed.empty_pager t
    obtain ⟨σ, rfl⟩ := schedSuspend_ok (by simpa [current] using quiet) destroyed
    have free : (k1.tcb t).waitingOn = none := by
      rw [same]; exact sound.placed.awake (by simp [running])
    have left := sound1.restate (t := t) (fun c => { c with
        state := .inactive, flags := { c.flags with suspending := false, exited := true } })
      σ k1.present k1.current free fun _ => ⟨rfl, rfl, rfl⟩
    refine advances.trans ?_
    simpa [State.modify, current, Sys.enter] using left
  | create t =>
    obtain ⟨_, inactive⟩ := able
    cases ok
    have free : (s.k.tcb t).waitingOn = none := sound.placed.awake (by simp [inactive])
    refine sound.reset free (waits_congr rfl fun u => ?_) (by simp) fun u apart => by simp [apart]
    by_cases same : u = t
    · subst same; simp [free]
    · simp [same]

end Codezero.Kernel.IpcRuns
