import Codezero.Kernel.IpcRefine

/-!
# The rendezvous of `ipc_send` and `ipc_recv`

What holds in every state of every run: no matching pair sleeps, pairings are one to one, the longest
waiting sender is taken, and a receiver from anyone learns the true sender.
-/

namespace Codezero.Kernel.IpcRuns
open Codezero.Lib Codezero.Lib.Rendezvous

/-- A kernel in which nobody has yet gone to sleep. -/
structure Boot (k : State) : Prop where
  queues : ∀ q, k.wqh q = {}
  awake : ∀ t, (k.tcb t).waitingOn = none
  calm : ∀ t, (k.tcb t).flags.interrupted = false

def start (k : State) : Sys := { k := k }

variable {k : State} {s s' : Sys} {p : Pairing L4id L4id Note} {t source r : L4id} {access : Access} {e : Event}

theorem Boot.sound (boot : Boot k) : Sound (start k) where
  placed :=
    { waits := ⟨fun q => by simp [start, State.waits, boot.queues], fun q => by simp [start, State.waits, boot.queues],
        fun q t => by simp [start, State.waits, boot.queues, boot.awake]⟩
      asleep := fun t q home => nomatch (boot.awake t).symm.trans home
      kind := fun t q home => nomatch (boot.awake t).symm.trans home
      expects := fun t home => nomatch (boot.awake t).symm.trans home }
  inv :=
    { calls := by simp [Sys.meet, start, Pc.call]
      sender := by simp [Sys.meet, start, boot.queues]
      receiver := by simp [Sys.meet, start, boot.awake]
      unmatched := by simp [Sys.meet, start, boot.queues]
      fifo := by simp [Sys.meet, start, boot.queues]
      paired_calls := by simp [Sys.meet, start]
      paired_once := by simp [Sys.meet, start]
      queued_unpaired := by simp [Sys.meet, start]
      queued_calm := by simp [Sys.meet, start, boot.calm]
      out_calm := by simp [Sys.meet, start, boot.calm]
      paired_note := by simp [Sys.meet, start]
      unqueued := by simp [Sys.meet, start, Pc.call]
      returned := by simp [Sys.meet, start]
      return_note := by simp [Sys.meet, start]
      return_paired := by simp [Sys.meet, start]
      dismissed_send := by simp [Sys.meet, start] }

/-- What the log says of each pairing and each return, from the step that wrote it. -/
structure Logged (s : Sys) : Prop where
  named : ∀ p ∈ s.pairs, p.asked = l4Anythread → p.recvNote.mr mrSender = p.sender
  coded : ∀ ρ ∈ s.returns, (ρ.fate = .interrupted → ρ.code = eintr) ∧
    (ρ.fate = .woken → ρ.code = errCode ρ.note.ipcFlags)

theorem Logged.same (logged : Logged s) (pairs : s'.pairs = s.pairs) (returns : s'.returns = s.returns) :
    Logged s' := ⟨pairs ▸ logged.named, returns ▸ logged.coded⟩

/-- A meeting adds one pairing and the return of the party that did not wait. -/
theorem Logged.meet {ρ : Return Note} (logged : Logged s)
    (pairs : s'.pairs = s.pairs ++ [p]) (returns : s'.returns = s.returns ++ [ρ]) (met : ρ.fate = .met)
    (named : p.asked = l4Anythread → p.recvNote.mr mrSender = p.sender) : Logged s' where
  named q mem := by
    rw [pairs] at mem
    rcases List.mem_append.mp mem with old | new
    · exact logged.named q old
    · rw [List.mem_singleton.mp new]; exact named
  coded x mem := by
    rw [returns] at mem
    rcases List.mem_append.mp mem with old | new
    · exact logged.coded x old
    · rw [List.mem_singleton.mp new, met]; exact ⟨nofun, nofun⟩

theorem Logged.send {dest : L4id} {reply : Bool} (logged : Logged s)
    (current : s.k.current = t) (ok : s.send t dest reply access = .ok s') : Logged s' := by
  unfold Sys.send at ok
  obtain ⟨⟨k', exit⟩, sent, ok⟩ := bind_eq_ok.mp ok
  rcases ipcSend_ok sent with ⟨absent, rfl, rfl⟩ | ⟨present, ready, k1, ret, exchanged, resumed, rfl⟩ | ⟨_, _, _, rfl⟩
  · simp only [absent, Bool.false_eq_true, false_and, if_false] at ok
    cases ok
    exact logged.same rfl rfl
  · rw [current] at ready exchanged
    simp only [present, ready, and_self, if_true] at ok
    cases ok
    refine logged.meet rfl rfl rfl fun any => ?_
    obtain ⟨c', copied, named, _, rfl⟩ := ipcExchange_ok exchanged
    obtain ⟨σ, _, rfl⟩ := schedResumeAsync_ok.mp resumed
    rw [wqhTake_tcb_self] at named
    simpa [Note.of] using named any
  · cases ok
    exact logged.same rfl rfl

theorem Logged.recv (logged : Logged s) (sound : Sound s)
    (current : s.k.current = t) (out : s.meet.pc t = none) (ok : s.recv t source access = .ok s') : Logged s' := by
  unfold Sys.recv at ok
  obtain ⟨⟨k', exit⟩, received, ok⟩ := bind_eq_ok.mp ok
  rcases ipcRecv_ok received with ⟨u, found, k1, ret, exchanged, resumed, rfl⟩ | ⟨_, _, rfl⟩
  · rw [current] at exchanged
    simp only [found] at ok
    cases ok
    refine logged.meet rfl rfl rfl fun any => ?_
    have apart : u ≠ t := sound.found_ne current out found
    obtain ⟨c', copied, named, _, rfl⟩ := ipcExchange_ok exchanged
    obtain ⟨σ, _, rfl⟩ := schedResumeAsync_ok.mp resumed
    rw [wqhTake_tcb_of_ne apart.symm] at named
    have asked : ((expecting source s.k).tcb t).expectedSender = source := by simp [expecting, current]
    simpa [Note.of, apart.symm] using named (asked.trans any)
  · cases ok
    exact logged.same rfl rfl

theorem Logged.finish (logged : Logged s) : Logged (s.finish t) where
  named := logged.named
  coded ρ mem := by
    obtain ⟨_, _, _, _, code⟩ := ipcHandleErrors_eq t s.k
    have grown : (s.finish t).returns = s.returns ++ [⟨s.callId t, (ipcHandleErrors t s.k).2, s.note t,
      if (s.k.tcb t).flags.interrupted then .interrupted else .woken⟩] := rfl
    rw [grown] at mem
    rcases List.mem_append.mp mem with old | new
    · exact logged.coded ρ old
    · rw [List.mem_singleton.mp new, code]
      cases (s.k.tcb t).flags.interrupted <;> simp [Sys.note, Note.of]

theorem Logged.step (logged : Logged s) (sound : Sound s) (able : enabled s e)
    (ok : IpcRuns.step s e = .ok s') : Logged s' := by
  cases e with
  | call t args =>
    obtain ⟨_, _, user⟩ := able
    obtain ⟨begun, out, current⟩ := sound.begin args user
    have logged : Logged (s.begin t args) := logged.same rfl rfl
    simp only [IpcRuns.step] at ok
    split at ok
    · cases ok; exact logged.same rfl rfl
    · exact logged.send current ok
    · exact logged.recv (begun.sound sound) current out ok
  | turn t access =>
    obtain ⟨peer, place⟩ := Pc.isTurn_iff.mp able.2
    have entered := (sound.enter t).sound sound
    have logged : Logged (s.enter t) := logged.same rfl rfl
    simp only [IpcRuns.step] at ok
    simp only [place] at ok
    exact logged.recv entered rfl (by simp [Sys.meet, Sys.enter, place, Pc.call]) ok
  | finish t =>
    have logged : Logged (s.enter t) := logged.same rfl rfl
    cases ok; exact logged.finish
  | create t => cases ok; exact logged.same rfl rfl
  | interrupt t | signal caller t | suspend t | resume t | recycle t | remove t | destroySelf t =>
    obtain ⟨_, _, ok⟩ := bind_eq_ok.mp ok
    cases ok; exact logged.same rfl rfl

/-- Every state reached from a booted kernel is sound and its log consistent. -/
theorem reached_sound (boot : Boot k) (reached : machine.ReachesUnder Orderly (start k) s) :
    Sound s ∧ Logged s :=
  reached.invariant (I := fun s => Sound s ∧ Logged s)
    (fun _ _ _ ⟨sound, logged⟩ able orderly ok => ⟨(sound.step able orderly ok).sound sound, logged.step sound able ok⟩)
    ⟨boot.sound, ⟨(fun _ mem => nomatch mem), (fun _ mem => nomatch mem)⟩⟩

/-- The receive that a step starts took the oldest sender it could. -/
structure TookOldest (s s' : Sys) (r asked : L4id) (p : Pairing L4id L4id Note) : Prop where
  added : s'.pairs = s.pairs ++ [p]
  receive : p.recvId = s.started.length ∧ p.receiver = r ∧ p.asked = asked
  waited : p.sender ∈ (s.k.wqh (.send r)).taskList ∧ p.sendId = s.callId p.sender
  fits : accepts asked p.sender
  oldest : ∀ u ∈ (s.k.wqh (.send r)).taskList, accepts asked u → p.sendId ≤ s.callId u

theorem Sound.recv_oldest (sound : Sound s)
    (current : s.k.current = t) (ok : s.recv t source access = .ok s')
    (waiting : ∃ u ∈ (s.k.wqh (.send t)).taskList, accepts source u) : ∃ p, TookOldest s s' t source p := by
  unfold Sys.recv at ok
  obtain ⟨⟨k', exit⟩, received, ok⟩ := bind_eq_ok.mp ok
  rcases ipcRecv_ok received with ⟨u, found, k1, ret, exchanged, resumed, rfl⟩ | ⟨none, _, rfl⟩
  · simp only [found] at ok
    cases ok
    obtain ⟨fits, older, younger, queue, passed⟩ := recvFound_some found
    rw [current] at queue
    have mem : u ∈ (s.k.wqh (.send t)).taskList := by simp [queue]
    refine ⟨_, rfl, ⟨rfl, rfl, rfl⟩, ⟨mem, rfl⟩, fits, fun v other wanted => ?_⟩
    exact sound.inv.oldest queue passed (sound.number mem) other wanted (sound.number other)
  · exact absurd none (sound.placed.found_of_waiting current waiting)

theorem Sound.step_oldest {asked : L4id} (sound : Sound s) (able : enabled s e)
    (ok : IpcRuns.step s e = .ok s') (receives : s'.started = s.started ++ [(r, .recv asked)])
    (waiting : ∃ u ∈ (s.k.wqh (.send r)).taskList, accepts asked u) : ∃ p, TookOldest s s' r asked p := by
  cases e with
  | call t args =>
    obtain ⟨_, _, user⟩ := able
    obtain ⟨begun, _, current⟩ := sound.begin args user
    have queues : (s.begin t args).k.wqh = s.k.wqh := by
      obtain ⟨_, _, _, state, _⟩ := sysIpc_state args (s.enter t).k
      change (sysIpc args (s.enter t).k).1.wqh = _
      rw [state]; rfl
    simp only [IpcRuns.step] at ok
    split at ok
    · cases ok
      simp [Sys.begin] at receives
    · have sent := Sys.send_started ok
      rw [receives] at sent
      simp [Sys.begin] at sent
    · have received := Sys.recv_started ok
      rw [receives] at received
      obtain ⟨rfl, rfl⟩ : r = t ∧ asked = _ := by simpa [Sys.begin] using received
      obtain ⟨p, took⟩ := (begun.sound sound).recv_oldest current ok (by rwa [queues])
      exact ⟨p, took.added, took.receive, queues ▸ took.waited, took.fits, queues ▸ took.oldest⟩
  | turn t access =>
    obtain ⟨peer, place⟩ := Pc.isTurn_iff.mp able.2
    simp only [IpcRuns.step, place] at ok
    have received := Sys.recv_started ok
    rw [receives] at received
    obtain ⟨rfl, rfl⟩ : r = t ∧ asked = peer := by simpa [Sys.enter] using received
    obtain ⟨p, took⟩ := ((sound.enter r).sound sound).recv_oldest rfl ok waiting
    exact ⟨p, took.added, took.receive, took.waited, took.fits, took.oldest⟩
  | finish t => cases ok; simp [Sys.finish, Sys.enter] at receives
  | create t => cases ok; simp at receives
  | interrupt t | signal caller t | suspend t | resume t | recycle t | remove t | destroySelf t =>
    obtain ⟨_, _, ok⟩ := bind_eq_ok.mp ok
    cases ok; simp at receives

/-- The rendezvous properties of one state of a run. -/
structure Rendezvous (s : Sys) : Prop where
  /-- No receiver sleeps for a sender that sleeps for it. -/
  unmissed : ∀ r t, r ∈ (s.k.wqh (.recv r)).taskList →
    ((s.k.tcb r).expectedSender = t ∨ (s.k.tcb r).expectedSender = l4Anythread) →
    t ∉ (s.k.wqh (.send r)).taskList
  /-- A completed receive has exactly one pairing, with a send to this receiver by the thread it named. -/
  received : ∀ ρ ∈ s.returns, ∀ r a, s.started[ρ.id]? = some (r, .recv a) → ρ.code = 0 →
    ∃ p ∈ s.pairs, p.recvId = ρ.id ∧ p.receiver = r ∧ s.started[p.sendId]? = some (p.sender, .send r) ∧
      (a ≠ l4Anythread → p.sender = a) ∧ ∀ q ∈ s.pairs, q.recvId = ρ.id → q = p
  /-- A send is in at most one pairing. -/
  sent_once : ∀ p ∈ s.pairs, ∀ q ∈ s.pairs, p.sendId = q.sendId → p = q
  /-- A receive that finds senders it accepts takes the one whose call is the oldest. -/
  oldest : ∀ e s' r a, enabled s e → step s e = .ok s' → s'.started = s.started ++ [(r, .recv a)] →
    (∃ u ∈ (s.k.wqh (.send r)).taskList, accepts a u) → ∃ p, TookOldest s s' r a p
  /-- A receive from anyone returns with the true sender in `MR_SENDER`. -/
  signed : ∀ ρ ∈ s.returns, ∀ p ∈ s.pairs, p.recvId = ρ.id → p.asked = l4Anythread →
    ρ.note.mr mrSender = p.sender

theorem Sound.unmissed (sound : Sound s) (waits : r ∈ (s.k.wqh (.recv r)).taskList)
    (fits : (s.k.tcb r).expectedSender = t ∨ (s.k.tcb r).expectedSender = l4Anythread) :
    t ∉ (s.k.wqh (.send r)).taskList := by
  intro mem
  have home : (s.k.tcb r).waitingOn = some (.recv r) := (sound.placed.waits.mem_iff (.recv r) r).mp waits
  have waiting : s.meet.waiting r = true := by simpa [Sys.meet] using home
  exact sound.inv.unmatched t r _ _ mem waiting (sound.placed.asks waiting) (fits.imp_left Eq.symm)

/-- The two calls of a pairing are different ones. -/
theorem Sound.pair_ids_ne (sound : Sound s) (mem : p ∈ s.pairs) :
    p.sendId ≠ p.recvId := by
  intro same
  obtain ⟨sent, received, _⟩ := sound.inv.paired_calls p mem
  rw [same] at sent
  have sides := sent.symm.trans received
  simp at sides

/-- **IPC rendezvous**: in every state that any interleaving of sends, receives and interruptions reaches,
also with threads suspended, removed, created and, if not interrupted, recycled in between. -/
theorem ipc_rendezvous {k : State} {s : Sys} (boot : Boot k)
    (reached : machine.ReachesUnder Orderly (start k) s) : Rendezvous s := by
  obtain ⟨sound, logged⟩ := reached_sound boot reached
  refine ⟨fun r t => sound.unmissed, ?_, ?_, ?_, ?_⟩
  · intro ρ mem r a call zero
    have calm : ρ.fate ≠ .interrupted := fun loud => by
      have code := (logged.coded ρ mem).1 loud
      exact absurd (code.symm.trans zero) (by decide)
    obtain ⟨p, paired, same, rfl, rfl⟩ := sound.inv.received mem call calm
    obtain ⟨sent, _, fits⟩ := sound.inv.paired_calls p paired
    refine ⟨p, paired, same, rfl, sent, fun named => ?_, fun q other again => ?_⟩
    · exact fits.resolve_right named
    · exact sound.inv.same_pairing other paired (.inr again) (.inr same)
  · exact fun p paired q other same => sound.inv.same_pairing paired other (.inl rfl) (.inl same.symm)
  · exact fun e s' r a able ok receives waiting => sound.step_oldest able ok receives waiting
  · intro ρ mem p paired same any
    have settled := sound.inv.return_note ρ mem p paired (.inr same)
    have other : p.sendId ≠ ρ.id := same ▸ sound.pair_ids_ne paired
    rw [settled.note, Pairing.noteOf, if_neg other]
    exact logged.named p paired any

theorem twoRunnable_boot : Boot twoRunnable where
  queues _ := rfl
  awake := twoRunnable_tcb (P := fun c => c.waitingOn = none) rfl rfl
  calm := twoRunnable_tcb (P := fun c => c.flags.interrupted = false) rfl rfl

def recvFromAny : IpcArgs := { dest := l4Nilthread, source := l4Anythread, flags := ipcFlagsShort, mr := fun _ => 0 }
def sendToOne : IpcArgs := { dest := 1, source := l4Nilthread, flags := ipcFlagsShort, mr := fun _ => 7 }

/-- Thread 1 waits for anyone, thread 2 sends to it and calls itself thread 7, thread 1 returns. -/
def meeting : List Event := [.call 1 recvFromAny, .call 2 sendToOne, .finish 1]

theorem ipc_rendezvous_meeting : ∃ s, machine.run meeting (start twoRunnable) = some s ∧
    s.returns.map (fun ρ => (ρ.code, ρ.note.mr mrSender)) = [(0, 7), (0, 2)] ∧ Rendezvous s := by
  have ran : machine.run meeting (start twoRunnable) =
    some ((machine.run meeting (start twoRunnable)).get (by decide)) := by simp
  refine ⟨_, ran, by decide, ipc_rendezvous twoRunnable_boot (machine.reachesUnder_of_run ?_ ran)⟩
  intro e mem s
  simp only [meeting, List.mem_cons, List.not_mem_nil, or_false] at mem
  rcases mem with rfl | rfl | rfl <;> trivial

/-! ## Runs of the protocol -/

theorem Sound.moves (sound : Sound s) (reached : machine.ReachesUnder Orderly s s') : Moves s.meet s'.meet ∧ Sound s' := by
  refine reached.invariant (I := fun s' => Moves s.meet s'.meet ∧ Sound s') ?_ ⟨.refl, sound⟩
  rintro _ _ _ ⟨moves, sound⟩ able orderly ok
  have advances := sound.step able orderly ok
  exact ⟨moves.trans advances.moves, advances.sound sound⟩

theorem once_of_moves {m m' : Meet L4id L4id Note} (inv : Inv accepts m) (once : (m.returns.map Return.id).Nodup)
    (moves : Moves m m') : (m'.returns.map Return.id).Nodup := by
  induction moves with
  | refl => exact once
  | tail before moved rest => exact (Inv.moves inv before).returns_once rest moved

theorem meeting_reached : ∃ s, machine.ReachesUnder Orderly (start twoRunnable) s ∧ s.returns.map Return.id = [1, 0] := by
  have ran : machine.run meeting (start twoRunnable) =
    some ((machine.run meeting (start twoRunnable)).get (by decide)) := by simp
  refine ⟨_, machine.reachesUnder_of_run (fun e mem s => ?_) ran, by decide⟩
  fin_cases mem <;> trivial

/-- **IPC is a run of the rendezvous protocol**: what the kernel does between two states of a run is moves of the protocol,
and the wait queues agree with the threads. -/
theorem ipc_refines_rendezvous (boot : Boot k) (reached : machine.ReachesUnder Orderly (start k) s)
    (later : machine.ReachesUnder Orderly s s') : Moves s.meet s'.meet ∧ Placed s' := by
  obtain ⟨moves, sound⟩ := (boot.sound.moves reached).2.moves later
  exact ⟨moves, sound.placed⟩

theorem ipc_refines_rendezvous_meeting : ∃ s : Sys, s.returns.map Return.id = [1, 0] ∧ Moves (start twoRunnable).meet s.meet := by
  obtain ⟨s, reached, back⟩ := meeting_reached
  exact ⟨s, back, (ipc_refines_rendezvous twoRunnable_boot .start reached).1⟩

/-- **No reply is lost or given twice.** A call is made by one thread and returns at most once, and a thread that left the
wait queues in a call met a partner or was interrupted or dismissed. -/
theorem ipc_returns_once (boot : Boot k) (reached : machine.ReachesUnder Orderly (start k) s) :
    (s.returns.map Return.id).Nodup ∧
    (∀ ρ ∈ s.returns, ρ.id < s.started.length ∧ ∀ t side, (s.pc t).call ≠ some (ρ.id, side)) ∧
    ∀ t id side, (s.pc t).call = some (id, side) → s.started[id]? = some (t, side) ∧
      ((s.k.tcb t).waitingOn = none → (s.k.tcb t).flags.interrupted = true ∨ id ∈ s.dismissed ∨ ∃ p ∈ s.pairs, p.Involves id) := by
  obtain ⟨moves, sound⟩ := boot.sound.moves reached
  refine ⟨once_of_moves boot.sound.inv List.nodup_nil moves, sound.inv.returned,
    fun t id side calls => ⟨sound.inv.calls t id side calls, fun free => ?_⟩⟩
  exact sound.inv.unqueued t id side calls fun queued => (sound.placed.queued_iff t).mp queued free

theorem ipc_returns_once_meeting : ∃ s : Sys, s.returns.map Return.id = [1, 0] ∧
    ∀ ρ ∈ s.returns, ρ.id < s.started.length ∧ ∀ t side, (s.pc t).call ≠ some (ρ.id, side) := by
  obtain ⟨s, reached, back⟩ := meeting_reached
  exact ⟨s, back, (ipc_returns_once twoRunnable_boot reached).2.1⟩

end Codezero.Kernel.IpcRuns
