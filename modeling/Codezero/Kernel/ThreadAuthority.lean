import Codezero.Kernel.ThreadControl
import Codezero.Kernel.Exclusive

/-!
# Who may control a thread

The check of `sys_thread_control` compares the caller's space with that of the caller's own pager. It says that the
caller shares the space of the target's pager where the two pagers are in one space.
-/

namespace Codezero.Kernel.ThreadAuthority
open Codezero.Lib Codezero.Cap
open Children (Family)
open ControlLock (Rights spaceIsPager threadControlLock)
open ThreadControl
open Function (update)

/-- Part of a call that was made in `f0`: the first one, or one of those after a wait, whatever the others have done in
the meantime. -/
inductive Part (r : Rights) (t : L4id) (access : ControlLock.Access) (flags : Word) (tid : L4id) (f0 : Family) :
    Family → Family → Prop
  | first {child : Option L4id} {f' : Family} {out : Outcome} (ok : sysThreadControl r t access flags tid child f0 = .ok (f', out)) :
      Part r t access flags tid f0 f0 f'
  | later {child child' : Option L4id} {f1 f f' : Family} {p p' : Parked} {out : Outcome}
      (waits : sysThreadControl r t access flags tid child f0 = .ok (f1, .parked p))
      (ok : resume child' (f.enter t) p' = .ok (f', out)) : Part r t access flags tid f0 f f'

/-- The thread's control block is changed, or the thread is put on or taken off the list of its container. -/
def Affected (tid : L4id) (f f' : Family) : Prop := f'.k.tcb tid ≠ f.k.tcb tid ∨ f'.k.present tid ≠ f.k.present tid

/-- The caller shares the space of the target's pager. -/
def Shares (spid : L4id → Word) (pager : L4id → Option L4id) (t tid : L4id) : Prop :=
  ∃ p, pager tid = some p ∧ spid t = spid p

/-- The caller has a capability with the right for the action that names the target. -/
def Holds (r : Rights) (t : L4id) (flags : Word) (tid : L4id) : Prop :=
  ∃ c ∈ (r.caps t).all, capType c = capTypeTctrl ∧ Names (r.target tid) c ∧
    ∃ right, tctrlRight (flags &&& threadActionMask) = some right ∧ c.access &&& right ≠ 0

section
variable {r : Rights} {t tid : L4id} {access : ControlLock.Access} {flags : Word} {child : Option L4id} {f f' f0 : Family}
  {out : Outcome} {a : Action}

theorem capThreadCheck_cases {l : CapLists} {target : Target} {cid : Word} {err : Int}
    (ok : capThreadCheck l (some target) flags cid = .ok err) :
    err = enocap ∨ err = 0 ∧ ∃ c ∈ l.all, capType c = capTypeTctrl ∧ Names target c ∧
      ∃ right, tctrlRight (flags &&& threadActionMask) = some right ∧ c.access &&& right ≠ 0 := by
  obtain ⟨found, search, ok⟩ := bind_eq_ok.mp ok
  cases found with
  | none =>
    cases ok
    exact .inl rfl
  | some c =>
    cases ok
    obtain ⟨mem, type, accepted⟩ := capFind_some search
    unfold capMatchThread at accepted
    split at accepted
    · cases accepted
    · next right known =>
      split at accepted
      · cases accepted
      · next has =>
        dsimp only at accepted
        split at accepted
        · cases accepted
        · exact .inr ⟨rfl, c, mem, type, capNames_true accepted, right, known, has⟩

/-- A call is refused and changes nothing, or it passed the checks and acts. -/
theorem sysThreadControl_cases (ok : sysThreadControl r t access flags tid child f = .ok (f', out)) :
    (f' = f ∧ ∃ code, out = .returned code) ∨
    (Shares r.spid (fun u => (f.k.tcb u).pager) t t ∧ Holds r t flags tid ∧
      ∃ a, actionOf flags = some a ∧ act tid child (f.enter t) a = .ok (f', out)) := by
  unfold sysThreadControl at ok
  split at ok
  · cases ok
    exact .inl ⟨rfl, _, rfl⟩
  split at ok
  · cases ok
    exact .inl ⟨rfl, _, rfl⟩
  obtain ⟨shares, asked, ok⟩ := bind_eq_ok.mp ok
  cases shares with
  | false =>
    cases ok
    exact .inl ⟨rfl, _, rfl⟩
  | true =>
    obtain ⟨err, checked, ok⟩ := bind_eq_ok.mp ok
    rcases capThreadCheck_cases checked with rfl | ⟨rfl, holds⟩
    · cases ok
      exact .inl ⟨rfl, _, rfl⟩
    · rw [if_neg (lt_irrefl _)] at ok
      split at ok
      · cases ok
        exact .inl ⟨rfl, _, rfl⟩
      · next a known =>
        refine .inr ⟨?_, holds, a, known, ok⟩
        unfold spaceIsPager at asked
        split at asked
        · cases asked
        · next p pager => exact ⟨p, pager, by simpa [pure, Except.pure] using asked⟩

/-- What destroys a thread is its pager or itself. -/
theorem act_destroy_shares {spid : L4id → Word} (own : Shares spid (fun u => (f.k.tcb u).pager) t t)
    (ok : act tid child (f.enter t) .destroy = .ok (f', out)) : Shares spid (fun u => (f.k.tcb u).pager) t tid := by
  change ThreadControl.threadDestroy tid child (f.enter t) = _ at ok
  unfold ThreadControl.threadDestroy at ok
  split at ok
  · next both => exact ⟨t, both.2, rfl⟩
  · split at ok
    · next self => exact self ▸ own
    · cases ok

end

/-! ## States in which an action goes through -/

/-- The thread `t` runs alone, with the pagers `pager`. -/
def alone (pager : L4id → Option L4id) (t : L4id) : Family :=
  { k := { tcb := fun u => { pager := pager u, state := if u = t then .runnable else .inactive }
           present := fun _ => true
           sched := Scheduler.ready [t]
           current := t } }

/-- The thread `t` runs, and `tid` is ready to. -/
def together (pager : L4id → Option L4id) (t tid : L4id) : Family :=
  { k := { tcb := fun u => { pager := pager u, state := if u = t ∨ u = tid then .runnable else .inactive }
           present := fun _ => true
           sched := Scheduler.ready [t, tid]
           current := t } }

section
variable {pager : L4id → Option L4id} {t tid : L4id}

theorem alone_off (apart : tid ≠ t) : ¬ (Scheduler.ready [t]).onRq tid := by
  rw [onRq_iff (ready_wf (by simp)), ready_linked]
  simpa using apart

theorem wakeUpAll_empty {q : Wqh} {i : Bool} {k : State} (none : (k.wqh q).sleepers = 0) : wakeUpAll q i k = .ok k := by
  simp [wakeUpAll, none, wakeUpAllLoop, pure, Except.pure]

variable (pager) in
theorem acts_wait (apart : tid ≠ t) : ∃ f' out, act tid none (alone pager t) .wait = .ok (f', out) ∧
    Affected tid (alone pager t) f' := by
  have inactive : ((alone pager t).k.tcb tid).state = .inactive := if_neg apart
  let gone : State := { (alone pager t).k with present := update (fun _ => true) tid false }
  have removed : threadRemove tid (alone pager t).k = .ok gone := by
    have quiet : ∀ q i, wakeUpAll q i gone = .ok gone := fun _ _ => wakeUpAll_empty rfl
    change (wakeUpAll (.send tid) true gone >>= wakeUpAll (.recv tid) true) = _
    rw [quiet]
    exact quiet (.recv tid) true
  have unlinked : Children.tcbRemove tid (alone pager t) = .ok { alone pager t with k := gone } := by
    rw [Children.tcbRemove, if_neg (by simp [Family.linked, alone]), removed]
    rfl
  have waited : Children.threadWait tid (alone pager t) = .ok { alone pager t with k := gone, zombies := [tid] } := by
    rw [Children.threadWait, unlinked]
    simp only [bind, Except.bind]
    rw [if_neg (by simp [gone, alone, apart]), Children.zombieAdd, if_neg (by simp [Family.linked, gone, alone])]
    rfl
  refine ⟨{ alone pager t with k := gone, zombies := [tid] }, .returned 0, ?_, .inr (by simp [gone, alone])⟩
  rw [act, eventTurn, if_pos inactive, finish, if_neg (lt_irrefl _), waited]
  rfl

variable (pager) in
theorem acts_recycle (apart : tid ≠ t) : ∃ f' out, act tid none (alone pager t) .recycle = .ok (f', out) ∧
    Affected tid (alone pager t) f' := by
  have inactive : ((alone pager t).k.tcb tid).state = .inactive := if_neg apart
  let cleared : State := tcbInit tid (alone pager t).k
  have clears : archClearThread tid (alone pager t).k = .ok cleared := by
    have off : ¬ (alone pager t).k.sched.onRq tid := alone_off apart
    have free : (alone pager t).k.sched.taskRq tid = none := not_not.mp fun on => apart (by simpa using ready_linked.mp on)
    rw [archClearThread, if_neg]
    simp only [off, free, false_or, ne_eq, not_true_eq_false]
    simp [alone]
  have recycled : ThreadControl.threadRecycle tid (alone pager t) =
      .ok { alone pager t with k := { cleared with present := update cleared.present tid true } } := by
    have quiet : ∀ q i, wakeUpAll q i (alone pager t).k = .ok (alone pager t).k := fun _ _ => wakeUpAll_empty rfl
    simp only [ThreadControl.threadRecycle, quiet, bind, Except.bind]
    rw [if_neg (by simp [alone]), if_neg (by simp [Family.linked, alone]), clears]
    rfl
  refine ⟨{ alone pager t with k := { cleared with present := update cleared.present tid true } }, .returned 0, ?_, .inl ?_⟩
  · rw [act, signal, threadSignal, if_pos inactive]
    simp only [bind, Except.bind, pure, Except.pure]
    rw [eventTurn, if_pos inactive, finish, if_neg (lt_irrefl _), recycled]
    rfl
  · intro same
    have flag : (cleared.tcb tid).flags.resuming = ((alone pager t).k.tcb tid).flags.resuming := congrArg (fun c => c.flags.resuming) same
    simp [cleared, tcbInit, alone] at flag

variable (pager) in
theorem acts_run (apart : tid ≠ t) : ∃ f' out, act tid none (alone pager t) .run = .ok (f', out) ∧
    Affected tid (alone pager t) f' := by
  have off : (alone pager t).k.sched.taskRq tid = none := not_not.mp fun on => apart (by simpa using ready_linked.mp on)
  obtain ⟨σ, added, -, -⟩ := schedRqAddTask_ok (i := (alone pager t).k.sched.rqRunnable) true (show (Scheduler.ready [t]).queues.Wf from ready_wf (by simp)) off
  -- the control lock is free, so the lock and the lock count are back where they were
  let m := threadControlLock tid
  let locked : State := addLocks 1 { (alone pager t).k with lock := update (fun _ => false) m true }
  let started : State := { locked.modify tid (fun c => { c with state := .runnable }) with sched := σ }
  have resumed : schedResumeAsync tid locked = .ok started := schedResumeAsync_ok.mpr ⟨σ, added, rfl⟩
  let unlocked : State := addLocks (-1) { started with lock := update started.lock m false }
  have released : mutexUnlock m started = .ok (unlocked, .ret 0) := by
    have held : started.lock m = true := by simp [started, locked, addLocks]
    have count : ¬ (unlocked.tcb unlocked.current).nlocks < 0 := by
      simp [unlocked, started, locked, addLocks, alone, Ne.symm apart]
    have none : (unlocked.wqh (.mutex m)).sleepers = 0 := rfl
    have taken : mutexUnlockTake m started = .ok (unlocked, Option.none) := by
      rw [mutexUnlockTake, swpUnlock, if_pos held]
      change mutexPick m unlocked = _
      rw [mutexPick, if_neg count, none, if_neg (by decide), if_neg (by decide)]
    rw [mutexUnlock, mutexUnlockCommon, taken]
    rfl
  refine ⟨{ alone pager t with k := unlocked }, .returned 0, ?_, .inl ?_⟩
  · change (schedResumeAsync tid locked >>= fun k => mutexUnlock m k >>= fun r => pure ({ alone pager t with k := r.1 }, Outcome.returned 0)) = _
    rw [resumed]
    simp only [bind, Except.bind, released]
    rfl
  · intro same
    have state : (unlocked.tcb tid).state = ((alone pager t).k.tcb tid).state := congrArg Ktcb.state same
    simp [unlocked, started, locked, addLocks, alone, apart] at state

variable (pager) in
theorem acts_suspend (apart : tid ≠ t) : ∃ f' out, act tid none (together pager t tid) .suspend = .ok (f', out) ∧
    Affected tid (together pager t tid) f' := by
  let flagged : State := (together pager t tid).k.modify tid fun c => { c with flags := { c.flags with suspending := true } }
  have active : ((together pager t tid).k.tcb tid).state ≠ .inactive := by simp [together]
  have signalled : threadSignal tid (together pager t tid).k = .ok (flagged, .ret (-1)) := by
    rw [threadSignal, if_neg active]
    have awake : (flagged.tcb tid).waitingOn = none := by simp [flagged, together]
    change wakeUpTask tid { interrupt := true, sync := true } flagged = _
    rw [wakeUpTask, wakeUpTaskTake, awake]
    rfl
  have on : flagged.sched.taskRq t = some 0 := by simp [flagged, together, Scheduler.ready]
  obtain ⟨σ, removed, -, -⟩ := schedRqRemoveTask_ok (show (Scheduler.ready [t, tid]).queues.Wf from ready_wf (by simpa using Ne.symm apart)) on
  have slept : waitOnPrepare (.pager tid) flagged = .ok (Kernel.slept t (.pager tid) flagged σ) :=
    waitOnPrepare_ok.mpr ⟨σ, removed, rfl⟩
  refine ⟨{ together pager t tid with k := Kernel.slept t (.pager tid) flagged σ }, .parked (.event .suspend tid true), ?_, .inl ?_⟩
  · have still : (flagged.tcb tid).state ≠ .inactive := by simp [flagged, together]
    rw [act, signal, signalled]
    simp only [bind, Except.bind]
    rw [eventTurn, if_neg still]
    dsimp only
    rw [slept]
    rfl
  · intro same
    have flag : ((Kernel.slept t (.pager tid) flagged σ).tcb tid).flags.suspending = ((together pager t tid).k.tcb tid).flags.suspending :=
      congrArg (fun c => c.flags.suspending) same
    rw [slept_tcb_of_ne apart] at flag
    simp [flagged, together] at flag

end

/-- A capability with all rights over the thread. -/
def allOver (tid : L4id) : Capability := { type := capTypeTctrl ||| capRtypeThread, resid := tid, access := 0x3F }

section
variable {r : Rights} {pager : L4id → Option L4id} {t tid : L4id} {flags : Word} {child : Option L4id} {f : Family} {a : Action}

theorem actionOf_right (known : actionOf flags = some a) : ∃ right, tctrlRight (flags &&& threadActionMask) = some right ∧
    0x3F &&& right ≠ 0 ∧ flags &&& threadActionMask ≠ threadCreate := by
  unfold actionOf at known
  split_ifs at known with run suspend destroy recycle wait
  · exact run ▸ ⟨capTctrlRun, rfl, by decide, by decide⟩
  · exact suspend ▸ ⟨capTctrlSuspend, rfl, by decide, by decide⟩
  · exact destroy ▸ ⟨capTctrlDestroy, rfl, by decide, by decide⟩
  · exact recycle ▸ ⟨capTctrlRecycle, rfl, by decide, by decide⟩
  · exact wait ▸ ⟨capTctrlWait, rfl, by decide, by decide⟩

variable (child) in
/-- A call by a thread in the space of its pager, with all rights, goes on to its action. -/
theorem sysThreadControl_act (caps : r.caps t = { space := [allOver tid] }) (present : f.k.present tid = true) (known : actionOf flags = some a)
    (own : Shares r.spid (fun u => (f.k.tcb u).pager) t t) :
    sysThreadControl r t .granted flags tid child f = act tid child (f.enter t) a := by
  obtain ⟨p, isPager, same⟩ := own
  obtain ⟨right, needed, has, other⟩ := actionOf_right known
  have shares : spaceIsPager r { k := f.k } t = .ok true := by
    simp [spaceIsPager, show (f.k.tcb t).pager = some p from isPager, same, pure, Except.pure]
  have type : capType (allOver tid) = capTypeTctrl :=
    show (capTypeTctrl ||| capRtypeThread) &&& capTypeMask = capTypeTctrl by decide
  have thread : capRtype (allOver tid) = capRtypeThread :=
    show (capTypeTctrl ||| capRtypeThread) &&& capRtypeMask = capRtypeThread by decide
  have accepted : capMatchThread (some (r.target tid)) flags (r.cid t) (allOver tid) = .ok true := by
    rw [capMatchThread, needed]
    dsimp only
    rw [if_neg (show (allOver tid).access &&& right ≠ 0 from has), if_neg other, capNames, if_pos thread]
    simp [Rights.target, allOver, pure, Except.pure]
  have checked : capThreadCheck (r.caps t) (some (r.target tid)) flags (r.cid t) = .ok 0 := by
    rw [caps, capThreadCheck, capFind_single type accepted]
    rfl
  rw [sysThreadControl, if_neg (by decide), if_neg (by simp [present]), shares]
  simp only [bind, Except.bind, if_true, checked, known]
  rw [if_neg (lt_irrefl _)]

variable (pager) in
/-- The actions, but for the destruction of a thread, that go through for any two threads. -/
theorem acts (apart : tid ≠ t) (other : a ≠ .destroy) : ∃ f0 f' out, (∀ u, (f0.k.tcb u).pager = pager u) ∧
    f0.k.present tid = true ∧ act tid none (f0.enter t) a = .ok (f', out) ∧ Affected tid f0 f' := by
  cases a with
  | run =>
    obtain ⟨f', out, ok, affected⟩ := acts_run pager apart
    exact ⟨alone pager t, f', out, fun _ => rfl, rfl, ok, affected⟩
  | suspend =>
    obtain ⟨f', out, ok, affected⟩ := acts_suspend pager apart
    exact ⟨together pager t tid, f', out, fun _ => rfl, rfl, ok, affected⟩
  | destroy => exact absurd rfl other
  | recycle =>
    obtain ⟨f', out, ok, affected⟩ := acts_recycle pager apart
    exact ⟨alone pager t, f', out, fun _ => rfl, rfl, ok, affected⟩
  | wait =>
    obtain ⟨f', out, ok, affected⟩ := acts_wait pager apart
    exact ⟨alone pager t, f', out, fun _ => rfl, rfl, ok, affected⟩

/-- What is affected by a call has passed its checks. -/
theorem Part.passed {access : ControlLock.Access} {f0 f f' : Family} (part : Part r t access flags tid f0 f f') (affected : Affected tid f f') :
    Shares r.spid (fun u => (f0.k.tcb u).pager) t t ∧ Holds r t flags tid ∧
      ∃ a child f1 out, actionOf flags = some a ∧ act tid child (f0.enter t) a = .ok (f1, out) := by
  cases part with
  | first ok =>
    rcases sysThreadControl_cases ok with ⟨rfl, -⟩ | ⟨own, holds, a, known, ok⟩
    · exact absurd affected (by simp [Affected])
    · exact ⟨own, holds, a, _, _, _, known, ok⟩
  | later waits ok =>
    rcases sysThreadControl_cases waits with ⟨-, code, wrong⟩ | ⟨own, holds, a, known, ok⟩
    · cases wrong
    · exact ⟨own, holds, a, _, _, _, known, ok⟩

end

/-- For every two threads with any pagers and spaces, and every action: whatever capabilities the caller has and whatever
state the threads are in, a call that affects the target is by a thread that shares the space of the target's pager and
holds the right, exactly when that is so of every caller that shares the space of its own pager (or the action destroys
the target, or is none). -/
theorem thread_control_shares (r : Rights) (pager : L4id → Option L4id) (t tid : L4id) (flags : Word) :
    (∀ caps access f0 f f', (∀ u, (f0.k.tcb u).pager = pager u) → Part { r with caps := caps } t access flags tid f0 f f' →
      Affected tid f f' → Shares r.spid pager t tid ∧ Holds { r with caps := caps } t flags tid) ↔
    (Shares r.spid pager t t → Shares r.spid pager t tid ∨ actionOf flags = none ∨ actionOf flags = some .destroy) := by
  constructor
  · intro entitled own
    by_contra others
    obtain ⟨foreign, others⟩ := not_or.mp others
    obtain ⟨known, other⟩ := not_or.mp others
    obtain ⟨a, known⟩ := Option.ne_none_iff_exists'.mp known
    have apart : tid ≠ t := fun same => foreign (same ▸ own)
    obtain ⟨f0, f', out, pagers, present, ok, affected⟩ := acts pager (a := a) apart fun same => other (same ▸ known)
    have own0 : Shares r.spid (fun u => (f0.k.tcb u).pager) t t := by simpa only [pagers] using own
    have call := sysThreadControl_act none (r := { r with caps := fun _ => { space := [allOver tid] } }) rfl present known own0
    exact foreign (entitled _ .granted f0 f0 f' pagers (.first (call.trans ok)) affected).1
  · intro cond caps access f0 f f' pagers part affected
    obtain ⟨own, holds, a, child, f1, out, known, ok⟩ := part.passed affected
    have same : (fun u => (f0.k.tcb u).pager) = pager := funext pagers
    refine ⟨?_, holds⟩
    rcases cond (same ▸ own) with shares | none | destroys
    · exact shares
    · cases none.symm.trans known
    · obtain rfl := Option.some.inj (destroys.symm.trans known)
      exact same ▸ act_destroy_shares own ok

/-- The pagers 1 and 2 in spaces of their own, with the thread 3 a child of 2, in one container; 1 may do all to 3. -/
def twoPagers : Rights where
  caps := fun _ => { space := [allOver 3] }
  spid := fun u => if u = 1 then 1 else 2
  cid := fun _ => 1

/-- The thread 1 starts a thread whose pager, 2, it shares no space with. -/
theorem thread_control_exceeds :
    ∃ f f' : Family, sysThreadControl twoPagers 1 .granted Cap.threadRun 3 none f = .ok (f', .returned 0) ∧
      (f.k.tcb 3).pager = some 2 ∧ twoPagers.spid 1 ≠ twoPagers.spid 2 ∧
      (f.k.tcb 3).state = .inactive ∧ (f'.k.tcb 3).state = .runnable :=
  ⟨alone (fun u => if u = 1 then some 1 else some 2) 1, _, rfl, rfl, by decide, rfl, rfl⟩

end Codezero.Kernel.ThreadAuthority
