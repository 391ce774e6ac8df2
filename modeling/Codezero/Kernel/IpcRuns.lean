import Codezero.Kernel.Thread
import Codezero.Lib.Machine
import Codezero.Lib.Rendezvous

/-!
# Runs of IPC

Threads make `sys_ipc` calls in any interleaving, each body up to its `schedule()` being one step of
whatever runnable thread the scheduler picked, while other threads interrupt, suspend, recycle and
destroy them. The run keeps the history of calls, pairings and returns.
-/

namespace Codezero.Kernel.IpcRuns
open Codezero.Lib Codezero.Lib.Rendezvous
open Function (update)

/-- Where a thread is: outside any call, in `ipc_send` or `ipc_recv` of the numbered call, or between the
two halves of `ipc_sendrecv`. -/
inductive Pc
  | user
  | sending (id : Nat) (dest : L4id) (reply : Bool)
  | receiving (id : Nat) (asked : L4id)
  | turn (peer : L4id)
  deriving DecidableEq, Repr

/-- What a rendezvous leaves with a party: its message registers and the flags that carry its status. -/
structure Note where
  mr : Mr
  ipcFlags : Word

def Note.of (c : Ktcb) : Note := ⟨c.mr, c.ipcFlags⟩

structure Sys where
  k : State
  pc : L4id → Pc := fun _ => .user
  started : List (L4id × Side L4id L4id) := []
  pairs : List (Pairing L4id L4id Note) := []
  returns : List (Return Note) := []
  dismissed : List Nat := []
  /-- Calls that failed before they could wait or meet anyone. -/
  refusals : List (L4id × Int) := []

inductive Event
  | call (t : L4id) (args : IpcArgs)
  | turn (t : L4id) (access : Access)
  | finish (t : L4id)
  | interrupt (t : L4id)
  | signal (caller t : L4id)
  | suspend (t : L4id)
  | resume (t : L4id)
  | recycle (t : L4id)
  | remove (t : L4id)
  | destroySelf (t : L4id)
  | create (t : L4id)

/-- The call a thread is in, as the protocol numbers it. -/
def Pc.call : Pc → Option (Nat × Side L4id L4id)
  | .sending id dest _ => some (id, .send dest)
  | .receiving id asked => some (id, .recv asked)
  | .user => none
  | .turn _ => none

def Pc.isTurn : Pc → Bool
  | .turn _ => true
  | _ => false

/-- Where a thread is after its send returned `code`: `ipc_sendrecv` goes on unless it is negative. -/
def afterSend (dest : L4id) (reply : Bool) (code : Int) : Pc := if reply ∧ 0 ≤ code then .turn dest else .user

def Pc.after (code : Int) : Pc → Pc
  | .sending _ dest reply => afterSend dest reply code
  | _ => .user

@[simp] theorem afterSend_call (dest : L4id) (reply : Bool) (code : Int) : (afterSend dest reply code).call = none := by
  unfold afterSend
  split <;> rfl

@[simp] theorem Pc.after_call (code : Int) (p : Pc) : (p.after code).call = none := by
  cases p with
  | sending _ dest reply => exact afterSend_call dest reply code
  | _ => rfl

def Pc.id : Pc → Nat
  | .sending id _ _ => id
  | .receiving id _ => id
  | _ => 0

/-- The number of the call a thread is in. -/
def Sys.callId (s : Sys) (t : L4id) : Nat := (s.pc t).id

def Sys.note (s : Sys) (t : L4id) : Note := .of (s.k.tcb t)

/-- `receiver == ANYTHREAD` or the sender's own id, as both sides test it. -/
def accepts (asked sender : L4id) : Prop := sender = asked ∨ asked = l4Anythread

/-- A sender waits in the queue of its receiver. -/
def Sys.sendSleep (s : Sys) (k : State) (t dest : L4id) (reply : Bool) : Sys :=
  { s with k := k, pc := update s.pc t (.sending s.started.length dest reply),
           started := s.started ++ [(t, .send dest)] }

/-- A sender met the receiver it found asleep. -/
def Sys.sendMeet (s : Sys) (k : State) (t dest : L4id) (reply : Bool) (code : Int) : Sys :=
  { s with k := k, pc := update s.pc t (afterSend dest reply code),
           started := s.started ++ [(t, .send dest)],
           pairs := s.pairs ++ [⟨s.started.length, s.callId dest, t, dest, (s.k.tcb dest).expectedSender,
             .of (k.tcb t), .of (k.tcb dest), code⟩],
           returns := s.returns ++ [⟨s.started.length, code, .of (k.tcb t), .met⟩] }

/-- `ipc_send` by thread `t`, with the receiver it meets read off the state it runs in. -/
def Sys.send (s : Sys) (t dest : L4id) (reply : Bool) (access : Access) : Except Bug Sys := do
  let (k, exit) ← ipcSend access dest s.k
  match exit with
  | .sleep => pure (s.sendSleep k t dest reply)
  | .ret code | .yield code =>
    if s.k.present dest = true ∧ recvReady dest t s.k then pure (s.sendMeet k t dest reply code)
    else pure { s with k := k, pc := update s.pc t .user, refusals := s.refusals ++ [(t, code)] }

def Sys.recvSleep (s : Sys) (k : State) (t source : L4id) : Sys :=
  { s with k := k, pc := update s.pc t (.receiving s.started.length source),
           started := s.started ++ [(t, .recv source)] }

/-- A receiver met the sender `u` it took from its queue. -/
def Sys.recvMeet (s : Sys) (k : State) (t u source : L4id) (code : Int) : Sys :=
  { s with k := k, pc := update s.pc t .user,
           started := s.started ++ [(t, .recv source)],
           pairs := s.pairs ++ [⟨s.callId u, s.started.length, u, t, source, .of (k.tcb u), .of (k.tcb t), code⟩],
           returns := s.returns ++ [⟨s.started.length, code, .of (k.tcb t), .met⟩] }

/-- `ipc_recv` by thread `t`, with the sender it meets read off the state it runs in. -/
def Sys.recv (s : Sys) (t source : L4id) (access : Access) : Except Bug Sys := do
  let (k, exit) ← ipcRecv access source s.k
  match exit with
  | .sleep => pure (s.recvSleep k t source)
  | .ret code | .yield code =>
    match recvFound source s.k with
    | some u => pure (s.recvMeet k t u source code)
    | none => pure { s with k := k, pc := update s.pc t .user, refusals := s.refusals ++ [(t, code)] }

theorem Sys.send_started {s s' : Sys} {t dest : L4id} {reply : Bool} {access : Access}
    (ok : s.send t dest reply access = .ok s') :
    s'.started = s.started ∨ s'.started = s.started ++ [(t, .send dest)] := by
  unfold Sys.send at ok
  obtain ⟨⟨k, exit⟩, _, ok⟩ := bind_eq_ok.mp ok
  cases exit with
  | sleep => cases ok; exact .inr rfl
  | ret code | yield code =>
    simp only at ok
    split at ok <;> cases ok
    · exact .inr rfl
    · exact .inl rfl

theorem Sys.recv_started {s s' : Sys} {t source : L4id} {access : Access} (ok : s.recv t source access = .ok s') :
    s'.started = s.started ∨ s'.started = s.started ++ [(t, .recv source)] := by
  unfold Sys.recv at ok
  obtain ⟨⟨k, exit⟩, _, ok⟩ := bind_eq_ok.mp ok
  cases exit with
  | sleep => cases ok; exact .inr rfl
  | ret code | yield code =>
    simp only at ok
    split at ok <;> cases ok
    · exact .inr rfl
    · exact .inl rfl

/-- A woken thread runs on: `ipc_handle_errors`, then the second half of `ipc_sendrecv` if it has one. -/
def Sys.finish (s : Sys) (t : L4id) : Sys :=
  let (k, code) := ipcHandleErrors t s.k
  { s with
    k := k
    pc := update s.pc t ((s.pc t).after code)
    returns := s.returns ++ [⟨s.callId t, code, s.note t,
      if (s.k.tcb t).flags.interrupted then .interrupted else .woken⟩] }

def Sys.enter (s : Sys) (t : L4id) : Sys := { s with k := { s.k with current := t } }

/-- Thread `t` has entered `sys_ipc` and comes to its first rendezvous. -/
def Sys.begin (s : Sys) (t : L4id) (args : IpcArgs) : Sys := { s with k := (sysIpc args (s.enter t).k).1 }

def step (s : Sys) : Event → Except Bug Sys
  | .call t args =>
    match (sysIpc args (s.enter t).k).2 with
    | .refuse code => pure { s.begin t args with refusals := s.refusals ++ [(t, code)] }
    | .send dest reply => (s.begin t args).send t dest reply args.access
    | .recv source => (s.begin t args).recv t source args.access
  | .turn t access =>
    match s.pc t with
    | .turn peer => (s.enter t).recv t peer access
    | _ => pure s
  | .finish t => pure ((s.enter t).finish t)
  | .interrupt t => do
    let (k, _) ← wakeUpTask t { interrupt := true } s.k
    pure { s with k := k }
  | .signal caller t => do
    let (k, _) ← threadSignal t { s.k with current := caller }
    pure { s with k := k }
  | .suspend t => do
    let k ← schedSuspendAsync { s.k with current := t }
    pure { s with k := k }
  | .resume t => do
    let k ← schedResumeAsync t s.k
    pure { s with k := k }
  | .recycle t => do
    let k ← threadRecycle t s.k
    pure { s with k := k, pc := update s.pc t .user,
                  dismissed := (s.k.wqh (.send t)).taskList.reverse.map s.callId ++ s.dismissed }
  | .remove t => do
    let k ← threadRemove t s.k
    pure { s with k := k }
  | .destroySelf t => do
    let k ← threadDestroySelf { s.k with current := t }
    pure { s with k := k }
  | .create t =>
    pure { s with k := { s.k with tcb := update s.k.tcb t {}, present := update s.k.present t true },
                  pc := update s.pc t .user }

/-- When an event can happen: bodies are run by runnable threads at the right place. -/
def enabled (s : Sys) : Event → Prop
  | .call t _ => s.k.present t = true ∧ (s.k.tcb t).state = .runnable ∧ s.pc t = .user
  | .turn t _ => (s.k.tcb t).state = .runnable ∧ (s.pc t).isTurn = true
  | .finish t => (s.k.tcb t).state = .runnable ∧ (s.pc t).call ≠ none
  | .interrupt _ => True
  | .signal caller t => caller ≠ t ∧ (s.k.tcb caller).state = .runnable
  | .suspend t => (s.k.tcb t).state = .runnable ∧ (s.k.tcb t).flags.suspending = true
  | .resume t => (s.k.tcb t).state = .inactive ∧ s.k.present t = true
  | .recycle t => (s.k.tcb t).state = .inactive ∧ s.k.present t = true
  | .remove t => (s.k.tcb t).state = .inactive ∧ s.k.present t = true
  | .destroySelf t => s.k.present t = true ∧ (s.k.tcb t).state = .runnable ∧ s.pc t = .user
  | .create t => s.k.present t = false ∧ (s.k.tcb t).state = .inactive

instance (s : Sys) (e : Event) : Decidable (enabled s e) := by
  cases e <;> unfold enabled <;> infer_instance

def machine : Machine Sys Event Bug := ⟨enabled, step⟩

instance (s : Sys) (e : Event) : Decidable (machine.enabled s e) := inferInstanceAs (Decidable (enabled s e))

theorem Pc.isTurn_iff {p : Pc} : p.isTurn = true ↔ ∃ peer, p = .turn peer := by
  cases p <;> simp [Pc.isTurn]

/-- The protocol state a run is in: queues, calls and history, without scheduling. -/
def Sys.meet (s : Sys) : Meet L4id L4id Note where
  senders r := (s.k.wqh (.send r)).taskList
  waiting r := (s.k.tcb r).waitingOn = some (.recv r)
  pc t := (s.pc t).call
  interrupted t := (s.k.tcb t).flags.interrupted
  note := s.note
  started := s.started
  pairs := s.pairs
  returns := s.returns
  dismissed := s.dismissed

end Codezero.Kernel.IpcRuns
