import Codezero.Kernel.Exclusive
import Codezero.Kernel.Settles

/-!
# Where `sys_ipc` stops

A full transfer needs both utcbs. What is wrong with one of them comes back as an error code through the copy to
`ipc_signal_error`, which knows two codes and stops at any other. The caller's own utcb is paged in, by another ipc:
`ipc_send` does that with the receiver's `thread_lock` held. An extended call also reads the address of its buffer from
a message register that the user names.
-/

namespace Codezero.Kernel
open Codezero.Lib

/-! ## The model -/

def enoutcb : Int := -135

/-- What `tcb_check_and_lazy_map_utcb` finds of each thread's utcb. -/
structure Utcbs where
  /-- The thread's own space maps it: `check_mapping_pgd`. -/
  mapped : L4id → Bool := fun _ => true
  /-- What `pager_pagein_request` for the caller's own utcb returns, if it does. A fault ipc that fails suspends the
  thread, and a pager that sent the message is not awake to answer. -/
  pageIn : Option Int := none
  /-- The current space maps the utcb to the page the thread has there. -/
  shared : L4id → Bool := fun _ => false
  /-- Where it does not, the second-level table is there, or `pmd_cap_alloc` gets one. -/
  pmd : L4id → Bool := fun _ => true

/-- `check_access_task`: only the caller may have its own utcb paged in. -/
def checkAccessTask (e : Utcbs) (k : State) (t : L4id) : Int :=
  if e.mapped t then 0 else if t = k.current then e.pageIn.getD 0 else efault

/-- `tcb_check_and_lazy_map_utcb`. A utcb is one page, so `add_mapping_use_cap` takes one turn. -/
def tcbCheckAndLazyMapUtcb (e : Utcbs) (k : State) (t : L4id) : Int :=
  if (k.tcb t).utcbAddress = 0 then enoutcb
  else if t = k.current then
    if checkAccessTask e k t < 0 then efault else 0
  else if checkAccessTask e k t < 0 then efault
  else if e.shared t then 0
  else if e.pmd t then 0
  else enomem

/-- The types of a receiver and a sender between which `ipc_msg_copy` copies the whole utcb. -/
def FullTransfer (k : State) (dest source : L4id) : Prop :=
  (tcbGetIpcType (k.tcb dest) = ipcFlagsShort ∧ tcbGetIpcType (k.tcb source) = ipcFlagsFull) ∨
  (tcbGetIpcType (k.tcb dest) = ipcFlagsFull ∧
    (tcbGetIpcType (k.tcb source) = ipcFlagsShort ∨ tcbGetIpcType (k.tcb source) = ipcFlagsFull))

instance (k : State) (dest source : L4id) : Decidable (FullTransfer k dest source) := inferInstanceAs (Decidable (_ ∨ _))

/-- The copy comes to the caller's own utcb, behind the receiver's, and has to ask for it. -/
def asksPager (e : Utcbs) (k : State) (dest source : L4id) : Bool :=
  FullTransfer k dest source ∧ (k.tcb k.current).utcbAddress ≠ 0 ∧ e.mapped k.current = false ∧
    (dest = k.current ∨ ¬ tcbCheckAndLazyMapUtcb e k dest < 0)

/-- The parts of a system call between its `schedule()`s: all of it up to the first rendezvous, and the receive that
`ipc_sendrecv` goes on to. -/
inductive Half
  | call (a : IpcArgs)
  | reply (peer : L4id)

def Half.begin (k : State) : Half → State × IpcBegin
  | .call a => sysIpc a k
  | .reply peer => (k, .recv peer)

/-- The receiver and the sender that meet, with the state they meet in. -/
def Half.meets (k : State) (h : Half) : Option (L4id × L4id) :=
  match h.begin k with
  | (_, .refuse _) => none
  | (k, .send dest _) => if k.present dest = true ∧ recvReady dest k.current k then some (dest, k.current) else none
  | (k, .recv source) => (recvFound source k).map (fun u => (k.current, u))

/-- The request comes to a `schedule()`, which does not take it from `ipc_send`. `ipc_recv` has let go of its locks: it
waits for the answer, and what it goes on with then is a receive from the sender it found, in the state of that time. -/
def Half.run (e : Utcbs) (k : State) (h : Half) : Except Bug (Option (State × Exit)) :=
  let asks := (h.meets k).any fun (dest, source) => asksPager e (h.begin k).1 dest source
  match h.begin k with
  | (k, .refuse code) => pure (some (k, .ret code))
  | (k, .send dest _) =>
    if asks then .error .voluntaryPreempt else some <$> ipcSend ⟨tcbCheckAndLazyMapUtcb e k⟩ dest k
  | (k, .recv source) =>
    if asks && e.pageIn.isNone then pure none else some <$> ipcRecv ⟨tcbCheckAndLazyMapUtcb e k⟩ source k

/-- The thread has a utcb, and it can be mapped unless its owner has not got it mapped. -/
def Utcbs.Usable (e : Utcbs) (k : State) (t : L4id) : Prop :=
  (k.tcb t).utcbAddress ≠ 0 ∧ (t = k.current ∨ e.mapped t = false ∨ e.shared t = true ∨ e.pmd t = true)

instance (e : Utcbs) (k : State) (t : L4id) : Decidable (e.Usable k t) := inferInstanceAs (Decidable (_ ∧ _))

/-- The second utcb is looked at if the first one is there. -/
def Utcbs.Known (e : Utcbs) (k : State) (dest source : L4id) : Prop :=
  e.Usable k dest ∧ (checkAccessTask e k dest < 0 ∨ e.Usable k source)

/-- The caller has its own utcb mapped. A receiver may also wait for its pager's answer, and a sender does not come to its
own utcb if the receiver's faults. -/
def Utcbs.Paged (e : Utcbs) (k : State) (dest : L4id) : Prop :=
  e.mapped k.current = true ∨ if dest = k.current then e.pageIn.isSome = true else e.mapped dest = false

def Utcbs.Ready (e : Utcbs) (k : State) (dest source : L4id) : Prop := e.Known k dest source ∧ e.Paged k dest

section
variable {e : Utcbs} {k k' : State} {t dest source sleeper : L4id} {access : Access} {b : Bug}

end

/-! ## A running caller -/

section
variable {on : Prop} {k k' : State} {t dest source : L4id} {exit : Exit} (core : Core on k)
  (running : (k.tcb k.current).state = .runnable) (busy : k.current ≠ k.sched.idleTask) (e : Utcbs)

section
include core running

/-- The sender that `ipc_recv` found is not the receiver itself. -/
theorem Core.found_ne (found : recvFound source k = some t) : t ≠ k.current := by
  rintro rfl
  unfold recvFound at found
  split_ifs at found
  have mem : k.current ∈ (k.wqh (.send k.current)).taskList := List.mem_of_find?_eq_some found
  have home := (core.waits.mem_iff (.send k.current) k.current).mp mem
  have := core.asleep (q := .send k.current) home
  rw [running] at this
  exact nomatch this

end

section
include core running busy

end

end

/-! ## Two threads -/

section
variable {on : Prop} {k : State}

end

end Codezero.Kernel
