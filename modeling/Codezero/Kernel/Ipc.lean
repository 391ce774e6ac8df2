import Codezero.Kernel.Wait

/-!
# IPC

`ipc_send` and `ipc_recv` with the copy they make at the rendezvous, and the system call around them.
Each body runs up to its `schedule()`; a sleeper goes on with `ipc_handle_errors`.
-/

namespace Codezero.Kernel

def ipcFlagsTypeMask : Word := 0xF
def ipcFlagsShort : Word := 0
def ipcFlagsFull : Word := 1
def ipcFlagsExtended : Word := 2
def ipcEfault : Word := 0x10000000
def ipcEnoipc : Word := 0x20000000
def ipcFlagsSizeMask : Word := 0x0FFF0000
def ipcExtendedMaxSize : Nat := 2048
def mrRestTotal : Nat := 54

/-- `ipc_flags_get_type`. -/
def ipcFlagsGetType (flags : Word) : Word := flags &&& ipcFlagsTypeMask

/-- `tcb_get_ipc_type`. -/
def tcbGetIpcType (c : Ktcb) : Word := ipcFlagsGetType c.ipcFlags

/-- `extended_ipc_msg_size`. -/
def extendedIpcMsgSize (flags : Word) : Nat := ((flags &&& ipcFlagsSizeMask) >>> 16).toNat

/-- What the checks of user memory answer in one call: `tcb_check_and_lazy_map_utcb` for a thread's utcb. -/
structure Access where
  utcb : L4id → Int := fun _ => 0

/-- `ipc_short_copy`. -/
def ipcShortCopy (dest source : L4id) (k : State) : State :=
  k.modify dest fun c => { c with mr := (k.tcb source).mr }

/-- `memcpy` of the other registers, from one utcb to the other. -/
def copyMrRest (sent c : Ktcb) : Ktcb :=
  { c with mrRest := fun i => if i < mrRestTotal then sent.mrRest i else c.mrRest i }

/-- `ipc_full_copy`: the registers go first, then both utcbs are checked, then the rest is copied. -/
def ipcFullCopy (access : Access) (dest source : L4id) (k : State) : State × Int :=
  let k := ipcShortCopy dest source k
  if access.utcb dest < 0 then (k, access.utcb dest)
  else if access.utcb source < 0 then (k, access.utcb source)
  else (k.modify dest (copyMrRest (k.tcb source)), 0)

/-- `memcpy` of the extended buffer, as far as both sides allow. -/
def copyExtended (sent c : Ktcb) : Ktcb :=
  let size := min sent.extendedIpcSize c.extendedIpcSize
  { c with extendedIpcBuffer := fun i => if i < size then sent.extendedIpcBuffer i else c.extendedIpcBuffer i }

/-- `ipc_extended_copy`. -/
def ipcExtendedCopy (dest source : L4id) (k : State) : State := k.modify dest (copyExtended (k.tcb source))

/-- The transfer that `ipc_msg_copy` selects by the two types. A type that none of the cases names
copies nothing and leaves the return value 0. -/
def ipcTransfer (access : Access) (dest source : L4id) (k : State) : State × Int :=
  let recvType := tcbGetIpcType (k.tcb dest)
  let sendType := tcbGetIpcType (k.tcb source)
  if recvType = ipcFlagsShort then
    if sendType = ipcFlagsShort then (ipcShortCopy dest source k, 0)
    else if sendType = ipcFlagsFull then ipcFullCopy access dest source k
    else if sendType = ipcFlagsExtended then (k, enoipc)
    else (k, 0)
  else if recvType = ipcFlagsFull then
    if sendType = ipcFlagsShort then ipcFullCopy access dest source k
    else if sendType = ipcFlagsFull then ipcFullCopy access dest source k
    else if sendType = ipcFlagsExtended then (k, enoipc)
    else (k, 0)
  else if recvType = ipcFlagsExtended then
    if sendType = ipcFlagsExtended then (ipcExtendedCopy dest source (ipcShortCopy dest source k), 0)
    else if sendType = ipcFlagsShort then (k, enoipc)
    else if sendType = ipcFlagsFull then (k, enoipc)
    else (k, 0)
  else (k, 0)

/-- `ipc_msg_copy`: the transfer, then the true sender for a receiver from anyone. -/
def ipcMsgCopy (access : Access) (dest source : L4id) (k : State) : State × Int :=
  let (k, ret) := ipcTransfer access dest source k
  if (k.tcb dest).expectedSender = l4Anythread then
    (k.modify dest fun c => { c with mr := Function.update c.mr mrSender source }, ret)
  else (k, ret)

/-- `ipc_signal_error`. -/
def ipcSignalError (sleeper : L4id) (retval : Int) (k : State) : Except Bug State :=
  if retval ≠ efault ∧ retval ≠ enoipc then .error .ipcRetval
  else if retval = efault then .ok (k.modify sleeper fun c => { c with ipcFlags := c.ipcFlags ||| ipcEfault })
  else .ok (k.modify sleeper fun c => { c with ipcFlags := c.ipcFlags ||| ipcEnoipc })

/-- The copy at a rendezvous, with the error signalled to the sleeping party. -/
def ipcExchange (access : Access) (dest source sleeper : L4id) (k : State) : Except Bug (State × Int) := do
  let (k, ret) := ipcMsgCopy access dest source k
  if ret < 0 then do
    let k ← ipcSignalError sleeper ret k
    pure (k, ret)
  else pure (k, ret)

/-- `ipc_handle_errors`, for the thread that slept. -/
def ipcHandleErrors (t : L4id) (k : State) : State × Int :=
  if (k.tcb t).flags.interrupted then
    (k.modify t fun c => { c with flags := { c.flags with interrupted := false } }, eintr)
  else if (k.tcb t).ipcFlags &&& ipcEfault ≠ 0 then
    (k.modify t fun c => { c with ipcFlags := c.ipcFlags &&& ~~~ipcEfault }, efault)
  else if (k.tcb t).ipcFlags &&& ipcEnoipc ≠ 0 then
    (k.modify t fun c => { c with ipcFlags := c.ipcFlags &&& ~~~ipcEnoipc }, enoipc)
  else (k, 0)

/-- The test of `ipc_send`: the receiver sleeps in its own receive queue and expects us. -/
def recvReady (receiver sender : L4id) (k : State) : Prop :=
  (k.tcb receiver).state = .sleeping ∧ (k.tcb receiver).waitingOn = some (.recv receiver) ∧
    ((k.tcb receiver).expectedSender = sender ∨ (k.tcb receiver).expectedSender = l4Anythread)

instance (receiver sender : L4id) (k : State) : Decidable (recvReady receiver sender k) :=
  inferInstanceAs (Decidable (_ ∧ _))

/-- `ipc_send`. -/
def ipcSend (access : Access) (recvTid : L4id) (k : State) : Except Bug (State × Exit) :=
  if k.present recvTid = false then pure (k, .ret esrch)
  else if recvReady recvTid k.current k then do
    let (k, ret) ← ipcExchange access recvTid k.current recvTid (wqhTake (.recv recvTid) recvTid false k)
    let k ← schedResumeAsync recvTid k
    pure (k, .ret ret)
  else do
    let k ← waitOnPrepare (.send recvTid) k
    pure (k, .sleep)

/-- The scan of `ipc_recv`: the first waiting sender that the receiver accepts. -/
def findSender (expected : L4id) (senders : List Waitqueue) : Option L4id :=
  senders.find? fun t => t = expected || expected = l4Anythread

/-- `current->expected_sender = senderid`. -/
def expecting (senderid : L4id) (k : State) : State := k.modify k.current fun c => { c with expectedSender := senderid }

/-- The sender `ipc_recv` takes, if its queue has one for it. -/
def recvFound (senderid : L4id) (k : State) : Option L4id :=
  if (k.wqh (.send k.current)).sleepers > 0 then findSender senderid (k.wqh (.send k.current)).taskList else none

/-- `ipc_recv`. -/
def ipcRecv (access : Access) (senderid : L4id) (k : State) : Except Bug (State × Exit) :=
  if (k.wqh (.send k.current)).sleepers > 0 ∧ (k.wqh (.send k.current)).taskList = [] then .error .taskListEmpty
  else
    match recvFound senderid k with
    | some t => do
      let (k, ret) ← ipcExchange access k.current t t (wqhTake (.send k.current) t false (expecting senderid k))
      let k ← schedResumeSync t k
      pure (k, .yield ret)
    | none => do
      let k ← waitOnPrepare (.recv k.current) (expecting senderid k)
      pure (k, .sleep)

/-- `tid_special_value`. -/
def tidSpecialValue (id : L4id) : Bool := id &&& 0xFF000000 = (0xFF000000 : Word)

/-- The arguments of one `sys_ipc`, with what the call reads from user space and the answers of the
checks it makes there: `cap` is `cap_ipc_check`, `bufAccess` the `check_access` of an extended buffer. -/
structure IpcArgs where
  dest : L4id
  source : L4id
  flags : Word
  mr : Mr
  cap : Int := 0
  access : Access := {}
  bufAccess : Int := 0
  userBuffer : Nat → BitVec 8 := fun _ => 0

/-- Which rendezvous a system call comes to first. `reply` is `ipc_sendrecv`, which goes on to receive. -/
inductive IpcBegin
  | refuse (code : Int)
  | send (dest : L4id) (reply : Bool)
  | recv (source : L4id)
  deriving DecidableEq

/-- The checks of `sys_ipc` before it stores the flags: the code it fails with, if any. -/
def sysIpcCheck (a : IpcArgs) (self : L4id) : Option Int :=
  if tidSpecialValue a.source ∧ a.source ≠ l4Anythread ∧ a.source ≠ l4Nilthread then some einval
  else if tidSpecialValue a.dest ∧ a.dest ≠ l4Anythread ∧ a.dest ≠ l4Nilthread then some einval
  else if a.source = self ∨ a.dest = self then some einval
  else if a.dest = l4Nilthread ∧ a.source = l4Nilthread then some einval
  else if a.cap < 0 then some a.cap
  else none

/-- `__sys_ipc` by direction, with the refusals of the two send-and-receive calls. -/
def sysIpcDispatch (a : IpcArgs) : IpcBegin :=
  if a.source = l4Nilthread then .send a.dest false
  else if a.dest = l4Nilthread then .recv a.source
  else if ipcFlagsGetType a.flags = ipcFlagsExtended then .refuse enosys
  else if a.dest = a.source then .send a.dest true
  else .refuse enosys

/-- `ipc_send_extended` and `ipc_recv_extended` up to the real ipc: the size is checked and stored, and a
sender's buffer is copied in. Any other type goes straight to the real ipc. -/
def extendedBegin (a : IpcArgs) (b : IpcBegin) (k : State) : State × IpcBegin :=
  let size := extendedIpcMsgSize a.flags
  let sized := k.modify k.current fun c => { c with extendedIpcSize := size }
  if ipcFlagsGetType a.flags ≠ ipcFlagsExtended then (k, b)
  else
    match b with
    | .refuse code => (k, .refuse code)
    | .send dest reply =>
      if size > ipcExtendedMaxSize then (k, .refuse einval)
      else if a.bufAccess < 0 then (sized, .refuse a.bufAccess)
      else
        (sized.modify k.current fun c =>
          { c with extendedIpcBuffer := fun i => if i < size then a.userBuffer i else c.extendedIpcBuffer i },
          .send dest reply)
    | .recv source => if size > ipcExtendedMaxSize then (k, .refuse einval) else (sized, .recv source)

/-- `sys_ipc` by the current thread, up to its first rendezvous: `tcb_set_ipc_flags` stores the whole
user-supplied word. -/
def sysIpc (a : IpcArgs) (k : State) : State × IpcBegin :=
  let k := k.modify k.current fun c => { c with mr := a.mr }
  match sysIpcCheck a k.current with
  | some code => (k, .refuse code)
  | none => extendedBegin a (sysIpcDispatch a) (k.modify k.current fun c => { c with ipcFlags := a.flags })

/-! ## What the copy at a rendezvous changes -/

/-- Two control blocks differ at most in the message a thread holds. -/
def CopyOnly (c c' : Ktcb) : Prop :=
  c' = { c with mr := c'.mr, mrRest := c'.mrRest, extendedIpcBuffer := c'.extendedIpcBuffer }

/-- The transfer types `ipc_msg_copy` knows. -/
def KnownType (flags : Word) : Prop :=
  ipcFlagsGetType flags = ipcFlagsShort ∨ ipcFlagsGetType flags = ipcFlagsFull ∨
    ipcFlagsGetType flags = ipcFlagsExtended

/-- What a copy into `dest` did: only the message of `dest` changed, the code is not positive, and a code
of 0 between known types means that the registers are the sender's, but for `MR_SENDER` of a receiver
from anyone. -/
structure Copied (dest source : L4id) (k k' : State) (ret : Int) (c' : Ktcb) : Prop where
  only : CopyOnly (k.tcb dest) c'
  state : k' = k.modify dest fun _ => c'
  code : ret ≤ 0
  filled : ret = 0 → KnownType (k.tcb dest).ipcFlags → KnownType (k.tcb source).ipcFlags →
    ∀ i, i ≠ mrSender ∨ (k.tcb dest).expectedSender ≠ l4Anythread → c'.mr i = (k.tcb source).mr i

section
variable {access : Access} {dest source sleeper : L4id} {k k' : State} {ret : Int} {c' : Ktcb}

theorem CopyOnly.trans {a b c : Ktcb} (first : CopyOnly a b) (second : CopyOnly b c) : CopyOnly a c := by
  rw [CopyOnly] at *
  rw [second, first]

theorem modify_self (dest : L4id) (k : State) : k.modify dest (fun _ => k.tcb dest) = k := by
  simp [State.modify]

theorem modify_modify {f g : Ktcb → Ktcb} : (k.modify dest f).modify dest g = k.modify dest (fun c => g (f c)) := by
  simp [State.modify]

/-- No copy at all, for a failing code or a type that is not known. -/
theorem copied_none (code : ret ≤ 0) (why : ret ≠ 0 ∨ ¬ KnownType (k.tcb dest).ipcFlags ∨ ¬ KnownType (k.tcb source).ipcFlags) :
    Copied dest source k k ret (k.tcb dest) where
  only := rfl
  state := (modify_self dest k).symm
  code := code
  filled := fun zero known known' => by
    rcases why with h | h | h
    · exact absurd zero h
    · exact absurd known h
    · exact absurd known' h

theorem ipcShortCopy_copied : Copied dest source k (ipcShortCopy dest source k) 0
    { k.tcb dest with mr := (k.tcb source).mr } where
  only := rfl
  state := rfl
  code := Int.le_refl 0
  filled _ _ _ _ _ := rfl

theorem Copied.fail (copied : Copied dest source k k' 0 c') (negative : ret < 0) : Copied dest source k k' ret c' :=
  { copied with code := Int.le_of_lt negative, filled := fun zero => absurd zero (by omega) }

/-- A further change of the message that leaves the registers alone. -/
theorem Copied.more (copied : Copied dest source k k' ret c') (f : Ktcb → Ktcb)
    (only : CopyOnly c' (f c')) (same : (f c').mr = c'.mr) : Copied dest source k (k'.modify dest f) ret (f c') where
  only := copied.only.trans only
  state := by rw [copied.state, modify_modify]
  code := copied.code
  filled := by rw [same]; exact copied.filled

theorem ipcFullCopy_copied (access : Access) (dest source : L4id) (k : State) : ∃ c', Copied dest source k (ipcFullCopy access dest source k).1
    (ipcFullCopy access dest source k).2 c' := by
  simp only [ipcFullCopy]
  split_ifs with first second
  · exact ⟨_, ipcShortCopy_copied.fail first⟩
  · exact ⟨_, ipcShortCopy_copied.fail second⟩
  · exact ⟨_, ipcShortCopy_copied.more (copyMrRest _) rfl rfl⟩

theorem ipcTransfer_copied (access : Access) (dest source : L4id) (k : State) : ∃ c', Copied dest source k (ipcTransfer access dest source k).1
    (ipcTransfer access dest source k).2 c' := by
  have refused : Copied dest source k k enoipc (k.tcb dest) := copied_none (by decide) (.inl (by decide))
  simp only [ipcTransfer]
  split_ifs with toShort fromShort fromFull fromExt toFull fromShort fromFull fromExt toExt fromExt fromShort fromFull
  · exact ⟨_, ipcShortCopy_copied⟩
  · exact ipcFullCopy_copied access dest source k
  · exact ⟨_, refused⟩
  · exact ⟨_, copied_none (Int.le_refl 0) (.inr (.inr fun known => by
      rcases known with h | h | h <;> contradiction))⟩
  · exact ipcFullCopy_copied access dest source k
  · exact ipcFullCopy_copied access dest source k
  · exact ⟨_, refused⟩
  · exact ⟨_, copied_none (Int.le_refl 0) (.inr (.inr fun known => by
      rcases known with h | h | h <;> contradiction))⟩
  · exact ⟨_, ipcShortCopy_copied.more (copyExtended _) rfl rfl⟩
  · exact ⟨_, refused⟩
  · exact ⟨_, refused⟩
  · exact ⟨_, copied_none (Int.le_refl 0) (.inr (.inr fun known => by
      rcases known with h | h | h <;> contradiction))⟩
  · exact ⟨_, copied_none (Int.le_refl 0) (.inr (.inl fun known => by
      rcases known with h | h | h <;> contradiction))⟩

/-- `ipc_msg_copy` delivers, and a receiver from anyone finds the true sender in `MR_SENDER`. -/
theorem ipcMsgCopy_copied (access : Access) (dest source : L4id) (k : State) : ∃ c', Copied dest source k (ipcMsgCopy access dest source k).1
    (ipcMsgCopy access dest source k).2 c' ∧
    ((k.tcb dest).expectedSender = l4Anythread → c'.mr mrSender = source) := by
  obtain ⟨c', copied⟩ := ipcTransfer_copied access dest source k
  have expected : ((ipcTransfer access dest source k).1.tcb dest).expectedSender = (k.tcb dest).expectedSender := by
    rw [copied.state, State.modify_tcb_self, copied.only]
  simp only [ipcMsgCopy, expected]
  split_ifs with any
  · refine ⟨{ c' with mr := Function.update c'.mr mrSender source }, ⟨copied.only.trans rfl, ?_, copied.code, ?_⟩, ?_⟩
    · rw [copied.state, modify_modify]
    · intro zero known known' i other
      rcases other with other | other
      · simpa [other] using copied.filled zero known known' i (.inl other)
      · exact absurd any other
    · intro _; simp
  · exact ⟨c', copied, fun is => absurd is any⟩

/-- The status a rendezvous leaves in the flags of the party that sleeps. -/
def signalled (ret : Int) (w : Word) : Word :=
  if ret = efault then w ||| ipcEfault else if ret = enoipc then w ||| ipcEnoipc else w

/-- A rendezvous that went through: the copy, then the sleeper's status. -/
theorem ipcExchange_ok (ok : ipcExchange access dest source sleeper k = .ok (k', ret)) :
    ∃ c', Copied dest source k (k.modify dest fun _ => c') ret c' ∧
      ((k.tcb dest).expectedSender = l4Anythread → c'.mr mrSender = source) ∧
      (ret = 0 ∨ ret = efault ∨ ret = enoipc) ∧
      k' = (k.modify dest fun _ => c').modify sleeper fun c => { c with ipcFlags := signalled ret c.ipcFlags } := by
  obtain ⟨c', copied, named⟩ := ipcMsgCopy_copied access dest source k
  unfold ipcExchange at ok
  cases whole : ipcMsgCopy access dest source k with
  | mk k1 ret1 =>
    rw [whole] at copied ok
    have moved := copied.state
    simp only at moved ok
    split at ok
    · next negative =>
      obtain ⟨k2, signal, rest⟩ := Lib.bind_eq_ok.mp ok
      cases rest
      unfold ipcSignalError at signal
      split_ifs at signal with unexpected fault
      · cases signal
        exact ⟨c', moved ▸ copied, named, .inr (.inl fault), by simp [moved, signalled, fault]⟩
      · have general : ret = enoipc := by tauto
        cases signal
        refine ⟨c', moved ▸ copied, named, .inr (.inr general), ?_⟩
        rw [moved, general]
        rfl
    · next positive =>
      cases ok
      have zero : ret = 0 := by have := copied.code; simp only at this; omega
      refine ⟨c', moved ▸ copied, named, .inl zero, ?_⟩
      rw [moved, zero]
      exact (modify_self sleeper _).symm

/-- The three ways through `ipc_send`. -/
theorem ipcSend_ok {exit : Exit} (ok : ipcSend access dest k = .ok (k', exit)) :
    (k.present dest = false ∧ k' = k ∧ exit = .ret esrch) ∨
    (k.present dest = true ∧ recvReady dest k.current k ∧ ∃ k1 ret,
      ipcExchange access dest k.current dest (wqhTake (.recv dest) dest false k) = .ok (k1, ret) ∧
      schedResumeAsync dest k1 = .ok k' ∧ exit = .ret ret) ∨
    (k.present dest = true ∧ ¬ recvReady dest k.current k ∧ waitOnPrepare (.send dest) k = .ok k' ∧ exit = .sleep) := by
  unfold ipcSend at ok
  split_ifs at ok with absent ready
  · cases ok; exact .inl ⟨absent, rfl, rfl⟩
  · obtain ⟨⟨k1, ret⟩, exchanged, ok⟩ := Lib.bind_eq_ok.mp ok
    obtain ⟨k2, resumed, ok⟩ := Lib.bind_eq_ok.mp ok
    cases ok
    exact .inr (.inl ⟨by simpa using absent, ready, k1, ret, exchanged, resumed, rfl⟩)
  · obtain ⟨k2, slept, ok⟩ := Lib.bind_eq_ok.mp ok
    cases ok
    exact .inr (.inr ⟨by simpa using absent, ready, slept, rfl⟩)

/-- The two ways through `ipc_recv`. -/
theorem ipcRecv_ok {senderid : L4id} {exit : Exit} (ok : ipcRecv access senderid k = .ok (k', exit)) :
    (∃ u, recvFound senderid k = some u ∧ ∃ k1 ret,
      ipcExchange access k.current u u (wqhTake (.send k.current) u false (expecting senderid k)) = .ok (k1, ret) ∧
      schedResumeAsync u k1 = .ok k' ∧ exit = .yield ret) ∨
    (recvFound senderid k = none ∧ waitOnPrepare (.recv k.current) (expecting senderid k) = .ok k' ∧ exit = .sleep) := by
  unfold ipcRecv at ok
  split_ifs at ok
  cases found : recvFound senderid k with
  | some u =>
    rw [found] at ok
    obtain ⟨⟨k1, ret⟩, exchanged, ok⟩ := Lib.bind_eq_ok.mp ok
    obtain ⟨k2, resumed, ok⟩ := Lib.bind_eq_ok.mp ok
    cases ok
    exact .inl ⟨u, rfl, k1, ret, exchanged, schedResumeAsync_of_schedResume (show schedResume true u k1 = .ok k' from resumed), rfl⟩
  | none =>
    rw [found] at ok
    obtain ⟨k2, slept, ok⟩ := Lib.bind_eq_ok.mp ok
    cases ok
    exact .inr ⟨rfl, slept, rfl⟩

/-- The code the flags of a woken sleeper stand for. -/
def errCode (w : Word) : Int :=
  if w &&& ipcEfault ≠ 0 then efault else if w &&& ipcEnoipc ≠ 0 then enoipc else 0

/-- `ipc_handle_errors` changes the thread's own status bits only, and clears the interruption. -/
theorem ipcHandleErrors_eq (t : L4id) (k : State) : ∃ w f,
    (ipcHandleErrors t k).1 = k.modify t (fun c => { c with ipcFlags := w, flags := { c.flags with interrupted := f } }) ∧
    f = false ∧ (ipcHandleErrors t k).2 = if (k.tcb t).flags.interrupted then eintr else errCode (k.tcb t).ipcFlags := by
  unfold ipcHandleErrors errCode
  split_ifs with interrupted fault general
  · exact ⟨(k.tcb t).ipcFlags, false, by simp [State.modify], rfl, rfl⟩
  · refine ⟨(k.tcb t).ipcFlags &&& ~~~ipcEfault, (k.tcb t).flags.interrupted, by simp [State.modify], ?_, rfl⟩
    simpa using interrupted
  · refine ⟨(k.tcb t).ipcFlags &&& ~~~ipcEnoipc, (k.tcb t).flags.interrupted, by simp [State.modify], ?_, rfl⟩
    simpa using interrupted
  · refine ⟨(k.tcb t).ipcFlags, (k.tcb t).flags.interrupted, by simp [State.modify], ?_, rfl⟩
    simpa using interrupted

theorem extendedBegin_state (a : IpcArgs) (b : IpcBegin) (k : State) : ∃ n f, (extendedBegin a b k).1 =
    k.modify k.current fun c => { c with extendedIpcSize := n, extendedIpcBuffer := f } := by
  have same : k = k.modify k.current fun c => { c with
      extendedIpcSize := (k.tcb k.current).extendedIpcSize
      extendedIpcBuffer := (k.tcb k.current).extendedIpcBuffer } := (modify_self k.current k).symm
  have sized : ∀ n, k.modify k.current (fun c => { c with extendedIpcSize := n }) = k.modify k.current fun c => { c with
      extendedIpcSize := n
      extendedIpcBuffer := (k.tcb k.current).extendedIpcBuffer } := fun n => by simp [State.modify]
  unfold extendedBegin
  simp only
  split
  · exact ⟨_, _, same⟩
  · cases b with
    | refuse code => exact ⟨_, _, same⟩
    | send dest reply =>
      simp only
      split_ifs
      · exact ⟨_, _, same⟩
      · exact ⟨_, _, sized _⟩
      · exact ⟨extendedIpcMsgSize a.flags, fun i => if i < extendedIpcMsgSize a.flags then a.userBuffer i
          else (k.tcb k.current).extendedIpcBuffer i, by simp [State.modify]⟩
    | recv source =>
      simp only
      split_ifs
      · exact ⟨_, _, same⟩
      · exact ⟨_, _, sized _⟩

/-- What `sys_ipc` does to its caller before a rendezvous: it stores the message, the flags and the sizes. -/
theorem sysIpc_state (a : IpcArgs) (k : State) : ∃ w n f, (sysIpc a k).1 = k.modify k.current (fun c =>
      { c with mr := a.mr, ipcFlags := w, extendedIpcSize := n, extendedIpcBuffer := f }) ∧
    ((∀ code, (sysIpc a k).2 ≠ .refuse code) → w = a.flags) := by
  unfold sysIpc
  simp only
  split
  · exact ⟨(k.tcb k.current).ipcFlags, (k.tcb k.current).extendedIpcSize, (k.tcb k.current).extendedIpcBuffer,
      by simp [State.modify], fun engaged => absurd rfl (engaged _)⟩
  · obtain ⟨n, f, stored⟩ := extendedBegin_state a (sysIpcDispatch a)
      ((k.modify k.current fun c => { c with mr := a.mr }).modify k.current fun c => { c with ipcFlags := a.flags })
    refine ⟨a.flags, n, f, ?_, fun _ => rfl⟩
    simp only [State.modify_current] at stored ⊢
    rw [stored, modify_modify, modify_modify]

/-- A system call that is refused before any rendezvous returns a negative code. -/
theorem sysIpc_refuse {a : IpcArgs} {k : State} {code : Int} (refused : (sysIpc a k).2 = .refuse code) : code < 0 := by
  have codes : einval < 0 ∧ enosys < 0 := by decide
  unfold sysIpc at refused
  simp only at refused
  split at refused
  · next checked =>
    cases refused
    unfold sysIpcCheck at checked
    split_ifs at checked <;> cases checked <;> first | exact codes.1 | assumption
  · unfold extendedBegin sysIpcDispatch at refused
    simp only at refused
    split_ifs at refused <;> simp_all

end

end Codezero.Kernel
