import Codezero.Cap.Capability

/-!
# Page-in requests

A system call that finds a user buffer unmapped asks the pager for its pages: for each page `fault_ipc_to_pager` forges
a message on its stack, points the thread's `syscall_regs` at it and runs the ipc, whose reply lands in the same place.
-/

namespace Codezero.Kernel.PageIn
open Codezero.Lib Codezero.Cap

/-! ## The model -/

/-- `offsetof(syscall_context_t, r3)`. -/
def mr0Offset : Word := 16

def l4IpcTagPfault : Word := 0
def ipcFlagsShort : Word := 0

/-- The thread that faults. Frames of the kernel stack do not overlap, so the message registers of a frame are kept by
the address of its first. -/
structure Faulter where
  tid : L4id
  pager : L4id
  syscallRegs : Word
  words : Word → Mr
  ipcFlags : Word := 0
  nlocks : Int := 0

/-- `KTCB_REF_MR0`. -/
def Faulter.mr0 (s : Faulter) : Word := s.syscallRegs + mr0Offset

/-- The message registers of the thread. -/
def Faulter.mr (s : Faulter) : Mr := s.words s.mr0

structure IpcState where
  mr : Mr
  flags : Word

def ipcSaveState (s : Faulter) : Except Bug IpcState :=
  if s.mr0 = 0 then .error .nullPointer else pure { mr := s.mr, flags := s.ipcFlags }

def ipcRestoreState (state : IpcState) (s : Faulter) : Except Bug Faulter :=
  if s.mr0 = 0 then .error .nullPointer
  else pure { s with words := Function.update s.words s.mr0 state.mr, ipcFlags := state.flags }

/-- What a request depends on: the address of the `mr` array in the frame of `fault_ipc_to_pager`, and the page table. -/
structure Place where
  frame : Word
  virtToPte : Word → Word

/-- What `ipc_sendrecv` to the pager leaves in the message registers and the ipc flags, and what it returns. -/
structure Answer where
  mr : Mr
  ipcFlags : Word := ipcFlagsShort
  err : Int := 0

/-- `is_prefetch_abort`. -/
def isPrefetchAbort (fsr : Word) : Prop := (fsr >>> 8) &&& 1 ≠ 0

instance (fsr : Word) : Decidable (isPrefetchAbort fsr) := inferInstanceAs (Decidable (_ ≠ _))

variable (p : Place)

/-- The forged message: tag, sender and the fault structure. -/
def faultMessage (s : Faulter) (faultyPc fsr far ipcTag : Word) : Mr :=
  ![ipcTag, s.tid, faultyPc, fsr, far, p.virtToPte (if isPrefetchAbort fsr then faultyPc else far)]

/-- `fault_ipc_to_pager` up to its ipc. -/
def forge (s : Faulter) (faultyPc fsr far ipcTag : Word) : Faulter :=
  { s with
    words := Function.update s.words p.frame (faultMessage p s faultyPc fsr far ipcTag)
    syscallRegs := p.frame - mr0Offset
    ipcFlags := ipcFlagsShort }

/-- `fault_ipc_to_pager`; `none` is a thread that pages itself, which is destroyed. On an error other than an
interruption the thread is suspended, and returns 0 when its pager runs it again. -/
def faultIpcToPager (a : Answer) (faultyPc fsr far ipcTag : Word) (s : Faulter) : Except Bug (Option (Faulter × Int)) :=
  let s := forge p s faultyPc fsr far ipcTag
  if s.tid = s.pager then pure none
  else
    let s := { s with words := Function.update s.words s.mr0 a.mr, ipcFlags := a.ipcFlags }
    if a.err < 0 then
      if s.nlocks ≠ 0 then .error .nlocks else if a.err = eintr then pure (some (s, a.err)) else pure (some (s, 0))
    else pure (some (s, 0))

/-- The loop over the pages: `n` are left, from page `i` on. -/
def pageinLoop (answers : Nat → Answer) (addr : Word) : Nat → Nat → Faulter → Except Bug (Option (Faulter × Int))
  | 0, _, s => pure (some (s, 0))
  | n + 1, i, s => do
    match ← faultIpcToPager p (answers i) 0 0 (addr + BitVec.ofNat 32 i * 4096) l4IpcTagPfault s with
    | none => pure none
    | some (s, err) => if err < 0 then pure (some (s, err)) else pageinLoop answers addr n (i + 1) s

/-- `__pfn(align_up(size, PAGE_SIZE))`. -/
def npages (size : Word) : Nat := (pfn ((size + 4095) &&& ~~~4095)).toNat

/-- `pager_pagein_request`. -/
def pagerPageinRequest (answers : Nat → Answer) (addr size : Word) (s : Faulter) : Except Bug (Option (Faulter × Int)) := do
  let state ← ipcSaveState s
  match ← pageinLoop p answers addr (npages size) 0 s with
  | none => pure none
  | some (s, err) =>
    if err < 0 then pure (some (s, err))
    else do
      let s ← ipcRestoreState state s
      pure (some (s, 0))

/-! ## What the system call sees -/

/-- The pointer, the registers and the flags are what they were. -/
def Unseen (s s' : Faulter) : Prop := s'.syscallRegs = s.syscallRegs ∧ s'.mr = s.mr ∧ s'.ipcFlags = s.ipcFlags

section
variable {p} {a : Answer} {answers : Nat → Answer} {faultyPc fsr far ipcTag addr size : Word} {s s' : Faulter} {code : Int} {n i : Nat}

/-- A request that returns leaves the thread with the forged frame, and fails only if it is interrupted. -/
theorem faultIpcToPager_frame (ran : faultIpcToPager p a faultyPc fsr far ipcTag s = .ok (some (s', code))) :
    s'.syscallRegs = p.frame - mr0Offset ∧ (code < 0 → a.err = eintr) := by
  unfold faultIpcToPager at ran
  dsimp only at ran
  split_ifs at ran with _ _ _ interrupted <;> cases ran
  · exact ⟨rfl, fun _ => interrupted⟩
  · exact ⟨rfl, fun failed => absurd failed (lt_irrefl _)⟩
  · exact ⟨rfl, fun failed => absurd failed (lt_irrefl _)⟩

/-- So do any number of them. -/
theorem pageinLoop_frame (ran : pageinLoop p answers addr n i s = .ok (some (s', code))) :
    (n = 0 ∧ s' = s ∧ code = 0) ∨
      (0 < n ∧ s'.syscallRegs = p.frame - mr0Offset ∧ (code < 0 → ∃ j < i + n, (answers j).err = eintr)) := by
  induction n generalizing i s with
  | zero => cases ran; exact .inl ⟨rfl, rfl, rfl⟩
  | succ n more =>
    obtain ⟨result, first, ran⟩ := bind_eq_ok.mp ran
    refine .inr ⟨Nat.succ_pos n, ?_⟩
    cases result with
    | none => exact nomatch ran
    | some result =>
      have forged := faultIpcToPager_frame first
      dsimp only at ran
      split_ifs at ran with failed
      · cases ran
        exact ⟨forged.1, fun failed => ⟨i, by omega, forged.2 failed⟩⟩
      · rcases more ran with ⟨-, rfl, rfl⟩ | ⟨-, after, interrupted⟩
        · exact ⟨forged.1, fun failed => absurd failed (lt_irrefl _)⟩
        · exact ⟨after, by rwa [show i + (n + 1) = i + 1 + n by omega]⟩

/-- What the whole request leaves: its frame, or what was restored into it. -/
theorem pagein_cases (ran : pagerPageinRequest p answers addr size s = .ok (some (s', code))) :
    (npages size = 0 ∧ Unseen s s') ∨
      (0 < npages size ∧ s'.syscallRegs = p.frame - mr0Offset ∧
        ((∀ i < npages size, (answers i).err ≠ eintr) → s'.mr = s.mr ∧ s'.ipcFlags = s.ipcFlags)) := by
  obtain ⟨state, saved, ran⟩ := bind_eq_ok.mp ran
  obtain rfl : state = { mr := s.mr, flags := s.ipcFlags } := by
    unfold ipcSaveState at saved
    split_ifs at saved
    cases saved
    rfl
  obtain ⟨result, looped, ran⟩ := bind_eq_ok.mp ran
  cases result with
  | none => exact nomatch ran
  | some result =>
    obtain ⟨s1, err⟩ := result
    have frame := pageinLoop_frame looped
    dsimp only at ran
    split_ifs at ran with failed
    · cases ran
      rcases frame with ⟨-, -, rfl⟩ | ⟨some', frame, interrupted⟩
      · exact absurd failed (lt_irrefl _)
      · obtain ⟨i, inside, is⟩ := interrupted failed
        exact .inr ⟨some', frame, fun fine => absurd is (fine i (by omega))⟩
    · obtain ⟨s2, restored, ran⟩ := bind_eq_ok.mp ran
      cases ran
      unfold ipcRestoreState at restored
      split_ifs at restored
      cases restored
      have mr : Faulter.mr { s1 with words := Function.update s1.words s1.mr0 s.mr, ipcFlags := s.ipcFlags } = s.mr := Function.update_self ..
      rcases frame with ⟨none', rfl, -⟩ | ⟨some', frame, -⟩
      · exact .inl ⟨none', rfl, mr, rfl⟩
      · exact .inr ⟨some', frame, fun _ => ⟨mr, rfl⟩⟩

/-- A request that returns goes unseen by a system call with registers of its own just when it asks for no page. Where
the registers already are those of an earlier request, it goes unseen when no answer is an interruption; one that is may
leave the same words and flags by chance, so the converse does not hold. -/
theorem pagein_unseen (ran : pagerPageinRequest p answers addr size s = .ok (some (s', code))) :
    (s.mr0 ≠ p.frame → (Unseen s s' ↔ npages size = 0)) ∧
    (s.mr0 = p.frame → (∀ i < npages size, (answers i).err ≠ eintr) → Unseen s s') := by
  have pointer : ∀ q : Faulter, q.syscallRegs = p.frame - mr0Offset → q.mr0 = p.frame := fun q same => by
    rw [Faulter.mr0, same, BitVec.sub_add_cancel]
  rcases pagein_cases ran with ⟨none', unseen⟩ | ⟨some', frame, answered⟩
  · exact ⟨fun _ => ⟨fun _ => none', fun _ => unseen⟩, fun _ _ => unseen⟩
  · refine ⟨fun own => ⟨fun unseen => ?_, fun none' => by omega⟩, fun same fine => ⟨?_, answered fine⟩⟩
    · exact absurd (pointer s (unseen.1.symm.trans frame)) own
    · rw [frame, ← same, Faulter.mr0, BitVec.add_sub_cancel]

end

/-- A thread in a system call, with its registers up the stack from where the message is forged. -/
def inSyscall : Faulter := { tid := 1, pager := 2, syscallRegs := 0x8000, words := fun _ _ => 7, ipcFlags := 5 }
def below : Place := { frame := 0x7F00, virtToPte := fun _ => 0 }

theorem pagein_unseen_word : ∃ s', pagerPageinRequest below (fun _ => { mr := fun _ => 9 }) 0x2000 4 inSyscall = .ok (some (s', 0)) ∧
    (Unseen inSyscall s' ↔ npages 4 = 0) := by
  have ran : (pagerPageinRequest below (fun _ => { mr := fun _ => 9 }) 0x2000 4 inSyscall).map (fun o => o.map Prod.snd) = .ok (some 0) := rfl
  cases result : pagerPageinRequest below (fun _ => { mr := fun _ => 9 }) 0x2000 4 inSyscall with
  | error b => rw [result] at ran; exact nomatch ran
  | ok o =>
    rw [result] at ran
    obtain ⟨⟨s', code⟩, rfl, rfl⟩ := Option.map_eq_some_iff.mp (Except.ok.inj ran)
    exact ⟨s', rfl, (pagein_unseen result).1 (by decide)⟩

/-- A page that is answered leaves the thread with the pointer into a frame that is gone; one that is interrupted also
with other registers and flags. -/
theorem pagein_seen :
    (∃ s', pagerPageinRequest below (fun _ => { mr := fun _ => 9 }) 0x2000 4 inSyscall = .ok (some (s', 0)) ∧
      s'.syscallRegs ≠ inSyscall.syscallRegs) ∧
    ∃ s', pagerPageinRequest below (fun _ => { mr := ![0, 1, 0, 0, 0x2000, 0], err := eintr }) 0x2000 4 inSyscall = .ok (some (s', eintr)) ∧
      s'.syscallRegs ≠ inSyscall.syscallRegs ∧ s'.mr 0 ≠ inSyscall.mr 0 ∧ s'.ipcFlags ≠ inSyscall.ipcFlags := by
  exact ⟨⟨_, rfl, by decide⟩, _, rfl, by decide, by decide, by decide⟩

end Codezero.Kernel.PageIn
