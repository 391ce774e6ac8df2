import Codezero.Cap.Capability
import Codezero.Kernel.Irq

/-!
# Rights to irq control

The range check of `cap_match_irqctrl` refuses an irq that is both below and above the range, so in a range that is not
upside down it refuses none. The bound on the index lets one past the array through, and the slot is never checked.
-/

namespace Codezero.Cap
open Codezero.Kernel (Word Bug einval)
open Codezero.Kernel.Irq (Irqs irqsMax irqWaitTurn taskNotifySlots)
open Codezero.Lib

/-! ## The model -/

def irqControlRegister : Word := 0
def irqControlWait : Word := 2

def capIrqctrlRegister : Word := 1 <<< 7
def capIrqctrlWait : Word := 1 <<< 8

/-- The right that each request needs; `none` is the default case. -/
def irqctrlRight (req : Word) : Option Word :=
  if req = irqControlRegister then some capIrqctrlRegister
  else if req = irqControlWait then some capIrqctrlWait
  else none

/-- `cap_match_irqctrl`. -/
def capMatchIrqctrl (t : Target) (req irq : Word) (c : Capability) : Except Bug Bool :=
  match irqctrlRight req with
  | none => pure false
  | some right =>
    if c.access &&& right = 0 then pure false
    else if irq < c.start ∧ irq > c.end' then pure false
    else capNames t c

/-- `cap_irq_check`. -/
def capIrqCheck (l : CapLists) (t : Target) (req irq : Word) : Except Bug Int := do
  match ← capFind l capTypeIrqctrl (capMatchIrqctrl t req irq) with
  | none => pure enocap
  | some _ => pure 0

/-- What the caller gets: a code, the count of its slot, or sleep. -/
inductive IrqAnswer
  | code (c : Int)
  | count (n : Nat)
  | asleep
  deriving DecidableEq, Repr

/-- `irq_wait` up to its sleep; `utcb` is the answer of `tcb_check_and_lazy_map_utcb`. -/
def irqWait (t irq : Word) (utcb : Int) (s : Irqs) : Except Bug (Irqs × IrqAnswer) :=
  if irq > irqsMax then pure (s, .code einval)
  else if utcb < 0 then pure (s, .code utcb)
  else do
    let (s, count) ← irqWaitTurn t irq s
    pure (s, count.elim .asleep .count)

/-- `sys_irq_control` by the thread `t`. -/
def sysIrqControl (l : CapLists) (t : Target) (req flags irq : Word) (utcb : Int) (s : Irqs) : Except Bug (Irqs × IrqAnswer) := do
  let ret ← capIrqCheck l t req irq
  if ret < 0 then pure (s, .code ret)
  else if req = irqControlRegister then
    let (s, code) := Kernel.Irq.irqControlRegister t.tid flags irq utcb s
    pure (s, .code code)
  else if req = irqControlWait then irqWait t.tid irq utcb s
  else pure (s, .code einval)

/-! ## What lets a call through -/

/-- The caller is registered, or waits. -/
def IrqAnswer.granted : IrqAnswer → Prop
  | .code c => c = 0
  | .count _ | .asleep => True

/-- In some state of the kernel the call goes through. -/
def IrqGranted (l : CapLists) (t : Target) (req flags irq : Word) : Prop :=
  ∃ utcb s s' a, sysIrqControl l t req flags irq utcb s = .ok (s', a) ∧ a.granted

/-- The caller has a capability with the right, that names it and has the irq in its range. -/
def IrqAuthorised (l : CapLists) (t : Target) (req irq : Word) : Prop :=
  ∃ c ∈ l.all, capType c = capTypeIrqctrl ∧ (∃ right, irqctrlRight req = some right ∧ c.access &&& right ≠ 0) ∧
    Names t c ∧ c.start ≤ irq ∧ irq ≤ c.end'

/-- The request is within the caller's rights, the table of descriptors and the utcb. -/
structure IrqWithin (l : CapLists) (t : Target) (req flags irq : Word) : Prop where
  authorised : IrqAuthorised l t req irq
  index : irq < irqsMax
  slot : req = irqControlRegister → flags.toNat < taskNotifySlots

section
variable {l : CapLists} {t : Target} {req flags irq start end' right : Word} {c : Capability} {utcb : Int} {s : Irqs}

theorem capMatchIrqctrl_true (accepted : capMatchIrqctrl t req irq c = .ok true) :
    (∃ right, irqctrlRight req = some right ∧ c.access &&& right ≠ 0) ∧ ¬ (irq < c.start ∧ irq > c.end') ∧ Names t c := by
  unfold capMatchIrqctrl at accepted
  split at accepted
  · cases accepted
  · next right known =>
    split at accepted
    · cases accepted
    · next has =>
      split at accepted
      · cases accepted
      · next inside => exact ⟨⟨right, known, has⟩, inside, capNames_true accepted⟩

theorem capIrqCheck_cases {ret : Int} (ok : capIrqCheck l t req irq = .ok ret) :
    ret = enocap ∨ ret = 0 ∧ ∃ c ∈ l.all, capType c = capTypeIrqctrl ∧ capMatchIrqctrl t req irq c = .ok true := by
  obtain ⟨found, ran, ok⟩ := bind_eq_ok.mp ok
  cases found with
  | none =>
    cases ok
    exact .inl rfl
  | some c =>
    cases ok
    exact .inr ⟨rfl, c, capFind_some ran⟩

theorem irqControlRegister_granted {s' : Irqs} (ran : Kernel.Irq.irqControlRegister t.tid flags irq utcb s = (s', 0)) :
    irq ≤ irqsMax := by
  unfold Kernel.Irq.irqControlRegister Kernel.Irq.irqRegister at ran
  split_ifs at ran with low unwired above
  · cases ran
    exact absurd low (by decide)
  · exact absurd (show Kernel.Irq.enoirq = 0 from congrArg Prod.snd ran) (by decide)
  · exact absurd (show Kernel.Irq.enoirq = 0 from congrArg Prod.snd ran) (by decide)
  · exact BitVec.not_lt.mp above

theorem irqWait_granted {s' : Irqs} {a : IrqAnswer} (ok : irqWait t.tid irq utcb s = .ok (s', a)) (granted : a.granted) :
    irq ≤ irqsMax := by
  unfold irqWait at ok
  split at ok
  · cases ok
    exact absurd (show einval = 0 from granted) (by decide)
  · next above => exact BitVec.not_lt.mp above

/-- The call passes the check by a capability, and then the bound on the index. -/
theorem IrqGranted.found (granted : IrqGranted l t req flags irq) :
    irq ≤ irqsMax ∧ ∃ c ∈ l.all, capType c = capTypeIrqctrl ∧ capMatchIrqctrl t req irq c = .ok true := by
  obtain ⟨utcb, s, s', a, ok, granted⟩ := granted
  obtain ⟨ret, checked, ok⟩ := bind_eq_ok.mp ok
  rcases capIrqCheck_cases checked with rfl | ⟨rfl, found⟩
  · cases ok
    exact absurd (show enocap = 0 from granted) (by decide)
  · refine ⟨?_, found⟩
    rw [if_neg (lt_irrefl _)] at ok
    split at ok
    · generalize ran : Kernel.Irq.irqControlRegister t.tid flags irq utcb s = r at ok
      obtain ⟨s1, code⟩ := r
      cases ok
      obtain rfl : code = 0 := granted
      exact irqControlRegister_granted ran
    · split at ok
      · exact irqWait_granted ok granted
      · cases ok
        exact absurd (show einval = 0 from granted) (by decide)

/-- One capability that is accepted lets the call through, where the irq is wired and has come in. -/
theorem irqGranted_single (known : irqctrlRight req = some right) (below : irq ≤ irqsMax) (type : capType c = capTypeIrqctrl)
    (accepted : capMatchIrqctrl t req irq c = .ok true) : IrqGranted { space := [c] } t req flags irq := by
  let s : Irqs := { k := {}, desc := fun _ => { wired := true }, notify := fun _ => 1 }
  have checked : capIrqCheck { space := [c] } t req irq = .ok 0 := by
    rw [capIrqCheck, capFind_single type accepted]
    rfl
  have inside : ¬ irq > irqsMax := BitVec.not_lt.mpr below
  unfold irqctrlRight at known
  split_ifs at known with register wait
  · refine ⟨0, s, (Kernel.Irq.irqRegister t.tid flags irq s).1, .code 0, ?_, rfl⟩
    rw [sysIrqControl, checked]
    simp only [bind, Except.bind, register, if_true]
    rw [if_neg (lt_irrefl _), Kernel.Irq.irqControlRegister, if_neg (lt_irrefl _), Kernel.Irq.irqRegister, if_neg Bool.true_eq_false.mp, if_neg inside]
    rfl
  · refine ⟨0, s, s.setCount t.tid irq 0, .count 1, ?_, trivial⟩
    rw [sysIrqControl, checked]
    simp only [bind, Except.bind, wait, if_true]
    rw [if_neg (lt_irrefl _), irqWait, if_neg inside, if_neg (lt_irrefl _)]
    rfl

end

/-- For callers whose capabilities have the ranges `ranges`: every call that goes through is within their rights
exactly when every such range that is not upside down has the irq, the irq is not one past the table, and a slot to be
registered is one of the utcb's. -/
theorem irq_control_within (ranges : Word → Word → Prop) (req flags irq : Word) :
    (∀ l t, (∀ c ∈ l.all, capType c = capTypeIrqctrl → ranges c.start c.end') → IrqGranted l t req flags irq →
      IrqWithin l t req flags irq) ↔
    ((irqctrlRight req).isSome → irq ≤ irqsMax → ∀ start end', ranges start end' → ¬ (irq < start ∧ irq > end') →
      start ≤ irq ∧ irq ≤ end' ∧ irq ≠ irqsMax ∧ (req = irqControlRegister → flags.toNat < taskNotifySlots)) := by
  constructor
  · intro within known below start end' allowed inside
    obtain ⟨right, known⟩ := Option.isSome_iff_exists.mp known
    let c : Capability := { type := capTypeIrqctrl ||| capRtypeThread, resid := 1, access := right, start := start, end' := end' }
    have thread : capRtype c = capRtypeThread :=
      show (capTypeIrqctrl ||| capRtypeThread) &&& capRtypeMask = capRtypeThread by decide
    have type : capType c = capTypeIrqctrl :=
      show (capTypeIrqctrl ||| capRtypeThread) &&& capTypeMask = capTypeIrqctrl by decide
    have nonzero : right ≠ 0 := by
      unfold irqctrlRight at known
      split_ifs at known
      all_goals cases known; decide
    have accepted : capMatchIrqctrl ⟨1, 0, 0⟩ req irq c = .ok true := by
      have has : c.access &&& right ≠ 0 := by rwa [show c.access &&& right = right from BitVec.and_self]
      rw [capMatchIrqctrl, known]
      dsimp only
      rw [if_neg has, if_neg inside, capNames, if_pos thread]
      rfl
    have one : ∀ d ∈ ({ space := [c] } : CapLists).all, d = c := by simp [CapLists.all]
    have result := within { space := [c] } ⟨1, 0, 0⟩ (fun d mem _ => one d mem ▸ allowed)
      (irqGranted_single known below type accepted)
    obtain ⟨d, mem, -, -, -, low, high⟩ := result.authorised
    obtain rfl := one d mem
    exact ⟨low, high, BitVec.ne_of_lt result.index, result.slot⟩
  · intro cond l t allowed granted
    obtain ⟨below, c, mem, type, accepted⟩ := granted.found
    obtain ⟨⟨right, known, has⟩, inside, names⟩ := capMatchIrqctrl_true accepted
    obtain ⟨low, high, other, slot⟩ := cond (known ▸ rfl) below c.start c.end' (allowed c mem type) inside
    exact ⟨⟨c, mem, type, ⟨right, known, has⟩, names, low, high⟩, BitVec.lt_of_le_ne below other, slot⟩

/-- A thread with the right to register and to wait for the irq 5. -/
def irqFive : CapLists :=
  { space := [{ type := capTypeIrqctrl ||| capRtypeThread, resid := 1, access := capIrqctrlRegister ||| capIrqctrlWait
                start := 5, end' := 5 }] }

/-- An irq 6 with a handler and a chip, and something in memory behind the table. -/
def sixWired : Irqs := { k := { sched := .ready [] }, desc := fun irq => { wired := irq = 6 }, notify := fun _ => 1 }

theorem irq_control_exceeds :
    (∃ s, sysIrqControl irqFive ⟨1, 1, 1⟩ irqControlRegister 200 6 0 sixWired = .ok (s, .code 0) ∧
      (s.desc 6).task = some 1 ∧ (s.desc 6).taskNotifySlot = 200) ∧
    (∃ s, sysIrqControl irqFive ⟨1, 1, 1⟩ irqControlWait 0 irqsMax 0 sixWired = .ok (s, .count 1)) ∧
    ∀ c ∈ irqFive.all, c.start = 5 ∧ c.end' = 5 := by
  refine ⟨⟨_, rfl, rfl, rfl⟩, ⟨_, rfl⟩, ?_⟩
  simp [irqFive, CapLists.all]

end Codezero.Cap
