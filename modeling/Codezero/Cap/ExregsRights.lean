import Codezero.Cap.Exregs
import Codezero.Lib.Bits

/-!
# Rights to exchange registers

What is copied is chosen by two words of the caller's data: registers by `valid_vect`, the utcb address and the pager
id by `flags`. The rights for the last two are asked for by bits of `valid_vect`, which name registers there, and the
pager of a running thread may write its registers.
-/

namespace Codezero.Cap
open Codezero.Kernel (Word L4id Bug TaskState)
open Codezero.Lib

/-! ## The model -/

def exregsEagain : Int := -11

/-- `sys_exchange_registers` on a thread that is found; `access` is the answer of `check_access`, `locked` the state of
the thread's control lock. -/
def sysExchangeRegisters (access : Int) (locked : Bool) (current : L4id) (l : CapLists) (task : ExregsTask) (exregs : ExregsData) :
    Except Bug (ExregsTask × ExregsData × Int) :=
  if access < 0 then pure (task, exregs, access)
  else if locked then pure (task, exregs, exregsEagain)
  else do
    if ← exregsActive current task exregs then pure (task, exregs, eactive)
    else do
      let err ← capExregsCheck l task.ids exregs
      if err < 0 then pure (task, exregs, enocap)
      else do
        let (task, exregs) ← exregsCopy task exregs
        pure (task, exregs, 0)

/-! ## What a call touches -/

inductive Field
  | reg (r : Reg)
  | utcb
  | pager
  deriving DecidableEq, Repr

/-- The right for a field. -/
def Field.right : Field → Word
  | .reg r => if r = regSp then capExregsRwSp else if r = regPc then capExregsRwPc else capExregsRwRegs
  | .utcb => capExregsRwUtcb
  | .pager => capExregsRwPager

/-- The bit of the caller's data that has a field copied is set. -/
def Field.asked (exregs : ExregsData) : Field → Prop
  | .reg r => exregs.validVect &&& fieldToBit r ≠ 0
  | .utcb => exregs.flags &&& exregsSetUtcb ≠ 0
  | .pager => exregs.flags &&& exregsSetPager ≠ 0

/-- The field has another value. -/
def Field.changed (task task' : ExregsTask) : Field → Prop
  | .reg r => task'.context r ≠ task.context r
  | .utcb => task'.utcbAddress ≠ task.utcbAddress
  | .pager => task'.pager ≠ task.pager

/-- A call that ends with `code` has changed the field, or has read it out. -/
def Field.touched (task task' : ExregsTask) (exregs : ExregsData) (code : Int) (f : Field) : Prop :=
  f.changed task task' ∨ code = 0 ∧ exregs.flags &&& exregsRead ≠ 0 ∧ f.asked exregs

/-- Whatever the call touches it has a capability with the rights for, and only the thread itself changes its registers
while it is active. -/
def Respected (current : L4id) (l : CapLists) (task : ExregsTask) (exregs : ExregsData) : Prop :=
  ∀ access locked task' exregs' code, sysExchangeRegisters access locked current l task exregs = .ok (task', exregs', code) →
    ((∃ f : Field, f.touched task task' exregs code) →
      ∃ c ∈ l.all, capType c = capTypeExregs ∧ Names task.ids c ∧
        ∀ f : Field, f.touched task task' exregs code → c.access &&& f.right ≠ 0) ∧
    (task.state ≠ .inactive → task'.context ≠ task.context → current = task.ids.tid)

section
variable {current tid p : L4id} {l : CapLists} {task task' : ExregsTask} {exregs exregs' : ExregsData} {c : Capability}
  {access code : Int} {locked : Bool} {f : Field}

theorem fieldToBit_right (r : Reg) : (exregsValidRegularRegs &&& fieldToBit r = fieldToBit r ∧ (Field.reg r).right = capExregsRwRegs) ∨
    (fieldToBit r = exregsValidSp ∧ (Field.reg r).right = capExregsRwSp) ∨
    (fieldToBit r = exregsValidPc ∧ (Field.reg r).right = capExregsRwPc) := by
  decide +revert

/-- An accepted capability names the thread and has the rights that `valid_vect` asks for. -/
theorem capMatchExregs_true (accepted : capMatchExregs task.ids exregs c = .ok true) :
    Names task.ids c ∧ (∀ r, exregs.validVect &&& fieldToBit r ≠ 0 → c.access &&& (Field.reg r).right ≠ 0) ∧
      (exregs.validVect &&& exregsSetUtcb ≠ 0 → c.access &&& capExregsRwUtcb ≠ 0) ∧
      (exregs.validVect &&& exregsSetPager ≠ 0 → c.access &&& capExregsRwPager ≠ 0) := by
  unfold capMatchExregs at accepted
  split_ifs at accepted with regs sp pc utcb pager
  · cases accepted
  · cases accepted
  · cases accepted
  · cases accepted
  · cases accepted
  refine ⟨capNames_true accepted, fun r asked has => ?_, fun asked has => utcb ⟨asked, has⟩, fun asked has => pager ⟨asked, has⟩⟩
  rcases fieldToBit_right r with ⟨regular, right⟩ | ⟨bit, right⟩ | ⟨bit, right⟩
  · exact regs ⟨fun none => asked (and_eq_zero_of_and_eq_zero none regular), right ▸ has⟩
  · exact sp ⟨bit ▸ asked, right ▸ has⟩
  · exact pc ⟨bit ▸ asked, right ▸ has⟩

/-- A capability over the thread with the rights for registers, whatever is asked for, and for what `valid_vect` seems
to ask for. -/
theorem capMatchExregs_ok (thread : capRtype c = capRtypeThread) (resid : task.ids.tid = c.resid)
    (regs : c.access &&& capExregsRwRegs ≠ 0) (sp : c.access &&& capExregsRwSp ≠ 0) (pc : c.access &&& capExregsRwPc ≠ 0)
    (utcb : exregs.validVect &&& exregsSetUtcb ≠ 0 → c.access &&& capExregsRwUtcb ≠ 0)
    (pager : exregs.validVect &&& exregsSetPager ≠ 0 → c.access &&& capExregsRwPager ≠ 0) :
    capMatchExregs task.ids exregs c = .ok true := by
  rw [capMatchExregs, if_neg (fun both => regs both.2), if_neg (fun both => sp both.2), if_neg (fun both => pc both.2),
    if_neg (fun both => utcb both.1 both.2), if_neg (fun both => pager both.1 both.2), capNames, if_pos thread, resid]
  simp [pure, Except.pure]

theorem sysExchangeRegisters_single (type : capType c = capTypeExregs) (accepted : capMatchExregs task.ids exregs c = .ok true)
    (idle : exregsActive current task exregs = .ok false) (copied : exregsCopy task exregs = .ok (task', exregs')) :
    sysExchangeRegisters 0 false current { space := [c] } task exregs = .ok (task', exregs', 0) := by
  have checked : capExregsCheck { space := [c] } task.ids exregs = .ok 0 := by
    rw [capExregsCheck, capFind_single type accepted]
    rfl
  rw [sysExchangeRegisters, if_neg (lt_irrefl _), if_neg Bool.false_ne_true, idle]
  simp only [bind, Except.bind, Bool.false_eq_true, if_false, checked]
  rw [if_neg (lt_irrefl _), copied]
  rfl

/-- A call is refused and changes nothing, or it copies what a capability let through. -/
theorem sysExchangeRegisters_cases (ok : sysExchangeRegisters access locked current l task exregs = .ok (task', exregs', code)) :
    (task' = task ∧ code ≠ 0) ∨
    (code = 0 ∧ exregsActive current task exregs = .ok false ∧ exregsCopy task exregs = .ok (task', exregs') ∧
      ∃ c ∈ l.all, capType c = capTypeExregs ∧ capMatchExregs task.ids exregs c = .ok true) := by
  unfold sysExchangeRegisters at ok
  split at ok
  · next low =>
    cases ok
    exact .inl ⟨rfl, ne_of_lt low⟩
  split at ok
  · cases ok
    exact .inl ⟨rfl, by decide⟩
  obtain ⟨active, checked, ok⟩ := bind_eq_ok.mp ok
  cases active with
  | true =>
    cases ok
    exact .inl ⟨rfl, by decide⟩
  | false =>
    obtain ⟨err, granted, ok⟩ := bind_eq_ok.mp ok
    obtain ⟨found, search, granted⟩ := bind_eq_ok.mp granted
    cases found with
    | none =>
      cases granted
      cases ok
      exact .inl ⟨rfl, by decide⟩
    | some c =>
      cases granted
      obtain ⟨⟨task1, exregs1⟩, copied, ok⟩ := bind_eq_ok.mp ok
      cases ok
      exact .inr ⟨rfl, checked, copied, c, capFind_some search⟩

/-- The copy changes only what is asked for, and never the pager. -/
theorem exregsCopy_changed (copied : exregsCopy task exregs = .ok (task', exregs')) (changed : f.changed task task') :
    f.asked exregs ∧ f ≠ .pager ∧ exregs.flags &&& exregsRead = 0 := by
  unfold exregsCopy at copied
  split at copied
  · obtain ⟨_, _, copied⟩ := bind_eq_ok.mp copied
    cases copied
    cases f <;> exact absurd rfl changed
  · next write =>
    cases copied
    cases f with
    | reg r =>
      refine ⟨fun none => changed ?_, nofun, not_not.mp write⟩
      simp [exregsWriteRegisters, copyValid, none]
    | utcb =>
      refine ⟨fun none => changed ?_, nofun, not_not.mp write⟩
      simp [exregsWriteRegisters, none]
    | pager => exact absurd rfl changed

/-- The call is answered with `-EACTIVE`. -/
def Blocked (current tid p : L4id) (state : TaskState) (validVect : Word) : Prop :=
  state ≠ .inactive ∧ validVect ≠ 0 ∧ current ≠ tid ∧ p ≠ current

instance (current tid p : L4id) (state : TaskState) (validVect : Word) : Decidable (Blocked current tid p state validVect) :=
  inferInstanceAs (Decidable (_ ∧ _))

/-- A flag comes with the bit of `valid_vect` that has its right asked for, and nobody writes the registers of another
thread that is active. -/
structure ExregsOrderly (current tid : L4id) (state : TaskState) (validVect flags : Word) : Prop where
  utcb : flags &&& exregsSetUtcb ≠ 0 → validVect &&& exregsSetUtcb ≠ 0
  pager : flags &&& exregsRead ≠ 0 → flags &&& exregsSetPager ≠ 0 → validVect &&& exregsSetPager ≠ 0
  self : state ≠ .inactive → flags &&& exregsRead = 0 → current ≠ tid → ∀ r, validVect &&& fieldToBit r = 0

theorem exregsActive_eq (pager : task.pager = some p) : exregsActive current task exregs =
    .ok (decide (Blocked current task.ids.tid p task.state exregs.validVect)) := by
  by_cases active : task.state ≠ .inactive ∧ exregs.validVect ≠ 0 ∧ current ≠ task.ids.tid
  · rw [exregsActive, if_pos active]
    simp only [tcbPagerid, pager, bind, Except.bind, pure, Except.pure]
    exact congrArg Except.ok (decide_eq_decide.mpr
      ⟨fun other => ⟨active.1, active.2.1, active.2.2, other⟩, fun blocked => blocked.2.2.2⟩)
  · rw [exregsActive, if_neg active]
    exact congrArg Except.ok (decide_eq_false fun blocked => active ⟨blocked.1, blocked.2.1, blocked.2.2.1⟩).symm

theorem untouched (failed : code ≠ 0) : ¬ f.touched task task exregs code := by
  rintro (changed | ⟨ended, -⟩)
  · cases f <;> exact changed rfl
  · exact failed ended

theorem Blocked.respected (pager : task.pager = some p) (blocked : Blocked current task.ids.tid p task.state exregs.validVect) :
    Respected current l task exregs := by
  intro access locked task' exregs' code ok
  rcases sysExchangeRegisters_cases ok with ⟨rfl, failed⟩ | ⟨-, idle, -⟩
  · exact ⟨fun ⟨f, touched⟩ => absurd touched (untouched failed), fun _ changed => absurd rfl changed⟩
  · rw [exregsActive_eq pager, decide_eq_true blocked] at idle
    cases idle

theorem ExregsOrderly.respected (orderly : ExregsOrderly current task.ids.tid task.state exregs.validVect exregs.flags) :
    Respected current l task exregs := by
  intro access locked task' exregs' code ok
  rcases sysExchangeRegisters_cases ok with ⟨rfl, failed⟩ | ⟨rfl, -, copied, c, mem, type, accepted⟩
  · exact ⟨fun ⟨f, touched⟩ => absurd touched (untouched failed), fun _ changed => absurd rfl changed⟩
  · obtain ⟨names, regs, utcb, pager⟩ := capMatchExregs_true accepted
    refine ⟨fun _ => ⟨c, mem, type, names, fun f touched => ?_⟩, fun active changed => ?_⟩
    · have asked : f.asked exregs := touched.elim (fun changed => (exregsCopy_changed copied changed).1) fun read => read.2.2
      cases f with
      | reg r => exact regs r asked
      | utcb => exact utcb (orderly.utcb asked)
      | pager =>
        refine pager (orderly.pager ?_ asked)
        exact touched.elim (fun changed => absurd rfl (exregsCopy_changed copied changed).2.1) fun read => read.2.1
    · obtain ⟨r, differs⟩ := Function.ne_iff.mp changed
      obtain ⟨asked, -, write⟩ := exregsCopy_changed (f := .reg r) copied differs
      by_contra other
      exact asked (orderly.self active write other r)

variable (task exregs) in
/-- A copy between contents that differ touches all that is asked for, the pager where it reads. -/
theorem exregsCopy_touched (pager : task.pager = some p) (regs : ∀ r, exregs.context r ≠ task.context r)
    (utcb : exregs.utcbAddress ≠ task.utcbAddress) :
    ∃ task' exregs', exregsCopy task exregs = .ok (task', exregs') ∧
      ∀ f : Field, f.asked exregs → (f = .pager → exregs.flags &&& exregsRead ≠ 0) → f.touched task task' exregs 0 := by
  by_cases read : exregs.flags &&& exregsRead ≠ 0
  · have reads : ∃ exregs', exregsReadRegisters task exregs = .ok exregs' := by
      unfold exregsReadRegisters
      rw [tcbPagerid, pager]
      by_cases asked : exregs.flags &&& exregsSetPager ≠ 0
      · rw [if_pos asked]
        exact ⟨_, rfl⟩
      · rw [if_neg asked]
        exact ⟨_, rfl⟩
    obtain ⟨exregs', reads⟩ := reads
    refine ⟨task, exregs', ?_, fun f asked _ => .inr ⟨rfl, read, asked⟩⟩
    rw [exregsCopy, if_pos read, reads]
    rfl
  · refine ⟨exregsWriteRegisters task exregs, exregs, ?_, fun f asked reading => .inl ?_⟩
    · rw [exregsCopy, if_neg read]
      rfl
    · cases f with
      | reg r =>
        change copyValid _ _ _ r ≠ _
        rw [copyValid, if_pos (show exregs.validVect &&& fieldToBit r ≠ 0 from asked)]
        exact regs r
      | utcb =>
        change (if exregs.flags &&& exregsSetUtcb ≠ 0 then exregs.utcbAddress else task.utcbAddress) ≠ _
        rw [if_pos (show exregs.flags &&& exregsSetUtcb ≠ 0 from asked)]
        exact utcb
      | pager => exact absurd (reading rfl) read

end

/-- A capability over the thread `tid` with all rights but `lacking`. -/
def lackingRight (tid : L4id) (lacking : Word) : Capability :=
  { type := capTypeExregs ||| capRtypeThread, resid := tid, access := ~~~lacking }

theorem lackingRight_type (tid : L4id) (lacking : Word) : capType (lackingRight tid lacking) = capTypeExregs :=
  show (capTypeExregs ||| capRtypeThread) &&& capTypeMask = capTypeExregs by decide

theorem lackingRight_thread (tid : L4id) (lacking : Word) : capRtype (lackingRight tid lacking) = capRtypeThread :=
  show (capTypeExregs ||| capRtypeThread) &&& capRtypeMask = capRtypeThread by decide

/-- For every two words that select what is copied, and every caller and thread in every state: the rule holds, for all
capabilities and contents, exactly when the call is refused or the words are orderly. -/
theorem exregs_respected (current tid p : L4id) (state : TaskState) (validVect flags : Word) :
    (∀ l (task : ExregsTask) (exregs : ExregsData), task.ids.tid = tid → task.pager = some p → task.state = state →
      exregs.validVect = validVect → exregs.flags = flags → Respected current l task exregs) ↔
    Blocked current tid p state validVect ∨ ExregsOrderly current tid state validVect flags := by
  constructor
  · intro respected
    by_contra others
    obtain ⟨passes, disorder⟩ := not_or.mp others
    let task : ExregsTask := { ids := ⟨tid, 0, 0⟩, state := state, pager := some p }
    let exregs : ExregsData := { validVect := validVect, flags := flags, context := fun _ => 1, utcbAddress := 1 }
    have idle : exregsActive current task exregs = .ok false := by
      rw [exregsActive_eq (p := p) rfl]
      exact congrArg Except.ok (decide_eq_false passes)
    obtain ⟨task', exregs', copied, touches⟩ := exregsCopy_touched task exregs (p := p) rfl
      (fun _ => show (1 : Word) ≠ 0 by decide) (show (1 : Word) ≠ 0 by decide)
    -- the call goes through by one capability, which then has every right for what is touched
    have single : ∀ lacking, capMatchExregs task.ids exregs (lackingRight tid lacking) = .ok true →
        (∀ f : Field, f.touched task task' exregs 0 → ~~~lacking &&& f.right ≠ 0) ∧
          (state ≠ .inactive → task'.context ≠ task.context → current = tid) := fun lacking accepted => by
      obtain ⟨rights, self⟩ := respected { space := [lackingRight tid lacking] } task exregs rfl rfl rfl rfl rfl 0 false _ _ _
        (sysExchangeRegisters_single (lackingRight_type tid lacking) accepted idle copied)
      refine ⟨fun f touched => ?_, self⟩
      obtain ⟨c, mem, -, -, has⟩ := rights ⟨f, touched⟩
      obtain rfl : c = lackingRight tid lacking := List.mem_singleton.mp (by simpa [CapLists.all] using mem)
      exact has f touched
    refine disorder ⟨fun set => ?_, fun read set => ?_, fun active write other r => ?_⟩
    · intro none
      have accepted : capMatchExregs task.ids exregs (lackingRight tid capExregsRwUtcb) = .ok true := capMatchExregs_ok (lackingRight_thread tid capExregsRwUtcb) rfl
        (show ~~~capExregsRwUtcb &&& capExregsRwRegs ≠ 0 by decide) (show ~~~capExregsRwUtcb &&& capExregsRwSp ≠ 0 by decide)
        (show ~~~capExregsRwUtcb &&& capExregsRwPc ≠ 0 by decide) (fun asked => absurd none asked)
        (fun _ => show ~~~capExregsRwUtcb &&& capExregsRwPager ≠ 0 by decide)
      exact (single _ accepted).1 .utcb (touches .utcb set nofun) (show ~~~capExregsRwUtcb &&& capExregsRwUtcb = 0 by decide)
    · intro none
      have accepted : capMatchExregs task.ids exregs (lackingRight tid capExregsRwPager) = .ok true := capMatchExregs_ok (lackingRight_thread tid capExregsRwPager) rfl
        (show ~~~capExregsRwPager &&& capExregsRwRegs ≠ 0 by decide) (show ~~~capExregsRwPager &&& capExregsRwSp ≠ 0 by decide)
        (show ~~~capExregsRwPager &&& capExregsRwPc ≠ 0 by decide)
        (fun _ => show ~~~capExregsRwPager &&& capExregsRwUtcb ≠ 0 by decide) (fun asked => absurd none asked)
      exact (single _ accepted).1 .pager (touches .pager set fun _ => read) (show ~~~capExregsRwPager &&& capExregsRwPager = 0 by decide)
    · by_contra asked
      have accepted : capMatchExregs task.ids exregs (lackingRight tid 0) = .ok true := capMatchExregs_ok (lackingRight_thread tid 0) rfl
        (show ~~~(0 : Word) &&& capExregsRwRegs ≠ 0 by decide) (show ~~~(0 : Word) &&& capExregsRwSp ≠ 0 by decide)
        (show ~~~(0 : Word) &&& capExregsRwPc ≠ 0 by decide) (fun _ => show ~~~(0 : Word) &&& capExregsRwUtcb ≠ 0 by decide)
        (fun _ => show ~~~(0 : Word) &&& capExregsRwPager ≠ 0 by decide)
      refine other ((single _ accepted).2 active fun same => ?_)
      rcases touches (.reg r) asked nofun with changed | ⟨-, read, -⟩
      · exact changed (congrFun same r)
      · exact read write
  · rintro cond l task exregs rfl pager rfl rfl rfl
    rcases cond with blocked | orderly
    · exact blocked.respected pager
    · exact orderly.respected

/-- A caller whose capability carries no right sets the utcb address of a thread, and a pager writes the `r0` of a thread
that is running. -/
theorem exregs_exceeds :
    (∃ task', sysExchangeRegisters 0 false 3 { space := [{ type := capTypeExregs ||| capRtypeThread, resid := 2, access := 0 }] }
        { ids := ⟨2, 1, 1⟩, state := .runnable, pager := some 1 } { flags := exregsSetUtcb, utcbAddress := 0x1000 } =
          .ok (task', { flags := exregsSetUtcb, utcbAddress := 0x1000 }, 0) ∧ task'.utcbAddress = 0x1000) ∧
    (∃ task', sysExchangeRegisters 0 false 1
        { space := [{ type := capTypeExregs ||| capRtypeThread, resid := 2, access := capExregsRwRegs ||| capExregsRwPager }] }
        { ids := ⟨2, 1, 1⟩, state := .runnable, pager := some 1 } { validVect := 1, context := fun _ => 5 } =
          .ok (task', { validVect := 1, context := fun _ => 5 }, 0) ∧ task'.context 0 = 5) :=
  ⟨⟨_, rfl, rfl⟩, ⟨_, rfl, rfl⟩⟩

end Codezero.Cap
