import Codezero.Cap.Capability

/-!
# Exchange registers

`sys_exchange_registers` copies the registers that a valid bit names, and the utcb address and pager id that a flag
names, between the caller's data and a suspended thread.
-/

namespace Codezero.Cap
open Codezero.Kernel (Word L4id Bug TaskState)

def eactive : Int := -132

def exregsSetPager : Word := 1
def exregsSetUtcb : Word := 2
def exregsRead : Word := 4

/-- The registers of `exregs_context_t` in its order: `r0` to `r12`, `sp`, `lr`, `pc`. -/
abbrev Reg := Fin 16

def regSp : Reg := 13
def regPc : Reg := 15

/-- `FIELD_TO_BIT`. -/
def fieldToBit (r : Reg) : Word := 1 <<< r.val

def exregsValidRegularRegs : Word := 0x5FFF
def exregsValidSp : Word := fieldToBit regSp
def exregsValidPc : Word := fieldToBit regPc

/-- `struct exregs_data`. -/
structure ExregsData where
  context : Reg → Word := fun _ => 0
  validVect : Word := 0
  flags : Word := 0
  pagerid : L4id := 0
  utcbAddress : Word := 0

/-- What the call reads and writes of the thread's ktcb. -/
structure ExregsTask where
  ids : Target
  state : TaskState := .inactive
  pager : Option L4id := none
  context : Reg → Word := fun _ => 0
  utcbAddress : Word := 0

/-- The registers of one context that are valid, over those of another. -/
def copyValid (validVect : Word) (source dest : Reg → Word) : Reg → Word :=
  fun r => if validVect &&& fieldToBit r ≠ 0 then source r else dest r

/-- `exregs_write_registers`. -/
def exregsWriteRegisters (task : ExregsTask) (exregs : ExregsData) : ExregsTask :=
  { task with
    context := copyValid exregs.validVect exregs.context task.context
    utcbAddress := if exregs.flags &&& exregsSetUtcb ≠ 0 then exregs.utcbAddress else task.utcbAddress }

/-- `tcb_pagerid`. -/
def tcbPagerid (task : ExregsTask) : Except Bug L4id :=
  match task.pager with
  | none => .error .nullPointer
  | some pager => pure pager

/-- `exregs_read_registers`. -/
def exregsReadRegisters (task : ExregsTask) (exregs : ExregsData) : Except Bug ExregsData := do
  let pagerid ← if exregs.flags &&& exregsSetPager ≠ 0 then tcbPagerid task else pure exregs.pagerid
  pure { exregs with
    context := copyValid exregs.validVect task.context exregs.context
    pagerid := pagerid
    utcbAddress := if exregs.flags &&& exregsSetUtcb ≠ 0 then task.utcbAddress else exregs.utcbAddress }

def capExregsRwPager : Word := 1 <<< 0
def capExregsRwUtcb : Word := 1 <<< 1
def capExregsRwSp : Word := 1 <<< 2
def capExregsRwPc : Word := 1 <<< 3
def capExregsRwRegs : Word := 1 <<< 4

/-- `cap_match_exregs`. The last two checks read `valid_vect`, where the bits of `EXREGS_SET_UTCB` and
`EXREGS_SET_PAGER` are those of `r1` and `r0`. -/
def capMatchExregs (target : Target) (exregs : ExregsData) (c : Capability) : Except Bug Bool :=
  if exregs.validVect &&& exregsValidRegularRegs ≠ 0 ∧ c.access &&& capExregsRwRegs = 0 then pure false
  else if exregs.validVect &&& exregsValidSp ≠ 0 ∧ c.access &&& capExregsRwSp = 0 then pure false
  else if exregs.validVect &&& exregsValidPc ≠ 0 ∧ c.access &&& capExregsRwPc = 0 then pure false
  else if exregs.validVect &&& exregsSetUtcb ≠ 0 ∧ c.access &&& capExregsRwUtcb = 0 then pure false
  else if exregs.validVect &&& exregsSetPager ≠ 0 ∧ c.access &&& capExregsRwPager = 0 then pure false
  else capNames target c

/-- `cap_exregs_check`. -/
def capExregsCheck (l : CapLists) (target : Target) (exregs : ExregsData) : Except Bug Int := do
  match ← capFind l capTypeExregs (capMatchExregs target exregs) with
  | none => pure enocap
  | some _ => pure 0

/-- The check of `sys_exchange_registers` that the thread is suspended: true is `-EACTIVE`. -/
def exregsActive (current : L4id) (task : ExregsTask) (exregs : ExregsData) : Except Bug Bool :=
  if task.state ≠ .inactive ∧ exregs.validVect ≠ 0 ∧ current ≠ task.ids.tid then do
    let pagerid ← tcbPagerid task
    pure (pagerid ≠ current)
  else pure false

/-- The copy of `sys_exchange_registers`, in the direction that the flags give. -/
def exregsCopy (task : ExregsTask) (exregs : ExregsData) : Except Bug (ExregsTask × ExregsData) :=
  if exregs.flags &&& exregsRead ≠ 0 then do
    let exregs ← exregsReadRegisters task exregs
    pure (task, exregs)
  else pure (exregsWriteRegisters task exregs, exregs)

end Codezero.Cap
