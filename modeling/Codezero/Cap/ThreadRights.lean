import Codezero.Cap.Capability

/-!
# Rights to thread control

`cap_thread_check` looks for a capability with the right for the action. A target is named as in the other checks;
creation has none, and needs a capability over the caller's container.
-/

namespace Codezero.Cap
open Codezero.Kernel (Word L4id Bug)

def threadActionMask : Word := 0xF0000000
def threadCreate : Word := 0x00000000
def threadRun : Word := 0x10000000
def threadSuspend : Word := 0x20000000
def threadDestroy : Word := 0x30000000
def threadRecycle : Word := 0x40000000
def threadWait : Word := 0x50000000

def capTctrlCreate : Word := 1 <<< 0
def capTctrlDestroy : Word := 1 <<< 1
def capTctrlRun : Word := 1 <<< 2
def capTctrlSuspend : Word := 1 <<< 3
def capTctrlRecycle : Word := 1 <<< 4
def capTctrlWait : Word := 1 <<< 5

/-- The right that each action needs; `none` is the default case. -/
def tctrlRight (action : Word) : Option Word :=
  if action = threadCreate then some capTctrlCreate
  else if action = threadDestroy then some capTctrlDestroy
  else if action = threadSuspend then some capTctrlSuspend
  else if action = threadRun then some capTctrlRun
  else if action = threadRecycle then some capTctrlRecycle
  else if action = threadWait then some capTctrlWait
  else none

/-- `cap_match_thread`; `cid` is the container of the caller. -/
def capMatchThread (target : Option Target) (flags cid : Word) (c : Capability) : Except Bug Bool :=
  match tctrlRight (flags &&& threadActionMask) with
  | none => pure false
  | some right =>
    if c.access &&& right = 0 then pure false
    else
      match target with
      | none =>
        if flags &&& threadActionMask = threadCreate then pure (capRtype c = capRtypeContainer ∧ c.resid = cid)
        else .error .capTarget
      | some t => if flags &&& threadActionMask = threadCreate then .error .capTarget else capNames t c

/-- `cap_thread_check`. -/
def capThreadCheck (l : CapLists) (target : Option Target) (flags cid : Word) : Except Bug Int := do
  match ← capFind l capTypeTctrl (capMatchThread target flags cid) with
  | none => pure enocap
  | some _ => pure 0

end Codezero.Cap
