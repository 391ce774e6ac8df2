import Codezero.Kernel.State

/-!
# Capabilities

A system call is let through by a capability of its caller: the search goes through the list of the caller's space and
then through that of its container, for one of the call's type that the call's own matching function accepts.
-/

namespace Codezero.Cap
open Codezero.Kernel (Word Bug)

def pageBits : Nat := 12

/-- `__pfn`. -/
def pfn (address : Word) : Word := address >>> pageBits

def enocap : Int := -134

def capTypeMask : Word := 0x0000FFFF
def capTypeTctrl : Word := 1 <<< 0
def capTypeExregs : Word := 1 <<< 1
def capTypeMapPhysmem : Word := 1 <<< 2
def capTypeMapVirtmem : Word := 1 <<< 3
def capTypeIrqctrl : Word := 1 <<< 5

def capRtypeMask : Word := 0xFFFF0000
def capRtypeThread : Word := 1 <<< 16
def capRtypeSpace : Word := 1 <<< 17
def capRtypeContainer : Word := 1 <<< 18

structure Capability where
  resid : Word := 0
  type : Word
  access : Word
  start : Word := 0
  (end' : Word := 0)
  deriving DecidableEq, Repr

def capType (c : Capability) : Word := c.type &&& capTypeMask
def capRtype (c : Capability) : Word := c.type &&& capRtypeMask

/-- The lists that a thread's system calls search. -/
structure CapLists where
  space : List Capability := []
  container : List Capability := []

def CapLists.all (l : CapLists) : List Capability := l.space ++ l.container

/-- The search of one list. -/
def capListFind (type : Word) (capMatch : Capability → Except Bug Bool) : List Capability → Except Bug (Option Capability)
  | [] => pure none
  | c :: rest =>
    if capType c = type then do
      if ← capMatch c then pure (some c) else capListFind type capMatch rest
    else capListFind type capMatch rest

/-- `cap_find`. -/
def capFind (l : CapLists) (type : Word) (capMatch : Capability → Except Bug Bool) : Except Bug (Option Capability) := do
  match ← capListFind type capMatch l.space with
  | some c => pure (some c)
  | none => capListFind type capMatch l.container

/-- The ids of a thread that a capability can name. -/
structure Target where
  tid : Word
  spid : Word
  cid : Word
  deriving DecidableEq, Repr

/-- The switch on the resource type that ends most matching functions. -/
def capNames (t : Target) (c : Capability) : Except Bug Bool :=
  if capRtype c = capRtypeThread then pure (t.tid = c.resid)
  else if capRtype c = capRtypeSpace then pure (t.spid = c.resid)
  else if capRtype c = capRtypeContainer then pure (t.cid = c.resid)
  else .error .capRtype

/-- The capability names the thread, its space or its container. -/
def Names (t : Target) (c : Capability) : Prop :=
  (capRtype c = capRtypeThread ∧ t.tid = c.resid) ∨ (capRtype c = capRtypeSpace ∧ t.spid = c.resid) ∨
    (capRtype c = capRtypeContainer ∧ t.cid = c.resid)

section
variable {type : Word} {capMatch : Capability → Except Bug Bool} {c : Capability} {l : CapLists} {cs : List Capability} {t : Target}

theorem capNames_true (named : capNames t c = .ok true) : Names t c := by
  unfold capNames at named
  split_ifs at named with thread space container
  · exact .inl ⟨thread, by simpa [pure, Except.pure] using named⟩
  · exact .inr (.inl ⟨space, by simpa [pure, Except.pure] using named⟩)
  · exact .inr (.inr ⟨container, by simpa [pure, Except.pure] using named⟩)

/-- What is found was in the list, has the type and was accepted. -/
theorem capListFind_some (found : capListFind type capMatch cs = .ok (some c)) :
    c ∈ cs ∧ capType c = type ∧ capMatch c = .ok true := by
  induction cs with
  | nil => exact nomatch found
  | cons d rest next =>
    unfold capListFind at found
    split at found
    · next right =>
      cases accepted : capMatch d with
      | error b => rw [accepted] at found; exact nomatch found
      | ok yes =>
        rw [accepted] at found
        cases yes with
        | true => cases found; exact ⟨List.mem_cons_self, right, accepted⟩
        | false =>
          obtain ⟨mem, facts⟩ := next found
          exact ⟨List.mem_cons_of_mem d mem, facts⟩
    · obtain ⟨mem, facts⟩ := next found
      exact ⟨List.mem_cons_of_mem d mem, facts⟩

theorem capFind_some (found : capFind l type capMatch = .ok (some c)) :
    c ∈ l.all ∧ capType c = type ∧ capMatch c = .ok true := by
  unfold capFind at found
  cases first : capListFind type capMatch l.space with
  | error b => rw [first] at found; exact nomatch found
  | ok o =>
    rw [first] at found
    cases o with
    | some d =>
      cases found
      obtain ⟨mem, facts⟩ := capListFind_some first
      exact ⟨List.mem_append_left _ mem, facts⟩
    | none =>
      obtain ⟨mem, facts⟩ := capListFind_some found
      exact ⟨List.mem_append_right _ mem, facts⟩

/-- A list of one capability that is accepted. -/
theorem capFind_single (right : capType c = type) (accepted : capMatch c = .ok true) :
    capFind { space := [c] } type capMatch = .ok (some c) := by
  simp [capFind, capListFind, right, accepted, bind, Except.bind, pure, Except.pure]

end

end Codezero.Cap
