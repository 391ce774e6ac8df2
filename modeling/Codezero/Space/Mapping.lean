import Codezero.Kernel.State
import Codezero.Lib.Bits

/-!
# Page tables of an ARMv5 address space

A page directory has 4096 entries of one megabyte each. An entry is a fault or holds the physical address of
a table of 256 page table entries, its low two bits telling which. Tables come from the pmd cache and are named
by their physical address, which `phys_to_virt` only shifts. Cache and tlb maintenance is left out.
-/

namespace Codezero.Space
open Codezero.Kernel (Word)
open Function (update)

def enomem : Int := -12
def enomap : Int := -136

/-! ## Addresses -/

def pageSize : Word := 0x1000
def pageMask : Word := 0xFFF

def pageAlign (addr : Word) : Word := addr &&& ~~~pageMask
def pageAlignUp (addr : Word) : Word := (addr + pageMask) &&& ~~~pageMask
def isPageAligned (addr : Word) : Bool := addr &&& pageMask == 0#32
def isAligned (val size : Word) : Bool := val &&& (size - 1) == 0#32
def align (addr size : Word) : Word := addr &&& ~~~(size - 1)
def alignUp (addr size : Word) : Word := (addr + (size - 1)) &&& ~~~(size - 1)

/-- `__pfn`. -/
def pfn (addr : Word) : Word := addr >>> 12

def pgdEntryTotal : Nat := 4096
def pmdMapSize : Word := 0x100000
def pmdSize : Word := 0x400

def pgdIndex (x : Word) : Nat := (((x >>> 18) &&& 0x3FFC#32) / 4#32).toNat
def pmdIndex (x : Word) : Nat := (((x >>> 10) &&& 0x3FC#32) / 4#32).toNat

/-! ## Entries -/

def pmdTypeMask : Word := 0x3
def pmdTypeFault : Word := 0
def pmdTypePmd : Word := 1
def pmdAlignMask : Word := ~~~(pmdSize - 1)

def pteTypeMask : Word := 0x3
def pteTypeFault : Word := 0
def pteTypeSmall : Word := 2
def pteProtMask : Word := 0xFF0

/-- The generic mapping flags. -/
def mapFault : Word := 0
def mapUsrRw : Word := 1
def mapUsrRo : Word := 2
def mapKernRw : Word := 3
def mapUsrIo : Word := 4
def mapKernIo : Word := 5
def mapUsrRwx : Word := 6
def mapKernRwx : Word := 7
def mapUsrRx : Word := 8
def mapKernRx : Word := 9
def mapInvalidFlags : Word := 1 <<< 31

/-- Cacheable and bufferable, unless it is a device, and one permission for each of the four subpages. -/
def ptBits (cached : Bool) (ap : Word) : Word :=
  (if cached then 0xC else 0) ||| (ap <<< 4) ||| (ap <<< 6) ||| (ap <<< 8) ||| (ap <<< 10)

def svcRwUsrNone : Word := 1
def svcRwUsrRo : Word := 2
def svcRwUsrRw : Word := 3

/-- `space_flags_to_ptflags`. -/
def spaceFlagsToPtflags (flags : Word) : Word :=
  if flags = mapFault then 0
  else if flags = mapUsrRw then ptBits true svcRwUsrRw
  else if flags = mapUsrRo then ptBits true svcRwUsrRo
  else if flags = mapKernRw then ptBits true svcRwUsrNone
  else if flags = mapUsrIo then ptBits false svcRwUsrRw
  else if flags = mapKernIo then ptBits false svcRwUsrNone
  else if flags = mapUsrRwx then ptBits true svcRwUsrRw
  else if flags = mapKernRwx then ptBits true svcRwUsrNone
  else if flags = mapUsrRx then ptBits true svcRwUsrRo
  else if flags = mapKernRx then ptBits true svcRwUsrNone
  else mapInvalidFlags

/-- `user_map_flags_validate`. -/
def userMapFlagsValidate (flags : Word) : Bool :=
  flags == mapUsrRo || flags == mapUsrRw || flags == mapUsrRwx || flags == mapUsrRx || flags == mapUsrIo

/-! ## The tables -/

abbrev SpaceId := Nat

structure Mmu where
  /-- The page directory of every space. -/
  pgd : SpaceId → Nat → Word
  /-- The tables of page table entries. -/
  pmd : Word → Nat → Word
  /-- The tables that are taken from the pmd cache. -/
  used : List Word

/-- The `BUG`s of these paths. -/
inductive Bug
  | pmdType
  | pteType
  | mappingSize
  | mapFlags
  | notAligned
  | pmdNotAligned
  deriving DecidableEq, Repr

/-- `pmd_cap_alloc` returns the next of the tables that the caller's quota and the cache still allow, cleared, or
none. -/
def pmdCapAlloc (s : Mmu) : List Word → Option (Word × Mmu × List Word)
  | [] => none
  | table :: supply =>
    some (table, { s with used := table :: s.used, pmd := update s.pmd table (fun _ => 0) }, supply)

def pmdCapFree (s : Mmu) (table : Word) : Mmu := { s with used := s.used.erase table }

def isPmd (entry : Word) : Bool := entry &&& pmdTypeMask == pmdTypePmd

/-- The table an entry of the page directory refers to. -/
def tableOf (entry : Word) : Word := entry &&& pmdAlignMask

/-- `pmd_exists`. -/
def pmdExists (s : Mmu) (sp : SpaceId) (vaddr : Word) : Except Bug (Option Word) :=
  let pmd := s.pgd sp (pgdIndex vaddr)
  if pmd &&& pmdTypeMask = pmdTypePmd then .ok (some (tableOf pmd))
  else if pmd &&& pmdTypeMask = 0 then .ok none
  else .error .pmdType

/-- `virt_to_pte_from_pgd`. -/
def virtToPteFromPgd (s : Mmu) (sp : SpaceId) (vaddr : Word) : Except Bug Word := do
  match ← pmdExists s sp vaddr with
  | some table => pure (s.pmd table (pmdIndex vaddr))
  | none => pure 0

/-- `arch_prepare_pte`. -/
def archPreparePte (paddr vaddr flags : Word) : Except Bug Word :=
  if !isPageAligned paddr || !isPageAligned vaddr then .error .notAligned
  else if flags = 0 then .ok (paddr ||| flags ||| pteTypeFault)
  else .ok (paddr ||| flags ||| pteTypeSmall)

def writePte (s : Mmu) (table : Word) (i : Nat) (pte : Word) : Mmu :=
  { s with pmd := update s.pmd table (update (s.pmd table) i pte) }

/-- `arch_prepare_write_pte`. -/
def archPrepareWritePte (s : Mmu) (paddr vaddr flags : Word) (table : Word) : Except Bug Mmu := do
  let pte ← archPreparePte paddr vaddr flags
  pure (writePte s table (pmdIndex vaddr) pte)

/-- `attach_pmd`. -/
def attachPmd (s : Mmu) (sp : SpaceId) (table vaddr : Word) : Except Bug Mmu :=
  if !isAligned table pmdSize then .error .pmdNotAligned
  else .ok { s with pgd := update s.pgd sp (update (s.pgd sp) (pgdIndex vaddr) (table ||| pmdTypePmd)) }

/-! ## Mapping, unmapping and checking -/

/-- The loop of `add_mapping_space`. -/
def addMappingPages (sp : SpaceId) (flags : Word) : Nat → Mmu → Word → Word → List Word → Except Bug (Mmu × Int)
  | 0, s, _, _, _ => .ok (s, 0)
  | n + 1, s, physical, virtual, supply => do
    match ← pmdExists s sp virtual with
    | none =>
      match pmdCapAlloc s supply with
      | none => .ok (s, enomem)
      | some (table, s1, supply) =>
        let s2 ← archPrepareWritePte s1 physical virtual flags table
        let s3 ← attachPmd s2 sp table virtual
        addMappingPages sp flags n s3 (physical + pageSize) (virtual + pageSize) supply
    | some table =>
      let s1 ← archPrepareWritePte s physical virtual flags table
      addMappingPages sp flags n s1 (physical + pageSize) (virtual + pageSize) supply

/-- The pages that cover a size in bytes. -/
def mappingPages (szBytes : Word) : Nat := (szBytes >>> 12).toNat + if szBytes &&& pageMask = 0 then 0 else 1

/-- `add_mapping_space`. -/
def addMappingSpace (s : Mmu) (physical virtual szBytes flags : Word) (sp : SpaceId) (supply : List Word) :
    Except Bug (Mmu × Int) :=
  if szBytes < pageSize then .error .mappingSize
  else
    let npages := mappingPages szBytes
    let flags := spaceFlagsToPtflags flags
    if flags = 0 then .error .mapFlags
    else addMappingPages sp flags npages s physical virtual supply

/-- `remove_mapping_space`. -/
def removeMappingSpace (s : Mmu) (sp : SpaceId) (vaddr : Word) : Except Bug (Mmu × Int) :=
  let vaddr := pageAlign vaddr
  let pmd := s.pgd sp (pgdIndex vaddr)
  if pmd &&& pmdTypeMask = pmdTypeFault then .ok (s, enomap)
  else if pmd &&& pmdTypeMask ≠ pmdTypePmd then .error .pmdType
  else
    let table := tableOf pmd
    let pteType := s.pmd table (pmdIndex vaddr) &&& pteTypeMask
    if pteType = pteTypeFault then .ok (s, enomap)
    else if pteType ≠ pteTypeSmall then .error .pteType
    else do
      let s' ← archPrepareWritePte s 0 vaddr (spaceFlagsToPtflags mapFault) table
      pure (s', 0)

/-- `arch_check_pte_access_perms`. -/
def archCheckPteAccessPerms (pte flags : Word) : Bool := pte &&& pteProtMask ≥ flags &&& pteProtMask

/-- The loop of `check_mapping_pgd`. -/
def checkMappingPages (s : Mmu) (sp : SpaceId) (flags : Word) : Nat → Word → Except Bug Bool
  | 0, _ => .ok true
  | n + 1, vaddr => do
    let pte ← virtToPteFromPgd s sp vaddr
    if archCheckPteAccessPerms pte flags then checkMappingPages s sp flags n (vaddr + pageSize) else pure false

/-- `check_mapping_pgd`. -/
def checkMappingPgd (s : Mmu) (sp : SpaceId) (vaddr size flags : Word) : Except Bug Bool :=
  let npages := (pfn (alignUp size pageSize)).toNat
  let flags := spaceFlagsToPtflags flags
  if flags = 0 then .error .mapFlags else checkMappingPages s sp flags npages vaddr

end Codezero.Space
