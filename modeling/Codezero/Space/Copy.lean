import Codezero.Lib.Machine
import Codezero.Space.Translation

/-!
# Copies of an address space

A new space shares the tables of the global entries with the space it is made from and gets tables of its own
for all others. The entries that are copied and those that count as global are found in different ways, by
ranges of addresses and by indices, and have to be the same.
-/

namespace Codezero.Space
open Codezero.Kernel (Word)
open Codezero.Lib
open Function (update update_idem update_of_ne update_self)

/-! ## The model -/

def kernelAreaStart : Word := 0xF0000000
def kernelAreaEnd : Word := 0xF8000000
def ioAreaStart : Word := 0xF9000000
def ioAreaEnd : Word := 0xFF000000
def userKipPage : Word := 0xFF000000
def armHighVector : Word := 0xFFFF0000
def armSyscallVector : Word := 0xFFFFFF00
def userspaceConsoleVbase : Word := 0xF9800000

/-- `is_global_pgdi`. -/
def isGlobalPgdi (i : Nat) : Bool :=
  decide (pgdIndex kernelAreaStart ≤ i ∧ i < pgdIndex kernelAreaEnd) ||
  decide (pgdIndex ioAreaStart ≤ i ∧ i < pgdIndex ioAreaEnd) ||
  i == pgdIndex userKipPage || i == pgdIndex armHighVector || i == pgdIndex armSyscallVector ||
  i == pgdIndex userspaceConsoleVbase

/-- `copy_pgds_by_vrange`. An end of zero stands for the end of the address space. -/
def copyPgdsByVrange (pgd src : Nat → Word) (start stop : Word) : Nat → Word :=
  let startI := BitVec.ofNat 32 (pgdIndex start)
  let endI := BitVec.ofNat 32 (pgdIndex stop)
  let irange := if endI ≠ 0 then endI - startI else BitVec.ofNat 32 pgdEntryTotal - startI
  fun i => if startI.toNat ≤ i ∧ i < startI.toNat + irange.toNat then src i else pgd i

/-- The end that `copy_pgd_global_by_vrange` copies up to. -/
def vrangeEnd (start stop : Word) : Word :=
  let stop := if stop < start then 0 else stop
  if stop < align (~~~0) pmdMapSize ∨ start > stop then alignUp stop pmdMapSize else 0

/-- `copy_pgd_global_by_vrange`. -/
def copyPgdGlobalByVrange (pgd src : Nat → Word) (start stop : Word) : Nat → Word :=
  let start := align start pmdMapSize
  copyPgdsByVrange pgd src start (vrangeEnd start stop)

/-- `arch_copy_pgd_kernel_entries`. -/
def archCopyPgdKernelEntries (pgd src : Nat → Word) : Nat → Word :=
  let pgd := copyPgdGlobalByVrange pgd src kernelAreaStart kernelAreaEnd
  let pgd := copyPgdGlobalByVrange pgd src ioAreaStart ioAreaEnd
  let pgd := copyPgdGlobalByVrange pgd src userKipPage (userKipPage + pageSize)
  let pgd := copyPgdGlobalByVrange pgd src armHighVector (armHighVector + pageSize)
  let pgd := copyPgdGlobalByVrange pgd src armSyscallVector (armSyscallVector + pageSize)
  copyPgdGlobalByVrange pgd src userspaceConsoleVbase (userspaceConsoleVbase + pageSize)

/-- The first loop of `copy_user_tables`, over the indices still to come. It tells whether it got to the end. -/
def copyPmds (new orig : SpaceId) : List Nat → Mmu → List Word → Mmu × Bool
  | [], s, _ => (s, true)
  | i :: rest, s, supply =>
    if !isGlobalPgdi i && isPmd (s.pgd orig i) then
      match pmdCapAlloc s supply with
      | none => (s, false)
      | some (table, s1, supply) =>
        let s2 := { s1 with pmd := update s1.pmd table (s1.pmd (tableOf (s1.pgd orig i))) }
        let s3 := { s2 with pgd := update s2.pgd new (update (s2.pgd new) i (table ||| pmdTypePmd)) }
        copyPmds new orig rest s3 supply
    else copyPmds new orig rest s supply

/-- The loop behind `out_error`. -/
def freePmds (new : SpaceId) (is : List Nat) (s : Mmu) : Mmu :=
  is.foldl (fun s i => if !isGlobalPgdi i && isPmd (s.pgd new i) then pmdCapFree s (tableOf (s.pgd new i)) else s) s

/-- `copy_user_tables`. -/
def copyUserTables (s : Mmu) (new orig : SpaceId) (supply : List Word) : Mmu × Int :=
  match copyPmds new orig (List.range pgdEntryTotal) s supply with
  | (s, true) => (s, 0)
  | (s, false) => (freePmds new (List.range pgdEntryTotal) s, enomem)

/-- The new space's directory, with the entries that `address_space_create` takes from the current space. -/
def withPgd (s : Mmu) (current new : SpaceId) : Mmu :=
  { s with pgd := update s.pgd new (archCopyPgdKernelEntries (fun _ => pmdTypeFault) (s.pgd current)) }

/-- `address_space_create`, where `space` is what `space_cap_alloc` returns and `pgd` tells whether `pgd_alloc`
returns a directory, which is cleared. -/
def addressSpaceCreate (s : Mmu) (current : SpaceId) (space : Option SpaceId) (pgd : Bool) (orig : Option SpaceId)
    (supply : List Word) : Mmu × Except Int SpaceId :=
  match space with
  | none => (s, .error enomem)
  | some new =>
    if !pgd then (s, .error enomem)
    else
      let s := withPgd s current new
      match orig with
      | none => (s, .ok new)
      | some orig =>
        match copyUserTables s new orig supply with
        | (s, err) => if err < 0 then (s, .error err) else (s, .ok new)

/-! ## The global entries -/

theorem copyPgdGlobalByVrange_apply (pgd src : Nat → Word) (start stop : Word) (i lo hi : Nat)
    (first : pgdIndex (align start pmdMapSize) = lo)
    (last : pgdIndex (vrangeEnd (align start pmdMapSize) stop) = hi % pgdEntryTotal)
    (le : lo ≤ hi) (bound : hi ≤ pgdEntryTotal) (pos : 0 < hi) :
    copyPgdGlobalByVrange pgd src start stop i = if lo ≤ i ∧ i < hi then src i else pgd i := by
  have value : ∀ n ≤ pgdEntryTotal, (BitVec.ofNat 32 n).toNat = n := fun n le => by
    rw [pgdEntryTotal] at le
    rw [BitVec.toNat_ofNat]
    omega
  have size : (if BitVec.ofNat 32 (hi % pgdEntryTotal) ≠ 0 then BitVec.ofNat 32 (hi % pgdEntryTotal) - BitVec.ofNat 32 lo
      else BitVec.ofNat 32 pgdEntryTotal - BitVec.ofNat 32 lo).toNat = hi - lo := by
    rcases Nat.lt_or_eq_of_le bound with less | rfl
    · have whole : BitVec.ofNat 32 hi ≠ 0 := fun zero => by
        rw [← BitVec.toNat_inj, value hi bound] at zero
        exact absurd zero (Nat.ne_of_gt pos)
      rw [Nat.mod_eq_of_lt less, if_pos whole, BitVec.toNat_sub_of_le (by rw [BitVec.le_def, value hi bound, value lo (by omega)]; exact le),
        value hi bound, value lo (by omega)]
    · rw [Nat.mod_self, if_neg (by decide), BitVec.toNat_sub_of_le
        (by rw [BitVec.le_def, value _ bound, value lo le]; exact le), value _ bound, value lo le]
  simp only [copyPgdGlobalByVrange, copyPgdsByVrange, first, last, size, value lo (Nat.le_trans le bound)]
  rw [Nat.add_sub_cancel' le]

/-- The ranges that are copied are the entries that count as global. -/
theorem archCopyPgdKernelEntries_apply (pgd src : Nat → Word) (i : Nat) (lt : i < pgdEntryTotal) :
    archCopyPgdKernelEntries pgd src i = if isGlobalPgdi i then src i else pgd i := by
  rw [archCopyPgdKernelEntries,
    copyPgdGlobalByVrange_apply _ _ _ _ i 0xF98 0xF99 (by decide) (by decide) (by decide) (by decide) (by decide),
    copyPgdGlobalByVrange_apply _ _ _ _ i 0xFFF 0x1000 (by decide) (by decide) (by decide) (by decide) (by decide),
    copyPgdGlobalByVrange_apply _ _ _ _ i 0xFFF 0x1000 (by decide) (by decide) (by decide) (by decide) (by decide),
    copyPgdGlobalByVrange_apply _ _ _ _ i 0xFF0 0xFF1 (by decide) (by decide) (by decide) (by decide) (by decide),
    copyPgdGlobalByVrange_apply _ _ _ _ i 0xF90 0xFF0 (by decide) (by decide) (by decide) (by decide) (by decide),
    copyPgdGlobalByVrange_apply _ _ _ _ i 0xF00 0xF80 (by decide) (by decide) (by decide) (by decide) (by decide)]
  have indices : isGlobalPgdi i = true ↔ (0xF00 ≤ i ∧ i < 0xF80) ∨ (0xF90 ≤ i ∧ i < 0xFF1) ∨ i = 0xFFF := by
    have starts : pgdIndex kernelAreaStart = 0xF00 ∧ pgdIndex kernelAreaEnd = 0xF80 ∧ pgdIndex ioAreaStart = 0xF90 ∧
        pgdIndex ioAreaEnd = 0xFF0 ∧ pgdIndex userKipPage = 0xFF0 ∧ pgdIndex armHighVector = 0xFFF ∧
        pgdIndex armSyscallVector = 0xFFF ∧ pgdIndex userspaceConsoleVbase = 0xF98 := by decide
    simp only [isGlobalPgdi, starts, Bool.or_eq_true, decide_eq_true_eq, beq_iff_eq]
    omega
  rw [pgdEntryTotal] at lt
  by_cases global : isGlobalPgdi i = true
  · have range := indices.mp global
    rw [if_pos global]
    split_ifs <;> first | rfl | omega
  · have range := mt indices.mpr global
    rw [if_neg global]
    split_ifs <;> first | rfl | omega

/-! ## Spaces side by side -/

/-- Every space is well formed, and the tables of entries that are not global belong to one space and one entry. -/
structure System (s : Mmu) (spaces : List SpaceId) : Prop where
  wf : ∀ sp ∈ spaces, WellFormed s sp
  own : ∀ a ∈ spaces, ∀ b ∈ spaces, ∀ i < pgdEntryTotal, ∀ j < pgdEntryTotal, isGlobalPgdi i = false →
    isPmd (s.pgd a i) = true → isPmd (s.pgd b j) = true → tableOf (s.pgd a i) = tableOf (s.pgd b j) → a = b ∧ i = j

section System
variable {s s' : Mmu} {spaces : List SpaceId} {a b : SpaceId} {virtual pte flags physical v : Word} {n : Nat}

theorem PteWritten.system (system : System s spaces) (mem : a ∈ spaces) (written : PteWritten s a virtual pte s') :
    System s' spaces := by
  have wf := written.wellFormed (system.wf a mem)
  cases written with
  | present is => exact ⟨fun sp mem => ⟨(system.wf sp mem).entries, (system.wf sp mem).tables, (system.wf sp mem).apart⟩, system.own⟩
  | @attached table fault unused aligned =>
    -- An entry is the new one or as it was, and no old one refers to the new table.
    have old : ∀ sp ∈ spaces, ∀ i < pgdEntryTotal, ¬ (sp = a ∧ i = pgdIndex virtual) →
        (update s.pgd a (update (s.pgd a) (pgdIndex virtual) (table ||| pmdTypePmd))) sp i = s.pgd sp i := by
      intro sp _ i _ other
      by_cases here : sp = a
      · subst here
        rw [update_self, update_of_ne (fun same => other ⟨rfl, same⟩)]
      · rw [update_of_ne here]
    have newer : ∀ sp ∈ spaces, ∀ i < pgdEntryTotal, isPmd (s.pgd sp i) = true → tableOf (s.pgd sp i) ≠ table :=
      fun sp mem i lt is same => unused (same ▸ (system.wf sp mem).tables i lt is)
    have here : (update s.pgd a (update (s.pgd a) (pgdIndex virtual) (table ||| pmdTypePmd))) a
        (pgdIndex virtual) = table ||| pmdTypePmd := by rw [update_self, update_self]
    refine ⟨fun sp mem' => ?_, fun x memx y memy i lti j ltj nonglobal isx isy same => ?_⟩
    · by_cases here : sp = a
      · exact here ▸ wf
      · have wf := system.wf sp mem'
        refine ⟨?_, ?_, ?_⟩
        · simpa [update_of_ne here] using wf.entries
        · simpa [update_of_ne here] using fun i lt is => List.mem_cons_of_mem table (wf.tables i lt is)
        · simpa [update_of_ne here] using wf.apart
    · dsimp only at isx isy same
      by_cases newx : x = a ∧ i = pgdIndex virtual <;> by_cases newy : y = a ∧ j = pgdIndex virtual
      · exact ⟨newx.1.trans newy.1.symm, newx.2.trans newy.2.symm⟩
      · obtain ⟨rfl, rfl⟩ := newx
        rw [old y memy j ltj newy] at isy same
        rw [here, tableOf_or_pmd aligned] at same
        exact absurd same.symm (newer y memy j ltj isy)
      · obtain ⟨rfl, rfl⟩ := newy
        rw [old x memx i lti newx] at isx same
        rw [here, tableOf_or_pmd aligned] at same
        exact absurd same (newer x memx i lti isx)
      · rw [old x memx i lti newx] at isx same
        rw [old y memy j ltj newy] at isy same
        exact system.own x memx y memy i lti j ltj nonglobal isx isy same

/-- What is written at an entry that is not global is not seen in another space. -/
theorem PteWritten.frame (system : System s spaces) (mema : a ∈ spaces) (memb : b ∈ spaces) (ne : b ≠ a)
    (nonglobal : isGlobalPgdi (pgdIndex virtual) = false) (written : PteWritten s a virtual pte s') : tr s' b v = tr s b v := by
  cases written with
  | present is =>
    by_cases entry : isPmd (s.pgd b (pgdIndex v)) = true
    · have differ : tableOf (s.pgd b (pgdIndex v)) ≠ tableOf (s.pgd a (pgdIndex virtual)) := fun same =>
        ne (system.own a mema b memb _ (pgdIndex_lt virtual) _ (pgdIndex_lt v) nonglobal is entry same.symm).1.symm
      simp [tr, writePte, update_of_ne differ]
    · simp [tr, writePte, entry]
  | @attached table fault unused aligned =>
    by_cases entry : isPmd (s.pgd b (pgdIndex v)) = true
    · have differ : tableOf (s.pgd b (pgdIndex v)) ≠ table := fun same =>
        unused (same ▸ (system.wf b memb).tables _ (pgdIndex_lt v) entry)
      simp [tr, update_of_ne ne, update_of_ne differ]
    · simp [tr, update_of_ne ne, entry]

end System

/-! ## The copying loop -/

/-- A list function that gets one more value. -/
theorem filterMap_update_perm {α β : Type} [DecidableEq α] {f : α → Option β} {l : List α} {a : α} {b : β} (nodup : l.Nodup)
    (mem : a ∈ l) (blank : f a = none) : (l.filterMap (update f a (some b))).Perm (b :: l.filterMap f) := by
  induction l with
  | nil => exact absurd mem List.not_mem_nil
  | cons x l rest =>
    obtain ⟨notin, nodup⟩ := List.nodup_cons.mp nodup
    by_cases here : a = x
    · subst here
      have same : l.filterMap (update f a (some b)) = l.filterMap f := List.filterMap_congr (fun y mem => by
        have differ : y ≠ a := fun eq => notin (eq ▸ mem)
        rw [update_of_ne differ])
      rw [List.filterMap_cons_some (update_self ..), List.filterMap_cons_none blank, same]
    · have rest := rest nodup ((List.mem_cons.mp mem).resolve_left here)
      have other : update f a (some b) x = f x := update_of_ne (Ne.symm here) _ _
      cases value : f x with
      | none => rwa [List.filterMap_cons_none (other.trans value), List.filterMap_cons_none value]
      | some y =>
        rw [List.filterMap_cons_some (other.trans value), List.filterMap_cons_some value]
        exact (rest.cons y).trans (List.Perm.swap b y _)

/-- The table of an entry that is not global. -/
def ownTable (s : Mmu) (sp : SpaceId) (i : Nat) : Option Word :=
  if !isGlobalPgdi i && isPmd (s.pgd sp i) then some (tableOf (s.pgd sp i)) else none

def ownTables (s : Mmu) (sp : SpaceId) : List Word := (List.range pgdEntryTotal).filterMap (ownTable s sp)

/-- An entry that has to be copied. -/
def Private (s : Mmu) (sp : SpaceId) (i : Nat) : Prop := isGlobalPgdi i = false ∧ isPmd (s.pgd sp i) = true

/-- The state of the loop once the entries `done` are copied. -/
structure Copied (s0 s : Mmu) (new orig : SpaceId) (done : List Nat) : Prop where
  others : ∀ sp, sp ≠ new → s.pgd sp = s0.pgd sp
  tables : ∀ table ∈ s0.used, s.pmd table = s0.pmd table
  copy : ∀ i ∈ done, Private s0 orig i → ∃ table, s.pgd new i = table ||| pmdTypePmd ∧ isAligned table pmdSize = true ∧
    table ∉ s0.used ∧ table ∈ s.used ∧ s.pmd table = s0.pmd (tableOf (s0.pgd orig i))
  rest : ∀ i, (i ∈ done → ¬ Private s0 orig i) → s.pgd new i = s0.pgd new i
  apart : ∀ i ∈ done, ∀ j ∈ done, Private s0 orig i → Private s0 orig j →
    tableOf (s.pgd new i) = tableOf (s.pgd new j) → i = j
  used : s.used.Perm (ownTables s new ++ s0.used)

section Loop
variable {s0 s : Mmu} {new orig : SpaceId} {done : List Nat} {i : Nat} {table : Word}

/-- The state once one more entry is copied. -/
def copyEntry (s : Mmu) (new orig : SpaceId) (i : Nat) (table : Word) : Mmu :=
  { pgd := update s.pgd new (update (s.pgd new) i (table ||| pmdTypePmd))
    pmd := update s.pmd table (s.pmd (tableOf (s.pgd orig i)))
    used := table :: s.used }

theorem Copied.skip (copied : Copied s0 s new orig done) (other : ¬ Private s0 orig i) : Copied s0 s new orig (i :: done) := by
  have old : ∀ j ∈ i :: done, Private s0 orig j → j ∈ done := fun j mem isPrivate =>
    (List.mem_cons.mp mem).resolve_left (fun eq => other (eq ▸ isPrivate))
  exact ⟨copied.others, copied.tables, fun j mem isPrivate => copied.copy j (old j mem isPrivate) isPrivate,
    fun j notPrivate => copied.rest j (fun mem => notPrivate (List.mem_cons_of_mem i mem)),
    fun j memj k memk privj privk => copied.apart j (old j memj privj) k (old k memk privk) privj privk, copied.used⟩

theorem Copied.next (copied : Copied s0 s new orig done) (ne : orig ≠ new) (wf : WellFormed s0 orig) (lt : i < pgdEntryTotal)
    (isPrivate : Private s0 orig i) (notDone : i ∉ done) (blank : isPmd (s0.pgd new i) = false) (unused : table ∉ s.used)
    (aligned : isAligned table pmdSize = true) : Copied s0 (copyEntry s new orig i table) new orig (i :: done) := by
  have kept : ∀ t ∈ s0.used, t ∈ s.used := fun t mem => copied.used.mem_iff.mpr (List.mem_append_right _ mem)
  have unused0 : table ∉ s0.used := fun mem => unused (kept table mem)
  have here : (copyEntry s new orig i table).pgd new i = table ||| pmdTypePmd := by simp [copyEntry]
  have there : ∀ j, j ≠ i → (copyEntry s new orig i table).pgd new j = s.pgd new j := fun j ne => by
    simp [copyEntry, update_of_ne ne]
  have contents : ∀ t, t ≠ table → (copyEntry s new orig i table).pmd t = s.pmd t := fun t ne => by
    simp [copyEntry, update_of_ne ne]
  have source : s.pmd (tableOf (s.pgd orig i)) = s0.pmd (tableOf (s0.pgd orig i)) := by
    rw [copied.others orig ne, copied.tables _ (wf.tables i lt isPrivate.2)]
  have newer : ∀ j ∈ done, Private s0 orig j → tableOf (s.pgd new j) ≠ table := fun j mem isPrivate => by
    obtain ⟨t, entry, aligned, -, mem, -⟩ := copied.copy j mem isPrivate
    rw [entry, tableOf_or_pmd aligned]
    exact fun same => unused (same ▸ mem)
  constructor
  · intro sp other
    simp only [copyEntry, update_of_ne other]
    exact copied.others sp other
  · intro t mem
    rw [contents t (fun same => unused0 (same ▸ mem)), copied.tables t mem]
  · intro j mem isPrivate'
    rcases List.mem_cons.mp mem with rfl | old
    · refine ⟨table, here, aligned, unused0, List.mem_cons_self, ?_⟩
      simp only [copyEntry, update_self]
      exact source
    · obtain ⟨t, entry, aligned', unused', mem', same⟩ := copied.copy j old isPrivate'
      have differ : j ≠ i := fun eq => notDone (eq ▸ old)
      exact ⟨t, (there j differ).trans entry, aligned', unused', List.mem_cons_of_mem _ mem',
        (contents t (fun eq => unused (eq ▸ mem'))).trans same⟩
  · intro j notPrivate
    have differ : j ≠ i := fun eq => notPrivate (eq ▸ List.mem_cons_self) (eq ▸ isPrivate)
    rw [there j differ, copied.rest j (fun mem => notPrivate (List.mem_cons_of_mem i mem))]
  · intro j memj k memk privj privk same
    rcases List.mem_cons.mp memj with rfl | oldj <;> rcases List.mem_cons.mp memk with rfl | oldk
    · rfl
    · rw [here, tableOf_or_pmd aligned, there k (fun eq => notDone (eq ▸ oldk))] at same
      exact absurd same.symm (newer k oldk privk)
    · rw [here, tableOf_or_pmd aligned, there j (fun eq => notDone (eq ▸ oldj))] at same
      exact absurd same (newer j oldj privj)
    · rw [there j (fun eq => notDone (eq ▸ oldj)), there k (fun eq => notDone (eq ▸ oldk))] at same
      exact copied.apart j oldj k oldk privj privk same
  · have updated : ownTable (copyEntry s new orig i table) new = update (ownTable s new) i (some table) := by
      funext j
      by_cases differ : j = i
      · subst differ
        simp [ownTable, here, isPrivate.1, isPmd_or_pmd aligned, tableOf_or_pmd aligned]
      · rw [update_of_ne differ, ownTable, ownTable, there j differ]
    have before : ownTable s new i = none := by
      rw [ownTable, copied.rest i (fun mem => absurd mem notDone), blank, Bool.and_false]
      rfl
    have more : (ownTables (copyEntry s new orig i table) new).Perm (table :: ownTables s new) := by
      rw [ownTables, updated]
      exact filterMap_update_perm List.nodup_range (List.mem_range.mpr lt) before
    exact (copied.used.cons table).trans (more.symm.append_right s0.used)

/-- The loop copies every entry that has to be, or stops when there is no table left. -/
theorem copyPmds_copied {is : List Nat} {supply : List Word} (ne : orig ≠ new) (wf : WellFormed s0 orig)
    (blank : ∀ i < pgdEntryTotal, isGlobalPgdi i = false → isPmd (s0.pgd new i) = false)
    (within : ∀ i ∈ is, i < pgdEntryTotal) (nodup : is.Nodup) (fresh : Fresh s supply)
    (copied : Copied s0 s new orig done) (disjoint : ∀ i ∈ is, i ∉ done) :
    ∃ all, Copied s0 (copyPmds new orig is s supply).1 new orig all ∧
      ((copyPmds new orig is s supply).2 = true → ∀ i, i ∈ done ∨ i ∈ is → i ∈ all) := by
  induction is generalizing s supply done with
  | nil => exact ⟨done, copied, fun _ i mem => mem.resolve_right List.not_mem_nil⟩
  | cons i is rest =>
    obtain ⟨notin, nodup⟩ := List.nodup_cons.mp nodup
    have lt := within i List.mem_cons_self
    have notDone := disjoint i List.mem_cons_self
    -- What is left of the list is done from the next state.
    have later : ∀ s' supply', Fresh s' supply' → Copied s0 s' new orig (i :: done) →
        ∃ all, Copied s0 (copyPmds new orig is s' supply').1 new orig all ∧
          ((copyPmds new orig is s' supply').2 = true → ∀ j, j ∈ done ∨ j ∈ i :: is → j ∈ all) := by
      intro s' supply' fresh copied
      obtain ⟨all, copied, complete⟩ := rest (fun j mem => within j (List.mem_cons_of_mem i mem)) nodup fresh copied
        (fun j mem => List.not_mem_cons_of_ne_of_not_mem (fun eq => notin (eq ▸ mem)) (disjoint j (List.mem_cons_of_mem i mem)))
      refine ⟨all, copied, fun done j mem => complete done j ?_⟩
      rcases mem with old | mem
      · exact .inl (List.mem_cons_of_mem i old)
      · rcases List.mem_cons.mp mem with rfl | mem
        · exact .inl List.mem_cons_self
        · exact .inr mem
    have entry : s.pgd orig i = s0.pgd orig i := by rw [copied.others orig ne]
    unfold copyPmds
    by_cases isPrivate : Private s0 orig i
    · rw [entry, isPrivate.1, isPrivate.2, if_pos (by decide)]
      cases supply with
      | nil => exact ⟨done, copied, fun wrong => absurd wrong Bool.false_ne_true⟩
      | cons table supply =>
        have unused := fresh.unused table List.mem_cons_self
        have kept := wf.tables i lt isPrivate.2
        have differ : tableOf (s0.pgd orig i) ≠ table := fun same =>
          unused (copied.used.mem_iff.mpr (List.mem_append_right _ (same ▸ kept)))
        have next := copied.next ne wf lt isPrivate notDone (blank i lt isPrivate.1) unused
          (fresh.aligned table List.mem_cons_self)
        simp only [pmdCapAlloc, update_idem, entry, update_of_ne differ]
        rw [copyEntry, entry] at next
        refine later _ supply ⟨fresh.nodup.of_cons, fun t mem => ?_, fun t mem => fresh.aligned t (List.mem_cons_of_mem _ mem)⟩ next
        refine List.not_mem_cons_of_ne_of_not_mem ?_ (fresh.unused t (List.mem_cons_of_mem _ mem))
        rintro rfl
        exact (List.nodup_cons.mp fresh.nodup).1 mem
    · have other : ¬ (!isGlobalPgdi i && isPmd (s.pgd orig i)) = true := fun both => isPrivate (by
        simpa [Private, entry] using both)
      rw [if_neg other]
      exact later s supply fresh (copied.skip isPrivate)

theorem freePmds_eq (is : List Nat) (s : Mmu) : freePmds new is s = { s with used := s.used.diff (is.filterMap (ownTable s new)) } := by
  induction is generalizing s with
  | nil => rfl
  | cons i is rest =>
    have unfolded : freePmds new (i :: is) s = freePmds new is
        (if !isGlobalPgdi i && isPmd (s.pgd new i) then pmdCapFree s (tableOf (s.pgd new i)) else s) := rfl
    rw [unfolded]
    by_cases own : (!isGlobalPgdi i && isPmd (s.pgd new i)) = true
    · have value : ownTable s new i = some (tableOf (s.pgd new i)) := if_pos own
      rw [if_pos own, rest, List.filterMap_cons_some value, List.diff_cons]
      rfl
    · have value : ownTable s new i = none := if_neg own
      rw [if_neg own, rest, List.filterMap_cons_none value]

end Loop

/-! ## The new space -/

/-- What a successful copy leaves behind. -/
structure Created (s s' : Mmu) (current new orig : SpaceId) : Prop where
  others : ∀ sp, sp ≠ new → s'.pgd sp = s.pgd sp
  tables : ∀ table ∈ s.used, s'.pmd table = s.pmd table
  used : ∀ table ∈ s.used, table ∈ s'.used
  shared : ∀ i < pgdEntryTotal, isGlobalPgdi i = true → s'.pgd new i = s.pgd current i
  fault : ∀ i < pgdEntryTotal, isGlobalPgdi i = false → isPmd (s.pgd orig i) = false → s'.pgd new i = pmdTypeFault
  copy : ∀ i < pgdEntryTotal, Private s orig i → ∃ table, s'.pgd new i = table ||| pmdTypePmd ∧
    isAligned table pmdSize = true ∧ table ∉ s.used ∧ table ∈ s'.used ∧ s'.pmd table = s.pmd (tableOf (s.pgd orig i))
  apart : ∀ i < pgdEntryTotal, ∀ j < pgdEntryTotal, Private s orig i → Private s orig j →
    tableOf (s'.pgd new i) = tableOf (s'.pgd new j) → i = j

section Created
variable {s s' : Mmu} {current new orig sp : SpaceId} {spaces : List SpaceId} {supply : List Word} {v : Word}

theorem append_diff_left {α : Type} [DecidableEq α] (l m : List α) : (l ++ m).diff l = m := by
  induction l with
  | nil => rfl
  | cons a l rest => rw [List.diff_cons, List.cons_append, List.erase_cons_head, rest]

theorem withPgd_entry {i : Nat} (lt : i < pgdEntryTotal) :
    (withPgd s current new).pgd new i = if isGlobalPgdi i then s.pgd current i else pmdTypeFault := by
  simp only [withPgd, update_self]
  exact archCopyPgdKernelEntries_apply _ _ i lt

theorem withPgd_other (ne : sp ≠ new) : (withPgd s current new).pgd sp = s.pgd sp := by
  simp only [withPgd, update_of_ne ne]

theorem withPgd_blank (i : Nat) (lt : i < pgdEntryTotal) (nonglobal : isGlobalPgdi i = false) :
    isPmd ((withPgd s current new).pgd new i) = false := by
  rw [withPgd_entry lt, nonglobal, if_neg Bool.false_ne_true]
  decide

theorem withPgd_copied : Copied (withPgd s current new) (withPgd s current new) new orig [] := by
  refine ⟨fun _ _ => rfl, fun _ _ => rfl, fun i mem => absurd mem List.not_mem_nil, fun _ _ => rfl,
    fun i mem => absurd mem List.not_mem_nil, ?_⟩
  have nothing : ownTables (withPgd s current new) new = [] := List.filterMap_eq_nil_iff.mpr (fun i mem => by
    cases global : isGlobalPgdi i
    · rw [ownTable, withPgd_blank i (List.mem_range.mp mem) global, Bool.and_false]
      rfl
    · rw [ownTable, global]
      rfl)
  rw [nothing]
  exact List.Perm.refl _

theorem wellFormed_withPgd (ne : sp ≠ new) (wf : WellFormed s sp) : WellFormed (withPgd s current new) sp := by
  have same : (withPgd s current new).pgd sp = s.pgd sp := withPgd_other ne
  refine ⟨?_, ?_, ?_⟩
  · rw [same]
    exact wf.entries
  · rw [same]
    exact wf.tables
  · rw [same]
    exact wf.apart

/-- `copy_user_tables` gives the new space its own tables, or has taken none. -/
theorem copyUserTables_created (ne : orig ≠ new) (wf : WellFormed s orig) (fresh : Fresh s supply) :
    (copyUserTables (withPgd s current new) new orig supply).2 = 0 ∧
        Created s (copyUserTables (withPgd s current new) new orig supply).1 current new orig ∨
      (copyUserTables (withPgd s current new) new orig supply).2 = enomem ∧
        (∀ sp, sp ≠ new → (copyUserTables (withPgd s current new) new orig supply).1.pgd sp = s.pgd sp) ∧
        (∀ table ∈ s.used, (copyUserTables (withPgd s current new) new orig supply).1.pmd table = s.pmd table) ∧
        (copyUserTables (withPgd s current new) new orig supply).1.used.Perm s.used := by
  have fresh' : Fresh (withPgd s current new) supply := ⟨fresh.nodup, fresh.unused, fresh.aligned⟩
  obtain ⟨all, copied, complete⟩ := copyPmds_copied ne (wellFormed_withPgd ne wf) withPgd_blank
    (fun i mem => List.mem_range.mp mem) (List.nodup_range (n := pgdEntryTotal)) fresh' withPgd_copied
    (fun _ _ => List.not_mem_nil)
  have old : ∀ sp, sp ≠ new → (withPgd s current new).pgd sp = s.pgd sp := fun sp ne => withPgd_other ne
  unfold copyUserTables
  generalize copyPmds new orig (List.range pgdEntryTotal) (withPgd s current new) supply = result at copied complete
  obtain ⟨s', done⟩ := result
  cases done with
  | true =>
    have all : ∀ i < pgdEntryTotal, i ∈ all := fun i lt => complete rfl i (.inr (List.mem_range.mpr lt))
    refine .inl ⟨rfl, fun sp ne => (copied.others sp ne).trans (old sp ne), copied.tables,
      fun table mem => copied.used.mem_iff.mpr (List.mem_append_right _ mem), fun i lt global => ?_,
      fun i lt nonglobal fault => ?_, fun i lt isPrivate => ?_, fun i lti j ltj privi privj => ?_⟩
    · rw [copied.rest i (fun _ isPrivate => absurd (isPrivate.1.symm.trans global) Bool.false_ne_true), withPgd_entry lt, if_pos global]
    · rw [copied.rest i, withPgd_entry lt, nonglobal, if_neg Bool.false_ne_true]
      intro _ isPrivate
      have pmd := isPrivate.2
      rw [old orig ne, fault] at pmd
      exact absurd pmd Bool.false_ne_true
    · have copy := copied.copy i (all i lt)
      rw [Private, old orig ne] at copy
      exact copy isPrivate
    · have apart := copied.apart i (all i lti) j (all j ltj)
      rw [Private, Private, old orig ne] at apart
      exact apart privi privj
  | false =>
    refine .inr ⟨rfl, ?_⟩
    simp only [freePmds_eq]
    refine ⟨fun sp ne => (copied.others sp ne).trans (old sp ne), copied.tables, ?_⟩
    have freed := copied.used.diff_right (ownTables s' new)
    rwa [append_diff_left] at freed

theorem Created.tr_old (created : Created s s' current new orig) (wf : WellFormed s sp) (ne : sp ≠ new) :
    tr s' sp v = tr s sp v := by
  rw [tr, tr, created.others sp ne]
  by_cases is : isPmd (s.pgd sp (pgdIndex v)) = true
  · simp only [is, if_true, created.tables _ (wf.tables _ (pgdIndex_lt v) is)]
  · simp [is]

theorem Created.tr_new (created : Created s s' current new orig) (wfCurrent : WellFormed s current) :
    tr s' new v = if isGlobalPgdi (pgdIndex v) then tr s current v else tr s orig v := by
  have lt := pgdIndex_lt v
  by_cases global : isGlobalPgdi (pgdIndex v) = true
  · rw [if_pos global, tr, tr, created.shared _ lt global]
    by_cases is : isPmd (s.pgd current (pgdIndex v)) = true
    · simp only [is, if_true, created.tables _ (wfCurrent.tables _ lt is)]
    · simp [is]
  · have nonglobal := Bool.eq_false_iff.mpr global
    rw [if_neg global]
    by_cases is : isPmd (s.pgd orig (pgdIndex v)) = true
    · obtain ⟨table, entry, aligned, -, -, same⟩ := created.copy _ lt ⟨nonglobal, is⟩
      rw [tr_of_isPmd is, tr_of_isPmd (by rw [entry]; exact isPmd_or_pmd aligned), entry, tableOf_or_pmd aligned, same]
    · have fault := Bool.eq_false_iff.mpr is
      rw [tr_of_fault fault, tr_of_fault]
      rw [created.fault _ lt nonglobal fault]
      decide

/-- The entries of the new space: shared, its own, or a fault. -/
theorem Created.entry {i : Nat} (created : Created s s' current new orig) (lt : i < pgdEntryTotal) (is : isPmd (s'.pgd new i) = true) :
    isGlobalPgdi i = true ∧ s'.pgd new i = s.pgd current i ∨
      Private s orig i ∧ tableOf (s'.pgd new i) ∉ s.used ∧ tableOf (s'.pgd new i) ∈ s'.used := by
  cases global : isGlobalPgdi i with
  | true => exact .inl ⟨rfl, created.shared i lt global⟩
  | false =>
    cases pmd : isPmd (s.pgd orig i) with
    | true =>
      obtain ⟨table, entry, aligned, unused, used, -⟩ := created.copy i lt ⟨global, pmd⟩
      rw [entry, tableOf_or_pmd aligned]
      exact .inr ⟨⟨global, pmd⟩, unused, used⟩
    | false =>
      rw [created.fault i lt global pmd] at is
      exact absurd is (by decide)

theorem Created.wellFormed (created : Created s s' current new orig) (wfCurrent : WellFormed s current) : WellFormed s' new := by
  refine ⟨fun i lt => ?_, fun i lt is => ?_, fun i lti j ltj isi isj same => ?_⟩
  · cases global : isGlobalPgdi i with
    | true =>
      rw [created.shared i lt global]
      exact wfCurrent.entries i lt
    | false =>
      cases pmd : isPmd (s.pgd orig i) with
      | true =>
        obtain ⟨table, entry, aligned, -⟩ := created.copy i lt ⟨global, pmd⟩
        rw [entry]
        exact .inr (isPmd_or_pmd aligned)
      | false =>
        rw [created.fault i lt global pmd]
        exact .inl (by decide)
  · rcases created.entry lt is with ⟨-, entry⟩ | ⟨-, -, used⟩
    · rw [entry] at is ⊢
      exact created.used _ (wfCurrent.tables i lt is)
    · exact used
  · rcases created.entry lti isi with ⟨-, entryi⟩ | ⟨privi, unusedi, -⟩ <;>
      rcases created.entry ltj isj with ⟨-, entryj⟩ | ⟨privj, unusedj, -⟩
    · rw [entryi] at isi same
      rw [entryj] at isj same
      exact wfCurrent.apart i lti j ltj isi isj same
    · rw [entryi] at isi same
      exact absurd (same ▸ wfCurrent.tables i lti isi) unusedj
    · rw [entryj] at isj same
      exact absurd (same ▸ wfCurrent.tables j ltj isj) unusedi
    · exact created.apart i lti j ltj privi privj same

theorem Created.system (created : Created s s' current new orig) (system : System s spaces) (memCurrent : current ∈ spaces)
    (notin : new ∉ spaces) : System s' (new :: spaces) := by
  have wfCurrent := system.wf current memCurrent
  have old : ∀ sp ∈ spaces, s'.pgd sp = s.pgd sp := fun sp mem => created.others sp (fun eq => notin (eq ▸ mem))
  refine ⟨fun sp mem => ?_, fun a mema b memb i lti j ltj nonglobal isa isb same => ?_⟩
  · rcases List.mem_cons.mp mem with rfl | mem
    · exact created.wellFormed wfCurrent
    · have wf := system.wf sp mem
      refine ⟨?_, ?_, ?_⟩
      · rw [old sp mem]
        exact wf.entries
      · rw [old sp mem]
        exact fun i lt is => created.used _ (wf.tables i lt is)
      · rw [old sp mem]
        exact wf.apart
  · -- A table of the new space's own was not in use; all others are as they were.
    rcases List.mem_cons.mp mema with rfl | olda <;> rcases List.mem_cons.mp memb with rfl | oldb
    · exact ⟨rfl, (created.wellFormed wfCurrent).apart i lti j ltj isa isb same⟩
    · rcases created.entry lti isa with ⟨global, -⟩ | ⟨-, unused, -⟩
      · exact absurd (nonglobal.symm.trans global) Bool.false_ne_true
      · rw [old b oldb] at isb same
        exact absurd (same ▸ (system.wf b oldb).tables j ltj isb) unused
    · rw [old a olda] at isa same
      rcases created.entry ltj isb with ⟨global, entry⟩ | ⟨-, unused, -⟩
      · rw [entry] at isb same
        obtain ⟨-, rfl⟩ := system.own a olda current memCurrent i lti j ltj nonglobal isa isb same
        exact absurd (nonglobal.symm.trans global) Bool.false_ne_true
      · exact absurd (same ▸ (system.wf a olda).tables i lti isa) unused
    · rw [old a olda] at isa same
      rw [old b oldb] at isb same
      exact system.own a olda b oldb i lti j ltj nonglobal isa isb same

end Created

end Codezero.Space
