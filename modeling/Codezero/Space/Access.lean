import Codezero.Space.Translation

/-!
# Access checks on user memory

Before the kernel touches a user buffer it checks the page table, and if that fails it asks the task's pager for
every page of the buffer. The pager is any thread: it may answer without mapping anything.
-/

namespace Codezero.Space
open Codezero.Kernel (Word efault)
open Codezero.Lib

/-! ## The model -/

/-- What the pager does on the `i`-th page-in request, and what `fault_ipc_to_pager` then returns. -/
abbrev Pager := Nat → Word → Mmu → Mmu × Int

/-- The loop of `pager_pagein_request`. -/
def pageinRequests (pager : Pager) : Nat → Nat → Word → Mmu → Mmu × Int
  | 0, _, _, s => (s, 0)
  | n + 1, i, addr, s =>
    match pager i addr s with
    | (s', err) => if err < 0 then (s', err) else pageinRequests pager n (i + 1) (addr + pageSize) s'

/-- `pager_pagein_request`. -/
def pagerPageinRequest (pager : Pager) (s : Mmu) (addr size : Word) : Mmu × Int :=
  pageinRequests pager (pfn (alignUp size pageSize)).toNat 0 addr s

/-- The size that `check_access_task` checks. -/
def mapSize (vaddr size : Word) : Word := pageAlignUp (vaddr + size) - pageAlign vaddr

/-- `check_access_task`, for a task in space `sp`. -/
def checkAccessTask (pager : Pager) (s : Mmu) (sp : SpaceId) (vaddr size flags : Word) (pageIn isCurrent : Bool) :
    Except Bug (Mmu × Int) := do
  let start := pageAlign vaddr
  let mapsize := mapSize vaddr size
  if !(← checkMappingPgd s sp start mapsize flags) then
    if pageIn && isCurrent then
      match pagerPageinRequest pager s start mapsize with
      | (s', err) => if err < 0 then .ok (s', err) else .ok (s', 0)
    else .ok (s, efault)
  else .ok (s, 0)

/-! ## Ranges of pages -/

/-- The page is mapped with protection at least that of the flags. -/
def Allows (s : Mmu) (sp : SpaceId) (flags v : Word) : Prop :=
  tr s sp v &&& pteTypeMask ≠ pteTypeFault ∧ archCheckPteAccessPerms (tr s sp v) (spaceFlagsToPtflags flags) = true

/-- Every page of the range allows the flags. -/
def RangeAllows (s : Mmu) (sp : SpaceId) (vaddr size flags : Word) : Prop :=
  ∀ i < size.toNat, Allows s sp flags (vaddr + BitVec.ofNat 32 i)

/-- A pager that answers a request with success only once the page allows the flags, and takes no such page away. -/
def Honest (pager : Pager) (sp : SpaceId) (flags : Word) : Prop :=
  ∀ i addr s, 0 ≤ (pager i addr s).2 → Allows (pager i addr s).1 sp flags addr ∧
    ∀ v, Allows s sp flags v → Allows (pager i addr s).1 sp flags v

section Access
variable {s s' : Mmu} {sp : SpaceId} {vaddr size flags v : Word} {pager : Pager} {pageIn isCurrent : Bool}

theorem allows_congr {w : Word} (same : pageOf v = pageOf w) : Allows s sp flags v ↔ Allows s sp flags w := by
  rw [Allows, Allows, tr_congr same]

/-- The size in bytes of the pages that the range reaches, as far as a word holds it. -/
theorem mapSize_toNat : (mapSize vaddr size).toNat = (vaddr.toNat % 4096 + size.toNat + 4095) / 4096 % 2 ^ 20 * 4096 := by
  have up : (pageAlignUp (vaddr + size)).toNat = (vaddr + size + 0xFFF#32).toNat - (vaddr + size + 0xFFF#32).toNat % 4096 :=
    toNat_and_not_low (vaddr + size + 0xFFF#32) (k := 12) (by decide)
  have value : (vaddr + size + 0xFFF#32).toNat = (vaddr.toNat + size.toNat + 4095) % 2 ^ 32 := by
    rw [BitVec.toNat_add, BitVec.toNat_add, BitVec.toNat_ofNat]
    omega
  have lt := vaddr.isLt
  rw [mapSize, BitVec.toNat_sub, up, pageAlign_toNat, value]
  omega

/-- The bytes of the range lie in the pages from its first one on. -/
theorem rangeAllows_iff (some : size ≠ 0) : RangeAllows s sp vaddr size flags ↔
    ∀ k < (vaddr.toNat % 4096 + size.toNat + 4095) / 4096, Allows s sp flags (pageAlign vaddr + BitVec.ofNat 32 (k * 4096)) := by
  have lt := vaddr.isLt
  have pos : 0 < size.toNat := Nat.pos_of_ne_zero (fun zero => some (BitVec.toNat_inj.mp zero))
  constructor
  · intro all k less
    refine (allows_congr ?_).mp (all (k * 4096 - vaddr.toNat % 4096) (by omega))
    rw [pageOf, pageOf, BitVec.toNat_add, BitVec.toNat_add, BitVec.toNat_ofNat, BitVec.toNat_ofNat, pageAlign_toNat]
    omega
  · intro all i less
    refine (allows_congr ?_).mp (all ((vaddr.toNat % 4096 + i) / 4096) (by omega))
    rw [pageOf, pageOf, BitVec.toNat_add, BitVec.toNat_add, BitVec.toNat_ofNat, BitVec.toNat_ofNat, pageAlign_toNat]
    omega

theorem npages_toNat {n : Nat} (whole : size.toNat = n * 4096) : (pfn (alignUp size pageSize)).toNat = n := by
  have lt := size.isLt
  have up : (alignUp size pageSize).toNat = (size + 0xFFF#32).toNat - (size + 0xFFF#32).toNat % 4096 :=
    toNat_and_not_low (size + 0xFFF#32) (k := 12) (by decide)
  rw [pfn, BitVec.toNat_ushiftRight, up, BitVec.toNat_add, Nat.shiftRight_eq_div_pow, BitVec.toNat_ofNat]
  omega

theorem spaceFlagsToPtflags_eq_zero : spaceFlagsToPtflags flags = 0 ↔ flags = mapFault := by
  unfold spaceFlagsToPtflags
  split
  · next fault => exact ⟨fun _ => fault, fun _ => rfl⟩
  · next other =>
    refine ⟨fun zero => absurd zero ?_, fun fault => absurd fault other⟩
    repeat' split
    all_goals decide

/-- The check before the call looks at the pages whose number is left in a word. -/
theorem checkMappingPgd_pages (vaddr size : Word) (wf : WellFormed s sp) (valid : flags ≠ mapFault) :
    ∃ r, checkMappingPgd s sp (pageAlign vaddr) (mapSize vaddr size) flags = .ok r ∧
      (r = true ↔ ∀ k < (vaddr.toNat % 4096 + size.toNat + 4095) / 4096 % 2 ^ 20,
        archCheckPteAccessPerms (tr s sp (pageAlign vaddr + BitVec.ofNat 32 (k * 4096))) (spaceFlagsToPtflags flags) = true) := by
  simp only [checkMappingPgd, npages_toNat mapSize_toNat, if_neg (mt spaceFlagsToPtflags_eq_zero.mp valid)]
  exact (checkMappingPages_sat wf).exists_ok

/-- An honest pager that has answered every request with success has mapped every page. -/
theorem pageinRequests_honest (honest : Honest pager sp flags) {n i : Nat} {addr : Word}
    (asked : 0 ≤ (pageinRequests pager n i addr s).2) :
    (∀ k < n, Allows (pageinRequests pager n i addr s).1 sp flags (addr + BitVec.ofNat 32 (k * 4096))) ∧
      ∀ v, Allows s sp flags v → Allows (pageinRequests pager n i addr s).1 sp flags v := by
  induction n generalizing i addr s with
  | zero => exact ⟨fun k less => absurd less (Nat.not_lt_zero k), fun _ allows => allows⟩
  | succ n rest =>
    have answer := honest i addr s
    unfold pageinRequests at asked ⊢
    generalize pager i addr s = result at answer asked
    obtain ⟨s1, err⟩ := result
    dsimp only at answer asked ⊢
    split at asked
    · exact absurd asked (by omega)
    · next good =>
      rw [if_neg good]
      obtain ⟨here, kept⟩ := answer (by omega)
      obtain ⟨behind, kept'⟩ := rest asked
      refine ⟨fun k less => ?_, fun v allows => kept' v (kept v allows)⟩
      cases k with
      | zero => exact kept' _ (by simpa using here)
      | succ k =>
        have shift : addr + BitVec.ofNat 32 ((k + 1) * 4096) = addr + pageSize + BitVec.ofNat 32 (k * 4096) := by
          rw [Nat.succ_mul, BitVec.ofNat_add, BitVec.add_comm (BitVec.ofNat 32 (k * 4096)), ← BitVec.add_assoc]
          rfl
        rw [shift]
        exact behind k (by omega)

theorem pageinRequests_idle (n i : Nat) (addr : Word) : pageinRequests (fun _ _ s => (s, 0)) n i addr s = (s, 0) := by
  induction n generalizing i addr with
  | zero => rfl
  | succ n rest => exact rest (i + 1) (addr + pageSize)

theorem checkAccessTask_mapped (mapped : checkMappingPgd s sp (pageAlign vaddr) (mapSize vaddr size) flags = .ok true) :
    checkAccessTask pager s sp vaddr size flags pageIn isCurrent = .ok (s, 0) := by
  rw [checkAccessTask, mapped]
  rfl

theorem checkAccessTask_unmapped (pager : Pager) (pageIn isCurrent : Bool) (unmapped : checkMappingPgd s sp (pageAlign vaddr) (mapSize vaddr size) flags = .ok false) :
    checkAccessTask pager s sp vaddr size flags pageIn isCurrent =
      if pageIn && isCurrent then
        let r := pagerPageinRequest pager s (pageAlign vaddr) (mapSize vaddr size)
        .ok (r.1, if r.2 < 0 then r.2 else 0)
      else .ok (s, efault) := by
  rw [checkAccessTask, unmapped, ok_bind]
  simp only [Bool.not_false, if_true]
  split
  · split <;> rfl
  · rfl

theorem checkAccessTask_stops {r : Mmu × Int} (stops : flags = mapFault) :
    checkAccessTask pager s sp vaddr size flags pageIn isCurrent ≠ .ok r := by
  rw [checkAccessTask, checkMappingPgd, if_pos (spaceFlagsToPtflags_eq_zero.mpr stops)]
  simp [bind, Except.bind]

/-- With any pager at all the check is a guarantee where it need not ask one: the range is mapped before the call, or
the flags stop it, or it returns an error. An honest pager is asked for every page of the range, unless their number
does not fit a word. -/
theorem access_guaranteed_iff (wf : WellFormed s sp) :
    ((∀ pager s', checkAccessTask pager s sp vaddr size flags pageIn isCurrent = .ok (s', 0) →
        RangeAllows s' sp vaddr size flags) ↔
      RangeAllows s sp vaddr size flags ∨ flags = mapFault ∨
        (pageIn && isCurrent) = false ∧ checkMappingPgd s sp (pageAlign vaddr) (mapSize vaddr size) flags = .ok false) ∧
    ∀ pager s', Honest pager sp flags → checkMappingPgd s sp (pageAlign vaddr) (mapSize vaddr size) flags = .ok false →
      vaddr.toNat % 4096 + size.toNat ≤ 2 ^ 32 - 4096 →
      checkAccessTask pager s sp vaddr size flags pageIn isCurrent = .ok (s', 0) → RangeAllows s' sp vaddr size flags := by
  refine ⟨⟨fun guaranteed => ?_, ?_⟩, ?_⟩
  · by_cases stops : flags = mapFault
    · exact .inr (.inl stops)
    · obtain ⟨r, checked, -⟩ := checkMappingPgd_pages vaddr size wf stops
      cases r with
      | true => exact .inl (guaranteed (fun _ _ s => (s, 0)) s (checkAccessTask_mapped checked))
      | false =>
        -- the pager that does nothing and answers that all is well
        have returned := checkAccessTask_unmapped (fun _ _ s => (s, 0)) pageIn isCurrent checked
        cases asks : pageIn && isCurrent with
        | true =>
          rw [asks, if_pos rfl, pagerPageinRequest, pageinRequests_idle] at returned
          exact .inl (guaranteed _ s returned)
        | false => exact .inr (.inr ⟨rfl, checked⟩)
  · rintro (allowed | stops | ⟨quiet, unmapped⟩) pager s' returned
    · by_cases stops : flags = mapFault
      · exact absurd returned (checkAccessTask_stops stops)
      · by_cases empty : size = 0
        · subst empty
          exact fun i less => absurd less (Nat.not_lt_zero i)
        · obtain ⟨r, checked, iff⟩ := checkMappingPgd_pages vaddr size wf stops
          have mapped := iff.mpr (fun k less => ((rangeAllows_iff empty).mp allowed k (less.trans_le (Nat.mod_le _ _))).2)
          rw [mapped] at checked
          rw [checkAccessTask_mapped checked] at returned
          obtain ⟨rfl, -⟩ := Prod.mk.inj (Except.ok.inj returned)
          exact allowed
    · exact absurd returned (checkAccessTask_stops stops)
    · rw [checkAccessTask_unmapped _ _ _ unmapped, quiet, if_neg Bool.false_ne_true] at returned
      exact absurd (Prod.mk.inj (Except.ok.inj returned)).2 (by decide)
  · intro pager s' honest unmapped small returned
    by_cases empty : size = 0
    · subst empty
      exact fun i less => absurd less (Nat.not_lt_zero i)
    · rw [checkAccessTask_unmapped _ _ _ unmapped, pagerPageinRequest, npages_toNat mapSize_toNat, Nat.mod_eq_of_lt (by omega)] at returned
      split at returned
      · obtain ⟨rfl, good⟩ := Prod.mk.inj (Except.ok.inj returned)
        refine (rangeAllows_iff empty).mpr (pageinRequests_honest honest ?_).1
        split at good <;> omega
      · exact absurd (Prod.mk.inj (Except.ok.inj returned)).2 (by decide)

/-- Tables that map every page. -/
def everyPage : Mmu := { pgd := fun _ _ => 0x401, pmd := fun _ _ => 0x1FFE, used := [0x400] }

theorem everyPage_allows (v : Word) : Allows everyPage sp mapUsrRw v := by
  have entry : tr everyPage sp v = 0x1FFE := if_pos (show isPmd 0x401 = true by decide)
  rw [Allows, entry]
  decide

/-- The buffer is not mapped and the pager maps it. -/
theorem access_guaranteed_paged :
    checkAccessTask (fun _ _ _ => (everyPage, 0)) (onePage 0x1FFE) 0 0x2000 0x10 mapUsrRw true true = .ok (everyPage, 0) ∧
      RangeAllows everyPage 0 0x2000 0x10 mapUsrRw := by
  have honest : Honest (fun _ _ _ => (everyPage, 0)) 0 mapUsrRw := fun _ _ _ _ =>
    ⟨everyPage_allows _, fun v _ => everyPage_allows v⟩
  have unmapped : checkMappingPgd (onePage 0x1FFE) 0 (pageAlign 0x2000) (mapSize 0x2000 0x10) mapUsrRw = .ok false := rfl
  have returned := checkAccessTask_unmapped (fun _ _ _ => (everyPage, 0)) true true unmapped
  exact ⟨returned, (access_guaranteed_iff (onePage_wellFormed _ 0)).2 _ _ honest unmapped (by decide) returned⟩

/-- A pager that maps nothing and answers that all is well; and a range so long that its size in pages wraps to
zero. -/
theorem access_unmapped :
    (checkAccessTask (fun _ _ s => (s, 0)) (onePage 0x1FFE) 0 0x2000 0x10 mapUsrRw true true = .ok (onePage 0x1FFE, 0) ∧
      ¬ Allows (onePage 0x1FFE) 0 mapUsrRw 0x2000) ∧
    checkAccessTask (fun _ _ s => (s, enomem)) (onePage 0x1FFE) 0 0 0xFFFFF001 mapUsrRw false true = .ok (onePage 0x1FFE, 0) ∧
      ¬ Allows (onePage 0x1FFE) 0 mapUsrRw 0x2000 := by
  have unmapped : ¬ Allows (onePage 0x1FFE) 0 mapUsrRw 0x2000 := fun allows => absurd allows.2 (by decide)
  exact ⟨⟨rfl, unmapped⟩, rfl, unmapped⟩

end Access

end Codezero.Space
