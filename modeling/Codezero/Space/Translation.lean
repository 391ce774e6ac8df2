import Codezero.Lib.Outcome
import Codezero.Space.Mapping

/-!
# Page tables as a map from pages to entries

Every change to a space's tables is a page table entry that is written, in a table that is there or in one that
is attached for it. What that does to the translation is said once, and the loops follow by induction.
-/

namespace Codezero.Space
open Codezero.Kernel (Word)
open Codezero.Lib
open Function (update update_apply update_idem update_of_ne update_self)

/-! ## Words -/

section Words
variable {x y : Word}

/-- The page an address lies in. -/
def pageOf (x : Word) : Nat := x.toNat / 4096

theorem pgdIndex_eq (x : Word) : pgdIndex x = x.toNat / 2 ^ 20 := by
  have fits := x.isLt
  rw [pgdIndex, toNat_shift_and_div x 0x3FFC#32 18 2 12 rfl 4#32 rfl]
  omega

theorem pmdIndex_eq (x : Word) : pmdIndex x = x.toNat / 2 ^ 12 % 2 ^ 8 :=
  toNat_shift_and_div x 0x3FC#32 10 2 8 rfl 4#32 rfl

theorem pgdIndex_lt (x : Word) : pgdIndex x < pgdEntryTotal := by
  have fits := x.isLt
  rw [pgdIndex_eq, pgdEntryTotal]
  omega

theorem pageOf_eq_iff : pageOf x = pageOf y ↔ pgdIndex x = pgdIndex y ∧ pmdIndex x = pmdIndex y := by
  simp only [pgdIndex_eq, pmdIndex_eq, pageOf]
  omega

theorem isPageAligned_iff : isPageAligned x = true ↔ x.toNat % 4096 = 0 := by
  rw [isPageAligned, beq_iff_eq, ← BitVec.toNat_inj]
  exact Eq.congr_left (toNat_and_low x (k := 12) (by decide))

theorem pageAlign_toNat (x : Word) : (pageAlign x).toNat = x.toNat - x.toNat % 4096 :=
  toNat_and_not_low x (k := 12) (by decide)

theorem isPageAligned_pageAlign (x : Word) : isPageAligned (pageAlign x) = true := by
  rw [isPageAligned_iff, pageAlign_toNat]
  omega

theorem pageOf_pageAlign (x : Word) : pageOf (pageAlign x) = pageOf x := by
  rw [pageOf, pageOf, pageAlign_toNat]
  omega

theorem isPageAligned_add (aligned : isPageAligned x = true) : isPageAligned (x + pageSize) = true := by
  rw [isPageAligned_iff] at aligned ⊢
  rw [BitVec.toNat_add, show pageSize.toNat = 4096 from rfl]
  omega

theorem pageOf_add (fits : x.toNat + 4096 < 2 ^ 32) : pageOf (x + pageSize) = pageOf x + 1 := by
  rw [pageOf, pageOf, BitVec.toNat_add, show pageSize.toNat = 4096 from rfl]
  omega

/-- An entry of the page directory holds its type and its table. -/
theorem type_or_pmd (aligned : isAligned x pmdSize = true) : (x ||| pmdTypePmd) &&& pmdTypeMask = pmdTypePmd := by
  have low : x &&& 0x3FF#32 = 0#32 := beq_iff_eq.mp aligned
  exact or_and_low (and_eq_zero_of_and_eq_zero low (by decide)) (by decide)

theorem tableOf_or_pmd (aligned : isAligned x pmdSize = true) : tableOf (x ||| pmdTypePmd) = x := by
  have low : x &&& 0x3FF#32 = 0#32 := beq_iff_eq.mp aligned
  exact or_and_high low (by decide)

end Words

/-! ## Well-formed spaces -/

/-- The page table entry found for an address, zero where there is no table. -/
def tr (s : Mmu) (sp : SpaceId) (v : Word) : Word :=
  let entry := s.pgd sp (pgdIndex v)
  if isPmd entry then s.pmd (tableOf entry) (pmdIndex v) else 0

/-- Every entry of the page directory is a fault or refers to a table, and no two refer to the same one. -/
structure WellFormed (s : Mmu) (sp : SpaceId) : Prop where
  entries : ∀ i < pgdEntryTotal, s.pgd sp i &&& pmdTypeMask = pmdTypeFault ∨ isPmd (s.pgd sp i) = true
  tables : ∀ i < pgdEntryTotal, isPmd (s.pgd sp i) = true → tableOf (s.pgd sp i) ∈ s.used
  apart : ∀ i < pgdEntryTotal, ∀ j < pgdEntryTotal, isPmd (s.pgd sp i) = true → isPmd (s.pgd sp j) = true →
    tableOf (s.pgd sp i) = tableOf (s.pgd sp j) → i = j

/-- The tables the allocator will give next. -/
structure Fresh (s : Mmu) (supply : List Word) : Prop where
  nodup : supply.Nodup
  unused : ∀ table ∈ supply, table ∉ s.used
  aligned : ∀ table ∈ supply, isAligned table pmdSize = true

/-- One page table entry is written. -/
inductive PteWritten (s : Mmu) (sp : SpaceId) (virtual pte : Word) : Mmu → Prop
  | present (is : isPmd (s.pgd sp (pgdIndex virtual)) = true) :
    PteWritten s sp virtual pte (writePte s (tableOf (s.pgd sp (pgdIndex virtual))) (pmdIndex virtual) pte)
  | attached {table : Word} (fault : isPmd (s.pgd sp (pgdIndex virtual)) = false) (unused : table ∉ s.used)
      (aligned : isAligned table pmdSize = true) :
    PteWritten s sp virtual pte
      { pgd := update s.pgd sp (update (s.pgd sp) (pgdIndex virtual) (table ||| pmdTypePmd))
        pmd := update s.pmd table (update (fun _ => 0) (pmdIndex virtual) pte)
        used := table :: s.used }

section Written
variable {s s' : Mmu} {sp : SpaceId} {virtual pte v : Word} {supply : List Word}

theorem isPmd_or_pmd {table : Word} (aligned : isAligned table pmdSize = true) : isPmd (table ||| pmdTypePmd) = true :=
  beq_iff_eq.mpr (type_or_pmd aligned)

theorem tr_of_isPmd (is : isPmd (s.pgd sp (pgdIndex v)) = true) :
    tr s sp v = s.pmd (tableOf (s.pgd sp (pgdIndex v))) (pmdIndex v) := if_pos is

theorem tr_of_fault (fault : isPmd (s.pgd sp (pgdIndex v)) = false) : tr s sp v = 0 :=
  if_neg (by rw [fault]; exact Bool.false_ne_true)

theorem PteWritten.tr_eq (wf : WellFormed s sp) (written : PteWritten s sp virtual pte s') :
    tr s' sp v = if pageOf v = pageOf virtual then pte else tr s sp v := by
  cases written with
  | present is =>
    by_cases entry : isPmd (s.pgd sp (pgdIndex v)) = true
    · rw [tr_of_isPmd (s := writePte s _ _ _) entry, tr_of_isPmd entry]
      by_cases same : pgdIndex v = pgdIndex virtual
      · simp only [writePte, same, update_self, update_apply, pageOf_eq_iff, true_and]
      · have differ : tableOf (s.pgd sp (pgdIndex v)) ≠ tableOf (s.pgd sp (pgdIndex virtual)) := fun table =>
          same (wf.apart _ (pgdIndex_lt v) _ (pgdIndex_lt virtual) entry is table)
        simp [writePte, update_of_ne differ, pageOf_eq_iff, same]
    · have differ : ¬ pageOf v = pageOf virtual := fun same => entry ((pageOf_eq_iff.mp same).1 ▸ is)
      have fault := Bool.eq_false_iff.mpr entry
      rw [if_neg differ, tr_of_fault fault, tr_of_fault (s := writePte s _ _ _) fault]
  | @attached table fault unused aligned =>
    by_cases same : pgdIndex v = pgdIndex virtual
    · simp [tr, same, fault, isPmd_or_pmd aligned, tableOf_or_pmd aligned, update_apply, pageOf_eq_iff]
    · have differ : ¬ pageOf v = pageOf virtual := fun page => same (pageOf_eq_iff.mp page).1
      by_cases entry : isPmd (s.pgd sp (pgdIndex v)) = true
      · have old : tableOf (s.pgd sp (pgdIndex v)) ≠ table := fun same =>
          unused (same ▸ wf.tables _ (pgdIndex_lt v) entry)
        simp [tr, update_of_ne same, entry, update_of_ne old, differ]
      · simp [tr, update_of_ne same, entry, differ]

theorem PteWritten.wellFormed (wf : WellFormed s sp) (written : PteWritten s sp virtual pte s') : WellFormed s' sp := by
  cases written with
  | present is => exact ⟨wf.entries, wf.tables, wf.apart⟩
  | @attached table fault unused aligned =>
    have same := isPmd_or_pmd aligned
    have old : ∀ i < pgdEntryTotal, isPmd (s.pgd sp i) = true → tableOf (s.pgd sp i) ≠ table := fun i lt is eq =>
      unused (eq ▸ wf.tables i lt is)
    constructor
    · intro i lt
      by_cases here : i = pgdIndex virtual
      · simp [here, same]
      · simpa [here] using wf.entries i lt
    · intro i lt is
      by_cases here : i = pgdIndex virtual
      · simp [here, tableOf_or_pmd aligned]
      · simp only [update_self, update_of_ne here] at is ⊢
        exact List.mem_cons_of_mem _ (wf.tables i lt is)
    · intro i lti j ltj isi isj eq
      by_cases herei : i = pgdIndex virtual <;> by_cases herej : j = pgdIndex virtual
      · rw [herei, herej]
      · simp only [herei, update_self, update_of_ne herej, tableOf_or_pmd aligned] at isj eq
        exact absurd eq.symm (old j ltj isj)
      · simp only [herej, update_self, update_of_ne herei, tableOf_or_pmd aligned] at isi eq
        exact absurd eq (old i lti isi)
      · simp only [update_self, update_of_ne herei, update_of_ne herej] at isi isj eq
        exact wf.apart i lti j ltj isi isj eq

end Written

/-! ## What the functions do -/

section Functions
variable {s s' : Mmu} {sp : SpaceId} {physical virtual flags v : Word} {supply : List Word} {n : Nat}

theorem pmdExists_eq (wf : WellFormed s sp) : pmdExists s sp v =
    .ok (if isPmd (s.pgd sp (pgdIndex v)) then some (tableOf (s.pgd sp (pgdIndex v))) else none) := by
  unfold pmdExists
  by_cases is : isPmd (s.pgd sp (pgdIndex v)) = true
  · simp [is, beq_iff_eq.mp is]
  · have other : ¬ s.pgd sp (pgdIndex v) &&& pmdTypeMask = pmdTypePmd := fun eq => is (beq_iff_eq.mpr eq)
    have fault : s.pgd sp (pgdIndex v) &&& pmdTypeMask = 0 := (wf.entries _ (pgdIndex_lt v)).resolve_right is
    simp only [if_neg other, if_pos fault, if_neg is]

theorem virtToPteFromPgd_eq (wf : WellFormed s sp) : virtToPteFromPgd s sp v = .ok (tr s sp v) := by
  unfold virtToPteFromPgd tr
  rw [pmdExists_eq wf, ok_bind]
  by_cases is : isPmd (s.pgd sp (pgdIndex v)) = true
  · rw [if_pos is, if_pos is]
    rfl
  · rw [if_neg is, if_neg is]
    rfl

/-- What is written for a page that is mapped. -/
theorem archPrepareWritePte_sat {table : Word} (mapped : flags ≠ 0) :
    Sat (archPrepareWritePte s physical virtual flags table)
      (fun s' => s' = writePte s table (pmdIndex virtual) (physical ||| flags ||| pteTypeSmall))
      (fun _ => ¬ (isPageAligned physical = true ∧ isPageAligned virtual = true)) := by
  unfold archPrepareWritePte archPreparePte
  cases physAligned : isPageAligned physical
  · exact fun both => absurd both.1 Bool.false_ne_true
  · cases virtAligned : isPageAligned virtual
    · exact fun both => absurd both.2 Bool.false_ne_true
    · rw [if_neg (by decide), if_neg mapped]
      rfl

/-- The first `n` pages of a range are mapped, one after the other. -/
inductive PagesMapped (sp : SpaceId) (flags : Word) : Nat → Mmu → Word → Word → Mmu → Prop
  | done {s : Mmu} {physical virtual : Word} : PagesMapped sp flags 0 s physical virtual s
  | next {n : Nat} {s s1 s' : Mmu} {physical virtual : Word}
      (written : PteWritten s sp virtual (physical ||| flags ||| pteTypeSmall) s1)
      (rest : PagesMapped sp flags n s1 (physical + pageSize) (virtual + pageSize) s') :
    PagesMapped sp flags (n + 1) s physical virtual s'

/-- The loop stops only at an address that is not aligned. -/
theorem addMappingPages_sat (wf : WellFormed s sp) (fresh : Fresh s supply) (mapped : flags ≠ 0) :
    Sat (addMappingPages sp flags n s physical virtual supply)
      (fun r => ∃ k, PagesMapped sp flags k s physical virtual r.1 ∧ (r.2 = 0 ∧ k = n ∨ r.2 = enomem ∧ k < n))
      (fun _ => ¬ (isPageAligned physical = true ∧ isPageAligned virtual = true)) := by
  induction n generalizing s physical virtual supply with
  | zero => exact ⟨0, .done, .inl ⟨rfl, rfl⟩⟩
  | succ n rest =>
    -- The pages behind the first are mapped from whatever state it leaves.
    have next : ∀ s1 supply1, PteWritten s sp virtual (physical ||| flags ||| pteTypeSmall) s1 → Fresh s1 supply1 →
        Sat (addMappingPages sp flags n s1 (physical + pageSize) (virtual + pageSize) supply1)
          (fun r => ∃ k, PagesMapped sp flags k s physical virtual r.1 ∧ (r.2 = 0 ∧ k = n + 1 ∨ r.2 = enomem ∧ k < n + 1))
          (fun _ => ¬ (isPageAligned physical = true ∧ isPageAligned virtual = true)) := fun s1 supply1 written fresh1 =>
      ((rest (written.wellFormed wf) fresh1).weaken
        (fun _ unaligned aligned => unaligned ⟨isPageAligned_add aligned.1, isPageAligned_add aligned.2⟩)).mono
        (fun r done => by
          obtain ⟨k, pages, result⟩ := done
          exact ⟨k + 1, .next written pages, result.imp (fun ok => ⟨ok.1, congrArg (· + 1) ok.2⟩)
            (fun failed => ⟨failed.1, Nat.succ_lt_succ failed.2⟩)⟩)
    unfold addMappingPages
    rw [pmdExists_eq wf, ok_bind]
    by_cases is : isPmd (s.pgd sp (pgdIndex virtual)) = true
    · rw [if_pos is]
      refine (archPrepareWritePte_sat mapped).bind (fun s1 wrote => ?_)
      rw [wrote]
      exact next _ supply (.present is) ⟨fresh.nodup, fresh.unused, fresh.aligned⟩
    · rw [if_neg is]
      cases supply with
      | nil => exact ⟨0, .done, .inr ⟨rfl, Nat.succ_pos n⟩⟩
      | cons table supply =>
        have aligned := fresh.aligned table List.mem_cons_self
        have unused := fresh.unused table List.mem_cons_self
        refine (archPrepareWritePte_sat mapped).bind (fun s1 wrote => ?_)
        rw [wrote, attachPmd, aligned, if_neg (by decide), ok_bind]
        simp only [writePte, update_self, update_idem]
        refine next _ supply (.attached (Bool.eq_false_iff.mpr is) unused aligned) ⟨fresh.nodup.of_cons, ?_, ?_⟩
        · intro other mem
          refine List.not_mem_cons_of_ne_of_not_mem ?_ (fresh.unused other (List.mem_cons_of_mem _ mem))
          rintro rfl
          exact (List.nodup_cons.mp fresh.nodup).1 mem
        · exact fun other mem => fresh.aligned other (List.mem_cons_of_mem _ mem)

/-- Where the range does not wrap, exactly its pages change. -/
theorem PagesMapped.tr_eq (wf : WellFormed s sp) (virtAligned : isPageAligned virtual = true)
    (fits : virtual.toNat + n * 4096 ≤ 2 ^ 32) (pages : PagesMapped sp flags n s physical virtual s') :
    tr s' sp v = if pageOf virtual ≤ pageOf v ∧ pageOf v < pageOf virtual + n then
      (physical + (pageAlign v - virtual)) ||| flags ||| pteTypeSmall else tr s sp v := by
  induction pages with
  | done => rw [if_neg (fun within => absurd within.2 (Nat.not_lt.mpr within.1))]
  | @next n s s1 s' physical virtual written rest tail =>
    -- The last page may end where addresses wrap; then nothing is left to map.
    have shifted : n = 0 ∨ pageOf (virtual + pageSize) = pageOf virtual + 1 := by
      rcases Nat.eq_zero_or_pos n with none | some
      · exact .inl none
      · exact .inr (pageOf_add (by omega))
    have fits' : (virtual + pageSize).toNat + n * 4096 ≤ 2 ^ 32 := by
      rw [BitVec.toNat_add, show pageSize.toNat = 4096 from rfl]
      omega
    rw [tail (written.wellFormed wf) (isPageAligned_add virtAligned) fits', written.tr_eq wf]
    by_cases here : pageOf v = pageOf virtual
    · have start : pageAlign v = virtual := by
        have aligned := isPageAligned_iff.mp virtAligned
        rw [← BitVec.toNat_inj, pageAlign_toNat]
        simp only [pageOf] at here
        omega
      rw [if_neg (by omega), if_pos here, if_pos (by omega), start, BitVec.sub_self, BitVec.add_zero]
    · rw [if_neg here]
      by_cases within : pageOf virtual ≤ pageOf v ∧ pageOf v < pageOf virtual + (n + 1)
      · have offset : physical + pageSize + (pageAlign v - (virtual + pageSize)) = physical + (pageAlign v - virtual) := by ring
        rw [if_pos (by omega), if_pos within, offset]
      · rw [if_neg (by omega), if_neg within]

theorem PagesMapped.wellFormed (wf : WellFormed s sp) (pages : PagesMapped sp flags n s physical virtual s') :
    WellFormed s' sp := by
  induction pages with
  | done => exact wf
  | next written _ tail => exact tail (written.wellFormed wf)

/-- The bits that user flags become lie below the page number and above the entry's type. -/
theorem spaceFlagsToPtflags_user (user : userMapFlagsValidate flags = true) : spaceFlagsToPtflags flags ≠ 0 ∧
    spaceFlagsToPtflags flags &&& 0xFFC#32 = spaceFlagsToPtflags flags := by
  simp only [userMapFlagsValidate, Bool.or_eq_true, beq_iff_eq] at user
  rcases user with (((rfl | rfl) | rfl) | rfl) | rfl <;> decide

/-- Every entry is a fault or a small page. -/
def Typed (s : Mmu) (sp : SpaceId) : Prop :=
  ∀ v, tr s sp v &&& pteTypeMask = pteTypeFault ∨ tr s sp v &&& pteTypeMask = pteTypeSmall

theorem type_small (physAligned : isPageAligned physical = true) (low : flags &&& 0xFFC#32 = flags) :
    (physical ||| flags ||| pteTypeSmall) &&& pteTypeMask = pteTypeSmall := by
  have phys : physical &&& 0x3#32 = 0#32 := and_eq_zero_of_and_eq_zero (beq_iff_eq.mp physAligned) (by decide)
  have flag : flags &&& 0x3#32 = 0#32 := by
    rw [← low, BitVec.and_assoc]
    exact BitVec.and_zero
  have high : (physical ||| flags) &&& 0x3#32 = 0#32 := by
    rw [BitVec.and_comm, BitVec.and_or_distrib_left, BitVec.and_comm _ physical, BitVec.and_comm _ flags, phys, flag]
    rfl
  exact or_and_low high (by decide)

theorem PagesMapped.typed (wf : WellFormed s sp) (typed : Typed s sp) (physAligned : isPageAligned physical = true)
    (low : flags &&& 0xFFC#32 = flags) (pages : PagesMapped sp flags n s physical virtual s') : Typed s' sp := by
  induction pages with
  | done => exact typed
  | next written _ tail =>
    refine tail (written.wellFormed wf) (fun v => ?_) (isPageAligned_add physAligned)
    rw [written.tr_eq wf]
    split
    · exact .inr (type_small physAligned low)
    · exact typed v

theorem tr_congr {w : Word} (same : pageOf v = pageOf w) : tr s sp v = tr s sp w := by
  obtain ⟨pgd, pmd⟩ := pageOf_eq_iff.mp same
  rw [tr, tr, pgd, pmd]

/-- `remove_mapping_space` writes an entry that is there, or changes nothing. -/
theorem removeMappingSpace_sat (wf : WellFormed s sp) :
    Sat (removeMappingSpace s sp v)
      (fun r => tr s sp v &&& pteTypeMask = pteTypeFault ∧ r = (s, enomap) ∨
        ¬ tr s sp v &&& pteTypeMask = pteTypeFault ∧ r.2 = 0 ∧ PteWritten s sp (pageAlign v) 0 r.1)
      (fun _ => ¬ Typed s sp) := by
  have page : tr s sp (pageAlign v) = tr s sp v := tr_congr (pageOf_pageAlign v)
  rw [← page]
  unfold removeMappingSpace
  dsimp only
  by_cases is : isPmd (s.pgd sp (pgdIndex (pageAlign v))) = true
  · rw [tr_of_isPmd is]
    have kind : s.pgd sp (pgdIndex (pageAlign v)) &&& pmdTypeMask = pmdTypePmd := beq_iff_eq.mp is
    rw [if_neg (by rw [kind]; decide), if_neg (not_not_intro kind)]
    by_cases fault : s.pmd (tableOf (s.pgd sp (pgdIndex (pageAlign v)))) (pmdIndex (pageAlign v)) &&& pteTypeMask = pteTypeFault
    · rw [if_pos fault]
      exact .inl ⟨fault, rfl⟩
    · rw [if_neg fault]
      split
      · next other => exact fun typed => (tr_of_isPmd is ▸ typed (pageAlign v)).elim fault other
      · have writes : archPreparePte 0 (pageAlign v) (spaceFlagsToPtflags mapFault) = .ok 0 := by
          unfold archPreparePte
          rw [isPageAligned_pageAlign]
          decide
        rw [archPrepareWritePte, writes, ok_bind]
        exact .inr ⟨fault, rfl, .present is⟩
  · have fault := (wf.entries _ (pgdIndex_lt (pageAlign v))).resolve_right is
    rw [if_pos fault, tr_of_fault (Bool.eq_false_iff.mpr is)]
    exact .inl ⟨by decide, rfl⟩

theorem checkMappingPages_sat (wf : WellFormed s sp) : Sat (checkMappingPages s sp flags n v)
    (fun r => r = true ↔ ∀ i < n, archCheckPteAccessPerms (tr s sp (v + BitVec.ofNat 32 (i * 4096))) flags = true)
    (fun _ => False) := by
  induction n generalizing v with
  | zero => simp [checkMappingPages]
  | succ n rest =>
    unfold checkMappingPages
    rw [virtToPteFromPgd_eq wf, ok_bind]
    have first : v + BitVec.ofNat 32 (0 * 4096) = v := BitVec.add_zero v
    have shift : ∀ i, v + BitVec.ofNat 32 ((i + 1) * 4096) = v + pageSize + BitVec.ofNat 32 (i * 4096) := fun i => by
      rw [Nat.succ_mul, BitVec.ofNat_add, BitVec.add_comm (BitVec.ofNat 32 (i * 4096)), ← BitVec.add_assoc]
      rfl
    by_cases perms : archCheckPteAccessPerms (tr s sp v) flags = true
    · rw [if_pos perms]
      refine rest.mono (fun r tail => tail.trans ⟨fun all i lt => ?_, fun all i lt => ?_⟩)
      · cases i with
        | zero => rwa [first]
        | succ i =>
          rw [shift]
          exact all i (Nat.lt_of_succ_lt_succ lt)
      · rw [← shift]
        exact all (i + 1) (Nat.succ_lt_succ lt)
    · rw [if_neg perms]
      refine ⟨fun wrong => absurd wrong Bool.false_ne_true, fun all => absurd ?_ perms⟩
      rw [← first]
      exact all 0 (Nat.succ_pos n)

end Functions

/-! ## The map -/

section Map
variable {s s' : Mmu} {sp : SpaceId} {physical virtual flags v : Word} {supply : List Word} {n : Nat}

/-- The first `k` pages from `virtual` translate to those from `physical`, and nothing else changes. -/
def Maps (s s' : Mmu) (sp : SpaceId) (physical virtual flags : Word) (k : Nat) : Prop :=
  ∀ v, tr s' sp v = if pageOf virtual ≤ pageOf v ∧ pageOf v < pageOf virtual + k then
    (physical + (pageAlign v - virtual)) ||| spaceFlagsToPtflags flags ||| pteTypeSmall else tr s sp v

/-- A size in whole pages is taken apart into as many pages, unless it does not fit a word. -/
theorem addMappingSpace_pages (some : 1 ≤ n) (fits : n < 2 ^ 20) (user : userMapFlagsValidate flags = true) :
    addMappingSpace s physical virtual (BitVec.ofNat 32 (n * 4096)) flags sp supply =
      addMappingPages sp (spaceFlagsToPtflags flags) n s physical virtual supply := by
  have value : (BitVec.ofNat 32 (n * 4096)).toNat = n * 4096 := by
    rw [BitVec.toNat_ofNat]
    omega
  have large : ¬ BitVec.ofNat 32 (n * 4096) < pageSize := by
    rw [BitVec.lt_def, value, show pageSize.toNat = 4096 from rfl]
    omega
  have whole : BitVec.ofNat 32 (n * 4096) &&& pageMask = 0 := by
    have aligned : isPageAligned (BitVec.ofNat 32 (n * 4096)) = true := isPageAligned_iff.mpr (by omega)
    exact beq_iff_eq.mp aligned
  have pages : (BitVec.ofNat 32 (n * 4096) >>> 12).toNat = n := by
    rw [BitVec.toNat_ushiftRight, value, Nat.shiftRight_eq_div_pow]
    omega
  simp only [addMappingSpace, mappingPages, if_neg large, if_neg (spaceFlagsToPtflags_user user).1, if_pos whole, pages,
    Nat.add_zero]

theorem addMappingSpace_whole (whole : n = 2 ^ 20) :
    addMappingSpace s physical virtual (BitVec.ofNat 32 (n * 4096)) flags sp supply = .error .mappingSize := by
  have nothing : BitVec.ofNat 32 (n * 4096) = 0 := by
    rw [← BitVec.toNat_inj, BitVec.toNat_ofNat, whole]
    rfl
  rw [nothing]
  rfl

theorem PteWritten.typed_zero (wf : WellFormed s sp) (typed : Typed s sp) (written : PteWritten s sp virtual 0 s') :
    Typed s' sp := fun v => by
  rw [written.tr_eq wf]
  split
  · exact .inl (by decide)
  · exact typed v

/-- The pages a range reaches are those that `check_mapping_pgd` counts. -/
theorem checkMappingPgd_sat (wf : WellFormed s sp) {size : Word} (aligned : isPageAligned v = true)
    (small : size.toNat ≤ 2 ^ 32 - 4096) (fits : v.toNat + size.toNat ≤ 2 ^ 32) (user : userMapFlagsValidate flags = true) :
    Sat (checkMappingPgd s sp v size flags)
      (fun r => r = true ↔ ∀ w : Word, v.toNat ≤ w.toNat → w.toNat < v.toNat + size.toNat →
        archCheckPteAccessPerms (tr s sp w) (spaceFlagsToPtflags flags) = true)
      (fun _ => False) := by
  have start := isPageAligned_iff.mp aligned
  have npages : (pfn (alignUp size pageSize)).toNat = (size.toNat + 4095) / 4096 := by
    have up : (alignUp size pageSize).toNat = (size + 0xFFF#32).toNat - (size + 0xFFF#32).toNat % 4096 :=
      toNat_and_not_low (size + 0xFFF#32) (k := 12) (by decide)
    rw [pfn, BitVec.toNat_ushiftRight, up, BitVec.toNat_add, Nat.shiftRight_eq_div_pow, BitVec.toNat_ofNat]
    omega
  simp only [checkMappingPgd, npages, if_neg (spaceFlagsToPtflags_user user).1]
  refine (checkMappingPages_sat wf).mono (fun r checked => checked.trans ⟨fun all w le lt => ?_, fun all i lt => ?_⟩)
  · have page := all ((w.toNat - v.toNat) / 4096) (by omega)
    rwa [tr_congr (w := w)] at page
    rw [pageOf, pageOf, BitVec.toNat_add, BitVec.toNat_ofNat]
    omega
  · have address : (v + BitVec.ofNat 32 (i * 4096)).toNat = v.toNat + i * 4096 := by
      rw [BitVec.toNat_add, BitVec.toNat_ofNat]
      omega
    exact all _ (by omega) (by omega)

theorem translation_edited (wf : WellFormed s sp) (typed : Typed s sp) :
    (∀ physical virtual n flags supply, isPageAligned physical = true → isPageAligned virtual = true → 1 ≤ n →
      physical.toNat + n * 4096 ≤ 2 ^ 32 → virtual.toNat + n * 4096 ≤ 2 ^ 32 → userMapFlagsValidate flags = true →
      Fresh s supply →
      (n < 2 ^ 20 → ∃ r, addMappingSpace s physical virtual (BitVec.ofNat 32 (n * 4096)) flags sp supply = .ok r) ∧
      ∀ s' err, addMappingSpace s physical virtual (BitVec.ofNat 32 (n * 4096)) flags sp supply = .ok (s', err) →
        WellFormed s' sp ∧ Typed s' sp ∧
          ∃ k, (err = 0 ∧ k = n ∨ err = enomem ∧ k < n) ∧ Maps s s' sp physical virtual flags k) ∧
    (∀ v, ∃ s' err, removeMappingSpace s sp v = .ok (s', err) ∧ WellFormed s' sp ∧ Typed s' sp ∧
      (err = 0 ∧ ¬ tr s sp v &&& pteTypeMask = pteTypeFault ∧
          (∀ w, tr s' sp w = if pageOf w = pageOf v then 0 else tr s sp w) ∨
        err = enomap ∧ tr s sp v &&& pteTypeMask = pteTypeFault ∧ s' = s)) ∧
    ∀ a size flags, isPageAligned a = true → size.toNat ≤ 2 ^ 32 - 4096 → a.toNat + size.toNat ≤ 2 ^ 32 →
      userMapFlagsValidate flags = true → ∃ r, checkMappingPgd s sp a size flags = .ok r ∧
        (r = true ↔ ∀ v : Word, a.toNat ≤ v.toNat → v.toNat < a.toNat + size.toNat →
          archCheckPteAccessPerms (tr s sp v) (spaceFlagsToPtflags flags) = true) := by
  refine ⟨fun physical virtual n flags supply physAligned virtAligned some physFits virtFits user fresh => ?_, fun v => ?_,
    fun a size flags aligned small fits user => ?_⟩
  · obtain ⟨mapped, low⟩ := spaceFlagsToPtflags_user user
    rcases Nat.lt_or_ge n (2 ^ 20) with less | more
    · rw [addMappingSpace_pages some less user]
      obtain ⟨r, ran, k, pages, result⟩ := ((addMappingPages_sat (n := n) wf fresh mapped).weaken
        (fun _ unaligned => unaligned ⟨physAligned, virtAligned⟩)).exists_ok
      refine ⟨fun _ => ⟨r, ran⟩, fun s' err ran' => ?_⟩
      obtain rfl := Except.ok.inj (ran.symm.trans ran')
      have le : k ≤ n := result.elim (fun ok => Nat.le_of_eq ok.2) (fun failed => Nat.le_of_lt failed.2)
      refine ⟨pages.wellFormed wf, pages.typed wf typed physAligned low, k, result, fun v => pages.tr_eq wf virtAligned ?_⟩
      exact Nat.le_trans (Nat.add_le_add_left (Nat.mul_le_mul_right _ le) _) virtFits
    · refine ⟨fun less => absurd less (Nat.not_lt.mpr more), fun s' err ran => ?_⟩
      exact nomatch ran.symm.trans (addMappingSpace_whole (by omega))
  · obtain ⟨⟨s', err⟩, ran, result⟩ := ((removeMappingSpace_sat (v := v) wf).weaken
      (fun _ untyped => untyped typed)).exists_ok
    refine ⟨s', err, ran, ?_⟩
    rcases result with ⟨fault, same⟩ | ⟨mapped, ok, written⟩
    · obtain ⟨rfl, rfl⟩ := Prod.mk.inj same
      exact ⟨wf, typed, .inr ⟨rfl, fault, rfl⟩⟩
    · refine ⟨written.wellFormed wf, written.typed_zero wf typed, .inl ⟨ok, mapped, fun w => ?_⟩⟩
      rw [written.tr_eq wf, pageOf_pageAlign]
  · exact (checkMappingPgd_sat wf aligned small fits user).exists_ok

/-- A space with one table, which has one entry. -/
def onePage (pte : Word) : Mmu :=
  { pgd := fun _ i => if i = 0 then 0x401 else 0
    pmd := fun table i => if table = 0x400 ∧ i = 1 then pte else 0
    used := [0x400] }

theorem onePage_wellFormed (pte : Word) (sp : SpaceId) : WellFormed (onePage pte) sp := by
  have first : ∀ i, isPmd ((onePage pte).pgd sp i) = true → i = 0 := fun i is => by
    by_contra other
    simp only [onePage, if_neg other] at is
    exact absurd is (by decide)
  refine ⟨fun i _ => ?_, fun i _ is => ?_, fun i _ j _ isi isj _ => (first i isi).trans (first j isj).symm⟩
  · by_cases zero : i = 0
    · exact .inr (by simp [onePage, zero, isPmd, pmdTypeMask, pmdTypePmd])
    · exact .inl (by simp only [onePage, if_neg zero]; decide)
  · simp [first i is, onePage, tableOf, pmdAlignMask, pmdSize]

theorem onePage_typed {pte : Word} (small : pte &&& pteTypeMask = pteTypeSmall) (sp : SpaceId) : Typed (onePage pte) sp := by
  intro v
  by_cases first : pgdIndex v = 0
  · by_cases here : pmdIndex v = 1
    · exact .inr (by simpa [tr, onePage, first, here, isPmd, tableOf, pmdTypeMask, pmdTypePmd, pmdAlignMask, pmdSize] using small)
    · exact .inl (by simp [tr, onePage, first, here, isPmd, pmdTypeMask, pmdTypePmd, pteTypeFault])
  · exact .inl (by simp [tr, onePage, first, isPmd, pmdTypeMask, pmdTypePmd, pteTypeFault])

/-- Two pages are mapped across the end of a table: the second needs a new one, and there is one left. -/
theorem translation_edited_across : ∃ s', addMappingSpace (onePage 0) 0x80000000 0xFF000 0x2000 mapUsrRw 0 [0x800] = .ok (s', 0) ∧
    tr s' 0 0xFF000 = 0x80000FFE ∧ tr s' 0 0x100000 = 0x80001FFE ∧ tr s' 0 0x101000 = 0 ∧ WellFormed s' 0 := by
  have typed : Typed (onePage 0) 0 := fun v => .inl (by simp [tr, onePage, pteTypeFault])
  have fresh : Fresh (onePage 0) [0x800] := ⟨List.nodup_singleton _, by simp [onePage], by simp [isAligned, pmdSize]⟩
  obtain ⟨total, edits⟩ := (translation_edited (onePage_wellFormed 0 0) typed).1 0x80000000 0xFF000 2 mapUsrRw [0x800]
    (by decide) (by decide) (by decide) (by decide +kernel) (by decide +kernel) (by decide) fresh
  obtain ⟨⟨s', err⟩, ran⟩ := total (by decide)
  have ok : (addMappingSpace (onePage 0) 0x80000000 0xFF000 (BitVec.ofNat 32 (2 * 4096)) mapUsrRw 0 [0x800]).toOption.map
      Prod.snd = some 0 := by decide +kernel
  obtain ⟨wf, -, k, result, maps⟩ := edits s' err ran
  obtain rfl : err = 0 := by
    rw [toOption_eq_some.mpr ran] at ok
    exact Option.some.inj ok
  obtain rfl : k = 2 := result.elim (fun ok => ok.2) (fun failed => absurd failed.1 (by decide))
  refine ⟨s', ran, ?_, ?_, ?_, wf⟩
  · rw [maps]
    decide +kernel
  · rw [maps]
    decide +kernel
  · rw [maps]
    decide +kernel

/-- A large page cannot be unmapped; and the two pages that an unaligned range reaches are counted as one. -/
theorem translation_misread :
    (WellFormed (onePage 0x1) 0 ∧ removeMappingSpace (onePage 0x1) 0 0x1000 = .error .pteType) ∧
    WellFormed (onePage 0x1FFE) 0 ∧ Typed (onePage 0x1FFE) 0 ∧
      checkMappingPgd (onePage 0x1FFE) 0 0x1800 0x1000 mapUsrRw = .ok true ∧
      (0x1800 : Word).toNat ≤ (0x2000 : Word).toNat ∧ (0x2000 : Word).toNat < (0x1800 : Word).toNat + (0x1000 : Word).toNat ∧
      archCheckPteAccessPerms (tr (onePage 0x1FFE) 0 0x2000) (spaceFlagsToPtflags mapUsrRw) = false := by
  refine ⟨⟨onePage_wellFormed 0x1 0, rfl⟩, onePage_wellFormed 0x1FFE 0, onePage_typed (by decide) 0, rfl, ?_, ?_, rfl⟩
  · decide
  · decide

end Map

end Codezero.Space
