import Codezero.Space.Copy

/-!
# Copied spaces stay independent

Mapping and unmapping at addresses whose entry is not global writes only to tables that one space owns, so the
translations of every other space stand.
-/

namespace Codezero.Space
open Codezero.Kernel (Word)
open Codezero.Lib

inductive MapCall
  | add (sp : SpaceId) (physical virtual szBytes flags : Word) (supply : List Word)
  | remove (sp : SpaceId) (vaddr : Word)

/-- The space a call works on. -/
def MapCall.space : MapCall → SpaceId
  | .add sp .. => sp
  | .remove sp _ => sp

/-- Every page of the call lies at an entry that is not global. -/
def MapCall.Nonglobal : MapCall → Prop
  | .add _ _ virtual szBytes _ _ =>
    ∀ i < mappingPages szBytes, isGlobalPgdi (pgdIndex (virtual + BitVec.ofNat 32 (i * 4096))) = false
  | .remove _ vaddr => isGlobalPgdi (pgdIndex vaddr) = false

def mapCalls : Machine Mmu MapCall Bug where
  enabled s call := call.Nonglobal ∧ match call with
    | .add _ _ _ _ _ supply => Fresh s supply
    | .remove _ _ => True
  step s
    | .add sp physical virtual szBytes flags supply => do
      let (s', _) ← addMappingSpace s physical virtual szBytes flags sp supply
      pure s'
    | .remove sp vaddr => do
      let (s', _) ← removeMappingSpace s sp vaddr
      pure s'

section Calls
variable {s s' : Mmu} {spaces : List SpaceId} {a b sp : SpaceId} {physical virtual szBytes flags v : Word} {n : Nat}
  {supply : List Word} {call : MapCall}

theorem addMappingSpace_sat (wf : WellFormed s sp) (fresh : Fresh s supply) :
    Sat (addMappingSpace s physical virtual szBytes flags sp supply)
      (fun r => ∃ k ≤ mappingPages szBytes, PagesMapped sp (spaceFlagsToPtflags flags) k s physical virtual r.1)
      (fun _ => True) := by
  unfold addMappingSpace
  split
  · exact trivial
  · dsimp only
    split
    · exact trivial
    · next mapped =>
      refine ((addMappingPages_sat wf fresh mapped).weaken (fun _ _ => trivial)).mono (fun r pages => ?_)
      obtain ⟨k, pages, result⟩ := pages
      exact ⟨k, result.elim (fun ok => Nat.le_of_eq ok.2) (fun failed => Nat.le_of_lt failed.2), pages⟩

theorem PagesMapped.frame (system : System s spaces) (mem : a ∈ spaces)
    (nonglobal : ∀ i < n, isGlobalPgdi (pgdIndex (virtual + BitVec.ofNat 32 (i * 4096))) = false)
    (pages : PagesMapped a flags n s physical virtual s') :
    System s' spaces ∧ ∀ b ∈ spaces, b ≠ a → ∀ v, tr s' b v = tr s b v := by
  induction pages with
  | done => exact ⟨system, fun _ _ _ _ => rfl⟩
  | @next n s s1 s' physical virtual written rest tail =>
    have first : isGlobalPgdi (pgdIndex virtual) = false := by
      have here := nonglobal 0 (Nat.succ_pos n)
      rwa [Nat.zero_mul, BitVec.add_zero] at here
    have later : ∀ i < n, isGlobalPgdi (pgdIndex (virtual + pageSize + BitVec.ofNat 32 (i * 4096))) = false := fun i lt => by
      have there := nonglobal (i + 1) (Nat.succ_lt_succ lt)
      rwa [Nat.succ_mul, Nat.add_comm, BitVec.ofNat_add, ← BitVec.add_assoc] at there
    obtain ⟨system', same⟩ := tail (written.system system mem) later
    exact ⟨system', fun b memb ne v => (same b memb ne v).trans (written.frame system mem memb ne first)⟩

/-- One call leaves every other space alone. -/
theorem step_frame (system : System s spaces) (mem : call.space ∈ spaces) (enabled : mapCalls.enabled s call) :
    Sat (mapCalls.step s call)
      (fun s' => System s' spaces ∧ ∀ b ∈ spaces, b ≠ call.space → ∀ v, tr s' b v = tr s b v) (fun _ => True) := by
  cases call with
  | add sp physical virtual szBytes flags supply =>
    refine (addMappingSpace_sat (system.wf sp mem) enabled.2).bind (fun r pages => ?_)
    obtain ⟨k, le, pages⟩ := pages
    exact pages.frame system mem (fun i lt => enabled.1 i (Nat.lt_of_lt_of_le lt le))
  | remove sp vaddr =>
    refine ((removeMappingSpace_sat (system.wf sp mem)).weaken (fun _ _ => trivial)).bind (fun r removed => ?_)
    rcases removed with ⟨-, rfl⟩ | ⟨-, -, written⟩
    · exact ⟨system, fun _ _ _ _ => rfl⟩
    · have index : pgdIndex (pageAlign vaddr) = pgdIndex vaddr := (pageOf_eq_iff.mp (pageOf_pageAlign vaddr)).1
      exact ⟨written.system system mem, fun b memb ne v => written.frame system mem memb ne (index ▸ enabled.1)⟩

theorem system_of_calls (system : System s spaces)
    (reached : mapCalls.ReachesUnder (fun _ call => call.space ∈ spaces) s s') : System s' spaces := by
  refine reached.invariant (I := fun s => System s spaces) (fun s1 call s2 system enabled mem stepped => ?_) system
  exact ((step_frame system mem enabled).ok stepped).1

theorem frame_of_calls (system : System s spaces) (mema : a ∈ spaces) (memb : b ∈ spaces) (ne : b ≠ a)
    (reached : mapCalls.ReachesUnder (fun _ call => call.space = a) s s') : tr s' b v = tr s b v := by
  have kept : System s' spaces ∧ tr s' b v = tr s b v := by
    refine reached.invariant (I := fun s' => System s' spaces ∧ tr s' b v = tr s b v) ?_ ⟨system, rfl⟩
    intro s1 call s2 before enabled on stepped
    obtain ⟨system2, same⟩ := (step_frame before.1 (on ▸ mema) enabled).ok stepped
    exact ⟨system2, (same b memb (on ▸ ne) v).trans before.2⟩
  exact kept.2

end Calls

section Create
variable {s : Mmu} {spaces : List SpaceId} {current orig new : SpaceId} {supply : List Word}

theorem space_copied (system : System s spaces) (memCurrent : current ∈ spaces) (memOrig : orig ∈ spaces)
    (notin : new ∉ spaces) (fresh : Fresh s supply) :
    (∀ s', addressSpaceCreate s current (some new) true (some orig) supply = (s', .ok new) →
      (∀ v, tr s' new v = if isGlobalPgdi (pgdIndex v) then tr s current v else tr s orig v) ∧
      (s'.pgd orig = s.pgd orig ∧ ∀ sp ∈ spaces, ∀ v, tr s' sp v = tr s sp v) ∧
      (∀ i < pgdEntryTotal, isGlobalPgdi i = false → isPmd (s'.pgd new i) = true →
        tableOf (s'.pgd new i) ∉ s.used ∧ tableOf (s'.pgd new i) ∈ s'.used) ∧
      ∀ s1, mapCalls.ReachesUnder (fun _ call => call.space = orig ∨ call.space = new) s' s1 →
        ∀ s2 a b, a = orig ∧ b = new ∨ a = new ∧ b = orig →
          mapCalls.ReachesUnder (fun _ call => call.space = a) s1 s2 → ∀ v, tr s2 b v = tr s1 b v) ∧
    ∀ s' err, copyUserTables (withPgd s current new) new orig supply = (s', err) → err < 0 →
      s'.used.Perm s.used ∧ s'.pgd orig = s.pgd orig ∧ ∀ sp ∈ spaces, ∀ v, tr s' sp v = tr s sp v := by
  have differ : orig ≠ new := fun eq => notin (eq ▸ memOrig)
  have result := @copyUserTables_created s current new orig supply differ (system.wf orig memOrig) fresh
  refine ⟨fun s' created => ?_, fun s' err failed negative => ?_⟩
  · unfold addressSpaceCreate at created
    dsimp only at created
    rw [if_neg (by decide)] at created
    generalize copyUserTables (withPgd s current new) new orig supply = r at result created
    obtain ⟨s'', err⟩ := r
    rcases result with ⟨rfl, result⟩ | ⟨rfl, -⟩
    · obtain ⟨rfl, -⟩ := Prod.mk.inj created
      have system' := result.system system memCurrent notin
      refine ⟨fun v => result.tr_new (system.wf current memCurrent), ⟨result.others orig differ, fun sp mem v =>
        result.tr_old (system.wf sp mem) (fun eq => notin (eq ▸ mem))⟩, fun i lt nonglobal is => ?_,
        fun s1 reached s2 a b pair reached' v => ?_⟩
      · rcases result.entry lt is with ⟨global, -⟩ | ⟨-, own⟩
        · exact absurd (nonglobal.symm.trans global) Bool.false_ne_true
        · exact own
      · have memNew : new ∈ new :: spaces := List.mem_cons_self
        have memOrig' : orig ∈ new :: spaces := List.mem_cons_of_mem new memOrig
        have system1 := system_of_calls system' (reached.mono (fun _ call on =>
          on.elim (fun eq => eq ▸ memOrig') (fun eq => eq ▸ memNew)))
        rcases pair with ⟨rfl, rfl⟩ | ⟨rfl, rfl⟩
        · exact frame_of_calls system1 memOrig' memNew (Ne.symm differ) reached'
        · exact frame_of_calls system1 memNew memOrig' differ reached'
    · exact nomatch (Prod.mk.inj created).2
  · rw [failed] at result
    rcases result with ⟨zero, -⟩ | ⟨-, others, tables, used⟩
    · exact absurd negative (Int.not_lt.mpr (Int.le_of_eq zero.symm))
    · refine ⟨used, others orig differ, fun sp mem v => ?_⟩
      have same := others sp (fun eq => notin (eq ▸ mem))
      by_cases is : isPmd (s.pgd sp (pgdIndex v)) = true
      · rw [tr, tr, same, if_pos is, if_pos is, tables _ ((system.wf sp mem).tables _ (pgdIndex_lt v) is)]
      · rw [tr, tr, same, if_neg is, if_neg is]

/-- The one space of `onePage` is copied. -/
theorem space_copied_page : ∃ s', addressSpaceCreate (onePage 0x1FFE) 0 (some 1) true (some 0) [0x800] = (s', .ok 1) ∧
    tr (onePage 0x1FFE) 0 0x1000 = 0x1FFE ∧ tr s' 1 0x1000 = 0x1FFE ∧ ∀ v, tr s' 0 v = tr (onePage 0x1FFE) 0 v := by
  have wf := onePage_wellFormed 0x1FFE 0
  have system : System (onePage 0x1FFE) [0] := by
    refine ⟨fun sp mem => List.mem_singleton.mp mem ▸ wf, fun a mema b memb i lti j ltj _ isa isb same => ?_⟩
    obtain rfl := List.mem_singleton.mp mema
    obtain rfl := List.mem_singleton.mp memb
    exact ⟨rfl, wf.apart i lti j ltj isa isb same⟩
  have fresh : Fresh (onePage 0x1FFE) [0x800] :=
    ⟨List.nodup_singleton _, by simp [onePage], by simp [isAligned, pmdSize]⟩
  have ok : (addressSpaceCreate (onePage 0x1FFE) 0 (some 1) true (some 0) [0x800]).2.toOption = some 1 := by decide +kernel
  have mem : 0 ∈ [0] := List.mem_singleton_self 0
  obtain ⟨copies, -⟩ := @space_copied _ _ 0 0 1 _ system mem mem (by decide) fresh
  cases created : addressSpaceCreate (onePage 0x1FFE) 0 (some 1) true (some 0) [0x800] with
  | mk s' result =>
    rw [created] at ok
    obtain rfl := toOption_eq_some.mp ok
    obtain ⟨same, ⟨-, kept⟩, -⟩ := copies s' created
    refine ⟨s', rfl, by decide, ?_, kept 0 mem⟩
    rw [same]
    decide

end Create

end Codezero.Space
