import Codezero.Lib.Gaps
import Codezero.Mm0.Graph

/-!
# Page caches

A page goes into an object's cache at a place that depends on the offsets already there; which place it is
makes no difference to a lookup.
-/

namespace Codezero.Mm0
open Codezero.Lib
open Function (update update_self)

/-- A page whose offset is not taken goes into the list, at the first gap that fits. -/
theorem insertPageOlist_eq {page : Page} {pages : List Page} (free : ∀ p ∈ pages, p.offset ≠ page.offset) :
    insertPageOlist page pages = .ok (insertGap Page.offset page pages) := by
  fun_induction insertPageOlist page pages with
  | case1 => rfl
  | case2 before above => rw [insertGap, if_pos above]; rfl
  | case3 before above below => rw [insertGap, if_neg above]; rfl
  | case4 before above below =>
    exact absurd (Nat.le_antisymm (Nat.le_of_not_lt below) (Nat.le_of_not_lt above)) (free before (by simp))
  | case5 before after rest between => rw [insertGap, if_pos between]; rfl
  | case6 before after rest between same => exact absurd same.symm (free before (by simp))
  | case7 before after rest between _ same => exact absurd same.symm (free after (by simp))
  | case8 before after rest between _ _ more =>
    rw [more (fun p mem => free p (List.mem_cons_of_mem before mem)), insertGap, if_neg between]
    rfl

theorem insertPageOlist_perm {this : Page} {pages : List Page} (free : ∀ p ∈ pages, p.offset ≠ this.offset) :
    ∃ pages', insertPageOlist this pages = .ok pages' ∧ pages'.Perm (this :: pages) :=
  ⟨_, insertPageOlist_eq free, insertGap_perm⟩

/-- Where offsets are distinct, the page at an offset does not depend on the order of the list. -/
theorem find_offset_perm {pages pages' : List Page} (perm : pages.Perm pages')
    (once : (pages.map Page.offset).Nodup) (off : Pfn) :
    pages.find? (fun p => p.offset == off) = pages'.find? (fun p => p.offset == off) := by
  induction perm with
  | nil => rfl
  | cons p _ rest =>
    rw [List.find?_cons, List.find?_cons, rest (List.Nodup.of_cons (by simpa using once))]
  | swap p q pages =>
    have ne : q.offset ≠ p.offset := by
      intro same
      simp [same] at once
    by_cases hp : p.offset = off <;> by_cases hq : q.offset = off
    · exact absurd (hq.trans hp.symm) ne
    all_goals simp [hp, hq]
  | trans first _ rest rest' =>
    rw [rest once, rest' ((first.map Page.offset).nodup_iff.mp once)]

theorem findPage_eq_none {s : Mm} {o : ObjId} {off : Pfn} :
    findPage s o off = none ↔ ∀ p ∈ s.pageCache o, p.offset ≠ off := by
  simp [findPage, List.find?_eq_none]

/-! ## Adding a page -/

section AddPage
variable {s : Mm} {o : ObjId} {p : Page}

/-- What `addPage` leaves: a cache with one more page, in some order. -/
structure Added (s : Mm) (o : ObjId) (p : Page) (pages : List Page) (s' : Mm) : Prop where
  state : s' = { s with
    pageCache := update s.pageCache o pages
    npages := update s.npages o (s.npages o + 1) }
  perm : pages.Perm (p :: s.pageCache o)

theorem addPage_added (free : findPage s o p.offset = none) : ∃ pages s', addPage s o p = .ok s' ∧ Added s o p pages s' := by
  obtain ⟨pages, inserted, perm⟩ := insertPageOlist_perm (findPage_eq_none.mp free)
  exact ⟨pages, _, by rw [addPage, inserted]; rfl, rfl, perm⟩

namespace Added
variable {pages : List Page} {s' : Mm}

theorem pageCache (added : Added s o p pages s') : s'.pageCache = update s.pageCache o pages := by
  rw [added.state]

theorem nodup (added : Added s o p pages s') (free : findPage s o p.offset = none)
    (once : ((s.pageCache o).map Page.offset).Nodup) : ((s'.pageCache o).map Page.offset).Nodup := by
  rw [added.pageCache, update_self, (added.perm.map Page.offset).nodup_iff, List.map_cons,
    List.nodup_cons]
  refine ⟨fun mem => ?_, once⟩
  obtain ⟨q, mem, same⟩ := List.mem_map.mp mem
  exact findPage_eq_none.mp free q mem same

theorem find_self (added : Added s o p pages s') (free : findPage s o p.offset = none)
    (once : ((s.pageCache o).map Page.offset).Nodup) (off : Pfn) :
    findPage s' o off = if p.offset = off then some p else findPage s o off := by
  have once' := added.nodup free once
  rw [added.pageCache, update_self] at once'
  rw [findPage, added.pageCache, update_self, find_offset_perm added.perm once', List.find?_cons]
  by_cases same : p.offset = off
  · simp [same]
  · rw [if_neg same, beq_eq_false_iff_ne.mpr same]
    rfl

end Added

end AddPage

/-! ## Deleting an object -/

theorem releaseCount_ok {pages : List Page} {n : Int} (zero : ∀ p ∈ pages, p.refcnt = 0)
    (enough : pages.length ≤ n) : releaseCount pages n = .ok (n - pages.length) := by
  induction pages generalizing n with
  | nil => simp [releaseCount]; rfl
  | cons p pages rest =>
    rw [List.length_cons] at enough
    rw [releaseCount, if_neg (not_not.mpr (zero p (by simp))), if_neg (by omega),
      rest (fun q mem => zero q (by simp [mem])) (by omega), List.length_cons]
    congr 1
    push_cast
    omega

/-- The state after `o` is deleted. -/
def deleted (s : Mm) (o : ObjId) : Mm :=
  { s with
    npages := update s.npages o (s.npages o - (s.pageCache o).length)
    pageCache := update s.pageCache o []
    objects := s.objects.erase o
    objectsTotal := s.objectsTotal - 1
    files := if isShadow s o then s.files else s.files.erase o
    filesTotal := if isShadow s o then s.filesTotal else s.filesTotal - 1 }

/-- An object that nothing refers to is deleted without a `BUG`. -/
theorem vmObjectDelete_eq {s : Mm} {o : ObjId} (globals : Globals s) (live : o ∈ s.objects)
    (zero : ∀ p ∈ s.pageCache o, p.refcnt = 0) (enough : (s.pageCache o).length ≤ s.npages o)
    (nlinks : s.nlinks o = 0) (shadows : s.shadows o = 0) (links : s.linkList o = []) (shdw : s.shdwList o = [])
    (shref : s.shref o = none) : vmObjectDelete s o = .ok (deleted s o) := by
  have total : ¬ s.objectsTotal - 1 < 0 := by
    have := globals.objectsTotal
    have := List.length_pos_of_mem live
    omega
  rw [vmObjectDelete, releasePages, releaseCount_ok zero enough]
  cases kind : s.kind o with
  | shadow =>
    have shadow : isShadow s o = true := by simp [isShadow, kind, Kind.isShadow]
    simp only [bind, Except.bind, pure, Except.pure, kind, globalRemoveVmObject, if_neg (not_not.mpr live),
      if_neg total]
    rw [if_neg (by simp [referenced, nlinks, shadows, links, shdw, shref])]
    simp [deleted, shadow]
  | file type openers length =>
    have file : isShadow s o = false := by simp [isShadow, kind, Kind.isShadow]
    have listed : o ∈ s.files := (globals.fileObjects o).mpr ⟨live, file⟩
    have totalFiles : ¬ s.filesTotal - 1 < 0 := by
      have := globals.filesTotal
      have := List.length_pos_of_mem listed
      omega
    simp only [bind, Except.bind, pure, Except.pure, kind, globalRemoveVmFile, globalRemoveVmObject,
      if_neg (not_not.mpr live), if_neg (not_not.mpr listed), if_neg total, if_neg totalFiles]
    rw [if_neg (by simp [referenced, nlinks, shadows, links, shdw, shref])]
    simp [deleted, file]

end Codezero.Mm0
