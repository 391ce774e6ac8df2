import Codezero.Lib.Gaps
import Codezero.Lib.Machine
import Codezero.Mm0.Pages
import Codezero.Mm0.VmaList

/-!
# The order of page caches and vma lists

Both lists are meant to be in order, and both are walked for a gap. What is below all of two or more goes in front of the last
of them, and the two parts of a vma that is split are put the wrong way round.
-/

namespace Codezero.Mm0.Ordered
open Codezero.Lib
open Codezero.Mm0.VmaList (Range Apart Orderly mem_vmaUnmap)

/-! ## Insertion -/

section Insertion
variable {page : Page} {pages : List Page} {this v : Range} {l l' : List Range} {start stop : Nat}

/-- Vmas that are not empty and have no page in common do not begin at one page. -/
theorem start_ne (filled : this.1 < this.2) (full : v.1 < v.2) (apart : Apart this v) : v.1 ≠ this.1 := by
  have split : this.2 ≤ v.1 ∨ v.2 ≤ this.1 := apart
  omega

/-- The vmas go up by `pfn_start`. -/
abbrev Sorted (l : List Range) : Prop := Rising Prod.fst l

/-- A later vma of a sorted list is behind. -/
theorem behind_of_sorted {a b : Range} (apart : Apart a b) (full : a.1 < a.2 ∧ b.1 < b.2) (before : a.1 < b.1) : a.2 ≤ b.1 := by
  have split : a.2 ≤ b.1 ∨ b.2 ≤ a.1 := apart
  omega

/-- No vma goes on at both ends of the range. -/
def Unsplit (start stop : Nat) (l : List Range) : Prop := ∀ v ∈ l, ¬ (v.1 < start ∧ stop < v.2)

theorem vmaUnmap_sorted_iff (hole : start < stop) : Sorted (VmaList.vmaUnmap start stop v) ↔ ¬ (v.1 < start ∧ stop < v.2) := by
  by_cases split : v.1 < start ∧ stop < v.2
  · have meets : setIntersection start stop v.1 v.2 = true :=
      Bool.eq_true_of_not_eq_false (mt setIntersection_eq_false.mp (by omega))
    rw [VmaList.vmaUnmap, meets, if_neg (by decide), if_pos split]
    refine ⟨fun sorted => ?_, fun not => absurd split not⟩
    have : stop < v.1 := (List.pairwise_cons.mp sorted).1 (v.1, start) List.mem_cons_self
    omega
  · refine ⟨fun _ => split, fun _ => ?_⟩
    unfold VmaList.vmaUnmap
    split
    · exact List.pairwise_singleton ..
    split
    · exact List.pairwise_singleton ..
    split
    · exact List.pairwise_singleton ..
    · exact .nil

/-- The order survives an unmap exactly if no vma is split. -/
theorem doMunmap_sorted_iff (orderly : Orderly l) (sorted : Sorted l) (hole : start < stop) :
    Sorted (VmaList.doMunmap start stop l) ↔ Unsplit start stop l := by
  have across : l.Pairwise (fun a b => ∀ x ∈ VmaList.vmaUnmap start stop a, ∀ y ∈ VmaList.vmaUnmap start stop b, x.1 < y.1) := by
    refine (orderly.apart.and sorted).imp_of_mem fun {a b} mema memb both x partA y partB => ?_
    obtain ⟨filledA, -, upto⟩ := mem_vmaUnmap hole (orderly.nonempty a mema) partA
    obtain ⟨-, onward, -⟩ := mem_vmaUnmap hole (orderly.nonempty b memb) partB
    have behind := behind_of_sorted both.1 ⟨orderly.nonempty a mema, orderly.nonempty b memb⟩ both.2
    omega
  constructor
  · exact fun whole v mem => (vmaUnmap_sorted_iff hole).mp ((List.pairwise_flatMap.mp whole).1 v mem)
  · exact fun unsplit => List.pairwise_flatMap.mpr ⟨fun v mem => (vmaUnmap_sorted_iff hole).mpr (unsplit v mem), across⟩

theorem insert_page_sorted_iff (rising : Rising Page.offset pages) (free : ∀ p ∈ pages, p.offset ≠ page.offset) :
    (∃ pages', insertPageOlist page pages = .ok pages' ∧ Rising Page.offset pages' ∧ pages'.Perm (page :: pages)) ↔
      FitsBehind Page.offset page pages := by
  rw [← rising_insertGap_iff rising free, insertPageOlist_eq free]
  constructor
  · rintro ⟨_, ⟨⟩, ordered, -⟩
    exact ordered
  · exact fun ordered => ⟨_, rfl, ordered, insertGap_perm⟩

theorem insert_vma_sorted_iff (orderly : Orderly l) (sorted : Sorted l) (filled : this.1 < this.2) (apart : ∀ v ∈ l, Apart this v) :
    (∃ l', VmaList.taskInsertVma this l = .ok l' ∧ Sorted l' ∧ l'.Perm (this :: l)) ↔ FitsBehind Prod.fst this l := by
  have new : ∀ v ∈ l, v.1 ≠ this.1 := fun v mem => start_ne filled (orderly.nonempty v mem) (apart v mem)
  rw [← rising_insertGap_iff sorted new, VmaList.taskInsertVma_eq filled orderly.nonempty apart]
  constructor
  · rintro ⟨_, ⟨⟩, ordered, -⟩
    exact ordered
  · exact fun ordered => ⟨_, rfl, ordered, insertGap_perm⟩

end Insertion

/-! ## Runs -/

/-- Faults on the pages of an object, each of a page that its cache does not have. -/
def faults : Machine (List Page) Page Bug where
  enabled pages page := ∀ p ∈ pages, p.offset ≠ page.offset
  step pages page := insertPageOlist page pages

instance (pages : List Page) (page : Page) : Decidable (faults.enabled pages page) :=
  inferInstanceAs (Decidable (∀ p ∈ pages, p.offset ≠ page.offset))

inductive MapCall
  | mmap (start stop : Nat)
  | munmap (start stop : Nat)

/-- `do_mmap`, once it has an address, and `do_munmap`, on the vmas of a task. -/
def mapCalls : Machine (List Range) MapCall Bug where
  enabled _
    | .mmap start stop => start < stop
    | .munmap start stop => start < stop
  step l
    | .mmap start stop => VmaList.taskInsertVma (start, stop) (VmaList.doMunmap start stop l)
    | .munmap start stop => pure (VmaList.doMunmap start stop l)

/-- No vma is split, and none is inserted in front of two or more. -/
def InOrder (l : List Range) : MapCall → Prop
  | .mmap start stop => Unsplit start stop l ∧ FitsBehind Prod.fst (start, stop) (VmaList.doMunmap start stop l)
  | .munmap start stop => Unsplit start stop l

section Runs
variable {pages pages' : List Page} {l l' : List Range}

theorem doMunmap_apart {start stop : Nat} (hole : start < stop) (orderly : Orderly l) :
    ∀ v ∈ VmaList.doMunmap start stop l, Apart (start, stop) v := fun v mem => by
  have filled := (orderly.doMunmap hole).nonempty v mem
  have clear : ∀ p, v.1 ≤ p → p < v.2 → ¬ (start ≤ p ∧ p < stop) := fun p low high =>
    ((VmaList.mapped_doMunmap hole).mp ⟨v, mem, low, high⟩).2
  have atStart := clear v.1 (Nat.le_refl _) filled
  have atHole := clear start
  show stop ≤ v.1 ∨ v.2 ≤ start
  omega

theorem faults_rising (rising : Rising Page.offset pages)
    (reached : faults.ReachesUnder (fun pages page => FitsBehind Page.offset page pages) pages pages') : Rising Page.offset pages' := by
  refine reached.invariant (fun s page t rising able fits stepped => ?_) rising
  obtain ⟨_, ran, ordered, -⟩ := (insert_page_sorted_iff rising able).mpr fits
  cases stepped.symm.trans ran
  exact ordered

theorem mapCalls_sorted (orderly : Orderly l) (sorted : Sorted l) (reached : mapCalls.ReachesUnder InOrder l l') :
    Orderly l' ∧ Sorted l' := by
  refine reached.invariant (I := fun l => Orderly l ∧ Sorted l) (fun s call t inv able fits stepped => ?_) ⟨orderly, sorted⟩
  obtain ⟨orderly, sorted⟩ := inv
  cases call with
  | mmap start stop =>
    have hole : start < stop := able
    have left := orderly.doMunmap hole
    have apart := doMunmap_apart hole orderly
    obtain ⟨_, ran, ordered, perm⟩ :=
      (insert_vma_sorted_iff left ((doMunmap_sorted_iff orderly sorted hole).mpr fits.1) (show (start, stop).1 < _ from hole) apart).mpr fits.2
    cases stepped.symm.trans ran
    have whole : Orderly ((start, stop) :: VmaList.doMunmap start stop s) :=
      ⟨List.forall_mem_cons.mpr ⟨hole, left.nonempty⟩, List.pairwise_cons.mpr ⟨apart, left.apart⟩⟩
    exact ⟨whole.perm perm, ordered⟩
  | munmap start stop =>
    cases stepped
    exact ⟨orderly.doMunmap able, (doMunmap_sorted_iff orderly sorted able).mpr fits⟩

end Runs

/-- Insertion keeps the order exactly if nothing goes in front of two or more, and runs of such insertions and of unmaps that split
nothing keep it. -/
theorem insertion_ordered_iff (page : Page) (pages : List Page) (this : Range) (l : List Range) (start stop : Nat) :
    (Rising Page.offset pages → (∀ p ∈ pages, p.offset ≠ page.offset) →
      ((∃ pages', insertPageOlist page pages = .ok pages' ∧ Rising Page.offset pages' ∧ pages'.Perm (page :: pages)) ↔
        FitsBehind Page.offset page pages)) ∧
    (Orderly l → Sorted l → this.1 < this.2 → (∀ v ∈ l, Apart this v) →
      ((∃ l', VmaList.taskInsertVma this l = .ok l' ∧ Sorted l' ∧ l'.Perm (this :: l)) ↔ FitsBehind Prod.fst this l)) ∧
    (Orderly l → Sorted l → start < stop → (Sorted (VmaList.doMunmap start stop l) ↔ Unsplit start stop l)) ∧
    (faults.ReachesUnder (fun pages page => FitsBehind Page.offset page pages) [] pages → Rising Page.offset pages) ∧
    (mapCalls.ReachesUnder InOrder [] l → Sorted l) :=
  ⟨insert_page_sorted_iff, insert_vma_sorted_iff, doMunmap_sorted_iff, faults_rising .nil,
    fun reached => (mapCalls_sorted VmaList.orderly_nil .nil reached).2⟩

/-- Three pages, the last of them between the others, and three vmas, the last of them in place of another. -/
theorem insertion_ordered_between : (∃ pages', insertPageOlist ⟨1, 0, 3, 0, false⟩ [⟨0, 0, 2, 0, false⟩, ⟨2, 0, 4, 0, false⟩] = .ok pages' ∧
      Rising Page.offset pages' ∧ pages'.Perm [⟨1, 0, 3, 0, false⟩, ⟨0, 0, 2, 0, false⟩, ⟨2, 0, 4, 0, false⟩]) ∧
    Sorted (VmaList.doMunmap 15 25 [(10, 20), (20, 30)]) := by
  obtain ⟨pages, -, unmap, -⟩ := insertion_ordered_iff ⟨1, 0, 3, 0, false⟩ [⟨0, 0, 2, 0, false⟩, ⟨2, 0, 4, 0, false⟩] (0, 1)
    [(10, 20), (20, 30)] 15 25
  refine ⟨(pages ?_ (by decide)).mpr (by decide), (unmap ⟨by decide, ?_⟩ ?_ (by decide)).mpr ?_⟩
  · exact List.pairwise_pair.mpr (by decide)
  · exact List.pairwise_pair.mpr (by decide)
  · exact List.pairwise_pair.mpr (by decide)
  · unfold Unsplit
    decide

/-- A page below two others goes between them, a vma below two others too, and the parts of a split vma change places. -/
theorem insertion_disordered :
    (faults.Reaches [] [⟨0, 0, 2, 0, false⟩, ⟨2, 0, 1, 0, false⟩, ⟨1, 0, 4, 0, false⟩]) ∧
    (mapCalls.Reaches [] [(10, 11), (1, 2), (20, 21)]) ∧ mapCalls.Reaches [] [(15, 20), (10, 12)] ∧
    ¬ Rising Page.offset [⟨0, 0, 2, 0, false⟩, ⟨2, 0, 1, 0, false⟩, ⟨1, 0, 4, 0, false⟩] ∧
    ¬ Sorted [(10, 11), (1, 2), (20, 21)] ∧ ¬ Sorted [(15, 20), (10, 12)] := by
  have front {a b : Nat} {rest : List Nat} (above : b ≤ a) : ¬ (a :: b :: rest).Pairwise (· < ·) := fun ordered =>
    absurd ((List.pairwise_cons.mp ordered).1 b List.mem_cons_self) (Nat.not_lt.mpr above)
  refine ⟨?_, ?_, ?_, fun rising => ?_, fun rising => ?_, fun rising => ?_⟩
  · have two : faults.Reaches [] [⟨0, 0, 2, 0, false⟩, ⟨1, 0, 4, 0, false⟩] :=
      .next (e := ⟨1, 0, 4, 0, false⟩) (.next (e := ⟨0, 0, 2, 0, false⟩) .start nofun trivial rfl) (by decide) trivial rfl
    exact .next (e := ⟨2, 0, 1, 0, false⟩) two (by decide) trivial rfl
  · have two : mapCalls.Reaches [] [(10, 11), (20, 21)] :=
      .next (e := .mmap 20 21) (.next (e := .mmap 10 11) .start (Nat.lt_succ_self 10) trivial rfl) (Nat.lt_succ_self 20) trivial rfl
    exact .next (e := .mmap 1 2) two (Nat.lt_succ_self 1) trivial rfl
  · have one : mapCalls.Reaches [] [(10, 20)] := .next (e := .mmap 10 20) .start (show 10 < 20 by decide) trivial rfl
    exact .next (e := .munmap 12 15) one (show 12 < 15 by decide) trivial rfl
  · exact front (by decide : 1 ≤ 2) (List.pairwise_map.mpr rising)
  · exact front (by decide : 1 ≤ 10) (List.pairwise_map.mpr rising)
  · exact front (by decide : 10 ≤ 15) (List.pairwise_map.mpr rising)

end Codezero.Mm0.Ordered
