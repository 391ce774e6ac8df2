import Codezero.Lib.Gaps
import Codezero.Mm0.Held

/-!
# Vma lists as lists of page ranges

What mapping, unmapping and copying do to the ranges of a vma list, without the objects behind the vmas.
-/

namespace Codezero.Mm0.VmaList
open Codezero.Lib

/-- `pfn_start` and `pfn_end` of a vma. -/
abbrev Range := Nat × Nat

variable {this v : Range} {l : List Range} {start stop p : Nat}

def Covers (v : Range) (p : Nat) : Prop := v.1 ≤ p ∧ p < v.2

/-- Some vma of the list has the page. -/
def Mapped (l : List Range) (p : Nat) : Prop := ∃ v ∈ l, Covers v p

def Apart (v w : Range) : Prop := v.2 ≤ w.1 ∨ w.2 ≤ v.1

instance (v w : Range) : Decidable (Apart v w) := inferInstanceAs (Decidable (_ ∨ _))

theorem Apart.symm {v w : Range} (apart : Apart v w) : Apart w v := Or.symm apart

/-- `task_insert_vma`. -/
def taskInsertVma (this : Range) : List Range → Except Bug (List Range)
  | [] => pure [this]
  | [before] =>
    if setIntersection this.1 this.2 before.1 before.2 then throw .insertVma
    else if this.1 > before.1 then pure [before, this]
    else if this.1 < before.1 then pure [this, before]
    else throw .insertVma
  | before :: after :: rest =>
    if before.1 < this.1 ∧ after.1 > this.1 then
      if setIntersection this.1 this.2 before.1 before.2 then throw .insertVma
      else if setIntersection this.1 this.2 after.1 after.2 then throw .insertVma
      else pure (before :: this :: after :: rest)
    else do
      let rest ← taskInsertVma this (after :: rest)
      pure (before :: rest)

/-- What `vma_unmap` leaves of a vma: the part behind the hole is put before the part in front of it. -/
def vmaUnmap (start stop : Nat) (v : Range) : List Range :=
  if !setIntersection start stop v.1 v.2 then [v]
  else if v.1 < start ∧ v.2 > stop then [(stop, v.2), (v.1, start)]
  else if v.1 < start then [(v.1, start)]
  else if v.2 > stop then [(stop, v.2)]
  else []

/-- `do_munmap`. -/
def doMunmap (start stop : Nat) (l : List Range) : List Range := l.flatMap (vmaUnmap start stop)

/-! ## Lists in order -/

/-- No vma is empty and no two have a page in common. -/
structure Orderly (l : List Range) : Prop where
  nonempty : ∀ v ∈ l, v.1 < v.2
  apart : l.Pairwise Apart

theorem orderly_nil : Orderly [] := ⟨fun _ none => (nomatch none), .nil⟩

/-- A vma that meets none of the list is inserted at the first gap that fits. -/
theorem taskInsertVma_eq (filled : this.1 < this.2) (nonempty : ∀ v ∈ l, v.1 < v.2) (apart : ∀ v ∈ l, Apart this v) :
    taskInsertVma this l = .ok (insertGap Prod.fst this l) := by
  have away : ∀ v ∈ l, setIntersection this.1 this.2 v.1 v.2 = false := fun v mem => setIntersection_eq_false.mpr (apart v mem)
  fun_induction taskInsertVma this l with
  | case1 => rfl
  | case2 before meets => exact absurd meets (by rw [away before (by simp)]; decide)
  | case3 before _ above => rw [insertGap, if_pos above]; rfl
  | case4 before _ above below => rw [insertGap, if_neg above]; rfl
  | case5 before _ above below =>
    -- two vmas that are not empty and begin at one page would meet
    have split : this.2 ≤ before.1 ∨ before.2 ≤ this.1 := apart before (by simp)
    have full := nonempty before (by simp)
    omega
  | case6 before after rest between meets => exact absurd meets (by rw [away before (by simp)]; decide)
  | case7 before after rest between _ meets => exact absurd meets (by rw [away after (by simp)]; decide)
  | case8 before after rest between => rw [insertGap, if_pos between]; rfl
  | case9 before after rest between more =>
    have deeper := more (fun v mem => nonempty v (.tail _ mem)) (fun v mem => apart v (.tail _ mem)) (fun v mem => away v (.tail _ mem))
    rw [deeper, insertGap, if_neg between]
    rfl

theorem Orderly.perm {l' : List Range} (orderly : Orderly l) (perm : l'.Perm l) : Orderly l' where
  nonempty := fun v mem => orderly.nonempty v (perm.mem_iff.mp mem)
  apart := (perm.pairwise_iff Apart.symm).mpr orderly.apart

/-! ## Unmapping -/

theorem mem_vmaUnmap {w : Range} (hole : start < stop) (filled : v.1 < v.2) (mem : w ∈ vmaUnmap start stop v) :
    w.1 < w.2 ∧ v.1 ≤ w.1 ∧ w.2 ≤ v.2 := by
  unfold vmaUnmap setIntersection at mem
  split_ifs at mem <;> simp_all <;> grind

theorem vmaUnmap_apart (hole : start < stop) : (vmaUnmap start stop v).Pairwise Apart := by
  unfold vmaUnmap
  split_ifs <;> simp [Apart]
  omega

theorem covers_vmaUnmap (hole : start < stop) :
    (∃ w ∈ vmaUnmap start stop v, Covers w p) ↔ Covers v p ∧ ¬ (start ≤ p ∧ p < stop) := by
  by_cases clear : stop ≤ v.1 ∨ v.2 ≤ start
  · rw [vmaUnmap, setIntersection_eq_false.mpr clear]
    simp only [Bool.not_false, if_true, List.mem_singleton, exists_eq_left, Covers]
    omega
  · rw [vmaUnmap, Bool.eq_true_of_not_eq_false (mt setIntersection_eq_false.mp clear)]
    simp only [Bool.not_true, Bool.false_eq_true, if_false]
    split_ifs <;> simp only [List.mem_cons, List.not_mem_nil, or_false, exists_eq_or_imp, exists_eq_left, false_and,
      exists_false, false_iff, Covers] <;> omega

theorem mapped_doMunmap (hole : start < stop) :
    Mapped (doMunmap start stop l) p ↔ Mapped l p ∧ ¬ (start ≤ p ∧ p < stop) := by
  simp only [Mapped, doMunmap, List.mem_flatMap]
  constructor
  · rintro ⟨w, ⟨v, mem, part⟩, covers⟩
    obtain ⟨whole, outside⟩ := (covers_vmaUnmap hole).mp ⟨w, part, covers⟩
    exact ⟨⟨v, mem, whole⟩, outside⟩
  · rintro ⟨⟨v, mem, covers⟩, outside⟩
    obtain ⟨w, part, left⟩ := (covers_vmaUnmap hole).mpr ⟨covers, outside⟩
    exact ⟨w, ⟨v, mem, part⟩, left⟩

theorem Orderly.doMunmap (orderly : Orderly l) (hole : start < stop) : Orderly (doMunmap start stop l) where
  nonempty := fun w mem => by
    obtain ⟨v, whole, part⟩ := List.mem_flatMap.mp mem
    exact (mem_vmaUnmap hole (orderly.nonempty v whole) part).1
  apart := by
    refine List.pairwise_flatMap.mpr ⟨fun v _ => vmaUnmap_apart hole, ?_⟩
    refine orderly.apart.imp_of_mem fun {a b} left right apart x partA y partB => ?_
    have boundsA := mem_vmaUnmap hole (orderly.nonempty a left) partA
    have boundsB := mem_vmaUnmap hole (orderly.nonempty b right) partB
    have split : a.2 ≤ b.1 ∨ b.2 ≤ a.1 := apart
    show x.2 ≤ y.1 ∨ y.2 ≤ x.1
    omega

end Codezero.Mm0.VmaList
