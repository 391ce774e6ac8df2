import Mathlib

/-!
# Counting who holds what

Each of finitely many members holds at most one thing. The number of holders changes by one where one member changes
what it holds, and nowhere else.
-/

namespace Codezero.Lib
open Function (update update_eq_self update_idem)

variable {α β : Type}

/-- How many members hold `b`. -/
noncomputable def held (owner : α → Option β) (b : β) : Int := ({a | owner a = some b} : Set α).ncard

theorem held_nonneg (owner : α → Option β) (b : β) : 0 ≤ held owner b := Int.natCast_nonneg _

section
variable {owner : α → Option β} {a : α} {b : β} {v : Option β} [DecidableEq α]

theorem held_update_of_ne (before : owner a ≠ some b) (after : v ≠ some b) : held (update owner a v) b = held owner b := by
  have same : ({c | update owner a v c = some b} : Set α) = {c | owner c = some b} := by
    ext c
    by_cases self : c = a
    · subst self; simp [before, after]
    · simp [self]
  rw [held, same, held]

variable [Finite α]

omit [DecidableEq α] in
theorem held_eq_zero_iff : held owner b = 0 ↔ ∀ a, owner a ≠ some b := by
  rw [held, Int.natCast_eq_zero, Set.ncard_eq_zero (Set.toFinite _), Set.eq_empty_iff_forall_notMem]
  rfl

theorem held_gain (before : owner a ≠ some b) : held (update owner a (some b)) b = held owner b + 1 := by
  have more : ({c | update owner a (some b) c = some b} : Set α) = insert a {c | owner c = some b} := by
    ext c
    by_cases self : c = a
    · subst self; simp
    · simp [self]
  have fresh : a ∉ ({c | owner c = some b} : Set α) := before
  rw [held, more, Set.ncard_insert_of_notMem fresh (Set.toFinite _), held]
  push_cast
  rfl

theorem held_lose (before : owner a = some b) (after : v ≠ some b) : held (update owner a v) b = held owner b - 1 := by
  have back : update (update owner a v) a (some b) = owner := by
    rw [update_idem, ← before, update_eq_self]
  have gain := held_gain (show update owner a v a ≠ some b by simpa using after)
  rw [back] at gain
  omega

end

end Codezero.Lib
