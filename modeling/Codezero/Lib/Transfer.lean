import Mathlib

/-!
# Moving values between addresses

Values are moved one after the other from the addresses `src 0`, `src 1`, … to `dst 0`, `dst 1`, …. As long as the
addresses written are different from each other and from those that are read, the result is as if all were moved at once.
-/

namespace Codezero.Lib

variable {α β : Type} {dst src : Nat → α} {n k : Nat} {m0 m : α → β}

/-- The first `n` addresses of `dst` have what those of `src` had in `m0`, and nothing else differs from `m0`. -/
structure Transfer (dst src : Nat → α) (n : Nat) (m0 m : α → β) : Prop where
  moved : ∀ i < n, m (dst i) = m0 (src i)
  frame : ∀ a, (∀ i < n, a ≠ dst i) → m a = m0 a

/-- The first `n` addresses of `dst` differ from each other and from those of `src`. -/
structure Separate (dst src : Nat → α) (n : Nat) : Prop where
  once : ∀ i < n, ∀ j < n, dst i = dst j → i = j
  apart : ∀ i < n, ∀ j < n, dst i ≠ src j

namespace Transfer

theorem zero : Transfer dst src 0 m m := ⟨fun _ none => absurd none (Nat.not_lt_zero _), fun _ _ => rfl⟩

/-- One more value. -/
theorem step [DecidableEq α] (moved : Transfer dst src k m0 m) (separate : Separate dst src n) (below : k < n) :
    Transfer dst src (k + 1) m0 (Function.update m (dst k) (m (src k))) where
  moved := fun i le => by
    by_cases last : i = k
    · rw [last, Function.update_self]
      exact moved.frame _ (fun j lt same => separate.apart j (by omega) k below same.symm)
    · have other : dst i ≠ dst k := fun same => last (separate.once i (by omega) k below same)
      rw [Function.update_of_ne other]
      exact moved.moved i (by omega)
  frame := fun a out => by
    rw [Function.update_of_ne (out k (Nat.lt_succ_self k))]
    exact moved.frame a (fun i lt => out i (by omega))

end Transfer
end Codezero.Lib
