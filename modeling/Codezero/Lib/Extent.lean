import Mathlib

/-!
# Lists in memory

A list is stored cell by cell at successive addresses, each of which is translated to a location. As long as the
translation keeps different addresses of a region apart, a list that was stored is read back, and lists elsewhere in
the region are not disturbed.
-/

namespace Codezero.Lib

variable {α β : Type} {loc : Nat → α} {m : α → β} {a b lo hi : Nat} {l l' : List β}

/-- The list `l` is written from address `a` on. -/
def storeList [DecidableEq α] (loc : Nat → α) : Nat → List β → (α → β) → α → β
  | _, [], m => m
  | a, x :: l, m => storeList loc (a + 1) l (Function.update m (loc a) x)

/-- The list `l` is in memory from address `a` on. -/
def ListAt (loc : Nat → α) (m : α → β) (a : Nat) (l : List β) : Prop := ∀ i x, l[i]? = some x → m (loc (a + i)) = x

/-- Different addresses from `lo` up to `hi` have different locations. -/
def Separates (loc : Nat → α) (lo hi : Nat) : Prop :=
  ∀ a b, lo ≤ a → a < hi → lo ≤ b → b < hi → loc a = loc b → a = b

theorem listAt_nil : ListAt loc m a [] := fun i x is => by simp at is

theorem listAt_cons {x : β} : ListAt loc m a (x :: l) ↔ m (loc a) = x ∧ ListAt loc m (a + 1) l := by
  constructor
  · intro holds
    refine ⟨holds 0 x rfl, fun i y is => ?_⟩
    rw [Nat.add_assoc, Nat.add_comm 1]
    exact holds (i + 1) y is
  · rintro ⟨first, rest⟩ i y is
    cases i with
    | zero => exact first.trans (Option.some.inj is)
    | succ i =>
      rw [Nat.add_comm i, ← Nat.add_assoc]
      exact rest i y is

theorem listAt_append : ListAt loc m a (l ++ l') ↔ ListAt loc m a l ∧ ListAt loc m (a + l.length) l' := by
  induction l generalizing a with
  | nil => simp [listAt_nil]
  | cons x l rest =>
    rw [List.cons_append, listAt_cons, listAt_cons, rest, and_assoc, List.length_cons, Nat.add_right_comm, Nat.add_assoc]

/-- Two lists of one length in the same place are the same. -/
theorem ListAt.unique (here : ListAt loc m a l) (there : ListAt loc m a l') (length : l.length = l'.length) : l = l' := by
  refine List.ext_getElem length (fun i lt lt' => ?_)
  exact (here i _ (List.getElem?_eq_getElem lt)).symm.trans (there i _ (List.getElem?_eq_getElem lt'))

theorem ListAt.congr {m' : α → β} (here : ListAt loc m a l) (same : ∀ i < l.length, m' (loc (a + i)) = m (loc (a + i))) :
    ListAt loc m' a l := fun i x is =>
  (same i (List.getElem?_eq_some_iff.mp is).1).trans (here i x is)

section Store
variable [DecidableEq α]

/-- Storing a list leaves the other addresses of the region alone. -/
theorem storeList_outside (apart : Separates loc lo hi) (low : lo ≤ a) (high : a + l.length ≤ hi) (low' : lo ≤ b) (high' : b < hi)
    (out : b < a ∨ a + l.length ≤ b) : storeList loc a l m (loc b) = m (loc b) := by
  induction l generalizing a m with
  | nil => rfl
  | cons x l rest =>
    rw [List.length_cons] at high out
    rw [storeList, rest (by omega) (by omega) (by omega)]
    refine Function.update_of_ne (fun same => ?_) _ _
    have := apart b a low' high' low (by omega) same
    omega

/-- A list that was stored is there. -/
theorem storeList_listAt (apart : Separates loc lo hi) (low : lo ≤ a) (high : a + l.length ≤ hi) : ListAt loc (storeList loc a l m) a l := by
  induction l generalizing a m with
  | nil => exact listAt_nil
  | cons x l rest =>
    rw [List.length_cons] at high
    rw [listAt_cons, storeList]
    refine ⟨?_, rest (by omega) (by omega)⟩
    rw [storeList_outside apart (by omega) (by omega) low (by omega) (by omega)]
    exact Function.update_self ..

/-- A list elsewhere stays. -/
theorem ListAt.store (here : ListAt loc m b l') (apart : Separates loc lo hi) (low : lo ≤ a) (high : a + l.length ≤ hi) (low' : lo ≤ b)
    (high' : b + l'.length ≤ hi) (out : b + l'.length ≤ a ∨ a + l.length ≤ b) : ListAt loc (storeList loc a l m) b l' :=
  here.congr (fun i lt => storeList_outside apart low high (by omega) (by omega) (by omega))

end Store

end Codezero.Lib
