import Mathlib

/-!
# Insertion into the first gap that fits

A list is walked for two neighbours that an element lies between; where there are none, it goes next to the last. On a list in
order this is where the element belongs, unless it belongs to the very front.
-/

namespace Codezero.Lib

variable {α : Type} {key : α → Nat} {this : α} {l : List α}

def insertGap (key : α → Nat) (this : α) : List α → List α
  | [] => [this]
  | [before] => if key this > key before then [before, this] else [this, before]
  | before :: after :: rest =>
    if key before < key this ∧ key after > key this then before :: this :: after :: rest
    else before :: insertGap key this (after :: rest)

/-- The keys go up. -/
def Rising (key : α → Nat) (l : List α) : Prop := l.Pairwise (fun a b => key a < key b)

/-- The element does not belong in front of two or more. -/
def FitsBehind (key : α → Nat) (this : α) (l : List α) : Prop := ∀ first ∈ l.head?, l.length ≤ 1 ∨ key first < key this

instance (key : α → Nat) (this : α) (l : List α) : Decidable (FitsBehind key this l) :=
  match l with
  | [] => isTrue (fun _ none => nomatch none)
  | first :: rest => decidable_of_iff ((first :: rest).length ≤ 1 ∨ key first < key this)
      ⟨fun fits _ is => Option.some.inj is ▸ fits, fun fits => fits first rfl⟩

theorem insertGap_perm : (insertGap key this l).Perm (this :: l) := by
  fun_induction insertGap key this l with
  | case1 => exact .refl _
  | case2 before above => exact .swap ..
  | case3 before below => exact .refl _
  | case4 before after rest between => exact .swap ..
  | case5 before after rest between more => exact (more.cons before).trans (.swap ..)

/-- Behind an element with a lower key it goes into its place. -/
theorem rising_insertGap {first : α} (rising : Rising key (first :: l)) (new : ∀ a ∈ first :: l, key a ≠ key this)
    (behind : key first < key this) : Rising key (insertGap key this (first :: l)) := by
  induction l generalizing first with
  | nil =>
    rw [insertGap, if_pos behind]
    exact List.pairwise_pair.mpr behind
  | cons after rest more =>
    have ⟨lower, upper⟩ := List.pairwise_cons.mp rising
    rw [insertGap]
    by_cases between : key first < key this ∧ key after > key this
    · rw [if_pos between]
      refine List.pairwise_cons.mpr ⟨fun a mem => ?_, List.pairwise_cons.mpr ⟨fun a mem => ?_, upper⟩⟩
      · rcases List.mem_cons.mp mem with rfl | mem
        · exact behind
        · exact lower a mem
      · rcases List.mem_cons.mp mem with rfl | mem
        · exact between.2
        · exact Nat.lt_trans between.2 ((List.pairwise_cons.mp upper).1 a mem)
    · rw [if_neg between]
      have ne := new after (by simp)
      have below : key after < key this := by omega
      refine List.pairwise_cons.mpr ⟨fun a mem => ?_, more upper (fun a mem => new a (List.mem_cons_of_mem first mem)) below⟩
      rcases List.mem_cons.mp (insertGap_perm.mem_iff.mp mem) with rfl | mem
      · exact behind
      · exact lower a mem

/-- The order is kept exactly if the element does not belong in front of two or more. -/
theorem rising_insertGap_iff (rising : Rising key l) (new : ∀ a ∈ l, key a ≠ key this) :
    Rising key (insertGap key this l) ↔ FitsBehind key this l := by
  cases l with
  | nil => exact ⟨fun _ _ none => (nomatch none), fun _ => List.pairwise_singleton ..⟩
  | cons first rest =>
    constructor
    · rintro ordered _ ⟨⟩
      by_contra fails
      obtain ⟨long, above⟩ := not_or.mp fails
      cases rest with
      | nil => exact long (Nat.le_refl 1)
      | cons after rest =>
        rw [insertGap, if_neg (fun both => above both.1)] at ordered
        exact above ((List.pairwise_cons.mp ordered).1 this (insertGap_perm.mem_iff.mpr List.mem_cons_self))
    · intro fits
      by_cases behind : key first < key this
      · exact rising_insertGap rising new behind
      · have short := (fits first rfl).resolve_right behind
        have ne := new first List.mem_cons_self
        cases rest with
        | nil =>
          rw [insertGap, if_neg (by omega)]
          exact List.pairwise_pair.mpr (by omega)
        | cons after rest => simp at short

end Codezero.Lib
