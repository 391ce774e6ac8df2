import Mathlib

/-!
# Pre- and postconditions for computations that may stop

A computation in `Except ε` either returns a value or stops with an error. `Sat m Q E` says what
holds of the value and of the error, and the rules below follow the computation's own structure.
-/

namespace Codezero.Lib

variable {ε α β : Type}

/-- If `m` returns, its value meets `Q`; if it stops, its error meets `E`. -/
def Sat (m : Except ε α) (Q : α → Prop) (E : ε → Prop) : Prop :=
  match m with
  | .ok a => Q a
  | .error e => E e

@[simp] theorem sat_ok (a : α) (Q : α → Prop) (E : ε → Prop) : Sat (.ok a) Q E ↔ Q a := Iff.rfl

@[simp] theorem sat_error (e : ε) (Q : α → Prop) (E : ε → Prop) : Sat (.error e) Q E ↔ E e := Iff.rfl

@[simp] theorem sat_pure (a : α) (Q : α → Prop) (E : ε → Prop) : Sat (pure a) Q E ↔ Q a := Iff.rfl

@[simp] theorem sat_throw (e : ε) (Q : α → Prop) (E : ε → Prop) :
    Sat (throw e : Except ε α) Q E ↔ E e := Iff.rfl

variable {m : Except ε α} {f : α → Except ε β} {P Q : α → Prop} {E : ε → Prop} {a : α}

/-- Sequencing: the first part establishes what the second part needs. -/
theorem Sat.bind {Q : β → Prop}
    (first : Sat m P E) (next : ∀ a, P a → Sat (f a) Q E) : Sat (m >>= f) Q E := by
  cases m with
  | ok a => exact next a first
  | error e => exact first

/-- Sequencing when nothing is known of the first part's value beyond that it was returned. -/
theorem Sat.bind_eq {Q : β → Prop}
    (stops : ∀ e, m = .error e → E e) (next : ∀ a, m = .ok a → Sat (f a) Q E) : Sat (m >>= f) Q E := by
  cases m with
  | ok a => exact next a rfl
  | error e => exact stops e rfl

theorem Sat.mono
    (sat : Sat m P E) (imp : ∀ a, P a → Q a) : Sat m Q E := by
  cases m with
  | ok a => exact imp a sat
  | error e => exact sat

theorem Sat.weaken {F : ε → Prop}
    (sat : Sat m Q E) (imp : ∀ e, E e → F e) : Sat m Q F := by
  cases m with
  | ok a => exact sat
  | error e => exact imp e sat

theorem Sat.ok
    (sat : Sat m Q E) (returned : m = .ok a) : Q a := by
  subst returned; exact sat

theorem Sat.error {e : ε}
    (sat : Sat m Q E) (stopped : m = .error e) : E e := by
  subst stopped; exact sat

/-- A computation that cannot stop returns. -/
theorem Sat.exists_ok (sat : Sat m Q (fun _ => False)) : ∃ a, m = .ok a ∧ Q a := by
  cases m with
  | ok a => exact ⟨a, rfl, sat⟩
  | error e => exact sat.elim

/-- A loop over a list: the invariant speaks of the elements still to come. -/
theorem Sat.foldlM {f : α → β → Except ε α} {I : List β → α → Prop}
    (step : ∀ a b rest, I (b :: rest) a → Sat (f a b) (I rest) E) (l : List β) (a : α) (init : I l a) :
    Sat (l.foldlM f a) (I []) E := by
  induction l generalizing a with
  | nil => exact init
  | cons b rest next => exact (step a b rest init).bind (fun a' holds => next a' holds)

theorem ok_bind (a : α) (f : α → Except ε β) : (Except.ok a >>= f) = f a := rfl

/-- A sequence that returned went through a returned first part. -/
theorem bind_eq_ok {b : β} :
    (m >>= f) = .ok b ↔ ∃ a, m = .ok a ∧ f a = .ok b := by
  cases m with
  | ok a => exact ⟨fun h => ⟨a, rfl, h⟩, fun ⟨_, same, h⟩ => by cases same; exact h⟩
  | error e => exact ⟨fun h => (nomatch h), fun ⟨_, same, _⟩ => (nomatch same)⟩

theorem toOption_eq_some : m.toOption = some a ↔ m = .ok a := by
  cases m <;> simp [Except.toOption]

end Codezero.Lib
