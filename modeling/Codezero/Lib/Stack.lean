import Mathlib

/-!
# Stacks of layers

A stack is a list of layers, top first. Each layer has values for some keys, and a lookup takes the value of
the first layer that has one. `Over l a b` says that `a` stands directly over `b` somewhere in `l`.
-/

namespace Codezero.Lib.Stack

section Over
variable {ι : Type} {l l1 l2 : List ι} {a b x y : ι}

def Over : List ι → ι → ι → Prop
  | x :: y :: rest, a, b => (x = a ∧ y = b) ∨ Over (y :: rest) a b
  | _, _, _ => False

@[simp] theorem not_over_nil : ¬ Over ([] : List ι) a b := id

@[simp] theorem not_over_single : ¬ Over [x] a b := id

@[simp] theorem over_cons_cons : Over (x :: y :: l) a b ↔ (x = a ∧ y = b) ∨ Over (y :: l) a b := Iff.rfl

theorem Over.cons (on : Over l a b) : Over (x :: l) a b := by
  cases l with
  | nil => exact absurd on not_over_nil
  | cons y l => exact .inr on

/-- Neighbours in a list cut at an element stand on one side of the cut. -/
theorem over_append : Over (l1 ++ x :: l2) a b ↔ Over (l1 ++ [x]) a b ∨ Over (x :: l2) a b := by
  induction l1 with
  | nil => simp
  | cons y l1 rest =>
    cases l1 with
    | nil => simp
    | cons z l1 =>
      simp only [List.cons_append, over_cons_cons] at rest ⊢
      rw [rest, or_assoc]

theorem Over.split (on : Over l a b) : ∃ pre post, l = pre ++ a :: b :: post := by
  induction l with
  | nil => exact absurd on not_over_nil
  | cons x l rest =>
    cases l with
    | nil => exact absurd on not_over_single
    | cons y l =>
      rcases on with ⟨rfl, rfl⟩ | on
      · exact ⟨[], l, rfl⟩
      · obtain ⟨pre, post, eq⟩ := rest on
        exact ⟨x :: pre, post, by rw [eq, List.cons_append]⟩

theorem over_split (pre post : List ι) (a b : ι) : Over (pre ++ a :: b :: post) a b :=
  over_append.mpr (.inr (.inl ⟨rfl, rfl⟩))

theorem Over.mem_left (on : Over l a b) : a ∈ l := by
  obtain ⟨pre, post, rfl⟩ := on.split
  simp

theorem Over.mem_right (on : Over l a b) : b ∈ l := by
  obtain ⟨pre, post, rfl⟩ := on.split
  simp

/-- Whoever stands over someone is not at the bottom. -/
theorem Over.mem_init (on : Over (l ++ [x]) a b) : a ∈ l := by
  induction l with
  | nil => exact absurd on not_over_single
  | cons y l rest =>
    cases l with
    | nil =>
      rcases on with ⟨rfl, -⟩ | on
      · simp
      · exact absurd on not_over_single
    | cons z l =>
      rcases on with ⟨rfl, -⟩ | on
      · simp
      · exact List.mem_cons_of_mem y (rest on)

/-- Whoever is not at the bottom stands over someone. -/
theorem exists_over (mem : a ∈ l) (top : l.getLast? ≠ some a) : ∃ b, Over l a b := by
  induction l with
  | nil => exact absurd mem List.not_mem_nil
  | cons x l rest =>
    cases l with
    | nil =>
      have : a = x := by simpa using mem
      exact absurd (by simp [this]) top
    | cons y l =>
      rcases List.mem_cons.mp mem with rfl | mem
      · exact ⟨y, .inl ⟨rfl, rfl⟩⟩
      · obtain ⟨b, on⟩ := rest mem (by simpa using top)
        exact ⟨b, .inr on⟩

end Over

section Lookup
variable {ι κ α : Type} {layer layer' : ι → κ → Option α} {l pre post : List ι} {k : κ} {f r : ι}

def lookup (layer : ι → κ → Option α) (l : List ι) (k : κ) : Option α := l.findSome? (fun i => layer i k)

@[simp] theorem lookup_nil : lookup layer [] k = none := rfl

@[simp] theorem lookup_cons {i : ι} : lookup layer (i :: l) k = (layer i k).or (lookup layer l k) := by
  simp only [lookup, List.findSome?_cons]
  cases layer i k <;> rfl

@[simp] theorem lookup_append {l' : List ι} :
    lookup layer (l ++ l') k = (lookup layer l k).or (lookup layer l' k) := by
  induction l with
  | nil => simp
  | cons i l rest => simp [rest, Option.or_assoc]

theorem lookup_congr (same : ∀ i ∈ l, layer i k = layer' i k) : lookup layer l k = lookup layer' l k := by
  induction l with
  | nil => rfl
  | cons i l rest =>
    rw [lookup_cons, lookup_cons, same i (by simp), rest (fun j mem => same j (by simp [mem]))]

/-- A layer can be merged into the one over it. -/
theorem lookup_merge (front : layer' f k = (layer f k).or (layer r k))
    (same : ∀ i ∈ pre ++ post, layer' i k = layer i k) :
    lookup layer' (pre ++ f :: post) k = lookup layer (pre ++ f :: r :: post) k := by
  have before : lookup layer' pre k = lookup layer pre k :=
    lookup_congr (fun i mem => same i (by simp [mem]))
  have behind : lookup layer' post k = lookup layer post k :=
    lookup_congr (fun i mem => same i (by simp [mem]))
  simp [front, before, behind, Option.or_assoc]

end Lookup

end Codezero.Lib.Stack
