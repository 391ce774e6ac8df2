import Mathlib

/-!
# Tallies of wake-ups owed

A releaser owes a number of wake-ups to arrivals. Arrivals that came early wait; a releaser that finds too
few of them stays until the rest have come. What is released and what is still owed always add up to what
the releasers brought.
-/

namespace Codezero.Lib

variable {α : Type}

/-- The wake-ups still owed, the releaser that stays for them, and the arrivals that wait, oldest first. -/
structure Tally (α : Type) where
  owed : Nat := 0
  holder : Option α := none
  waiting : List α := []
  deriving DecidableEq, Repr

namespace Tally

/-- Who is held up at the tally. -/
def Has (d : Tally α) (t : α) : Prop := t ∈ d.waiting ∨ d.holder = some t

structure Wf (d : Tally α) : Prop where
  stays : 0 < d.owed ↔ d.holder.isSome
  apart : 0 < d.owed → d.waiting = []

/-- An arrival takes a wake-up that is owed, or waits. -/
def arrive (t : α) (d : Tally α) : Tally α :=
  if 0 < d.owed then { d with owed := d.owed - 1, holder := if d.owed = 1 then none else d.holder }
  else { d with waiting := d.waiting ++ [t] }

/-- The arrivals a releaser with `c` wake-ups lets go. -/
def freed (c : Nat) (d : Tally α) : List α := d.waiting.take (d.owed + c)

/-- A releaser brings `c` wake-ups: it lets go whom it can, takes over from the one that stayed, and stays
itself if something is still owed. -/
def release (t : α) (c : Nat) (d : Tally α) : Tally α where
  owed := d.owed + c - d.waiting.length
  holder := if d.owed + c ≤ d.waiting.length then none else some t
  waiting := d.waiting.drop (d.owed + c)

/-- An arrival gives up. -/
def giveUp [DecidableEq α] (t : α) (d : Tally α) : Tally α := { d with waiting := d.waiting.erase t }

section
variable {d : Tally α} {t : α} {c : Nat}

theorem wf_empty : (({} : Tally α)).Wf := ⟨by simp, by simp⟩

theorem Wf.arrive (wf : d.Wf) : (d.arrive t).Wf := by
  unfold Tally.arrive
  split
  · next owes =>
    refine ⟨?_, fun _ => wf.apart owes⟩
    have stays := wf.stays.mp owes
    by_cases last : d.owed = 1
    · simp [last]
    · simp only [last, if_false, stays, iff_true]
      omega
  · next none =>
    have quiet : ¬ d.holder.isSome := fun stays => none (wf.stays.mpr stays)
    exact ⟨iff_of_false none quiet, fun owes => absurd owes none⟩

theorem Wf.release : (d.release t c).Wf := by
  unfold Tally.release
  by_cases enough : d.owed + c ≤ d.waiting.length
  · simp only [enough, if_true]
    exact ⟨by simp [Nat.sub_eq_zero_of_le enough], fun owes => absurd owes (by simp [Nat.sub_eq_zero_of_le enough])⟩
  · simp only [enough, if_false]
    refine ⟨?_, fun _ => List.drop_eq_nil_of_le (by omega)⟩
    simp only [Option.isSome_some, iff_true]
    omega

theorem Wf.giveUp [DecidableEq α] (wf : d.Wf) : (d.giveUp t).Wf :=
  ⟨wf.stays, fun owes => by simp [Tally.giveUp, wf.apart owes]⟩

/-- What an arrival takes is no longer owed. -/
theorem arrive_owed (owes : 0 < d.owed) : (d.arrive t).owed + 1 = d.owed := by
  simp only [arrive, owes, if_true]
  omega

theorem arrive_waits (none : d.owed = 0) : d.arrive t = { d with waiting := d.waiting ++ [t] } := by
  simp [arrive, none]

/-- What is freed and what stays owed add up to what was owed and what was brought. -/
theorem release_owed : (d.freed c).length + (d.release t c).owed = d.owed + c := by
  simp only [freed, release, List.length_take]
  omega

/-- Of distinct arrivals, a test for those that a release leaves waiting splits them in their order. -/
theorem release_filter {p : α → Bool} (nodup : d.waiting.Nodup)
    (test : ∀ u ∈ d.waiting, p u = true ↔ u ∈ (d.release t c).waiting) :
    d.waiting.filter p = (d.release t c).waiting ∧ d.waiting.filter (fun u => !p u) = d.freed c := by
  have split := List.take_append_drop (d.owed + c) d.waiting
  have early : ∀ u ∈ d.waiting.take (d.owed + c), p u = false := by
    intro u mem
    rw [Bool.eq_false_iff]
    intro passes
    have late : u ∈ d.waiting.drop (d.owed + c) := (test u (List.mem_of_mem_take mem)).mp passes
    rw [← split] at nodup
    exact (List.nodup_append.mp nodup).2.2 u mem u late rfl
  have late : ∀ u ∈ d.waiting.drop (d.owed + c), p u = true := fun u mem =>
    (test u (List.mem_of_mem_drop mem)).mpr mem
  constructor
  · conv_lhs => rw [← split]
    rw [List.filter_append, List.filter_eq_nil_iff.mpr (by simpa using early), List.filter_eq_self.mpr late]
    rfl
  · conv_lhs => rw [← split]
    rw [List.filter_append, List.filter_eq_self.mpr (by simpa using early),
      List.filter_eq_nil_iff.mpr (by simpa using late), List.append_nil]
    rfl

end
end Tally
end Codezero.Lib
