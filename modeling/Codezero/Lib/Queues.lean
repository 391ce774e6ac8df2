import Mathlib

/-!
# Families of intrusive queues

A family of counted queues whose members record the queue they stand in. `Wf` is the consistency of
the three views (the lists, the counters, the members' own records); inserting a member that stands
nowhere and removing one that stands in the queue keep it.
-/

namespace Codezero.Lib
open Function (update update_of_ne)

variable {ι α : Type}

/-- The queues of a family, with the counter each keeps and the home each member records. -/
structure Queues (ι α : Type) where
  list : ι → List α
  count : ι → Int
  home : α → Option ι

namespace Queues

structure Wf (p : Queues ι α) : Prop where
  count_eq : ∀ i, p.count i = (p.list i).length
  nodup : ∀ i, (p.list i).Nodup
  mem_iff : ∀ i a, a ∈ p.list i ↔ p.home a = some i

section
variable {p : Queues ι α} {i j : ι} {a : α}

theorem Wf.home_of_mem (wf : p.Wf) (mem : a ∈ p.list i) : p.home a = some i := (wf.mem_iff i a).mp mem

theorem Wf.not_mem (wf : p.Wf) (out : p.home a = none) : a ∉ p.list i := by
  intro mem
  rw [wf.home_of_mem mem] at out
  exact nomatch out

theorem Wf.count_nonneg (wf : p.Wf) : 0 ≤ p.count i := by
  rw [wf.count_eq]; exact Int.natCast_nonneg _

theorem Wf.count_pos_iff (wf : p.Wf) : 0 < p.count i ↔ p.list i ≠ [] := by
  rw [wf.count_eq, Int.natCast_pos, List.length_pos_iff]

end

variable [DecidableEq ι] [DecidableEq α]

def insert (front : Bool) (i : ι) (a : α) (p : Queues ι α) : Queues ι α where
  list := update p.list i (if front then a :: p.list i else p.list i ++ [a])
  count := update p.count i (p.count i + 1)
  home := update p.home a (some i)

def remove (i : ι) (a : α) (p : Queues ι α) : Queues ι α where
  list := update p.list i ((p.list i).erase a)
  count := update p.count i (p.count i - 1)
  home := update p.home a none

variable {p : Queues ι α} {i : ι} {a : α}

/-- Erasing a member from every list of a consistent family is erasing it from its home. -/
theorem Wf.erase_everywhere (wf : p.Wf) (at_home : p.home a = some i) :
    (fun j => (p.list j).erase a) = update p.list i ((p.list i).erase a) := by
  funext j
  by_cases same : j = i
  · subst same; simp
  · have absent : a ∉ p.list j := fun mem => same (by
      have := (wf.home_of_mem mem).symm.trans at_home
      exact Option.some.inj this)
    simp [update_of_ne same, List.erase_of_not_mem absent]

theorem Wf.insert (front : Bool) (wf : p.Wf) (out : p.home a = none) : (p.insert front i a).Wf where
  count_eq j := by
    by_cases same : j = i
    · subst same; cases front <;> simp [Queues.insert, wf.count_eq]
    · simp [Queues.insert, update_of_ne same, wf.count_eq]
  nodup j := by
    by_cases same : j = i
    · subst same
      have fresh := wf.not_mem (i := j) out
      cases front <;> simp [Queues.insert, List.nodup_append, wf.nodup, fresh]
      exact fun b mem eq => fresh (eq ▸ mem)
    · simp [Queues.insert, update_of_ne same, wf.nodup]
  mem_iff j b := by
    have fresh : ∀ k, a ∉ p.list k := fun k => wf.not_mem out
    have views := wf.mem_iff j b
    by_cases same : j = i <;> by_cases self : b = a
    · subst same self; cases front <;> simp [Queues.insert]
    · subst same
      cases front <;> simp [Queues.insert, self, views]
    · subst self
      have apart : i ≠ j := fun eq => same eq.symm
      simp [Queues.insert, update_of_ne same, fresh, apart]
    · simp [Queues.insert, update_of_ne same, update_of_ne self, views]

theorem Wf.remove (wf : p.Wf) (at_home : p.home a = some i) : (p.remove i a).Wf where
  count_eq j := by
    by_cases same : j = i
    · subst same
      have mem := (wf.mem_iff j a).mpr at_home
      have positive := List.length_pos_of_mem mem
      simp [Queues.remove, wf.count_eq, List.length_erase_of_mem mem]
      omega
    · simp [Queues.remove, update_of_ne same, wf.count_eq]
  nodup j := by
    by_cases same : j = i
    · subst same; simpa [Queues.remove] using (wf.nodup j).erase a
    · simp [Queues.remove, update_of_ne same, wf.nodup]
  mem_iff j b := by
    have views := wf.mem_iff j b
    by_cases same : j = i <;> by_cases self : b = a
    · subst same self
      simp [Queues.remove, (wf.nodup j).mem_erase_iff]
    · subst same
      simp [Queues.remove, (wf.nodup j).mem_erase_iff, self, views]
    · subst self
      have apart : i ≠ j := fun eq => same eq.symm
      simp [Queues.remove, update_of_ne same, views, at_home, apart]
    · simp [Queues.remove, update_of_ne same, update_of_ne self, views]

end Queues
end Codezero.Lib
