import Codezero.Mm0.Integrity

/-!
# Releasing one vma

Taking down the stack of one vma leaves what the other vmas see alone. A shadow that hangs on an object's list
without standing in any stack would be in the way.
-/

namespace Codezero.Mm0
open Codezero.Lib
open Codezero.Lib.Stack (Over)

theorem release_frame {s : Mm} {t : TaskId} {task : Task} {v : VmaId} (sound : Sound s) (is : s.task t = some task)
    (mapped : s.chain v ≠ []) :
    ∃ s', releaseVma t s v = .ok s' ∧ Sound s' ∧ s'.chain v = [] ∧
      s'.task t = some { task with vmas := task.vmas.erase v } ∧ s'.mem = s.mem ∧
      (∀ w, w ≠ v → ∀ off, chainYields s' w off = chainYields s w off) ∧
      ∀ o ∈ s.objects, o ∉ s'.objects ↔ Linked s o ∧ ¬ Linked s' o ∧ spared s o = false := by
  obtain ⟨s1, ran, emptied⟩ := sound.dropMergeDeleteAll mapped
  obtain ⟨trimmed, gone⟩ := emptied.trimmed sound
  have is1 : s1.task t = some task := by
    rw [trimmed.reshaped]
    exact is
  refine ⟨setVmas s1 t (task.vmas.erase v), ?_, setVmas_beside.sound trimmed.sound, gone, setVmas_task is1, ?_,
    trimmed.keeps, trimmed.deletes⟩
  · simp [releaseVma, is, ran, bind, Except.bind, pure, Except.pure]
  · show s1.mem = s.mem
    rw [trimmed.reshaped]

/-- The parent's vma goes while the child has a writable shadow over the shared one. -/
theorem release_frame_parent : ∃ s s', machine.Reaches bootState s ∧ s.chain 10 = [1, 0] ∧ s.chain 20 = [2, 1, 0] ∧
    releaseVma 1 s 10 = .ok s' ∧ chainYields s' 20 0 = chainYields s 20 0 := by
  have run : (machine.runUnder CarefulEvent ([.mmap 1 (anonymous 4 10 11)] ++ touch 1 0x110 ⟨1, 1, 2⟩ ++
      touch 1 0x111 ⟨3, 3, 4⟩ ++ [.fork 1 2 [20], .fault 2 0x110 false ⟨2, 5, 6⟩]) bootState).map
      (fun s => (s.chain 10, s.chain 20, (s.task 1).isSome)) = some ([1, 0], [2, 1, 0], true) := by decide +kernel
  obtain ⟨s, ran, facts⟩ := Option.map_eq_some_iff.mp run
  simp only [Prod.mk.injEq] at facts
  obtain ⟨task, is⟩ := Option.isSome_iff_exists.mp facts.2.2
  have reached := machine.reachesUnder_of_runUnder ran
  have sound := (intact_of_reaches bootState_booted reached).layered.sound
  obtain ⟨s', released, -, -, -, -, keeps, -⟩ := release_frame (v := 10) sound is (by simp [facts.1])
  exact ⟨s, s', reached.mono (fun _ _ _ => trivial), facts.1, facts.2.1, released, keeps 20 (by decide) 0⟩

/-- A file mapped once, and a shadow of it without any link. -/
def orphaned : Mm :=
  { bootState with
    nlinks := fun o => if o = 1 then 1 else 0
    linkList := fun o => if o = 1 then [10] else []
    shadows := fun o => if o = 1 then 1 else 0
    shdwList := fun o => if o = 1 then [2] else []
    shref := fun o => if o = 2 then some 1 else none
    origObj := fun o => if o = 2 then some 1 else none
    kind := fun o => if o = 2 then .shadow else .file .vfs 1 0x1000
    objects := [1, 2], objectsTotal := 2, files := [1]
    chain := fun v => if v = 10 then [1] else []
    task := fun t => if t = 1 then
      some { vmas := [10], startAddr := 0x100000, endAddr := 0x200000, mapStart := 0x110000, mapEnd := 0x200000 } else none }

theorem orphaned_wellFormed : WellFormed orphaned := by
  have chain : ∀ v, orphaned.chain v = if v = 10 then [1] else [] := fun _ => rfl
  have none : ∀ v a b, ¬ Over (orphaned.chain v) a b := fun v a b => by
    rw [chain]
    split
    · exact Stack.not_over_single
    · exact Stack.not_over_nil
  refine ⟨⟨?_, ?_, ?_⟩, ⟨?_, ?_, ?_, ?_⟩, ⟨fun v a b on => absurd on (none v a b), fun v a b on => absurd on (none v a b), ?_⟩,
    ⟨by decide, rfl, by decide, rfl, ?_⟩, fun _ _ => List.nodup_nil⟩
  · intro v o mem
    rw [chain] at mem
    split at mem <;> simp_all [orphaned]
  · intro o live v
    rw [chain]
    by_cases here : v = 10 <;> rcases (show o = 1 ∨ o = 2 by simpa [orphaned] using live) with rfl | rfl <;>
      simp [orphaned, here, eq_comm]
  · intro o live
    rcases (show o = 1 ∨ o = 2 by simpa [orphaned] using live) with rfl | rfl <;> rfl
  · intro b live a mem
    rcases (show b = 1 ∨ b = 2 by simpa [orphaned] using live) with rfl | rfl <;> simp_all [orphaned]
  · intro a live b hangs
    rcases (show a = 1 ∨ a = 2 by simpa [orphaned] using live) with rfl | rfl <;> simp_all [orphaned, eq_comm]
  · intro b live
    rcases (show b = 1 ∨ b = 2 by simpa [orphaned] using live) with rfl | rfl <;> decide
  · intro b live
    rcases (show b = 1 ∨ b = 2 by simpa [orphaned] using live) with rfl | rfl <;> rfl
  · intro v o bottom
    rw [chain] at bottom
    split at bottom
    · have : o = 1 := by simpa using bottom.symm
      rw [this]
      rfl
    · simp at bottom
  · intro o
    by_cases first : o = 1
    · subst first
      decide
    · by_cases second : o = 2 <;> simp [orphaned, first, second, isShadow, Kind.isShadow]

theorem release_orphaned : WellFormed orphaned ∧ releaseVma 1 orphaned 10 = .error .isDeletable :=
  ⟨orphaned_wellFormed, by rfl⟩

end Codezero.Mm0
