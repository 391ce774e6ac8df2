import Codezero.Mm0.Layered

/-!
# The vmas of the tasks

Each vma is on the list of one task, and the vmas of a task cover disjoint ranges.
-/

namespace Codezero.Mm0
open Codezero.Lib
open Function (update update_of_ne update_self)

/-- The vmas on a task's list. -/
def vmasOf (s : Mm) (t : TaskId) : List VmaId := ((s.task t).map Task.vmas).getD []

/-- The ranges of two vmas do not meet. -/
def Vma.Apart (a b : Vma) : Prop := setIntersection a.pfnStart a.pfnEnd b.pfnStart b.pfnEnd = false

/-- The vma is private to its task. -/
def Vma.Personal (a : Vma) : Prop := a.flags.priv = true ∧ a.flags.shared = false

/-- How the vmas of one task are. -/
structure HeldBy (s : Mm) (t : TaskId) : Prop where
  mapped : ∀ v ∈ vmasOf s t, s.chain v ≠ []
  once : (vmasOf s t).Nodup
  apart : ∀ v ∈ vmasOf s t, ∀ w ∈ vmasOf s t, v ≠ w → (s.vma v).Apart (s.vma w)
  personal : ∀ v ∈ vmasOf s t, (s.vma v).Personal

structure Held (s : Mm) : Prop where
  each : ∀ t, HeldBy s t
  one : ∀ t t' v, v ∈ vmasOf s t → v ∈ vmasOf s t' → t = t'

/-- What the pager keeps between two calls of tasks with private mappings. -/
structure Intact (s : Mm) : Prop where
  layered : Layered s
  held : Held s

theorem setIntersection_eq_false {a b c d : Nat} : setIntersection a b c d = false ↔ b ≤ c ∨ d ≤ a := by
  simp only [setIntersection, Bool.or_eq_true, decide_eq_true_eq, ge_iff_le, Bool.not_eq_eq_eq_not,
    Bool.not_false]

theorem Vma.apart_iff {a b : Vma} : a.Apart b ↔ a.pfnEnd ≤ b.pfnStart ∨ b.pfnEnd ≤ a.pfnStart :=
  setIntersection_eq_false

theorem Vma.Apart.symm {a b : Vma} (apart : a.Apart b) : b.Apart a :=
  Vma.apart_iff.mpr (Or.symm (Vma.apart_iff.mp apart))

/-- A vma after some pages at its ends are gone. -/
structure Vma.Within (a b : Vma) : Prop where
  first : b.pfnStart ≤ a.pfnStart
  last : a.pfnEnd ≤ b.pfnEnd
  flags : a.flags = b.flags

theorem Vma.Within.refl {a : Vma} : a.Within a := ⟨Nat.le_refl _, Nat.le_refl _, rfl⟩

theorem Vma.Apart.within {a b a' b' : Vma} (apart : a.Apart b) (left : a'.Within a) (right : b'.Within b) :
    a'.Apart b' :=
  Vma.apart_iff.mpr ((Vma.apart_iff.mp apart).imp
    (fun before => left.last.trans (before.trans right.first)) (fun behind => right.last.trans (behind.trans left.first)))

section Lists
variable {s s' : Mm} {t t' : TaskId} {task : Task} {vmas : List VmaId} {v : VmaId}

theorem vmasOf_of_task (is : s.task t = some task) : vmasOf s t = task.vmas := by
  simp [vmasOf, is]

theorem vmasOf_none (is : s.task t = none) : vmasOf s t = [] := by
  simp [vmasOf, is]

theorem vmasOf_congr (same : s'.task t = s.task t) : vmasOf s' t = vmasOf s t := by
  rw [vmasOf, vmasOf, same]

theorem vmasOf_setVmas (is : s.task t = some task) : vmasOf (setVmas s t vmas) t = vmas := by
  simp [vmasOf, setVmas, is]

theorem vmasOf_setVmas_of_ne (ne : t' ≠ t) : vmasOf (setVmas s t vmas) t' = vmasOf s t' :=
  vmasOf_congr (update_of_ne ne ..)

theorem setVmas_task (is : s.task t = some task) : (setVmas s t vmas).task t = some { task with vmas := vmas } := by
  simp [setVmas, is]

theorem setVmas_beside : Beside s (setVmas s t vmas) := rfl

/-! ## Changes -/

theorem HeldBy.narrow (held : HeldBy s t) (sub : (vmasOf s' t).Sublist (vmasOf s t))
    (kept : ∀ v ∈ vmasOf s' t, (s'.vma v).Within (s.vma v) ∧ s'.chain v ≠ []) : HeldBy s' t := by
  refine ⟨fun v mem => (kept v mem).2, held.once.sublist sub, fun v memv w memw ne => ?_, fun v mem => ?_⟩
  · exact (held.apart v (sub.subset memv) w (sub.subset memw) ne).within (kept v memv).1 (kept w memw).1
  · rw [Vma.Personal, (kept v mem).1.flags]
    exact held.personal v (sub.subset mem)

theorem HeldBy.of_same (held : HeldBy s t) (list : vmasOf s' t = vmasOf s t)
    (kept : ∀ v ∈ vmasOf s t, s'.vma v = s.vma v ∧ s'.chain v ≠ []) : HeldBy s' t :=
  held.narrow (list ▸ List.Sublist.refl _) (fun v mem => by
    rw [list] at mem
    exact ⟨(kept v mem).1 ▸ .refl, (kept v mem).2⟩)

/-- A vma is put on the list in a range that is free. -/
theorem HeldBy.insert {new : VmaId} (held : HeldBy s t) (list : (vmasOf s' t).Perm (new :: vmasOf s t))
    (kept : ∀ v ∈ vmasOf s t, s'.vma v = s.vma v ∧ s'.chain v ≠ []) (unused : s.chain new = [])
    (mapped : s'.chain new ≠ []) (personal : (s'.vma new).Personal)
    (apart : ∀ v ∈ vmasOf s t, (s'.vma new).Apart (s.vma v)) : HeldBy s' t := by
  have mem : ∀ {v}, v ∈ vmasOf s' t → v = new ∨ v ∈ vmasOf s t := fun mem => List.mem_cons.mp (list.mem_iff.mp mem)
  constructor
  · intro v here
    rcases mem here with rfl | old
    · exact mapped
    · exact (kept v old).2
  · exact list.nodup_iff.mpr (List.nodup_cons.mpr ⟨fun old => held.mapped new old unused, held.once⟩)
  · intro v memv w memw ne
    rcases mem memv with rfl | oldv <;> rcases mem memw with rfl | oldw
    · exact absurd rfl ne
    · rw [(kept w oldw).1]
      exact apart w oldw
    · rw [(kept v oldv).1]
      exact (apart v oldv).symm
    · rw [(kept v oldv).1, (kept w oldw).1]
      exact held.apart v oldv w oldw ne
  · intro v here
    rcases mem here with rfl | old
    · exact personal
    · rw [(kept v old).1]
      exact held.personal v old

theorem Held.steady (held : Held s) (steady : Steady s s') : Held s' := by
  have list : ∀ t, vmasOf s' t = vmasOf s t := fun t => vmasOf_congr (by rw [steady.task])
  refine ⟨fun t => (held.each t).of_same (list t) (fun v mem => ⟨by rw [steady.vma], ?_⟩), fun t t' v mem mem' => ?_⟩
  · exact steady.mapped v ((held.each t).mapped v mem)
  · rw [list] at mem mem'
    exact held.one t t' v mem mem'

/-- What a call of task `t` leaves alone: the lists of the other tasks and the vmas on them. -/
structure Beyond (s s' : Mm) (t : TaskId) : Prop where
  lists : ∀ t', t' ≠ t → vmasOf s' t' = vmasOf s t'
  kept : ∀ t', t' ≠ t → ∀ v ∈ vmasOf s t', s'.vma v = s.vma v ∧ s'.chain v ≠ []

/-- A call of one task keeps all lists in order if it keeps this task's, and takes new vmas for it only from the
unused ones. -/
theorem Held.change (held : Held s) (beyond : Beyond s s' t) (own : HeldBy s' t)
    (mine : ∀ v ∈ vmasOf s' t, v ∈ vmasOf s t ∨ s.chain v = []) : Held s' := by
  have foreign : ∀ {t' v}, t' ≠ t → v ∈ vmasOf s' t → v ∉ vmasOf s t' := fun ne mem mem' => by
    rcases mine _ mem with old | unused
    · exact ne (held.one _ _ _ mem' old)
    · exact (held.each _).mapped _ mem' unused
  refine ⟨fun t' => ?_, fun t1 t2 v mem1 mem2 => ?_⟩
  · by_cases here : t' = t
    · rw [here]
      exact own
    · exact (held.each t').of_same (beyond.lists t' here) (beyond.kept t' here)
  · by_cases here1 : t1 = t <;> by_cases here2 : t2 = t
    · rw [here1, here2]
    · rw [here1] at mem1
      rw [beyond.lists t2 here2] at mem2
      exact absurd mem2 (foreign here2 mem1)
    · rw [here2] at mem2
      rw [beyond.lists t1 here1] at mem1
      exact absurd mem1 (foreign here1 mem2)
    · rw [beyond.lists t1 here1] at mem1
      rw [beyond.lists t2 here2] at mem2
      exact held.one t1 t2 v mem1 mem2

theorem Held.beyond (held : Held s) (list : ∀ t', t' ≠ t → vmasOf s' t' = vmasOf s t')
    (kept : ∀ v, v ∉ vmasOf s t → s.chain v ≠ [] → s'.vma v = s.vma v ∧ s'.chain v ≠ []) : Beyond s s' t :=
  ⟨list, fun t' ne v mem => kept v (fun own => ne (held.one t' t v mem own)) ((held.each t').mapped v mem)⟩

/-- The vma `new` is made, given the stack, and put on the list of `t`. -/
def Inserted (s s' : Mm) (t : TaskId) (new : VmaId) (vma : Vma) (stack : List ObjId) (list : List VmaId) : Prop :=
  s' = { s with
    linkList := s'.linkList, nlinks := s'.nlinks, chain := update s.chain new stack,
    vma := update s.vma new vma,
    task := update s.task t ((s.task t).map (fun task => { task with vmas := list })) }

namespace Inserted
variable {new : VmaId} {vma : Vma} {stack : List ObjId} {list : List VmaId}
variable (inserted : Inserted s s' t new vma stack list)
include inserted

theorem vmasOf_self (is : s.task t = some task) : vmasOf s' t = list := by
  rw [inserted]
  simp [vmasOf, is]

theorem vmasOf_of_ne (ne : t' ≠ t) : vmasOf s' t' = vmasOf s t' := by
  rw [inserted]
  exact vmasOf_congr (update_of_ne ne ..)

theorem vma_self : s'.vma new = vma := by
  rw [inserted]
  exact update_self ..

theorem vma_of_ne (ne : v ≠ new) : s'.vma v = s.vma v := by
  rw [inserted]
  exact update_of_ne ne ..

theorem chain_self : s'.chain new = stack := by
  rw [inserted]
  exact update_self ..

theorem chain_of_ne (ne : v ≠ new) : s'.chain v = s.chain v := by
  rw [inserted]
  exact update_of_ne ne ..

end Inserted

theorem Intact.insert {new : VmaId} {vma : Vma} {stack : List ObjId} {list : List VmaId} (intact : Intact s)
    (is : s.task t = some task) (unused : s.chain new = []) (personal : vma.Personal)
    (apart : ∀ v ∈ vmasOf s t, vma.Apart (s.vma v)) (nonempty : stack ≠ []) (fits : Fits s stack)
    (tops : ∀ o ∈ stack.tail, s.write o = false) (perm : list.Perm (new :: vmasOf s t)) :
    let s' := setVmas (vmaCopyLinks { s with vma := update s.vma new vma } new stack) t list
    Intact s' ∧ Inserted s s' t new vma stack list := by
  have layered : Layered { s with vma := update s.vma new vma } := intact.layered.beside rfl (fun _ h => h)
  obtain ⟨layered', attached⟩ := layered.copyLinks unused ⟨fits.live, fits.orig, fits.listed, fits.ends⟩ tops
  generalize vmaCopyLinks { s with vma := update s.vma new vma } new stack = s1 at layered' attached
  have inserted : Inserted s (setVmas s1 t list) t new vma stack list := by
    unfold Inserted setVmas
    rw [attached]
  have old : ∀ {v}, s.chain v ≠ [] → v ≠ new := fun mapped same => mapped (same ▸ unused)
  have beyond : Beyond s (setVmas s1 t list) t := intact.held.beyond (fun _ ne => inserted.vmasOf_of_ne ne)
    (fun v _ mapped => ⟨inserted.vma_of_ne (old mapped), by rwa [inserted.chain_of_ne (old mapped)]⟩)
  have own := inserted.vmasOf_self is
  have heldBy : HeldBy (setVmas s1 t list) t := by
    refine (intact.held.each t).insert (by rw [own]; exact perm) (fun v mem => ?_) unused ?_ ?_ ?_
    · have mapped := (intact.held.each t).mapped v mem
      exact ⟨inserted.vma_of_ne (old mapped), by rwa [inserted.chain_of_ne (old mapped)]⟩
    · rw [inserted.chain_self]
      exact nonempty
    · rw [inserted.vma_self]
      exact personal
    · rw [inserted.vma_self]
      exact apart
  refine ⟨⟨layered'.beside rfl (fun _ h => h), intact.held.change beyond heldBy (fun v mem => ?_)⟩, inserted⟩
  rw [own, perm.mem_iff] at mem
  rcases List.mem_cons.mp mem with rfl | old
  · exact .inr unused
  · exact .inl old

end Lists

/-! ## Faults -/

/-- What a handled fault does: a page is found, or copied for the task, and mapped. -/
inductive Handled (s : Mm) (t : TaskId) (v : VmaId) (pfn : Pfn) (fresh : Fresh) : Mm → Prop
  | read {s' : Mm} {p : Page}
      (walked : Walked s (s.chain v) (faultToFileOffset (s.vma v) pfn) fresh.paged s' p) :
      Handled s t v pfn fresh (l4Map s' t p.frame pfn .ro)
  | write {s' : Mm} {p : Page} (unread : (s.pte t pfn).isSome)
      (copied : CopiedOnWrite s v (faultToFileOffset (s.vma v) pfn) fresh s' p) :
      Handled s t v pfn fresh (l4Map s' t p.frame pfn .rw)

section Faults
variable {s : Mm} {t : TaskId} {pfn : Pfn} {prefetch : Bool} {fresh : Fresh}

/-- If this is a write fault, it is a careful one. -/
def CarefulFault (s : Mm) (t : TaskId) (pfn : Pfn) : Prop :=
  ∀ v ∈ findVma s (vmasOf s t) pfn, (s.pte t pfn).isSome → Careful s v (faultToFileOffset (s.vma v) pfn)

instance (s : Mm) (t : TaskId) (pfn : Pfn) : Decidable (CarefulFault s t pfn) := by
  unfold CarefulFault
  infer_instance

theorem findVma_some {vmas : List VmaId} {v : VmaId} (found : findVma s vmas pfn = some v) :
    v ∈ vmas ∧ (s.vma v).pfnStart ≤ pfn ∧ pfn < (s.vma v).pfnEnd := by
  obtain ⟨inside, -⟩ := List.find?_eq_some_iff_append.mp found
  exact ⟨List.mem_of_find?_eq_some found, by simpa using inside⟩

theorem pageReadFault_sat {v : VmaId} {off : Pfn} :
    Sat (pageReadFault s v off fresh) (fun r => Walked s (s.chain v) off fresh.paged r.1 r.2) Bug.elsewhere := by
  unfold pageReadFault
  split
  · exact trivial
  · exact walk_sat

theorem pageFaultHandler_sat (intact : Intact s) (dead : fresh.shadow ∉ s.objects) (careful : CarefulFault s t pfn) :
    Sat (pageFaultHandler s t pfn prefetch fresh)
      (fun s' => Intact s' ∧ ∃ v, findVma s (vmasOf s t) pfn = some v ∧ Handled s t v pfn fresh s') Bug.elsewhere := by
  unfold pageFaultHandler
  cases is : s.task t with
  | none => exact trivial
  | some task =>
    simp only
    cases found : findVma s task.vmas pfn with
    | none => exact trivial
    | some v =>
      rw [← vmasOf_of_task is] at found
      obtain ⟨personal, unshared⟩ := (intact.held.each t).personal v (findVma_some found).1
      -- The page table is outside the invariant.
      have finish : ∀ {s' : Mm} {p : Page} {access : Access}, Layered s' → Steady s s' →
          Intact (l4Map s' t p.frame pfn access) := fun layered steady =>
        ⟨layered.beside rfl (fun _ h => h), intact.held.steady ⟨steady.task, steady.vma, steady.mapped, steady.unused⟩⟩
      simp only [doPageFault]
      split
      · exact trivial
      split
      · exact trivial
      cases pte : s.pte t pfn with
      | none =>
        have reason : faultReason prefetch (Option.map Pte.access none) = .read := by cases prefetch <;> rfl
        rw [reason]
        simp only [Option.map_none, handleFault]
        refine Sat.bind (P := fun r : Mm × Page × Access => Intact (l4Map r.1 t r.2.1.frame pfn r.2.2) ∧
          Handled s t v pfn fresh (l4Map r.1 t r.2.1.frame pfn r.2.2)) ?_
          (fun r done => ⟨done.1, v, found, done.2⟩)
        refine pageReadFault_sat.bind (fun r walked => ?_)
        obtain ⟨layered, steady⟩ := intact.layered.walked walked (fun o mem => mem)
        exact ⟨finish layered steady, .read walked⟩
      | some entry =>
        have writes : (s.pte t pfn).isSome := by simp [pte]
        cases prefetch with
        | true => exact trivial
        | false =>
          simp only [Option.map_some, faultReason, handleFault, pageWriteFault, personal, if_true, Bool.false_eq_true,
            if_false]
          refine Sat.bind (P := fun r : Mm × Page × Access => Intact (l4Map r.1 t r.2.1.frame pfn r.2.2) ∧
            Handled s t v pfn fresh (l4Map r.1 t r.2.1.frame pfn r.2.2)) ?_
            (fun r done => ⟨done.1, v, found, done.2⟩)
          refine (copyOnWrite_sat intact.layered dead (careful v found writes) unshared).bind (fun r done => ?_)
          obtain ⟨copied, layered, steady⟩ := done
          exact ⟨finish layered steady, .write writes copied⟩

end Faults

end Codezero.Mm0
