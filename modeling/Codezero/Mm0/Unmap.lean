import Codezero.Mm0.Held

/-!
# Unmapping

`do_munmap` goes over the vmas of a task and takes the range from each: a vma is cut at one end, split in two,
or destroyed. Afterwards none of the task's vmas meets the range.
-/

namespace Codezero.Mm0
open Codezero.Lib

/-- The vma does not meet the range. -/
def Clear (s : Mm) (start stop : Pfn) (v : VmaId) : Prop :=
  setIntersection start stop (s.vma v).pfnStart (s.vma v).pfnEnd = false

instance (s : Mm) (start stop : Pfn) (v : VmaId) : Decidable (Clear s start stop v) := instDecidableEqBool _ _

/-- The range takes the whole vma. -/
def Covers (s : Mm) (start stop : Pfn) (v : VmaId) : Prop :=
  start ≤ (s.vma v).pfnStart ∧ (s.vma v).pfnEnd ≤ stop

/-- What is known after one vma: it is clear of the range, and the others on the list are as they were. -/
structure Passed (s s' : Mm) (t : TaskId) (start stop : Pfn) (v new : VmaId) : Prop where
  intact : Intact s'
  clear : v ∈ vmasOf s' t → Clear s' start stop v
  others : ∀ w ∈ vmasOf s t, w ≠ v → w ∈ vmasOf s' t ∧ s'.vma w = s.vma w
  added : ∀ w ∈ vmasOf s' t, w ∈ vmasOf s t ∨ w = new ∧ Clear s' start stop new
  room : (s.chain new = [] → s'.chain new = []) ∨ (s.vma v).pfnStart < start ∧ stop < (s.vma v).pfnEnd
  unused : ∀ w, w ≠ new → s.chain w = [] → s'.chain w = []
  spared : ∀ o ∈ s.objects, Mm0.spared s o = true → o ∈ s'.objects
  kind : s'.kind = s.kind

section Unmap
variable {s s' : Mm} {t : TaskId} {task : Task} {start stop : Pfn} {v new : VmaId}

theorem Passed.away (intact : Intact s) (clear : Clear s start stop v) : Passed s s t start stop v new :=
  ⟨intact, fun _ => clear, fun _ mem _ => ⟨mem, rfl⟩, fun _ => .inl, .inl id, fun _ _ h => h, fun _ live _ => live, rfl⟩

/-- A vma loses pages at one end. -/
theorem Passed.shrunk (intact : Intact s) (mem : v ∈ vmasOf s t) {shorter : Vma} (within : shorter.Within (s.vma v))
    (clear : setIntersection start stop shorter.pfnStart shorter.pfnEnd = false)
    (done : s' = { s with vma := Function.update s.vma v shorter, pte := s'.pte }) :
    Passed s s' t start stop v new := by
  have list : ∀ t', vmasOf s' t' = vmasOf s t' := fun t' => by
    rw [done]
    rfl
  have chain : s'.chain = s.chain := by rw [done]
  have own : s'.vma v = shorter := by
    rw [done]
    exact Function.update_self ..
  have other : ∀ w, w ≠ v → s'.vma w = s.vma w := fun w ne => by
    rw [done]
    exact Function.update_of_ne ne ..
  have narrow : HeldBy s' t := by
    refine (intact.held.each t).narrow (list t ▸ List.Sublist.refl _) (fun w here => ?_)
    rw [list] at here
    refine ⟨?_, chain ▸ (intact.held.each t).mapped w here⟩
    by_cases isv : w = v
    · rw [isv, own]
      exact within
    · rw [other w isv]
      exact .refl
  have beyond := intact.held.beyond (fun t' _ => list t')
    (fun w outside mapped => ⟨other w (fun same => outside (same ▸ mem)), chain ▸ mapped⟩)
  refine
    { intact := ⟨?_, intact.held.change beyond narrow (fun w here => .inl (by rwa [list] at here))⟩
      clear := fun _ => ?_
      others := fun w here ne => ⟨by rwa [list], other w ne⟩
      added := fun w here => .inl (by rwa [list] at here)
      room := .inl (fun empty => by rwa [chain])
      unused := fun w _ empty => by rwa [chain]
      spared := fun o live _ => ?_
      kind := ?_ }
  · rw [done]
    exact intact.layered.beside rfl (fun _ h => h)
  · rw [Clear, own]
    exact clear
  all_goals rw [done]
  exact live

/-- What the end of a vma leaves. -/
structure Destroyed (s s' : Mm) (t : TaskId) (v : VmaId) : Prop where
  intact : Intact s'
  list : vmasOf s' t = (vmasOf s t).erase v
  vma : s'.vma = s.vma
  unused : ∀ w, s.chain w = [] → s'.chain w = []
  spared : ∀ o ∈ s.objects, Mm0.spared s o = true → o ∈ s'.objects
  kind : s'.kind = s.kind

/-- A vma's links are dropped and it is taken off the list. -/
theorem Intact.destroy (intact : Intact s) (is : s.task t = some task) (mem : v ∈ vmasOf s t) {s1 : Mm}
    (emptied : Emptied v s s1) (done : s' = { setVmas s1 t ((vmasOf s t).erase v) with pte := s'.pte }) :
    Destroyed s s' t v := by
  obtain ⟨trimmed, gone⟩ := emptied.trimmed intact.layered.sound
  have is1 : s1.task = s.task := by rw [trimmed.reshaped]
  have vma : s'.vma = s.vma := by
    have : s1.vma = s.vma := by rw [trimmed.reshaped]
    rw [done]
    exact this
  have once := (intact.held.each t).once
  have mapped : ∀ w, w ≠ v → s.chain w ≠ [] → s1.chain w ≠ [] :=
    fun w ne mapped gone => mapped ((trimmed.empty w ne).mp gone)
  have own : vmasOf s' t = (vmasOf s t).erase v := by
    rw [done]
    exact vmasOf_setVmas (is1 ▸ is)
  have list : ∀ t', t' ≠ t → vmasOf s' t' = vmasOf s t' := fun t' ne => by
    rw [done]
    exact (vmasOf_setVmas_of_ne ne).trans (vmasOf_congr (congrFun is1 t'))
  have chain : s'.chain = s1.chain := by
    rw [done]
    rfl
  have narrow : HeldBy s' t := by
    refine (intact.held.each t).narrow (by rw [own]; exact List.erase_sublist) (fun w here => ?_)
    rw [own, once.mem_erase_iff] at here
    rw [vma, chain]
    exact ⟨.refl, mapped w here.1 ((intact.held.each t).mapped w here.2)⟩
  have beyond := intact.held.beyond list
    (fun w outside here => ⟨congrFun vma w, chain ▸ mapped w (fun same => outside (same ▸ mem)) here⟩)
  refine ⟨⟨?_, intact.held.change beyond narrow (fun w here => .inl ?_)⟩, own, vma, fun w empty => ?_,
    fun o live spared => ?_, ?_⟩
  · rw [done]
    exact (intact.layered.emptied emptied).beside rfl (fun _ h => h)
  · rw [own] at here
    exact List.mem_of_mem_erase here
  · rw [chain]
    by_cases isv : w = v
    · rw [isv]
      exact gone
    · exact (trimmed.empty w isv).mpr empty
  · by_contra dead
    rw [done] at dead
    have := ((trimmed.deletes o live).mp dead).2.2
    rw [spared] at this
    exact Bool.noConfusion this
  · rw [done]
    exact trimmed.reshaped.kind

theorem Destroyed.passed (destroyed : Destroyed s s' t v) (held : Held s) : Passed s s' t start stop v new := by
  have once := (held.each t).once
  have list := destroyed.list
  refine
    { intact := destroyed.intact
      clear := fun here => ?_
      others := fun w here ne => ⟨?_, congrFun destroyed.vma w⟩
      added := fun w here => .inl ?_
      room := .inl (destroyed.unused new)
      unused := fun w _ => destroyed.unused w
      spared := destroyed.spared
      kind := destroyed.kind }
  · rw [list, once.mem_erase_iff] at here
    exact absurd rfl here.1
  · rw [list]
    exact (List.mem_erase_of_ne ne).mpr here
  · rw [list] at here
    exact List.mem_of_mem_erase here

/-- The new vma goes on the list just before the old one. -/
theorem before_perm {l : List VmaId} (new : VmaId) (mem : v ∈ l) (once : l.Nodup) :
    (l.flatMap (fun w => if w = v then [new, w] else [w])).Perm (new :: l) := by
  induction l with
  | nil => simp at mem
  | cons w l rest =>
    obtain ⟨absent, once⟩ := List.nodup_cons.mp once
    rw [List.flatMap_cons]
    by_cases isv : w = v
    · have same : l.flatMap (fun w => if w = v then [new, w] else [w]) = l.flatMap (fun w => [w]) :=
        List.flatMap_congr (fun x here => if_neg (fun isx => absent (by rwa [isv, ← isx])))
      rw [if_pos isv, same]
      simp
    · rw [if_neg isv]
      have inside := (List.mem_cons.mp mem).resolve_left (fun same => isv same.symm)
      exact ((rest inside once).cons w).trans (.swap new w l)

/-- A new vma for the part behind the range. -/
def Vma.behind (a : Vma) (stop : Pfn) : Vma :=
  { pfnStart := stop, pfnEnd := a.pfnEnd, flags := a.flags, fileOffset := a.fileOffset + stop - a.pfnStart }

/-- The vma `v` keeps the part in front of the range. -/
def shortened (s : Mm) (v : VmaId) (start : Pfn) : Mm :=
  { s with vma := Function.update s.vma v { s.vma v with pfnEnd := start } }

/-- What `vma_split` does: first the old vma loses all from the hole on, then the part behind the hole is a new vma. -/
theorem vmaSplit_eq {l : List VmaId} (inside : (s.vma v).pfnStart < start ∧ stop < (s.vma v).pfnEnd) :
    vmaSplit s t l v new start stop = .ok (l4Unmap (setVmas (vmaCopyLinks { shortened s v start with
      vma := Function.update (shortened s v start).vma new ((s.vma v).behind stop) } new (s.chain v)) t
      (l.flatMap (fun w => if w = v then [new, w] else [w]))) t start stop) :=
  if_neg (not_or.mpr ⟨Nat.not_le.mpr inside.1, Nat.not_le.mpr inside.2⟩)

/-- A vma is split in two. -/
theorem Passed.split (intact : Intact s) (is : s.task t = some task) (mem : v ∈ vmasOf s t) (unused : s.chain new = [])
    (inside : (s.vma v).pfnStart < start ∧ stop < (s.vma v).pfnEnd) (ordered : start ≤ stop)
    (done : vmaSplit s t (vmasOf s t) v new start stop = .ok s') : Passed s s' t start stop v new := by
  let front : Vma := { s.vma v with pfnEnd := start }
  let behind : Vma := (s.vma v).behind stop
  let s1 : Mm := shortened s v start
  have within : front.Within (s.vma v) := ⟨Nat.le_refl _, Nat.le_trans ordered (Nat.le_of_lt inside.2), rfl⟩
  have clear : setIntersection start stop front.pfnStart front.pfnEnd = false :=
    setIntersection_eq_false.mpr (.inr (Nat.le_refl _))
  have shrunk : Passed s s1 t start stop v new := .shrunk intact mem within clear rfl
  have ne : new ≠ v := fun same => (intact.held.each t).mapped v mem (same ▸ unused)
  have list : vmasOf s1 t = vmasOf s t := vmasOf_congr rfl
  have front_eq : s1.vma v = front := Function.update_self ..
  have apart : ∀ w ∈ vmasOf s1 t, behind.Apart (s1.vma w) := by
    intro w here
    rw [list] at here
    by_cases isv : w = v
    · rw [isv, front_eq]
      exact Vma.apart_iff.mpr (.inr ordered)
    · rw [(shrunk.others w here isv).2]
      have narrower : behind.Within (s.vma v) :=
        ⟨Nat.le_trans (Nat.le_of_lt inside.1) ordered, Nat.le_refl _, rfl⟩
      exact ((intact.held.each t).apart v mem w here (Ne.symm isv)).within narrower .refl
  have perm := (before_perm new mem (intact.held.each t).once)
  obtain ⟨intact', inserted⟩ := shrunk.intact.insert is unused
    (show behind.Personal from (intact.held.each t).personal v mem) apart ((intact.held.each t).mapped v mem) (shrunk.intact.layered.sound.fits v)
    (shrunk.intact.layered.tops v) perm
  have split := Except.ok.inj (done.symm.trans (vmaSplit_eq inside))
  generalize setVmas _ t _ = s2 at intact' inserted split
  have own : ∀ w, w ∈ vmasOf s' t ↔ w = new ∨ w ∈ vmasOf s t := fun w => by
    rw [split, show vmasOf (l4Unmap s2 t start stop) t = _ from inserted.vmasOf_self is, perm.mem_iff, List.mem_cons]
  have chain : ∀ w, w ≠ new → s'.chain w = s.chain w := fun w ne => split ▸ inserted.chain_of_ne ne
  have vma : ∀ w, w ≠ new → s'.vma w = s1.vma w := fun w ne => split ▸ inserted.vma_of_ne ne
  refine
    { intact := ⟨?_, ?_⟩
      clear := fun _ => ?_
      others := fun w here isv => ⟨(own w).mpr (.inr here), ?_⟩
      added := fun w here => ((own w).mp here).symm.imp_right (fun isNew => ⟨isNew, ?_⟩)
      room := .inr inside
      unused := fun w isNew empty => by rwa [chain w isNew]
      spared := fun o live _ => ?_
      kind := ?_ }
  · rw [split]
    exact intact'.layered.beside rfl (fun _ h => h)
  · rw [split]
    exact intact'.held.steady ⟨rfl, rfl, fun _ h => h, fun _ h => h⟩
  · rw [Clear, vma v ne.symm, front_eq]
    exact clear
  · have isNew : w ≠ new := fun same => (intact.held.each t).mapped w here (same ▸ unused)
    rw [vma w isNew, (shrunk.others w here isv).2]
  · have : s'.vma new = behind := split ▸ inserted.vma_self
    rw [Clear, this]
    exact setIntersection_eq_false.mpr (.inl (Nat.le_refl _))
  · rw [split, l4Unmap, inserted]
    exact live
  · rw [split, l4Unmap, inserted]
    rfl

theorem vmaShrink_sat (intact : Intact s) (mem : v ∈ vmasOf s t) :
    Sat (vmaShrink s t v start stop) (fun s' => Passed s s' t start stop v new) Bug.elsewhere := by
  simp only [vmaShrink]
  split
  · split
    · exact trivial
    · next outside =>
      have within : Vma.Within { s.vma v with pfnEnd := start } (s.vma v) :=
        ⟨Nat.le_refl _, Nat.le_of_lt (Nat.not_le.mp outside), rfl⟩
      exact .shrunk intact mem within (setIntersection_eq_false.mpr (.inr (Nat.le_refl _))) rfl
  · split
    · split
      · exact trivial
      · next outside =>
        let left : Vma :=
          { s.vma v with pfnStart := stop, fileOffset := (s.vma v).fileOffset + (stop - (s.vma v).pfnStart) }
        have within : left.Within (s.vma v) := ⟨Nat.le_of_lt (Nat.not_le.mp outside), Nat.le_refl _, rfl⟩
        exact .shrunk intact mem within (setIntersection_eq_false.mpr (.inl (Nat.le_refl _))) rfl
    · exact trivial

theorem munmapVma_sat (intact : Intact s) (mem : v ∈ vmasOf s t) (room : s.chain new = [] ∨ Clear s start stop v)
    (ordered : start ≤ stop) :
    Sat (munmapVma t new start stop s v) (fun s' => Passed s s' t start stop v new) Bug.elsewhere := by
  unfold munmapVma
  cases is : s.task t with
  | none => exact trivial
  | some task =>
    simp only
    rw [← vmasOf_of_task is]
    by_cases clear : Clear s start stop v
    · simp only [Clear] at clear
      simp only [clear, Bool.false_eq_true, if_false]
      exact .away intact clear
    have unused := room.resolve_right clear
    have meets : setIntersection start stop (s.vma v).pfnStart (s.vma v).pfnEnd = true := by
      simpa [Clear] using clear
    simp only [meets, if_true, vmaUnmap]
    split
    · next inside =>
      rw [vmaSplit_eq inside]
      exact Passed.split intact is mem unused inside ordered (vmaSplit_eq inside)
    split
    · exact vmaShrink_sat intact mem
    split
    · obtain ⟨s1, ran, emptied⟩ := intact.layered.sound.dropMergeDeleteAll ((intact.held.each t).mapped v mem)
      have same : s1.vma = s.vma := by rw [(emptied.trimmed intact.layered.sound).1.reshaped]
      simp only [vmaDestroySingle, ran, bind, Except.bind, same]
      exact (intact.destroy is mem emptied rfl).passed intact.held
    · exact trivial

/-! ## The loop -/

/-- The vmas that the loop has still to visit. -/
structure Pending (s : Mm) (t : TaskId) (start stop : Pfn) (new : VmaId) (l : List VmaId) : Prop where
  once : l.Nodup
  listed : ∀ w ∈ l, w ∈ vmasOf s t
  rest : ∀ w ∈ vmasOf s t, w ∈ l ∨ Clear s start stop w
  room : s.chain new = [] ∨ ∀ w ∈ l, Clear s start stop w

theorem Pending.next {l : List VmaId} (pending : Pending s t start stop new (v :: l)) (held : Held s)
    (passed : Passed s s' t start stop v new) : Pending s' t start stop new l := by
  obtain ⟨absent, once⟩ := List.nodup_cons.mp pending.once
  have memv : v ∈ vmasOf s t := pending.listed v List.mem_cons_self
  have other : ∀ {w}, w ∈ l → w ∈ vmasOf s t ∧ w ≠ v := fun mem =>
    ⟨pending.listed _ (List.mem_cons_of_mem v mem), fun same => absent (same ▸ mem)⟩
  have keeps : ∀ {w}, w ∈ vmasOf s t → w ≠ v → Clear s start stop w → Clear s' start stop w := fun mem ne clear => by
    rwa [Clear, (passed.others _ mem ne).2]
  refine ⟨once, fun w mem => (passed.others w (other mem).1 (other mem).2).1, fun w mem => ?_, ?_⟩
  · rcases passed.added w mem with old | ⟨rfl, clear⟩
    · by_cases isv : w = v
      · subst isv
        exact .inr (passed.clear mem)
      · rcases pending.rest w old with here | clear
        · exact .inl ((List.mem_cons.mp here).resolve_left isv)
        · exact .inr (keeps old isv clear)
    · exact .inr clear
  · rcases passed.room with keep | inside
    · refine pending.room.imp keep (fun clear w mem => ?_)
      exact keeps (other mem).1 (other mem).2 (clear w (List.mem_cons_of_mem v mem))
    · -- The vma that is split has the whole range, so no other one meets it.
      refine .inr (fun w mem => ?_)
      obtain ⟨memw, ne⟩ := other mem
      rw [Clear, (passed.others w memw ne).2, setIntersection_eq_false]
      rcases Vma.apart_iff.mp ((held.each t).apart v memv w memw ne.symm) with behind | before
      · exact .inl (Nat.le_trans (Nat.le_of_lt inside.2) behind)
      · exact .inr (Nat.le_trans before (Nat.le_of_lt inside.1))

/-- What `do_munmap` leaves. -/
structure Cleared (s s' : Mm) (t : TaskId) (start stop : Pfn) (new : VmaId) : Prop where
  intact : Intact s'
  clear : ∀ w ∈ vmasOf s' t, Clear s' start stop w
  unused : ∀ w, w ≠ new → s.chain w = [] → s'.chain w = []
  spared : ∀ o ∈ s.objects, Mm0.spared s o = true → o ∈ s'.objects
  kind : s'.kind = s.kind

theorem munmapLoop_sat {l : List VmaId} (intact : Intact s) (ordered : start ≤ stop)
    (pending : Pending s t start stop new l) :
    Sat (l.foldlM (munmapVma t new start stop) s) (fun s' => Cleared s s' t start stop new) Bug.elsewhere := by
  induction l generalizing s with
  | nil =>
    have clear : ∀ w ∈ vmasOf s t, Clear s start stop w := fun w mem => (pending.rest w mem).resolve_left (by simp)
    exact ⟨intact, clear, fun _ _ h => h, fun _ live _ => live, rfl⟩
  | cons v l rest =>
    have mem : v ∈ vmasOf s t := pending.listed v List.mem_cons_self
    have room := pending.room.imp_right (fun clear => clear v List.mem_cons_self)
    refine (munmapVma_sat intact mem room ordered).bind (fun s1 passed => ?_)
    refine (rest passed.intact (pending.next intact.held passed)).mono (fun s' cleared => ?_)
    exact
      { intact := cleared.intact
        clear := cleared.clear
        unused := fun w ne empty => cleared.unused w ne (passed.unused w ne empty)
        spared := fun o live spared => cleared.spared o (passed.spared o live spared)
          (by rwa [Mm0.spared, passed.kind])
        kind := cleared.kind.trans passed.kind }

theorem doMunmap_sat (intact : Intact s) (ordered : start ≤ stop) (unused : s.chain new = []) :
    Sat (doMunmap s t start stop new) (fun s' => Cleared s s' t start stop new) Bug.elsewhere := by
  unfold doMunmap
  cases is : s.task t with
  | none => exact trivial
  | some task =>
    refine munmapLoop_sat intact ordered ⟨?_, fun w mem => ?_, fun w mem => ?_, .inl unused⟩
    · rw [← vmasOf_of_task is]
      exact (intact.held.each t).once
    · rwa [vmasOf_of_task is]
    · rw [vmasOf_of_task is] at mem
      exact .inl mem

end Unmap

end Codezero.Mm0
