import Codezero.Mm0.Unmap

/-!
# Mapping, forking and exiting keep the vmas in order
-/

namespace Codezero.Mm0
open Codezero.Lib
open Function (update update_apply update_of_ne update_self)

/-! ## Mapping -/

theorem taskInsertVma_sat {s : Mm} {this : VmaId} (vmas : List VmaId) :
    Sat (taskInsertVma s this vmas) (fun list => list.Perm (this :: vmas)) Bug.elsewhere := by
  induction vmas with
  | nil => exact .refl _
  | cons before vmas rest =>
    cases vmas with
    | nil =>
      simp only [taskInsertVma]
      split
      · exact trivial
      split
      · exact .swap this before []
      split
      · exact .refl _
      · exact trivial
    | cons after vmas =>
      unfold taskInsertVma
      dsimp only
      split
      · split
        · exact trivial
        split
        · exact trivial
        · exact .swap this before (after :: vmas)
      · refine rest.bind (fun list perm => ?_)
        exact (perm.cons before).trans (.swap this before (after :: vmas))

section Map
variable {s : Mm} {t : TaskId} {args : MmapArgs} {file : ObjId} {fileOffset addr : Nat}

/-- The vma that `do_mmap` makes. -/
def MmapArgs.newVma (args : MmapArgs) (fileOffset addr : Nat) : Vma :=
  { pfnStart := pfnOf addr, pfnEnd := pfnOf addr + args.npages, flags := args.flags, fileOffset := pfnOf fileOffset }

/-- A file that can be mapped privately. -/
structure Mappable (s : Mm) (file : ObjId) : Prop where
  live : file ∈ s.objects
  spared : Mm0.spared s file = true

theorem Mappable.plain (mappable : Mappable s file) : isShadow s file = false ∧ isShm s file = false := by
  have spared := mappable.spared
  unfold Mm0.spared at spared
  unfold isShadow isShm
  split at spared <;> rename_i kind
  · simp [kind, Kind.isShadow]
  · simp [kind, Kind.isShadow]
  · exact absurd spared Bool.false_ne_true

theorem mmapAt_sat (intact : Intact s) (mappable : Mappable s file) (vma : s.chain args.vma = [])
    (split : s.chain args.split = []) (ne : args.vma ≠ args.split) (personal : args.flags.priv = true)
    (unshared : args.flags.shared = false) :
    Sat (mmapAt s t args file fileOffset addr) Intact Bug.elsewhere := by
  unfold mmapAt
  refine (doMunmap_sat intact (Nat.le_add_right _ _) split).bind (fun s1 cleared => ?_)
  have mappable1 : Mappable s1 file :=
    ⟨cleared.spared file mappable.live mappable.spared, by
      rw [Mm0.spared, cleared.kind]
      exact mappable.spared⟩
  obtain ⟨plain, ordinary⟩ := mappable1.plain
  have there := (cleared.intact.layered.sound.globals.fileObjects file).mpr ⟨mappable1.live, plain⟩
  cases is : s1.task t with
  | none => exact trivial
  | some task =>
    simp only [there, not_true_eq_false, ordinary, Bool.false_eq_true, if_false]
    refine (taskInsertVma_sat task.vmas).bind (fun list perm => ?_)
    rw [← vmasOf_of_task is] at perm
    have clear : ∀ v ∈ vmasOf s1 t, (args.newVma fileOffset addr).Apart (s1.vma v) := cleared.clear
    exact (cleared.intact.insert is (cleared.unused _ ne vma) ⟨personal, unshared⟩ clear
      (List.cons_ne_nil _ _) (fits_single mappable1.live plain) (by simp) perm).1

theorem getDevzero_some (sound : Sound s) (found : getDevzero s = some file) : Mappable s file := by
  have isDevzero := List.find?_some found
  refine ⟨((sound.globals.fileObjects file).mp (List.mem_of_find?_eq_some found)).1, ?_⟩
  unfold spared
  split at isDevzero
  · next kind => simp [kind]
  · exact absurd isDevzero Bool.false_ne_true

theorem openFile_mappable (sound : Sound s) (listed : file ∈ s.files) (opened : openersOf s file ≠ 0) :
    Mappable s file := by
  refine ⟨((sound.globals.fileObjects file).mp listed).1, ?_⟩
  unfold openersOf at opened
  unfold spared
  split at opened
  · next kind => simpa [kind] using opened
  · exact absurd rfl opened

theorem mapFile_sat (sound : Sound s) (files : ∀ o ∈ args.file, o ∈ s.files ∧ openersOf s o ≠ 0) :
    Sat (mapFile s args) (fun r => ∀ file off, r = some (file, off) → Mappable s file) Bug.elsewhere := by
  unfold mapFile
  split
  · next file is =>
    intro mapped off same
    obtain ⟨rfl, -⟩ := Prod.mk.inj (Option.some.inj same)
    obtain ⟨listed, opened⟩ := files file is
    exact openFile_mappable sound listed opened
  · split
    · split
      · next found =>
        intro mapped off same
        obtain ⟨rfl, -⟩ := Prod.mk.inj (Option.some.inj same)
        exact getDevzero_some sound found
      · exact trivial
    · exact fun _ _ same => nomatch same

theorem mmapChecked_sat {task : Task} {sizes : Except Errno Unit} (intact : Intact s)
    (enabled : enabled s (.mmap t args)) (mappable : Mappable s file) :
    Sat (mmapChecked s t task args file fileOffset sizes) (fun r => Intact r.1) Bug.elsewhere := by
  obtain ⟨vma, split, ne, personal, unshared, -⟩ := enabled
  have finish : ∀ (valid : Bool) (addr : Nat),
      Sat (if !valid && args.flags.fixed then pure (s, throw .einval)
        else if addr = 0 then pure (s, throw .enomem)
        else do
          let s ← mmapAt s t args file fileOffset addr
          pure (s, pure (if args.flags.growsdown then addr + args.npages * pageSize else addr)))
      (fun r : Mm × Except Errno Nat => Intact r.1) Bug.elsewhere := by
    intro valid addr
    split
    · exact intact
    split
    · exact intact
    · exact (mmapAt_sat intact mappable vma split ne personal unshared).bind (fun s' mapped => mapped)
  have validated : Sat (mmapAddressValidate s task args.addr args.flags) (fun _ => True) Bug.elsewhere := by
    simp only [mmapAddressValidate, personal, if_true]
    split <;> exact trivial
  cases sizes with
  | error errno => exact intact
  | ok => exact validated.bind (fun valid _ => finish valid _)

theorem doMmap_sat (intact : Intact s) (enabled : enabled s (.mmap t args)) :
    Sat (doMmap s t args) (fun r => Intact r.1) Bug.elsewhere := by
  unfold doMmap
  cases s.task t with
  | none => exact trivial
  | some task =>
    refine (mapFile_sat intact.layered.sound enabled.2.2.2.2.2).bind (fun r found => ?_)
    cases r with
    | none => exact intact
    | some r =>
      obtain ⟨file, off⟩ := r
      dsimp only
      unfold mmapFile
      exact mmapChecked_sat intact enabled (found file off rfl)

end Map

/-! ## Freezing -/

section Freeze
variable {s s' : Mm} {t : TaskId} {v : VmaId}

theorem freezePages_sat {vma : Vma} {pages : List Page} :
    Sat (pages.foldlM (freezePage t vma) s) (fun s' => s' = { s with pte := s'.pte }) Bug.elsewhere := by
  induction pages generalizing s with
  | nil => exact rfl
  | cons p pages rest =>
    rw [List.foldlM_cons]
    refine Sat.bind (P := fun s1 => s1 = { s with pte := s1.pte }) ?_ (fun s1 first => rest.mono (fun s' others => ?_))
    · unfold freezePage vmaPageToVirtual
      split
      · exact trivial
      · exact rfl
    · rw [others, first]

/-- The shadow on top of a vma is frozen. -/
structure Frozen (s s' : Mm) : Prop where
  state : s' = { s with write := s'.write, pte := s'.pte }
  write : ∀ o, s.write o = false → s'.write o = false

theorem Frozen.trans {s'' : Mm} (first : Frozen s s') (second : Frozen s' s'') : Frozen s s'' :=
  ⟨by rw [second.state, first.state], fun o readonly => second.write o (first.write o readonly)⟩

theorem freezeVma_sat (personal : (s.vma v).Personal) : Sat (freezeVma t s v) (Frozen s) Bug.elsewhere := by
  unfold freezeVma
  rw [personal.2]
  simp only [Bool.false_eq_true, if_false]
  split
  · exact trivial
  · next top _ _ =>
    split
    · refine freezePages_sat.mono (fun s' guarded => ⟨by rw [guarded], fun o readonly => ?_⟩)
      rw [guarded]
      show update s.write top false o = false
      rw [update_apply, readonly, ite_self]
    · exact ⟨rfl, fun _ h => h⟩

theorem Frozen.intact (frozen : Frozen s s') (intact : Intact s) : Intact s' := by
  have beside : Beside s s' := by
    unfold Beside
    rw [frozen.state]
  refine ⟨intact.layered.beside beside frozen.write, intact.held.steady ?_⟩
  rw [frozen.state]
  exact ⟨rfl, rfl, fun _ h => h, fun _ h => h⟩

theorem vmFreezeShadows_sat {l : List VmaId} (intact : Intact s) (listed : ∀ v ∈ l, v ∈ vmasOf s t) :
    Sat (vmFreezeShadows s t l) (Frozen s) Bug.elsewhere := by
  unfold vmFreezeShadows
  induction l generalizing s with
  | nil => exact ⟨rfl, fun _ h => h⟩
  | cons v l rest =>
    have personal := (intact.held.each t).personal v (listed v List.mem_cons_self)
    refine (freezeVma_sat personal).bind (fun s1 frozen => ?_)
    have list : vmasOf s1 t = vmasOf s t := by
      rw [frozen.state]
      rfl
    refine (rest (frozen.intact intact) (fun w mem => ?_)).mono (fun s' others => frozen.trans others)
    rw [list]
    exact listed w (List.mem_cons_of_mem v mem)

end Freeze

/-! ## Forking -/

section Fork
variable {s s' : Mm} {parent child : TaskId} {copies : List VmaId}

/-- The copies that are still to be made. -/
structure Copying (s : Mm) (parent child : TaskId) (l : List (VmaId × VmaId)) : Prop where
  intact : Intact s
  ne : parent ≠ child
  listed : ∀ c ∈ l, c.1 ∈ vmasOf s parent
  once : (l.map Prod.fst).Nodup
  unused : ∀ c ∈ l, s.chain c.2 = []
  distinct : (l.map Prod.snd).Nodup
  copies : ∀ w ∈ vmasOf s child, ∃ v ∈ vmasOf s parent, v ∉ l.map Prod.fst ∧ s.vma w = s.vma v

theorem Copying.next {v copy : VmaId} {l : List (VmaId × VmaId)} {list : List VmaId} {s1 : Mm} {task : Task}
    (copying : Copying s parent child ((v, copy) :: l)) (is : s.task child = some task) (intact : Intact s1)
    (inserted : Inserted s s1 child copy (s.vma v) (s.chain v) list) (perm : list.Perm (copy :: vmasOf s child)) :
    Copying s1 parent child l := by
  obtain ⟨absent, once⟩ := List.nodup_cons.mp copying.once
  obtain ⟨fresh, distinct⟩ := List.nodup_cons.mp copying.distinct
  have unused : s.chain copy = [] := copying.unused (v, copy) List.mem_cons_self
  have listed : v ∈ vmasOf s parent := copying.listed (v, copy) List.mem_cons_self
  have parents : vmasOf s1 parent = vmasOf s parent := inserted.vmasOf_of_ne copying.ne
  have old : ∀ {t w}, w ∈ vmasOf s t → w ≠ copy :=
    fun mem same => (copying.intact.held.each _).mapped _ mem (same ▸ unused)
  refine ⟨intact, copying.ne, fun c mem => ?_, once, fun c mem => ?_, distinct, fun w mem => ?_⟩
  · rw [parents]
    exact copying.listed c (List.mem_cons_of_mem _ mem)
  · have ne : c.2 ≠ copy := fun same => fresh (List.mem_map.mpr ⟨c, mem, same⟩)
    rw [inserted.chain_of_ne ne]
    exact copying.unused c (List.mem_cons_of_mem _ mem)
  · rw [inserted.vmasOf_self is, perm.mem_iff] at mem
    rw [parents]
    rcases List.mem_cons.mp mem with rfl | mem
    · exact ⟨v, listed, absent, by rw [inserted.vma_self, inserted.vma_of_ne (old listed)]⟩
    · obtain ⟨u, memu, out, same⟩ := copying.copies w mem
      refine ⟨u, memu, fun inside => out (List.mem_cons_of_mem _ inside), ?_⟩
      rw [inserted.vma_of_ne (old mem), inserted.vma_of_ne (old memu), same]

theorem copyVmas_sat {l : List (VmaId × VmaId)} (copying : Copying s parent child l) :
    Sat (l.foldlM (copyVma child) s) Intact Bug.elsewhere := by
  induction l generalizing s with
  | nil => exact copying.intact
  | cons c l rest =>
    obtain ⟨v, copy⟩ := c
    have intact := copying.intact
    have listed : v ∈ vmasOf s parent := copying.listed (v, copy) List.mem_cons_self
    have unused : s.chain copy = [] := copying.unused (v, copy) List.mem_cons_self
    have apart : ∀ w ∈ vmasOf s child, (s.vma v).Apart (s.vma w) := by
      intro w mem
      obtain ⟨u, memu, out, same⟩ := copying.copies w mem
      rw [same]
      exact (intact.held.each parent).apart v listed u memu (fun isu => out (by simp [← isu]))
    refine Sat.bind (P := fun s1 => Copying s1 parent child l) ?_ (fun s1 copying' => rest copying')
    unfold copyVma
    cases is : s.task child with
    | none => exact trivial
    | some task =>
      refine (taskInsertVma_sat task.vmas).bind (fun list perm => ?_)
      rw [← vmasOf_of_task is] at perm
      obtain ⟨intact', inserted⟩ := intact.insert is unused ((intact.held.each parent).personal v listed) apart
        ((intact.held.each parent).mapped v listed) (intact.layered.sound.fits v) (intact.layered.tops v) perm
      exact copying.next is intact' inserted perm

/-- The child before it has any vmas. -/
def withChild (s : Mm) (parent child : TaskId) (task : Task) : Mm :=
  { s with
    pte := update s.pte child (s.pte parent)
    task := update s.task child (some { task with vmas := [] }) }

theorem withChild_intact {task : Task} (intact : Intact s) (free : s.task child = none) :
    Intact (withChild s parent child task) := by
  have list : ∀ t, vmasOf (withChild s parent child task) t = vmasOf s t := fun t => by
    by_cases here : t = child
    · subst here
      rw [vmasOf_none free]
      simp [withChild, vmasOf]
    · exact vmasOf_congr (update_of_ne here ..)
  refine ⟨intact.layered.beside rfl (fun _ h => h), fun t => ?_, fun t t' v mem mem' => ?_⟩
  · exact (intact.held.each t).of_same (list t) (fun v mem => ⟨rfl, (intact.held.each t).mapped v mem⟩)
  · rw [list] at mem mem'
    exact intact.held.one t t' v mem mem'

theorem sysFork_sat (intact : Intact s) (enabled : enabled s (.fork parent child copies)) :
    Sat (sysFork s parent child copies) Intact Bug.elsewhere := by
  obtain ⟨free, distinct, unused, count⟩ := enabled
  unfold sysFork
  cases is : s.task parent with
  | none => exact trivial
  | some task =>
    have list := vmasOf_of_task is
    have ne : parent ≠ child := by
      rintro rfl
      simp [free] at is
    refine (vmFreezeShadows_sat intact (fun v mem => list ▸ mem)).bind (fun s1 frozen => ?_)
    have state := frozen.state
    have same : s1.task = s.task := by rw [state]
    have intact1 := frozen.intact intact
    have parents : vmasOf (withChild s1 parent child task) parent = task.vmas := by
      rw [← list]
      exact (vmasOf_congr (update_of_ne ne ..)).trans (vmasOf_congr (congrFun same parent))
    have length : task.vmas.length = copies.length := by
      rw [is] at count
      exact Option.some.inj count
    have copying : Copying (withChild s1 parent child task) parent child (task.vmas.zip copies) := by
      refine ⟨withChild_intact intact1 (same ▸ free), ne, fun c mem => ?_, ?_, fun c mem => ?_, ?_, fun w mem => ?_⟩
      · rw [parents]
        exact (List.of_mem_zip mem).1
      · rw [List.map_fst_zip (Nat.le_of_eq length), ← list]
        exact (intact.held.each parent).once
      · have chain : s1.chain = s.chain := by rw [state]
        exact chain ▸ unused c.2 (List.of_mem_zip mem).2
      · rw [List.map_snd_zip (Nat.le_of_eq length.symm)]
        exact distinct
      · simp [withChild, vmasOf] at mem
    exact copyVmas_sat copying

end Fork

/-! ## Exiting -/

section Exit
variable {s : Mm} {t : TaskId}

theorem releaseVma_ok {task : Task} {v : VmaId} (intact : Intact s) (is : s.task t = some task) (mem : v ∈ vmasOf s t) :
    ∃ s', releaseVma t s v = .ok s' ∧ Destroyed s s' t v := by
  obtain ⟨s1, ran, emptied⟩ := intact.layered.sound.dropMergeDeleteAll ((intact.held.each t).mapped v mem)
  refine ⟨setVmas s1 t ((vmasOf s t).erase v), ?_, intact.destroy is mem emptied rfl⟩
  rw [vmasOf_of_task is]
  simp [releaseVma, is, ran, bind, Except.bind, pure, Except.pure]

theorem releaseVmas_sat {l : List VmaId} (intact : Intact s) (list : vmasOf s t = l) :
    Sat (l.foldlM (releaseVma t) s) (fun s' => Intact s' ∧ vmasOf s' t = []) Bug.elsewhere := by
  induction l generalizing s with
  | nil => exact ⟨intact, list⟩
  | cons v l rest =>
    have mem : v ∈ vmasOf s t := by simp [list]
    cases is : s.task t with
    | none => simp [vmasOf_none is] at mem
    | some task =>
      obtain ⟨s1, ran, destroyed⟩ := releaseVma_ok intact is mem
      rw [List.foldlM_cons, ran]
      exact rest destroyed.intact (by rw [destroyed.list, list, List.erase_cons_head])

theorem tcbDestroy_sat (intact : Intact s) : Sat (tcbDestroy s t) Intact Bug.elsewhere := by
  unfold tcbDestroy
  cases is : s.task t with
  | none => exact trivial
  | some task =>
    refine (releaseVmas_sat intact (vmasOf_of_task is)).bind (fun s1 done => ?_)
    obtain ⟨intact1, empty⟩ := done
    refine ⟨intact1.layered.beside rfl (fun _ h => h), ?_⟩
    generalize left : { s1 with task := update s1.task t none, pte := update s1.pte t (fun _ => none) } = s'
    have list : ∀ t', vmasOf s' t' = vmasOf s1 t' := fun t' => by
      rw [← left]
      by_cases here : t' = t
      · subst here
        rw [empty]
        simp [vmasOf]
      · exact vmasOf_congr (update_of_ne here ..)
    refine ⟨fun t' => (intact1.held.each t').of_same (list t') (fun v mem => ?_), fun t1 t2 v mem1 mem2 => ?_⟩
    · rw [← left]
      exact ⟨rfl, (intact1.held.each t').mapped v mem⟩
    · rw [list] at mem1 mem2
      exact intact1.held.one t1 t2 v mem1 mem2

end Exit

end Codezero.Mm0
