import Codezero.Mm0.Calls

/-!
# Integrity of the object graph over all runs

`mm0_test_global_vm_integrity` counts links, shadows and files. A run of private mappings keeps its law as long as
no write fault drops the shadow under a writable one that two vmas share.
-/

namespace Codezero.Mm0
open Codezero.Lib
open Codezero.Lib.Stack (Over)

/-- The law of `mm0_test_global_vm_integrity`, and that a shadow knows what it stands on. -/
structure Integrity (s : Mm) : Prop where
  nlinks : ∀ o ∈ s.objects, s.nlinks o = (s.linkList o).length
  shadows : ∀ o ∈ s.objects, s.shadows o = (s.shdwList o).length
  shadowObjects : ((s.objects.filter (isShadow s)).length : Int) = (s.objects.map s.shadows).sum
  objectsTotal : s.objectsTotal = s.objects.length
  filesTotal : s.filesTotal = s.files.length
  fileObjects : s.files.length = (s.objects.filter (fun o => !isShadow s o)).length
  orig : ∀ v a b, Over (s.chain v) a b → isShadow s a = true → s.origObj a = some b

/-! ## The law holds of layered states -/

section Law
variable {s : Mm}

/-- Every live shadow hangs on exactly one list of shadows, and nothing else does. -/
theorem Layered.shadows_perm (layered : Layered s) :
    (s.objects.flatMap s.shdwList).Perm (s.objects.filter (isShadow s)) := by
  have sound := layered.sound
  refine (List.perm_ext_iff_of_nodup ?_ (sound.globals.objects.filter _)).mpr (fun a => ?_)
  · refine List.nodup_flatMap.mpr ⟨fun b live => sound.shrefs.once b live, ?_⟩
    refine sound.globals.objects.imp_of_mem (fun {b c} liveb livec ne => ?_)
    intro a memb memc
    have hangsb := (sound.shrefs.shadowed b liveb a memb).2
    have hangsc := (sound.shrefs.shadowed c livec a memc).2
    exact ne (Option.some.inj (hangsb.symm.trans hangsc))
  · rw [List.mem_flatMap, List.mem_filter]
    constructor
    · rintro ⟨b, live, mem⟩
      exact ⟨(sound.shrefs.shadowed b live a mem).1, (sound.standing b live a mem).1⟩
    · rintro ⟨live, shadow⟩
      obtain ⟨v, mem⟩ := layered.tidy a live shadow
      -- The bottom of a stack is a file, so something is under the shadow.
      obtain ⟨b, on⟩ := Stack.exists_over mem (fun bottom => by
        rw [sound.ordered.ends v a bottom] at shadow
        exact Bool.noConfusion shadow)
      exact ⟨b, sound.links.alive v b on.mem_right, sound.ordered.listed v a b on shadow⟩

theorem Layered.integrity (layered : Layered s) : Integrity s := by
  have sound := layered.sound
  refine
    { nlinks := sound.links.nlinks
      shadows := sound.shrefs.shadows
      shadowObjects := ?_
      objectsTotal := sound.globals.objectsTotal
      filesTotal := sound.globals.filesTotal
      fileObjects := ?_
      orig := sound.ordered.orig }
  · rw [← layered.shadows_perm.length_eq, List.length_flatMap]
    have counts : s.objects.map s.shadows = s.objects.map (fun o => ((s.shdwList o).length : Int)) :=
      List.map_congr_left (fun o live => sound.shrefs.shadows o live)
    rw [counts, Nat.cast_list_sum, List.map_map]
    rfl
  · refine List.Perm.length_eq ((List.perm_ext_iff_of_nodup sound.globals.files (sound.globals.objects.filter _)).mpr ?_)
    intro o
    rw [sound.globals.fileObjects, List.mem_filter, Bool.not_eq_true']

end Law

/-! ## Runs -/

section Steps
variable {s : Mm}

/-- Openers of a file come and go. -/
theorem Intact.setOpeners (intact : Intact s) (o : ObjId) (n : Int) : Intact (setOpeners s o n) := by
  have shadow : ∀ x, isShadow (Mm0.setOpeners s o n) x = isShadow s x := by
    intro x
    unfold isShadow Mm0.setOpeners
    by_cases here : x = o
    · subst here
      simp only [Function.update_self]
      cases s.kind x <;> rfl
    · simp only [Function.update_of_ne here]
  have devzero : ∀ x, isDevzero (Mm0.setOpeners s o n) x = isDevzero s x := by
    intro x
    unfold isDevzero Mm0.setOpeners
    by_cases here : x = o
    · subst here
      simp only [Function.update_self]
      cases s.kind x with
      | shadow => rfl
      | file type openers length => cases type <;> rfl
    · simp only [Function.update_of_ne here]
  have sound := intact.layered.sound
  have sound' : Sound (Mm0.setOpeners s o n) :=
    { links := ⟨sound.links.alive, sound.links.links, sound.links.nlinks⟩
      shrefs := ⟨sound.shrefs.shadowed, sound.shrefs.hangs, sound.shrefs.once, sound.shrefs.shadows⟩
      ordered :=
        ⟨fun v a b on isShadow => sound.ordered.orig v a b on (shadow a ▸ isShadow),
          fun v a b on isShadow => sound.ordered.listed v a b on (shadow a ▸ isShadow),
          fun v x bottom => (shadow x).trans (sound.ordered.ends v x bottom)⟩
      globals :=
        ⟨sound.globals.objects, sound.globals.objectsTotal, sound.globals.files, sound.globals.filesTotal, fun x => by
          rw [shadow]
          exact sound.globals.fileObjects x⟩
      oneEach := sound.oneEach
      standing := fun b live a mem => by
        rw [shadow]
        exact sound.standing b live a mem
      counted := ⟨fun x live plain => sound.counted.npages x live (devzero x ▸ plain), sound.counted.refcnt⟩ }
  refine ⟨⟨sound', fun x live isShadow => ?_, intact.layered.tops, fun x live file => ?_⟩,
    intact.held.steady ⟨rfl, rfl, fun _ h => h, fun _ h => h⟩⟩
  · exact intact.layered.tidy x live (shadow x ▸ isShadow)
  · exact intact.layered.files x live (shadow x ▸ file)

theorem Intact.storeByte (intact : Intact s) (t : TaskId) (pfn : Pfn) (byte : Nat) (value : UInt8) :
    Intact (storeByte s t pfn byte value) := by
  unfold Mm0.storeByte
  split
  · exact ⟨intact.layered.beside rfl (fun _ h => h), intact.held.steady ⟨rfl, rfl, fun _ h => h, fun _ h => h⟩⟩
  · exact intact

/-- Write faults do not drop the shadow under a writable one that another vma has too. -/
def CarefulEvent (s : Mm) : Event → Prop
  | .fault t pfn _ _ => CarefulFault s t pfn
  | _ => True

instance (s : Mm) : (e : Event) → Decidable (CarefulEvent s e)
  | .fault t pfn _ _ => inferInstanceAs (Decidable (CarefulFault s t pfn))
  | .mmap .. | .munmap .. | .store .. | .fork .. | .exit .. | .openFile .. | .closeFile .. => .isTrue trivial

theorem step_sat {e : Event} (intact : Intact s) (enabled : enabled s e) (careful : CarefulEvent s e) :
    Sat (step s e) Intact Bug.elsewhere := by
  cases e with
  | mmap t args =>
    exact (doMmap_sat intact enabled).bind (fun r mapped => mapped)
  | munmap t start stop split =>
    exact (doMunmap_sat intact enabled.2 enabled.1).mono (fun s' cleared => cleared.intact)
  | fault t pfn prefetch fresh => exact (pageFaultHandler_sat intact enabled.1 careful).mono (fun s' done => done.1)
  | store t pfn byte value => exact intact.storeByte t pfn byte value
  | fork parent child copies => exact sysFork_sat intact enabled
  | exit t => exact tcbDestroy_sat intact
  | openFile o => exact intact.setOpeners o _
  | closeFile o => exact intact.setOpeners o _

/-- Before the first mapping: some files, and tasks without vmas. -/
structure Booted (s : Mm) : Prop where
  chain : ∀ v, s.chain v = []
  tasks : ∀ t, vmasOf s t = []
  files : ∀ o ∈ s.objects, isShadow s o = false ∧ s.write o = false
  links : ∀ o ∈ s.objects, s.nlinks o = 0 ∧ s.linkList o = []
  shadows : ∀ o ∈ s.objects, s.shadows o = 0 ∧ s.shdwList o = [] ∧ s.shref o = none
  globals : Globals s
  oneEach : OneEach s
  counted : Counted s

theorem Booted.intact (booted : Booted s) : Intact s := by
  have empty : ∀ {v o}, o ∉ s.chain v := fun {v o} mem => by simp [booted.chain v] at mem
  have none : ∀ {v a b}, ¬ Over (s.chain v) a b := fun on => empty on.mem_left
  have vacant : ∀ {t v}, v ∉ vmasOf s t := fun {t v} mem => by simp [booted.tasks t] at mem
  have sound : Sound s :=
    { links := ⟨fun v o mem => absurd mem empty, fun o live v => by simp [(booted.links o live).2, booted.chain v],
        fun o live => by simp [booted.links o live]⟩
      shrefs := ⟨fun b live a mem => by simp [(booted.shadows b live).2.1] at mem,
        fun a live b hangs => by simp [(booted.shadows a live).2.2] at hangs,
        fun b live => by simp [(booted.shadows b live).2.1], fun b live => by simp [booted.shadows b live]⟩
      ordered := ⟨fun _ _ _ on => absurd on none, fun _ _ _ on => absurd on none,
        fun v o bottom => by simp [booted.chain v] at bottom⟩
      globals := booted.globals
      oneEach := booted.oneEach
      standing := fun b live a mem => by simp [(booted.shadows b live).2.1] at mem
      counted := booted.counted }
  refine ⟨⟨sound, fun o live shadow => ?_, fun v o mem => absurd (List.mem_of_mem_tail mem) empty,
    fun o live _ => (booted.files o live).2⟩, fun t => ?_, fun t t' v mem => absurd mem vacant⟩
  · simp [(booted.files o live).1] at shadow
  · exact ⟨fun v mem => absurd mem vacant, by simp [booted.tasks t], fun v mem => absurd mem vacant,
      fun v mem => absurd mem vacant⟩

theorem intact_of_reaches {s0 : Mm} (booted : Booted s0) (reached : machine.ReachesUnder CarefulEvent s0 s) :
    Intact s :=
  reached.invariant (fun _ _ _ intact enabled careful stepped => (step_sat intact enabled careful).ok stepped)
    booted.intact

theorem integrity_of_careful {s0 : Mm} (booted : Booted s0) (reached : machine.ReachesUnder CarefulEvent s0 s) :
    Integrity s ∧ ∀ e, machine.enabled s e → CarefulEvent s e → ∀ bug, machine.step s e = .error bug → bug.elsewhere :=
  have intact := intact_of_reaches booted reached
  ⟨intact.layered.integrity, fun _ enabled careful _ stopped => (step_sat intact enabled careful).error stopped⟩

end Steps

/-- Devzero, and a task 1 that may map from page 0x110 on. -/
def bootState : Mm :=
  { npages := fun _ => 0, nlinks := fun _ => 0, shadows := fun _ => 0, shref := fun _ => none
    shdwList := fun _ => [], linkList := fun _ => [], origObj := fun _ => none
    kind := fun _ => .file .devzero 0 0xFFFFF000
    write := fun _ => false, dirty := fun _ => false, pageCache := fun _ => []
    objects := [0], objectsTotal := 1, files := [0], filesTotal := 1
    zpage := { frame := 0, owner := 0, offset := 0, refcnt := 0 }
    vma := fun _ => { pfnStart := 0, pfnEnd := 0, flags := {}, fileOffset := 0 }
    chain := fun _ => []
    task := fun t => if t = 1 then
      some { vmas := [], startAddr := 0x100000, endAddr := 0x200000, mapStart := 0x110000, mapEnd := 0x200000 } else none
    regions := { shmemStart := 0, shmemEnd := 0, utcbStart := 0, utcbEnd := 0 }
    pte := fun _ _ => none, mem := fun _ _ => 0, vnode := fun _ _ => none }

theorem bootState_booted : Booted bootState := by
  constructor
  · exact fun _ => rfl
  · intro t
    by_cases here : t = 1 <;> simp [vmasOf, bootState, here]
  · exact fun _ _ => ⟨rfl, rfl⟩
  · exact fun _ _ => ⟨rfl, rfl⟩
  · exact fun _ _ => ⟨rfl, rfl, rfl⟩
  · exact ⟨by decide, rfl, by decide, rfl, fun o => by simp [bootState, isShadow, Kind.isShadow]⟩
  · exact fun _ _ => List.nodup_nil
  · exact ⟨fun _ _ _ => rfl, fun _ _ _ mem => absurd mem List.not_mem_nil⟩

/-- Anonymous private memory of `npages` pages. -/
def anonymous (npages : Nat) (vma split : VmaId) : MmapArgs :=
  { file := none, fileOffset := 0, addr := 0, npages := npages, vma := vma, split := split, shmAddr := 0
    flags := { read := true, write := true, priv := true, anonymous := true } }

/-- The first access to a page faults twice: once to read and once to write. -/
def touch (t : TaskId) (pfn : Pfn) (fresh : Fresh) : List Event := [.fault t pfn false fresh, .fault t pfn false fresh]

/-- Pages 0 and 1 of four are written, then page 0 once more after a fork. -/
def writtenTwice : List Event :=
  [.mmap 1 (anonymous 4 10 11)] ++ touch 1 0x110 ⟨1, 1, 2⟩ ++ touch 1 0x111 ⟨3, 3, 4⟩ ++
    [.fork 1 2 [20], .fault 1 0x110 false ⟨2, 5, 6⟩]

theorem integrity_of_careful_split : ∃ s, machine.ReachesUnder CarefulEvent bootState s ∧
    s.chain 10 = [2, 1, 0] ∧ s.chain 12 = [2, 1, 0] ∧ s.chain 20 = [1, 0] ∧ Integrity s := by
  have run : (machine.runUnder CarefulEvent (writtenTwice ++ [.munmap 1 0x112 0x113 12]) bootState).map
      (fun s => (s.chain 10, s.chain 12, s.chain 20)) = some ([2, 1, 0], [2, 1, 0], [1, 0]) := by decide +kernel
  obtain ⟨s, ran, chains⟩ := Option.map_eq_some_iff.mp run
  simp only [Prod.mk.injEq] at chains
  have reached := machine.reachesUnder_of_runUnder ran
  exact ⟨s, reached, chains.1, chains.2.1, chains.2.2, (integrity_of_careful bootState_booted reached).1⟩

/-- Page 2 is unmapped, so that two vmas of the parent share the writable shadow, and page 1 is written through one
of them: the shadow under it is dropped from this stack only. Later the other stack cannot be taken down. -/
theorem integrity_lost : Booted bootState ∧ (∃ s, machine.Reaches bootState s ∧ ¬ Integrity s) ∧
    ∃ s, machine.Reaches bootState s ∧ machine.enabled s (.munmap 1 0x113 0x114 13) ∧
      machine.step s (.munmap 1 0x113 0x114 13) = .error .dropMergeDelete := by
  have first : (machine.run (writtenTwice ++ [.munmap 1 0x112 0x113 12, .fault 1 0x111 false ⟨3, 7, 8⟩]) bootState).map
      (fun s => (s.chain 12, isShadow s 2, s.origObj 2)) = some ([2, 1, 0], true, some 0) := by decide +kernel
  have second : (machine.run (writtenTwice ++ [.munmap 1 0x112 0x113 12, .fault 1 0x111 false ⟨3, 7, 8⟩,
      .munmap 1 0x110 0x112 13]) bootState).map (fun s => (decide (machine.enabled s (.munmap 1 0x113 0x114 13)),
        match machine.step s (.munmap 1 0x113 0x114 13) with
        | .ok _ => none
        | .error bug => some bug)) = some (true, some .dropMergeDelete) := by decide +kernel
  refine ⟨bootState_booted, ?_, ?_⟩
  · obtain ⟨s, ran, facts⟩ := Option.map_eq_some_iff.mp first
    simp only [Prod.mk.injEq] at facts
    refine ⟨s, machine.reaches_of_run ran, fun law => ?_⟩
    have on : Over (s.chain 12) 2 1 := by
      rw [facts.1]
      exact Stack.over_cons_cons.mpr (.inl ⟨rfl, rfl⟩)
    have := law.orig 12 2 1 on facts.2.1
    rw [facts.2.2] at this
    exact absurd this (by decide)
  · obtain ⟨s, ran, facts⟩ := Option.map_eq_some_iff.mp second
    simp only [Prod.mk.injEq, decide_eq_true_eq] at facts
    refine ⟨s, machine.reaches_of_run ran, facts.1, ?_⟩
    cases stepped : machine.step s (.munmap 1 0x113 0x114 13) with
    | ok s' => simp [stepped] at facts
    | error bug => simpa [stepped] using facts.2

/-- **Ranges and layers stay in order.** In every such run a task's vmas are its own and apart, no object has two pages for
one offset, every stack of a vma ends in a file and can be written at its top only, and no shadow outlives the stacks. -/
theorem layers_of_careful {s0 s : Mm} (booted : Booted s0) (reached : machine.ReachesUnder CarefulEvent s0 s) :
    (∀ t t' v w, v ∈ vmasOf s t → w ∈ vmasOf s t' → if v = w then t = t' else t = t' → (s.vma v).Apart (s.vma w)) ∧
    (∀ o ∈ s.objects, ((s.pageCache o).map Page.offset).Nodup) ∧
    (∀ t, ∀ v ∈ vmasOf s t, ∃ file ∈ s.files, (s.chain v).getLast? = some file) ∧
    (∀ v, (∀ o ∈ s.chain v, o ∈ s.objects) ∧ ∀ o ∈ (s.chain v).tail, s.write o = false) ∧
    ∀ o ∈ s.objects, isShadow s o = true → ∃ v, o ∈ s.chain v := by
  obtain ⟨layered, held⟩ := intact_of_reaches booted reached
  have sound := layered.sound
  refine ⟨fun t t' v w memv memw => ?_, sound.oneEach, fun t v mem => ?_, fun v => ⟨sound.links.alive v, layered.tops v⟩,
    layered.tidy⟩
  · split
    · next same => exact held.one t t' v memv (same ▸ memw)
    · next ne =>
      rintro rfl
      exact (held.each t).apart v memv w memw ne
  · have last := List.getLast?_eq_some_getLast ((held.each t).mapped v mem)
    refine ⟨_, (sound.globals.fileObjects _).mpr ⟨?_, sound.ordered.ends v _ last⟩, last⟩
    exact sound.links.alive v _ (List.getLast_mem _)

theorem layers_of_careful_fork : ∃ s, machine.ReachesUnder CarefulEvent bootState s ∧ s.chain 10 = [2, 1, 0] ∧ s.write 1 = false := by
  have run : (machine.runUnder CarefulEvent writtenTwice bootState).map (fun s => s.chain 10) = some [2, 1, 0] := by decide +kernel
  obtain ⟨s, ran, chain⟩ := Option.map_eq_some_iff.mp run
  have reached := machine.reachesUnder_of_runUnder ran
  exact ⟨s, reached, chain, ((layers_of_careful bootState_booted reached).2.2.2.1 10).2 1 (by simp [chain])⟩

end Codezero.Mm0
