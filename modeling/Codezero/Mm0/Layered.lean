import Codezero.Mm0.Collapse
import Codezero.Mm0.Walk

/-!
# Writable shadows stand on top

Beside being sound, a state of private mappings has writable objects only at the top of stacks, and keeps no
shadow without a link. Faults keep this.
-/

namespace Codezero.Mm0
open Codezero.Lib
open Codezero.Lib.Stack (Over)
open Function (update update_of_ne update_self)

structure Layered (s : Mm) : Prop where
  sound : Sound s
  tidy : ∀ o ∈ s.objects, isShadow s o = true → Linked s o
  tops : ∀ v, ∀ o ∈ (s.chain v).tail, s.write o = false
  files : ∀ o ∈ s.objects, isShadow s o = false → s.write o = false

/-- What a fault leaves of the tasks' view: the same vmas, none of them without an object. -/
structure Steady (s s' : Mm) : Prop where
  task : s'.task = s.task
  vma : s'.vma = s.vma
  mapped : ∀ v, s.chain v ≠ [] → s'.chain v ≠ []
  unused : ∀ v, s.chain v = [] → s'.chain v = []

namespace Steady
variable {s s' s'' : Mm}

theorem refl : Steady s s := ⟨rfl, rfl, fun _ h => h, fun _ h => h⟩

theorem trans (first : Steady s s') (second : Steady s' s'') : Steady s s'' :=
  ⟨second.task.trans first.task, second.vma.trans first.vma, fun v h => second.mapped v (first.mapped v h),
    fun v h => second.unused v (first.unused v h)⟩

theorem of_chain (task : s'.task = s.task) (vma : s'.vma = s.vma) (chain : s'.chain = s.chain) : Steady s s' :=
  ⟨task, vma, fun v h => by rwa [chain], fun v h => by rwa [chain]⟩

end Steady

namespace Layered
variable {s s' : Mm}

variable (layered : Layered s)
include layered

/-- Layers stay as they are where stacks, objects and their flags do. -/
theorem of_same (sound : Sound s') (chain : s'.chain = s.chain) (objects : s'.objects = s.objects)
    (kind : s'.kind = s.kind) (write : s'.write = s.write) : Layered s' := by
  have shadow : ∀ o, isShadow s' o = isShadow s o := fun o => by rw [isShadow, isShadow, kind]
  refine ⟨sound, ?_, ?_, ?_⟩
  · intro o live isShadow
    rw [objects] at live
    obtain ⟨v, mem⟩ := layered.tidy o live ((shadow o).symm.trans isShadow)
    exact ⟨v, by rwa [chain]⟩
  · rw [chain, write]
    exact layered.tops
  · intro o live file
    rw [objects] at live
    rw [write]
    exact layered.files o live ((shadow o).symm.trans file)

theorem beside (same : Beside s s') (write : ∀ o, s.write o = false → s'.write o = false) : Layered s' := by
  refine ⟨same.sound layered.sound, ?_, ?_, ?_⟩
  · intro o live shadow
    rw [same.objects] at live
    rw [same.isShadow] at shadow
    obtain ⟨v, mem⟩ := layered.tidy o live shadow
    exact ⟨v, by rwa [same.chain]⟩
  · intro v o mem
    rw [same.chain] at mem
    exact write o (layered.tops v o mem)
  · intro o live file
    rw [same.objects] at live
    rw [same.isShadow] at file
    exact write o (layered.files o live file)

/-- A writable object in a stack is a shadow at its top. -/
theorem writable {v : VmaId} {o : ObjId} (mem : o ∈ s.chain v) (write : s.write o = true) :
    isShadow s o = true ∧ ∃ below, s.chain v = o :: below := by
  constructor
  · cases shadow : isShadow s o with
    | true => rfl
    | false => simp [layered.files o (layered.sound.links.alive v o mem) shadow] at write
  · cases stack : s.chain v with
    | nil => simp [stack] at mem
    | cons top below =>
      rw [stack] at mem
      rcases List.mem_cons.mp mem with rfl | mem
      · exact ⟨below, rfl⟩
      · simp [layered.tops v o (by simpa [stack] using mem)] at write

theorem paged {o : ObjId} {off : Pfn} {frame : Frame} {r : Option Page}
    (paged : PagedIn s o off frame s' r) (live : o ∈ s.objects) : Layered s' ∧ Steady s s' := by
  have state := paged.state
  constructor
  · exact layered.of_same (paged.sound layered.sound live) (by rw [state]) (by rw [state]) (by rw [state])
      (by rw [state])
  · exact .of_chain (by rw [state]) (by rw [state]) (by rw [state])

theorem walked {v : VmaId} {stack : List ObjId} {off : Pfn} {frame : Frame} {p : Page}
    (walked : Walked s stack off frame s' p) (sub : ∀ o ∈ stack, o ∈ s.chain v) : Layered s' ∧ Steady s s' := by
  obtain ⟨o, pre, post, rfl, -, paged⟩ := walked.split
  exact layered.paged paged (layered.sound.links.alive v o (sub o (by simp)))

/-! ## A new shadow -/

theorem withShadow {v : VmaId} {top new : ObjId} {below : List ObjId}
    (stack : s.chain v = top :: below) (dead : new ∉ s.objects) (readonly : s.write top = false) :
    Layered (withShadow s v top new) ∧ Steady s (Mm0.withShadow s v top new) := by
  have old : ∀ {w x}, x ∈ s.chain w → x ≠ new := fun mem same => dead (same ▸ layered.sound.links.alive _ _ mem)
  have write : ∀ {x}, x ≠ new → (Mm0.withShadow s v top new).write x = s.write x := fun ne => update_of_ne ne ..
  refine ⟨⟨WithShadow.sound layered.sound stack dead, ?_, ?_, ?_⟩, rfl, rfl, ?_, ?_⟩
  · intro o live shadow
    by_cases isNew : o = new
    · exact ⟨v, by rw [WithShadow.chain_self, isNew]; exact List.mem_cons_self⟩
    · rw [WithShadow.isShadow_of_ne isNew] at shadow
      obtain ⟨w, mem⟩ := layered.tidy o ((List.mem_cons.mp live).resolve_left isNew) shadow
      refine ⟨w, ?_⟩
      by_cases here : w = v
      · subst here
        rw [WithShadow.chain_self]
        exact List.mem_cons_of_mem new mem
      · rwa [WithShadow.chain_of_ne here]
  · intro w o mem
    by_cases here : w = v
    · subst here
      rw [WithShadow.chain_self, List.tail_cons] at mem
      rw [write (old mem)]
      rw [stack] at mem
      rcases List.mem_cons.mp mem with rfl | mem
      · exact readonly
      · exact layered.tops w o (by simpa [stack] using mem)
    · rw [WithShadow.chain_of_ne here] at mem
      rw [write (old (List.mem_of_mem_tail mem))]
      exact layered.tops w o mem
  · intro o live file
    have isOld : o ≠ new := by
      rintro rfl
      rw [WithShadow.isShadow_self] at file
      exact Bool.noConfusion file
    rw [WithShadow.isShadow_of_ne isOld] at file
    rw [write isOld]
    exact layered.files o ((List.mem_cons.mp live).resolve_left isOld) file
  · intro w mapped
    by_cases here : w = v
    · rw [here, WithShadow.chain_self]
      exact List.cons_ne_nil _ _
    · rwa [WithShadow.chain_of_ne here]
  · intro w unused
    have here : w ≠ v := by
      rintro rfl
      simp [stack] at unused
    rwa [WithShadow.chain_of_ne here]

/-! ## Links copied -/

theorem copyLinks {v : VmaId} {stack : List ObjId} (free : s.chain v = []) (fits : Fits s stack)
    (tops : ∀ o ∈ stack.tail, s.write o = false) :
    Layered (vmaCopyLinks s v stack) ∧ Attached s (vmaCopyLinks s v stack) v stack := by
  obtain ⟨sound, attached⟩ := layered.sound.copyLinks free fits
  generalize vmaCopyLinks s v stack = s' at sound attached ⊢
  have own : s'.chain v = stack := by
    rw [attached]
    exact update_self ..
  have other : ∀ w, w ≠ v → s'.chain w = s.chain w := fun w ne => by
    rw [attached]
    exact update_of_ne ne ..
  have shadow : ∀ o, isShadow s' o = isShadow s o := fun o => by rw [attached]; rfl
  have write : s'.write = s.write := by rw [attached]
  refine ⟨⟨sound, ?_, ?_, ?_⟩, attached⟩
  · intro o live layer
    have live : o ∈ s.objects := by rwa [attached] at live
    rw [shadow] at layer
    obtain ⟨w, mem⟩ := layered.tidy o live layer
    have here : w ≠ v := fun same => by simp [same, free] at mem
    exact ⟨w, by rwa [other w here]⟩
  · intro w o mem
    rw [write]
    by_cases here : w = v
    · rw [here, own] at mem
      exact tops o mem
    · rw [other w here] at mem
      exact layered.tops w o mem
  · intro o live file
    have live : o ∈ s.objects := by rwa [attached] at live
    rw [write]
    rw [shadow] at file
    exact layered.files o live file

/-! ## A link dropped -/

/-- Layers stay where a link is dropped and the object it referred to is dealt with. -/
theorem settled {s1 : Mm} {o : ObjId} {v : VmaId} {rest : List ObjId} (sound : Sound s1)
    (relinked : Relinked s s1) (chain : s1.chain = update s.chain v rest) (linked : o ∈ s.chain v)
    (keeps : ∀ x ∈ s.chain v, x ≠ o → x ∈ rest) (tail : ∀ x ∈ rest.tail, x ∈ (s.chain v).tail)
    (settled : Settled s1 o s') : Layered s' := by
  have live : o ∈ s1.objects := relinked.objects ▸ layered.sound.links.alive v o linked
  have reshaped : Reshaped s s' := relinked.reshaped.trans settled.reshaped
  obtain ⟨gone, others⟩ := settled.gone sound live
  have own : s1.chain v = rest := by rw [chain, update_self]
  have elsewhere : ∀ w, w ≠ v → s1.chain w = s.chain w := fun w ne => by rw [chain, update_of_ne ne]
  refine ⟨settled.sound sound live, ?_, ?_, ?_⟩
  · intro x live' shadow
    rw [reshaped.isShadow] at shadow
    by_cases iso : x = o
    · subst iso
      by_contra unlinked
      refine gone.mpr ⟨unlinked, ?_⟩ live'
      rw [spared, relinked.reshaped.kind]
      cases kind : s.kind x <;> simp_all [isShadow, Kind.isShadow]
    · have live := (others x iso).mp live'
      rw [relinked.objects] at live
      obtain ⟨w, here⟩ := layered.tidy x live shadow
      refine ⟨w, (settled.linked iso).mpr ?_⟩
      by_cases same : w = v
      · rw [same, own]
        exact keeps x (same ▸ here) iso
      · rwa [elsewhere w same]
  · intro w x mem
    rw [reshaped.write]
    have mem := (settled.tail w).1 x mem
    by_cases here : w = v
    · rw [here, own] at mem
      exact layered.tops v x (tail x mem)
    · rw [elsewhere w here] at mem
      exact layered.tops w x mem
  · intro x live' file
    rw [reshaped.write]
    rw [reshaped.isShadow] at file
    refine layered.files x ?_ file
    by_cases iso : x = o
    · rw [iso]
      exact relinked.objects ▸ live
    · exact relinked.objects ▸ (others x iso).mp live'

theorem topDropped {s1 : Mm} {o : ObjId} {v : VmaId} {rest : List ObjId}
    (dropped : TopDropped s v o rest s1 s') : Layered s' := by
  have stack := dropped.stack
  refine layered.settled dropped.sound dropped.relinked dropped.chain (by simp [stack]) (fun x mem ne => ?_)
    (fun x mem => ?_) dropped.settled
  · rw [stack] at mem
    exact (List.mem_cons.mp mem).resolve_left ne
  · rw [stack]
    exact List.mem_of_mem_tail mem

theorem emptied {v : VmaId} (emptied : Emptied v s s') : Layered s' := by
  induction emptied with
  | done => exact layered
  | next dropped _ rest => exact rest (layered.topDropped dropped)

end Layered

/-! ## Copy on write -/

/-- A write fault at offset `off` that fills a writable shadow up to the page count of the shadow under it finds
it in this stack only. -/
def Careful (s : Mm) (v : VmaId) (off : Pfn) : Prop :=
  match s.chain v with
  | top :: under :: _ =>
    s.write top = true → isShadow s under = true → findPage s top off = none → s.npages top + 1 = s.npages under →
      s.nlinks top = 1
  | _ => True

instance (s : Mm) (v : VmaId) (off : Pfn) : Decidable (Careful s v off) := by
  unfold Careful
  split <;> infer_instance

/-- The shadow that takes the copy and the objects below it, once a new shadow is made where one is needed. -/
inductive Ready (s : Mm) (v : VmaId) (off : Pfn) (new : ObjId) : Mm → ObjId → List ObjId → Prop
  | make {top : ObjId} {below : List ObjId} (stack : s.chain v = top :: below) (readonly : s.write top = false) :
      Ready s v off new (withShadow s v top new) new (top :: below)
  | use {top next : ObjId} {below : List ObjId} (stack : s.chain v = top :: next :: below)
      (writable : s.write top = true) (free : findPage s top off = none) : Ready s v off new s top (next :: below)

/-- How the search for a redundant object ends. -/
inductive Collapsed (s : Mm) (v : VmaId) (shadow : ObjId) : Mm → Prop
  | kept : Collapsed s v shadow s
  | dropped {o n : ObjId} {rest : List ObjId} {s1 s' : Mm} (drop : Droppable s v shadow o n rest)
      (equal : s.npages shadow = s.npages o) (sound : Sound s1) (relinked : Relinked s s1)
      (chain : s1.chain = update s.chain v (shadow :: n :: rest)) (settled : Settled s1 o s') :
      Collapsed s v shadow s'

/-- What `copy_on_write` does: the page is there already, or it is copied into the top shadow. -/
inductive CopiedOnWrite (s : Mm) (v : VmaId) (off : Pfn) (fresh : Fresh) : Mm → Page → Prop
  | present {top : ObjId} {below : List ObjId} {p : Page} (stack : s.chain v = top :: below)
      (writable : s.write top = true) (found : findPage s top off = some p) : CopiedOnWrite s v off fresh s p
  | copied {s1 s2 s3 s' : Mm} {shadow : ObjId} {below : List ObjId} {q : Page} {pages : List Page}
      (ready : Ready s v off fresh.shadow s1 shadow below) (walked : Walked s1 below off fresh.paged s2 q)
      (added : Added { s2 with mem := update s2.mem fresh.copied (s2.mem q.frame) } shadow
        (.read shadow off fresh.copied) pages s3)
      (collapsed : Collapsed s3 v shadow s') : CopiedOnWrite s v off fresh s' (.read shadow off fresh.copied)

section CopyOnWrite
variable {s s1 s' : Mm} {v : VmaId} {off : Pfn} {fresh : Fresh} {shadow : ObjId} {below : List ObjId}

/-- Where the copy will go, and what is still to be said about it. -/
structure Target (s : Mm) (v : VmaId) (off : Pfn) (shadow : ObjId) (below : List ObjId) : Prop where
  layered : Layered s
  stack : s.chain v = shadow :: below
  nonempty : below ≠ []
  layer : isShadow s shadow = true
  writable : s.write shadow = true
  free : findPage s shadow off = none
  careful : Careful s v off

theorem Ready.target (ready : Ready s v off fresh.shadow s1 shadow below) (layered : Layered s)
    (dead : fresh.shadow ∉ s.objects) (careful : Careful s v off) : Target s1 v off shadow below ∧ Steady s s1 := by
  cases ready with
  | @make top below stack readonly =>
    obtain ⟨layered', steady⟩ := layered.withShadow stack dead readonly
    have chain : (withShadow s v top fresh.shadow).chain v = fresh.shadow :: top :: below := by
      rw [WithShadow.chain_self, stack]
    refine ⟨⟨layered', chain, List.cons_ne_nil _ _, WithShadow.isShadow_self, update_self .., ?_, ?_⟩, steady⟩
    · simp [findPage, withShadow]
    · unfold Careful
      rw [chain]
      exact fun _ _ _ _ => update_self ..
  | use stack writable free =>
    obtain ⟨isShadow, -⟩ := layered.writable (v := v) (o := shadow) (by simp [stack]) writable
    exact ⟨⟨layered, stack, List.cons_ne_nil _ _, isShadow, writable, free, careful⟩, .refl⟩

/-- The walk and the copy leave the target as it was but for the page. -/
theorem Target.copied {q : Page} {pages : List Page} {s2 s3 : Mm} (target : Target s v off shadow below)
    (walked : Walked s below off fresh.paged s2 q)
    (added : Added { s2 with mem := update s2.mem fresh.copied (s2.mem q.frame) } shadow
      (.read shadow off fresh.copied) pages s3) :
    Layered s3 ∧ Steady s s3 ∧ s3.chain v = shadow :: below ∧ s3.npages shadow = s.npages shadow + 1 ∧
      (∀ o, o ≠ shadow → isShadow s o = true → s3.npages o = s.npages o) ∧ s3.kind = s.kind ∧ s3.write = s.write ∧
      s3.nlinks = s.nlinks := by
  have live : shadow ∈ s.objects := target.layered.sound.links.alive v shadow (by simp [target.stack])
  obtain ⟨layered2, steady⟩ := target.layered.walked (v := v) walked (fun o mem => by simp [target.stack, mem])
  obtain ⟨o, pre, post, -, -, paged⟩ := walked.split
  have state := paged.state
  obtain ⟨cache, count⟩ := paged.shadow_pages target.layer
  have kind2 : s2.kind = s.kind := by rw [state]
  let t : Mm := { s2 with mem := update s2.mem fresh.copied (s2.mem q.frame) }
  have free : findPage t shadow (Page.read shadow off fresh.copied).offset = none := by
    have same : t.pageCache shadow = s.pageCache shadow := cache
    rw [findPage, same]
    exact target.free
  have live2 : shadow ∈ t.objects := by
    have : s2.objects = s.objects := by rw [state]
    exact this ▸ live
  have sound : Sound s3 := ((show Beside s2 t from rfl).sound layered2.sound).added added free live2 rfl
  have same := added.state
  have chain : s3.chain = s2.chain := by rw [same]
  refine ⟨layered2.of_same sound chain (by rw [same]) (by rw [same]) (by rw [same]), ?_, ?_, ?_, ?_, ?_, ?_, ?_⟩
  · exact steady.trans (.of_chain (by rw [same]) (by rw [same]) chain)
  · rw [chain, state]
    exact target.stack
  · rw [same]
    simp [count]
  · intro x ne isShadow
    rw [same]
    simp only [update_of_ne ne]
    exact (paged.shadow_pages isShadow).2
  · rw [same]
    exact kind2
  · rw [same, state]
  · rw [same, state]

theorem collapse_sat (layered : Layered s) (stack : s.chain v = shadow :: below) (nonempty : below ≠ [])
    (layer : isShadow s shadow = true) (writable : s.write shadow = true) (personal : (s.vma v).flags.shared = false)
    (alone : ∀ o rest, below = o :: rest → isShadow s o = true → s.npages shadow = s.npages o → s.nlinks shadow = 1) :
    Sat (collapse s v shadow) (Collapsed s v shadow) Bug.elsewhere := by
  cases below with
  | nil => exact absurd rfl nonempty
  | cons o rest =>
    have under : (s.chain v)[1]? = some o := by simp [stack]
    unfold collapse
    rw [personal, under]
    simp only [Bool.false_eq_true, if_false]
    split
    · next droppable =>
      obtain ⟨equal, isShadow⟩ : s.npages shadow = s.npages o ∧ isShadow s o = true := by
        simpa [vmObjectIsDroppable] using droppable
      obtain ⟨n, rest, rfl⟩ : ∃ n rest', rest = n :: rest' := by
        cases rest with
        | nil => simp [layered.sound.ordered.ends v o (by simp [stack])] at isShadow
        | cons n rest => exact ⟨n, rest, rfl⟩
      have drop : Droppable s v shadow o n rest := ⟨stack, layer, isShadow, alone o _ rfl isShadow equal⟩
      obtain ⟨s1, s', ran, sound, relinked, chain, settled⟩ := layered.sound.drop_under drop writable
      rw [ran]
      exact .dropped drop equal sound relinked chain settled
    · exact .kept

theorem Collapsed.layered (collapsed : Collapsed s v shadow s') (layered : Layered s) : Layered s' ∧ Steady s s' := by
  cases collapsed with
  | kept => exact ⟨layered, .refl⟩
  | @dropped o n rest s1 s' drop equal sound relinked chain settled =>
    have stack := drop.stack
    have reshaped : Reshaped s s' := relinked.reshaped.trans settled.reshaped
    constructor
    · refine layered.settled sound relinked chain (by simp [stack]) (fun x mem ne => ?_) (fun x mem => ?_) settled
      · rw [stack] at mem
        simp only [List.mem_cons] at mem ⊢
        exact mem.imp_right (fun mem => mem.resolve_left ne)
      · rw [stack]
        exact List.mem_cons_of_mem o mem
    · have empty : ∀ w, s1.chain w = [] ↔ s.chain w = [] := fun w => by
        rw [chain]
        by_cases here : w = v
        · subst here
          simp [stack]
        · rw [update_of_ne here]
      exact ⟨by rw [reshaped], by rw [reshaped],
        fun w mapped => fun none => mapped ((empty w).mp ((settled.tail w).2.mp none)),
        fun w unused => (settled.tail w).2.mpr ((empty w).mpr unused)⟩

theorem copyFrom_sat (target : Target s v off shadow below) (personal : (s.vma v).flags.shared = false) :
    Sat (copyFrom s v shadow below off fresh) (fun r => (∃ s2 s3 q pages, Walked s below off fresh.paged s2 q ∧
      Added { s2 with mem := update s2.mem fresh.copied (s2.mem q.frame) } shadow
        (.read shadow off fresh.copied) pages s3 ∧ Collapsed s3 v shadow r.1 ∧ r.2 = .read shadow off fresh.copied) ∧
      Layered r.1 ∧ Steady s r.1) Bug.elsewhere := by
  unfold copyFrom
  refine walk_sat.bind (fun r walked => ?_)
  obtain ⟨s2, q⟩ := r
  obtain ⟨o, pre, post, -, -, paged⟩ := walked.split
  let t : Mm := { s2 with mem := update s2.mem fresh.copied (s2.mem q.frame) }
  have free : findPage t shadow (Page.read shadow off fresh.copied).offset = none := by
    have same : t.pageCache shadow = s.pageCache shadow := (paged.shadow_pages target.layer).1
    rw [findPage, same]
    exact target.free
  obtain ⟨pages, s3, ran, added⟩ := addPage_added free
  have copied : copyPage s2 shadow q off fresh.copied = .ok (s3, .read shadow off fresh.copied) := by
    unfold copyPage
    have : addPage t shadow { frame := fresh.copied, owner := shadow, offset := off, refcnt := 0 } = .ok s3 := ran
    simp only [t] at this
    simp only [this, bind, Except.bind]
    rfl
  simp only [copied, bind, Except.bind]
  obtain ⟨layered3, steady, stack, count, counts, kind, write, nlinks⟩ := target.copied walked added
  have collapse := collapse_sat layered3 stack target.nonempty
    (by rw [isShadow, kind]; exact target.layer) (by rw [write]; exact target.writable)
    (by rw [steady.vma]; exact personal)
    (fun o rest eq isShadow' equal => by
      have layer : isShadow s o = true := by rwa [isShadow, kind] at isShadow'
      have ne : o ≠ shadow := by
        rintro rfl
        have := target.layered.tops v o (by simp [target.stack, eq])
        simp [target.writable] at this
      have careful := target.careful
      unfold Careful at careful
      rw [target.stack, eq] at careful
      rw [nlinks]
      refine careful target.writable layer target.free ?_
      rw [← count, equal, counts o ne layer])
  refine Sat.bind (P := fun s' => Collapsed s3 v shadow s') collapse (fun s' collapsed => ?_)
  obtain ⟨layered', steady'⟩ := collapsed.layered layered3
  exact ⟨⟨s2, s3, q, pages, walked, added, collapsed, rfl⟩, layered', steady.trans steady'⟩

/-- `copy_on_write` on a private vma keeps the layers. -/
theorem copyOnWrite_sat (layered : Layered s) (dead : fresh.shadow ∉ s.objects) (careful : Careful s v off)
    (personal : (s.vma v).flags.shared = false) :
    Sat (copyOnWrite s v off fresh) (fun r => CopiedOnWrite s v off fresh r.1 r.2 ∧ Layered r.1 ∧ Steady s r.1)
      Bug.elsewhere := by
  -- Both ways to the copy end alike.
  have finish : ∀ {s1 : Mm} {shadow : ObjId} {below : List ObjId}, Ready s v off fresh.shadow s1 shadow below →
      Sat (copyFrom s1 v shadow below off fresh)
        (fun r => CopiedOnWrite s v off fresh r.1 r.2 ∧ Layered r.1 ∧ Steady s r.1) Bug.elsewhere := by
    intro s1 shadow below ready
    obtain ⟨target, steady⟩ := ready.target layered dead careful
    refine (copyFrom_sat target (by rw [steady.vma]; exact personal)).mono (fun r done => ?_)
    obtain ⟨⟨s2, s3, q, pages, walked, added, collapsed, page⟩, layered', steady'⟩ := done
    refine ⟨?_, layered', steady.trans steady'⟩
    rw [page]
    exact .copied ready walked added collapsed
  unfold copyOnWrite
  split
  · exact trivial
  · next top below stack =>
    cases writable : s.write top with
    | false =>
      have ne : top ≠ fresh.shadow :=
        fun same => dead (same ▸ layered.sound.links.alive v top (by simp [stack]))
      simp only [Bool.false_eq_true, if_false, createShadow_eq dead ne, bind, Except.bind]
      exact finish (.make stack writable)
    | true =>
      obtain ⟨layer, -⟩ := layered.writable (v := v) (o := top) (by simp [stack]) writable
      have swap : pageIn s top off fresh.paged = .ok (s, findPage s top off) := by
        unfold pageIn
        cases kind : s.kind top with
        | shadow => rfl
        | file => simp [isShadow, kind, Kind.isShadow] at layer
      simp only [if_true, swap, bind, Except.bind]
      cases found : findPage s top off with
      | some p => exact ⟨.present stack writable found, layered, .refl⟩
      | none =>
        cases below with
        | nil => exact trivial
        | cons next below =>
          have readonly := layered.tops v next (by simp [stack])
          simp only [readonly, Bool.false_eq_true, if_false]
          exact finish (.use stack writable found)

end CopyOnWrite

end Codezero.Mm0
