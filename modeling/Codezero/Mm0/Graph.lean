import Codezero.Mm0.Fault
import Codezero.Lib.Stack

/-!
# Well-formed stacks of objects

The counts and lists of the objects agree with the stacks of the vmas, and each shadow stands over the object
it shadows. The steps of `vma_drop_merge_delete` are shown to keep this one by one.
-/

namespace Codezero.Mm0
open Codezero.Lib
open Codezero.Lib.Stack (Over)

/-- The page an object's pager has at an offset. -/
inductive Found
  | cached (frame : Frame)
  /-- A page of a file that is not in memory yet. -/
  | unread (o : ObjId) (off : Pfn)
  deriving DecidableEq, Repr

def yields (s : Mm) (o : ObjId) (off : Pfn) : Option Found :=
  match s.kind o with
  | .shadow => (findPage s o off).map (fun p => .cached p.frame)
  | .file .shm _ _ => (findPage s o off).map (fun p => .cached p.frame)
  | .file .vfs _ _ =>
    match findPage s o off with
    | some p => some (.cached p.frame)
    | none => (s.vnode o off).map (fun _ => .unread o off)
  | .file .devzero _ _ => some (.cached s.zpage.frame)

/-- The page that the walk down `v`'s stack finds. -/
def chainYields (s : Mm) (v : VmaId) (off : Pfn) : Option Found := Stack.lookup (yields s) (s.chain v) off

def isDevzero (s : Mm) (o : ObjId) : Bool :=
  match s.kind o with
  | .file .devzero _ _ => true
  | _ => false

/-- The links on an object's list are those of the vmas' stacks, and they are counted. -/
structure Links (s : Mm) : Prop where
  alive : ∀ v, ∀ o ∈ s.chain v, o ∈ s.objects
  links : ∀ o ∈ s.objects, ∀ v, (s.linkList o).count v = (s.chain v).count o
  nlinks : ∀ o ∈ s.objects, s.nlinks o = (s.linkList o).length

/-- An object hangs on one list of shadows at most, and these lists are counted. -/
structure Shrefs (s : Mm) : Prop where
  shadowed : ∀ b ∈ s.objects, ∀ a ∈ s.shdwList b, a ∈ s.objects ∧ s.shref a = some b
  hangs : ∀ a ∈ s.objects, ∀ b, s.shref a = some b → b ∈ s.objects ∧ a ∈ s.shdwList b
  once : ∀ b ∈ s.objects, (s.shdwList b).Nodup
  shadows : ∀ b ∈ s.objects, s.shadows b = (s.shdwList b).length

/-- In every stack a shadow stands over the object it shadows, and a non-shadow is at the bottom. -/
structure Ordered (s : Mm) : Prop where
  orig : ∀ v a b, Over (s.chain v) a b → isShadow s a = true → s.origObj a = some b
  listed : ∀ v a b, Over (s.chain v) a b → isShadow s a = true → a ∈ s.shdwList b
  ends : ∀ v o, (s.chain v).getLast? = some o → isShadow s o = false

/-- The global lists of objects and files. -/
structure Globals (s : Mm) : Prop where
  objects : s.objects.Nodup
  objectsTotal : s.objectsTotal = s.objects.length
  files : s.files.Nodup
  filesTotal : s.filesTotal = s.files.length
  fileObjects : ∀ o, o ∈ s.files ↔ o ∈ s.objects ∧ isShadow s o = false

/-- No object has two pages at one offset. -/
def OneEach (s : Mm) : Prop := ∀ o ∈ s.objects, ((s.pageCache o).map Page.offset).Nodup

/-- The cached pages are counted, and nothing else holds on to them. -/
structure Counted (s : Mm) : Prop where
  npages : ∀ o ∈ s.objects, isDevzero s o = false → s.npages o = (s.pageCache o).length
  refcnt : ∀ o ∈ s.objects, ∀ p ∈ s.pageCache o, p.refcnt = 0

/-- Whoever hangs on an object's list of shadows is a shadow that stands over it in some stack. -/
def Standing (s : Mm) : Prop :=
  ∀ b ∈ s.objects, ∀ a ∈ s.shdwList b, isShadow s a = true ∧ ∃ v, Over (s.chain v) a b

structure WellFormed (s : Mm) : Prop where
  links : Links s
  shrefs : Shrefs s
  ordered : Ordered s
  globals : Globals s
  oneEach : OneEach s

structure Sound (s : Mm) : Prop extends WellFormed s where
  standing : Standing s
  counted : Counted s

/-! ## Reading the links -/

namespace Links
variable {s : Mm} {v w : VmaId} {o : ObjId}

theorem mem_linkList (links : Links s) (live : o ∈ s.objects) : v ∈ s.linkList o ↔ o ∈ s.chain v := by
  rw [← List.count_pos_iff, ← List.count_pos_iff, links.links o live v]

theorem unlinked (links : Links s) (live : o ∈ s.objects) (zero : s.nlinks o = 0) :
    s.linkList o = [] ∧ ∀ v, o ∉ s.chain v := by
  have empty : s.linkList o = [] := List.length_eq_zero_iff.mp (by have := links.nlinks o live; omega)
  refine ⟨empty, fun v mem => ?_⟩
  have := (links.mem_linkList live).mpr mem
  simp [empty] at this

/-- An object with one link is in one stack, once. -/
theorem last (links : Links s) (live : o ∈ s.objects) (one : s.nlinks o = 1) :
    ∃ w, s.linkList o = [w] ∧ (s.chain w).count o = 1 ∧ ∀ v, v ≠ w → o ∉ s.chain v := by
  have length : (s.linkList o).length = 1 := by have := links.nlinks o live; omega
  obtain ⟨w, only⟩ := List.length_eq_one_iff.mp length
  refine ⟨w, only, by rw [← links.links o live w, only]; simp, fun v ne mem => ?_⟩
  have := (links.mem_linkList live).mpr mem
  simp [only] at this
  exact ne this

theorem nlinks_pos (links : Links s) (mem : o ∈ s.chain v) : 0 < s.nlinks o := by
  have live := links.alive v o mem
  have := List.length_pos_of_mem ((links.mem_linkList live).mpr mem)
  have := links.nlinks o live
  omega

end Links

namespace Shrefs
variable {s : Mm} {a b : ObjId}

theorem single (shrefs : Shrefs s) (live : b ∈ s.objects) (one : s.shadows b = 1) : ∃ a, s.shdwList b = [a] :=
  List.length_eq_one_iff.mp (by have := shrefs.shadows b live; omega)

end Shrefs

namespace Ordered
variable {s : Mm} {v : VmaId} {a b : ObjId}

/-- A shadow in a stack stands over the object it shadows. -/
theorem stands (ordered : Ordered s) (shadow : isShadow s a = true) (mem : a ∈ s.chain v) :
    ∃ b, Over (s.chain v) a b ∧ s.origObj a = some b := by
  obtain ⟨b, on⟩ := Stack.exists_over mem (fun bottom => by simp [ordered.ends v a bottom] at shadow)
  exact ⟨b, on, ordered.orig v a b on shadow⟩

theorem over_orig (ordered : Ordered s) (shadow : isShadow s a = true) (mem : a ∈ s.chain v)
    (orig : s.origObj a = some b) : Over (s.chain v) a b := by
  obtain ⟨c, on, same⟩ := ordered.stands shadow mem
  rw [orig] at same
  cases same
  exact on

end Ordered

namespace Sound
variable {s : Mm} {o : ObjId}

/-- An object in no stack has no shadows. -/
theorem no_shadows (sound : Sound s) (live : o ∈ s.objects) (zero : s.nlinks o = 0) : s.shdwList o = [] := by
  rw [List.eq_nil_iff_forall_not_mem]
  intro a mem
  obtain ⟨-, v, on⟩ := sound.standing o live a mem
  exact (sound.links.unlinked live zero).2 v on.mem_right

/-- A non-shadow hangs on no list. -/
theorem file_shref (sound : Sound s) (live : o ∈ s.objects) (file : isShadow s o = false) : s.shref o = none := by
  cases hangs : s.shref o with
  | none => rfl
  | some b =>
    obtain ⟨liveb, mem⟩ := sound.shrefs.hangs o live b hangs
    simp [(sound.standing b liveb o mem).1] at file

end Sound

end Codezero.Mm0
