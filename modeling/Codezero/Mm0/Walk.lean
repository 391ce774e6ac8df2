import Codezero.Mm0.Grow

/-!
# Walking a stack for a page

A walk passes the objects that have no page at the offset and stops at the first that has one; only there
may a page be read in.
-/

namespace Codezero.Mm0
open Codezero.Lib

/-- The `BUG`s outside `vma_drop_merge_delete`, `vma_merge_object` and `vm_object_is_deletable`; no freed file is used. -/
def Bug.elsewhere : Bug → Prop
  | .dropMergeDelete | .mergeObject | .isDeletable | .freedFile => False
  | _ => True

/-- A page of the file `o`, read into `frame`. -/
def Page.read (o : ObjId) (off : Pfn) (frame : Frame) : Page :=
  { frame := frame, owner := o, offset := off, refcnt := 0 }

/-- What `page_in` of `o` at `off` does. -/
inductive PagedIn (s : Mm) (o : ObjId) (off : Pfn) (frame : Frame) : Mm → Option Page → Prop
  | cached {p : Page} (plain : isDevzero s o = false) (found : findPage s o off = some p) :
      PagedIn s o off frame s (some p)
  | missing (absent : yields s o off = none) : PagedIn s o off frame s none
  | read {s' : Mm} {bytes : Bytes} {pages : List Page} (file : isShadow s o = false) (plain : isDevzero s o = false)
      (free : findPage s o off = none) (content : s.vnode o off = some bytes) (here : yields s o off = some (.unread o off))
      (added : Added { s with mem := Function.update s.mem frame bytes } o (.read o off frame) pages s') :
      PagedIn s o off frame s' (some (.read o off frame))
  | zero (devzero : isDevzero s o = true) :
      PagedIn s o off frame { s with zpage := { s.zpage with refcnt := s.zpage.refcnt + 1 } }
        (some { s.zpage with refcnt := s.zpage.refcnt + 1 })

section PageIn
variable {s s' : Mm} {o : ObjId} {off : Pfn} {frame : Frame}

theorem pageIn_sat : Sat (pageIn s o off frame) (fun r => PagedIn s o off frame r.1 r.2) Bug.elsewhere := by
  have swap : isDevzero s o = false → (yields s o off = (findPage s o off).map (fun p => .cached p.frame)) →
      PagedIn s o off frame s (swapPageIn s o off) := by
    intro plain same
    unfold swapPageIn
    cases found : findPage s o off with
    | none => exact .missing (by rw [same, found]; rfl)
    | some p => exact .cached plain found
  unfold pageIn
  cases kind : s.kind o with
  | shadow => exact swap (by simp [isDevzero, kind]) (by simp [yields, kind])
  | file type openers length =>
    cases type with
    | shm => exact swap (by simp [isDevzero, kind]) (by simp [yields, kind])
    | devzero =>
      simp only [devzeroPageIn]
      split
      · exact trivial
      · exact .zero (by simp [isDevzero, kind])
    | vfs =>
      have plain : isDevzero s o = false := by simp [isDevzero, kind]
      simp only [filePageIn]
      cases found : findPage s o off with
      | some p => exact .cached plain found
      | none =>
        cases content : s.vnode o off with
        | none => exact .missing (by simp [yields, kind, found, content])
        | some bytes =>
          let t : Mm := { s with mem := Function.update s.mem frame bytes }
          have free : findPage t o (Page.read o off frame).offset = none := found
          obtain ⟨pages, s', added, spec⟩ := addPage_added free
          have ran : addPage t o { frame := frame, owner := o, offset := off, refcnt := 0 } = .ok s' := added
          simp only [t] at ran
          simp only [ran, bind, Except.bind]
          exact .read (by simp [isShadow, kind, Kind.isShadow]) plain found content
            (by simp [yields, kind, found, content]) spec

namespace PagedIn
variable {r : Option Page}

/-- Only pages of files, memory and the zero page's count differ. -/
theorem state (paged : PagedIn s o off frame s' r) :
    s' = { s with npages := s'.npages, pageCache := s'.pageCache, mem := s'.mem, zpage := s'.zpage } := by
  cases paged with
  | cached => rfl
  | missing => rfl
  | read _ _ _ _ _ added => rw [added.state]
  | zero => rfl

theorem sound (paged : PagedIn s o off frame s' r) (sound : Sound s) (live : o ∈ s.objects) : Sound s' := by
  cases paged with
  | cached => exact sound
  | missing => exact sound
  | @read s' bytes pages file plain free content here added =>
    have beside : Sound { s with mem := Function.update s.mem frame bytes } := Beside.sound rfl sound
    exact beside.added added free live rfl
  | zero => exact Beside.sound rfl sound

/-- The pages of shadows stay. -/
theorem shadow_pages (paged : PagedIn s o off frame s' r) {x : ObjId} (shadow : isShadow s x = true) :
    s'.pageCache x = s.pageCache x ∧ s'.npages x = s.npages x := by
  cases paged with
  | cached => exact ⟨rfl, rfl⟩
  | missing => exact ⟨rfl, rfl⟩
  | read file _ _ _ _ added =>
    have ne : x ≠ o := by
      rintro rfl
      rw [file] at shadow
      exact Bool.noConfusion shadow
    rw [added.state]
    exact ⟨Function.update_of_ne ne .., Function.update_of_ne ne ..⟩
  | zero => exact ⟨rfl, rfl⟩

end PagedIn

/-- What a walk does: the objects above the one that has the page have none. -/
structure Walked (s : Mm) (stack : List ObjId) (off : Pfn) (frame : Frame) (s' : Mm) (p : Page) : Prop where
  split : ∃ o pre post, stack = pre ++ o :: post ∧ (∀ x ∈ pre, yields s x off = none) ∧
    PagedIn s o off frame s' (some p)

theorem walk_sat {stack : List ObjId} :
    Sat (walk off frame stack s) (fun r => Walked s stack off frame r.1 r.2) Bug.elsewhere := by
  induction stack with
  | nil => exact trivial
  | cons o stack rest =>
    rw [walk]
    refine pageIn_sat.bind (fun r paged => ?_)
    obtain ⟨s', found⟩ := r
    cases found with
    | some p => exact ⟨o, [], stack, rfl, by simp, paged⟩
    | none =>
      cases paged with
      | missing absent =>
        refine rest.mono (fun r walked => ?_)
        obtain ⟨x, pre, post, rfl, above, paged⟩ := walked.split
        refine ⟨x, o :: pre, post, rfl, fun y mem => ?_, paged⟩
        rcases List.mem_cons.mp mem with rfl | mem
        · exact absent
        · exact above y mem

end PageIn

end Codezero.Mm0
