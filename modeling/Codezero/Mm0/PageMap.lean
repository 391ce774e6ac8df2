import Codezero.Mm0.Unmap

/-!
# The page map of a task

A task's vmas give every page flags, an offset and the files behind it. `do_munmap` makes this map undefined on a
range and `do_mmap` defines it there; nothing else changes, however the vmas are cut and the objects merged.
-/

namespace Codezero.Mm0
open Codezero.Lib
open Function (update update_of_ne update_self)

/-- The objects of `v`'s stack that are no shadows. -/
def filesOf (s : Mm) (v : VmaId) : List ObjId := (s.chain v).filter (fun o => !isShadow s o)

/-- What a page is mapped to. -/
structure Mapping where
  flags : VmaFlags
  offset : Pfn
  files : List ObjId
  deriving DecidableEq, Repr

def mappingAt (s : Mm) (v : VmaId) (pfn : Pfn) : Mapping :=
  ⟨(s.vma v).flags, faultToFileOffset (s.vma v) pfn, filesOf s v⟩

def pageMap (s : Mm) (t : TaskId) (pfn : Pfn) : Option Mapping :=
  (findVma s (vmasOf s t) pfn).map (fun v => mappingAt s v pfn)

/-! ## What the objects' links do to it -/

/-- Nothing that the page map is read from differs, and no other object than `o` is deleted or loses a link. What is in the
file system stays there. -/
structure Unseen (o : ObjId) (s s' : Mm) : Prop where
  vma : s'.vma = s.vma
  task : s'.task = s.task
  kind : s'.kind = s.kind
  vnode : s'.vnode = s.vnode
  files : ∀ w, filesOf s' w = filesOf s w
  live : ∀ x ∈ s.files, x ≠ o → x ∈ s'.files
  nlinks : ∀ x, x ≠ o → s'.nlinks x = s.nlinks x

/-- The same but for the stack of `v`. -/
structure UnseenBut (s s' : Mm) (v : VmaId) : Prop where
  vma : s'.vma = s.vma
  task : s'.task = s.task
  kind : s'.kind = s.kind
  vnode : s'.vnode = s.vnode
  files : ∀ w, w ≠ v → filesOf s' w = filesOf s w

/-- The file `x` is there, and would be without `k` of its links. -/
structure Lasts (x : ObjId) (k : Nat) (s : Mm) : Prop where
  plain : isShadow s x = false
  listed : x ∈ s.files
  links : spared s x = true ∨ k = 0 ∨ k < s.nlinks x

/-- Links of `v` are dropped, and a file is deleted with its last link only. -/
structure Dropped (s s' : Mm) (v : VmaId) : Prop extends UnseenBut s s' v where
  lasts : ∀ x k, Lasts x (k + (filesOf s v).count x) s → Lasts x (k + (filesOf s' v).count x) s'

/-- A stop other than the use of a freed file. -/
def Bug.notFreed : Bug → Prop
  | .freedFile => False
  | _ => True

theorem Bug.notFreed_of_elsewhere {b : Bug} : b.elsewhere → b.notFreed := by
  cases b <;> first | exact fun _ => trivial | exact id

section Unseen
variable {s s' s'' : Mm} {v : VmaId} {a b o x : ObjId} {k j : Nat}

theorem Unseen.of_chain (vma : s'.vma = s.vma) (task : s'.task = s.task) (kind : s'.kind = s.kind) (vnode : s'.vnode = s.vnode)
    (chain : s'.chain = s.chain) (files : s'.files = s.files) (nlinks : s'.nlinks = s.nlinks) : Unseen o s s' :=
  ⟨vma, task, kind, vnode, fun w => by simp only [filesOf, isShadow, chain, kind], fun x mem _ => files ▸ mem,
    fun x _ => congrFun nlinks x⟩

theorem Unseen.refl : Unseen o s s := .of_chain rfl rfl rfl rfl rfl rfl rfl

theorem Unseen.trans (first : Unseen o s s') (second : Unseen o s' s'') : Unseen o s s'' :=
  ⟨second.vma.trans first.vma, second.task.trans first.task, second.kind.trans first.kind, second.vnode.trans first.vnode,
    fun w => (second.files w).trans (first.files w), fun x mem ne => second.live x (first.live x mem ne) ne,
    fun x ne => (second.nlinks x ne).trans (first.nlinks x ne)⟩

theorem Unseen.isShadow (unseen : Unseen o s s') (x : ObjId) : Mm0.isShadow s' x = Mm0.isShadow s x := by
  rw [Mm0.isShadow, Mm0.isShadow, unseen.kind]

theorem UnseenBut.trans (first : UnseenBut s s' v) (second : UnseenBut s' s'' v) : UnseenBut s s'' v :=
  ⟨second.vma.trans first.vma, second.task.trans first.task, second.kind.trans first.kind, second.vnode.trans first.vnode,
    fun w ne => (second.files w ne).trans (first.files w ne)⟩

theorem Unseen.but (unseen : Unseen o s s') : UnseenBut s s' v :=
  ⟨unseen.vma, unseen.task, unseen.kind, unseen.vnode, fun w _ => unseen.files w⟩

theorem Lasts.of_kind (lasts : Lasts x (k + j) s) (kind : s'.kind = s.kind) (listed : x ∈ s'.files)
    (nlinks : s.nlinks x ≤ s'.nlinks x) : Lasts x k s' := by
  refine ⟨by rw [isShadow, kind]; exact lasts.plain, listed, ?_⟩
  rw [spared, kind]
  exact lasts.links.imp_right (fun few => by omega)

theorem Lasts.unseen (lasts : Lasts x k s) (unseen : Unseen o s s') (ne : x ≠ o) : Lasts x k s' :=
  Lasts.of_kind (j := 0) lasts unseen.kind (unseen.live x lasts.listed ne) (unseen.nlinks x ne).ge

theorem Dropped.refl : Dropped s s v := ⟨⟨rfl, rfl, rfl, rfl, fun _ _ => rfl⟩, fun _ _ => id⟩

theorem Dropped.trans (first : Dropped s s' v) (second : Dropped s' s'' v) : Dropped s s'' v :=
  ⟨first.toUnseenBut.trans second.toUnseenBut, fun x k lasts => second.lasts x k (first.lasts x k lasts)⟩

theorem shrefRemove_unseen : Unseen o s (shrefRemove s a) := by
  unfold shrefRemove
  split
  · exact .refl
  · exact .of_chain rfl rfl rfl rfl rfl rfl rfl

theorem releaseCount_sat (pages : List Page) (n : Int) : Sat (releaseCount pages n) (fun _ => True) Bug.notFreed := by
  induction pages generalizing n with
  | nil => exact trivial
  | cons p pages rest =>
    unfold releaseCount
    split
    · exact trivial
    split
    · exact trivial
    · exact rest _

theorem insertPageOlist_sat {p : Page} (pages : List Page) : Sat (insertPageOlist p pages) (fun _ => True) Bug.notFreed := by
  fun_induction insertPageOlist p pages with
  | case8 before after pages _ _ _ rest => exact rest.bind (fun _ _ => trivial)
  | _ => exact trivial

theorem releasePages_unseen : Sat (releasePages s o) (Unseen o s) Bug.notFreed := by
  unfold releasePages
  refine (releaseCount_sat ..).bind (fun n _ => ?_)
  exact Unseen.of_chain rfl rfl rfl rfl rfl rfl rfl

theorem globalRemoveVmObject_unseen : Sat (globalRemoveVmObject s o) (Unseen o s) Bug.notFreed := by
  unfold globalRemoveVmObject
  split
  · exact trivial
  split
  · exact trivial
  · exact Unseen.of_chain rfl rfl rfl rfl rfl rfl rfl

theorem globalRemoveVmFile_unseen : Sat (globalRemoveVmFile s o) (Unseen o s) Bug.notFreed := by
  unfold globalRemoveVmFile
  split
  · exact trivial
  split
  · exact trivial
  · have listed : Unseen o s { s with files := s.files.erase o, filesTotal := s.filesTotal - 1 } :=
      ⟨rfl, rfl, rfl, rfl, fun _ => rfl, fun x mem ne => (List.mem_erase_of_ne ne).mpr mem, fun _ _ => rfl⟩
    exact globalRemoveVmObject_unseen.mono (fun s' unseen => listed.trans unseen)

theorem vmObjectDelete_unseen : Sat (vmObjectDelete s o) (Unseen o s) Bug.notFreed := by
  unfold vmObjectDelete
  refine releasePages_unseen.bind (fun s1 first => ?_)
  have checked : ∀ s2, Unseen o s1 s2 →
      Sat (if referenced s2 o then throw Bug.objectDelete else pure s2 : Except Bug Mm) (Unseen o s) Bug.notFreed := by
    intro s2 second
    split
    · exact trivial
    · exact first.trans second
  dsimp only
  split
  · exact globalRemoveVmFile_unseen.bind checked
  · exact globalRemoveVmObject_unseen.bind checked

theorem addPage_unseen {p : Page} : Sat (addPage s b p) (Unseen o s) Bug.notFreed := by
  unfold addPage
  refine (insertPageOlist_sat _).bind (fun pages _ => ?_)
  exact Unseen.of_chain rfl rfl rfl rfl rfl rfl rfl

theorem movePages_unseen {pages : List Page} : Sat (pages.foldlM (movePage a b) s) (Unseen a s) Bug.notFreed := by
  refine Sat.foldlM (I := fun _ s' => Unseen a s s') (fun s1 p rest unseen => ?_) pages s .refl
  unfold movePage
  split
  · exact unseen
  · have taken : Unseen a s1 { s1 with pageCache := update s1.pageCache a ((s1.pageCache a).erase p) } :=
      .of_chain rfl rfl rfl rfl rfl rfl rfl
    exact addPage_unseen.mono (fun s2 added => unseen.trans (taken.trans added))

theorem filter_erase_of_neg {l : List ObjId} {p : ObjId → Bool} (neg : p o = false) :
    (l.erase o).filter p = l.filter p := by
  induction l with
  | nil => rfl
  | cons x l rest =>
    by_cases same : x = o
    · subst same
      simp [neg]
    · rw [List.erase_cons_tail (by simpa using same), List.filter_cons, List.filter_cons, rest]

/-- Dropping the link to a shadow is not seen. -/
theorem vmaDropLink_unseen (shadow : isShadow s o = true) :
    Unseen o s (vmaDropLink s v ((s.chain v).idxOf o) o) := by
  refine ⟨rfl, rfl, rfl, rfl, fun w => ?_, fun _ mem _ => mem, fun x ne => update_of_ne ne ..⟩
  show (update s.chain v ((s.chain v).eraseIdx ((s.chain v).idxOf o)) w).filter (fun x => !isShadow s x) = _
  by_cases here : w = v
  · subst here
    rw [update_self, ← List.erase_eq_eraseIdx_of_idxOf rfl]
    exact filter_erase_of_neg (by simp [shadow])
  · rw [update_of_ne here]
    rfl

theorem mergeRelink_unseen {front next : ObjId} {last : VmaId} (shadow : isShadow s o = true) :
    Sat (mergeRelink s o front next last) (Unseen o s) Bug.notFreed := by
  let s1 := shrefRemove s front
  let s2 := shrefRemove s1 o
  let s3 := setOrig (shrefInsert s2 front next) front next
  let s4 := vmaDropLink s3 last ((s3.chain last).idxOf o) o
  have first : Unseen o s s1 := shrefRemove_unseen
  have second : Unseen o s1 s2 := shrefRemove_unseen
  have third : Unseen o s2 s3 := .of_chain rfl rfl rfl rfl rfl rfl rfl
  have relinked := first.trans (second.trans third)
  have dropped : Unseen o s3 s4 := vmaDropLink_unseen ((relinked.isShadow o).trans shadow)
  have counted : Unseen o s4 (setShadows s4 o (s4.shadows o - 1)) := .of_chain rfl rfl rfl rfl rfl rfl rfl
  unfold mergeRelink
  dsimp only
  split
  · exact trivial
  split
  · exact trivial
  · exact vmObjectDelete_unseen.mono (fun s' deleted => relinked.trans (dropped.trans (counted.trans deleted)))

theorem vmaMergeObject_unseen (shadow : isShadow s o = true) :
    Sat (vmaMergeObject s o) (Unseen o s) Bug.notFreed := by
  unfold vmaMergeObject
  split
  · exact trivial
  split
  · exact trivial
  split
  · refine movePages_unseen.bind (fun s1 moved => ?_)
    exact (mergeRelink_unseen ((moved.isShadow o).trans shadow)).mono (fun s' relinked => moved.trans relinked)
  · exact trivial

theorem vmObjectIsDeletable_sat : Sat (vmObjectIsDeletable s o)
    (fun deletable => deletable = true → s.nlinks o = 0 ∧ spared s o = false) Bug.notFreed := by
  unfold vmObjectIsDeletable spared
  split
  · exact nofun
  · next unlinked =>
    split
    · exact trivial
    split
    · exact trivial
    split <;> simp_all [pure, Except.pure]

/-- A file that has a link left, or is spared, is not deleted. -/
theorem dealWith_unseen : Sat (dealWith s o) (fun s' => Unseen o s s' ∧
    (isShadow s o = false → spared s o = true ∨ s.nlinks o ≠ 0 → s' = s)) Bug.notFreed := by
  unfold dealWith
  refine vmObjectIsDeletable_sat.bind (fun deletable unused => ?_)
  split
  · next yes =>
    obtain ⟨unlinked, plain⟩ := unused yes
    exact vmObjectDelete_unseen.mono (fun s' gone => ⟨gone, fun _ kept => by simp [unlinked, plain] at kept⟩)
  split
  · next mergeable =>
    simp only [Bool.and_eq_true] at mergeable
    exact (vmaMergeObject_unseen mergeable.1.1).mono (fun s' merged => ⟨merged, fun file => by simp [file] at mergeable⟩)
  · exact ⟨.refl, fun _ _ => rfl⟩

theorem exitDrop_unseen {next : Option ObjId} :
    Sat (exitDrop s o next) (fun s' => Unseen o s s' ∧ (isShadow s o = false → s' = s)) Bug.notFreed := by
  unfold exitDrop
  split
  · split
    · exact ⟨.refl, fun _ => rfl⟩
    · next next =>
      split
      · next shadow =>
        split
        · exact trivial
        split
        · exact trivial
        · have counted : Unseen o s (setShadows s next (s.shadows next - 1)) := .of_chain rfl rfl rfl rfl rfl rfl rfl
          exact ⟨counted.trans shrefRemove_unseen, fun file => by simp [file] at shadow⟩
      · exact ⟨.refl, fun _ => rfl⟩
  · exact ⟨.refl, fun _ => rfl⟩

/-- Dropping a vma's top link is seen in its own stack only. -/
theorem dropTop_unseen : Sat (vmaDropMergeDelete s v 0) (fun s' => Dropped s s' v) Bug.notFreed := by
  unfold vmaDropMergeDelete
  split
  · exact trivial
  · next o top =>
    obtain ⟨below, stack⟩ : ∃ below, s.chain v = o :: below := by
      cases stack : s.chain v with
      | nil => simp [stack] at top
      | cons head below => exact ⟨below, by simpa [stack] using top⟩
    have dropped : UnseenBut s (vmaDropLink s v 0 o) v := by
      refine ⟨rfl, rfl, rfl, rfl, fun w ne => ?_⟩
      show (update s.chain v _ w).filter (fun x => !isShadow s x) = _
      rw [update_of_ne ne]
      rfl
    have left : filesOf (vmaDropLink s v 0 o) v = below.filter (fun x => !isShadow s x) := by
      show (update s.chain v ((s.chain v).eraseIdx 0) v).filter _ = _
      rw [update_self, stack]
      rfl
    refine exitDrop_unseen.bind (fun s1 first => dealWith_unseen.mono (fun s' second => ?_))
    refine ⟨dropped.trans (first.1.trans second.1).but, fun x k lasts => ?_⟩
    rw [second.1.files, first.1.files, left]
    rw [filesOf, stack, List.filter_cons] at lasts
    by_cases same : x = o
    · -- The count of links falls with the links.
      subst same
      have plain := lasts.plain
      simp only [plain, Bool.not_false, if_true, List.count_cons_self] at lasts
      obtain rfl := first.2 plain
      have nlinks : (vmaDropLink s v 0 x).nlinks x = s.nlinks x - 1 := update_self ..
      have links := lasts.links
      obtain rfl := second.2 plain (lasts.links.imp_right (fun few => by omega))
      exact ⟨plain, lasts.listed, lasts.links.imp_right (fun few => by omega)⟩
    · have apart : ∀ l : List ObjId, (o :: l).count x = l.count x := fun l => List.count_cons_of_ne (Ne.symm same)
      have kept : Lasts x (k + (below.filter fun x => !isShadow s x).count x) s := by
        split at lasts
        · rwa [apart] at lasts
        · exact lasts
      have kept1 : Lasts x (k + (below.filter fun x => !isShadow s x).count x) (vmaDropLink s v 0 o) :=
        Lasts.of_kind (j := 0) kept rfl kept.listed (update_of_ne same ..).ge
      exact (kept1.unseen first.1 same).unseen second.1 same

theorem dropLinks_unseen {n : Nat} : Sat (dropLinks v n s) (fun s' => Dropped s s' v) Bug.notFreed := by
  induction n generalizing s with
  | zero => exact Dropped.refl
  | succ n rest =>
    unfold dropLinks
    split
    · exact Dropped.refl
    · exact dropTop_unseen.bind (fun s1 first => rest.mono (fun s' others => first.trans others))

theorem dropMergeDeleteAll_unseen :
    Sat (vmaDropMergeDeleteAll s v) (fun s' => Dropped s s' v) Bug.notFreed := by
  unfold vmaDropMergeDeleteAll
  split
  · exact trivial
  · exact dropLinks_unseen

/-- Copying a stack takes no link away. -/
theorem nlinks_vmaCopyLinks (stack : List ObjId) : s.nlinks x ≤ (vmaCopyLinks s v stack).nlinks x := by
  unfold vmaCopyLinks
  suffices loop : ∀ s1 : Mm, s.nlinks x ≤ s1.nlinks x → s.nlinks x ≤ (stack.foldl (fun s o =>
      { vmLinkObject s v o with chain := update s.chain v (s.chain v ++ [o]) }) s1).nlinks x from loop _ (le_refl _)
  induction stack with
  | nil => exact fun _ more => more
  | cons o stack rest =>
    refine fun s1 more => rest _ (more.trans ?_)
    show s1.nlinks x ≤ update s1.nlinks o (s1.nlinks o + 1) x
    by_cases same : x = o
    · subst same
      rw [update_self]
      omega
    · rw [update_of_ne same]

/-- The new vma gets the stack, and nothing else is seen. -/
theorem vmaCopyLinks_unseen (stack : List ObjId) :
    UnseenBut s (vmaCopyLinks s v stack) v ∧ (vmaCopyLinks s v stack).chain v = stack := by
  obtain ⟨_, _, copied⟩ := vmaCopyLinks_eq s v stack
  rw [copied]
  refine ⟨⟨rfl, rfl, rfl, rfl, fun w ne => ?_⟩, update_self ..⟩
  show (update s.chain v stack w).filter (fun x => !isShadow s x) = _
  rw [update_of_ne ne]
  rfl

end Unseen

/-! ## Regular lists -/

/-- The page is one of the vma's. -/
def Vma.Holds (a : Vma) (pfn : Pfn) : Prop := a.pfnStart ≤ pfn ∧ pfn < a.pfnEnd

/-- The vmas of a task are non-empty and do not meet. -/
structure RegularAt (s : Mm) (t : TaskId) : Prop where
  once : (vmasOf s t).Nodup
  nonempty : ∀ v ∈ vmasOf s t, (s.vma v).pfnStart < (s.vma v).pfnEnd
  apart : ∀ v ∈ vmasOf s t, ∀ w ∈ vmasOf s t, v ≠ w → (s.vma v).Apart (s.vma w)

structure Regular (s : Mm) : Prop where
  each : ∀ t, RegularAt s t
  one : ∀ t t' v, v ∈ vmasOf s t → v ∈ vmasOf s t' → t = t'

/-- The list of one task changes, and shares no vma with the others. -/
theorem Regular.change {s s' : Mm} {t : TaskId} (regular : Regular s) (own : RegularAt s' t)
    (beyond : ∀ t', t' ≠ t → vmasOf s' t' = vmasOf s t') (kept : ∀ t', t' ≠ t → ∀ w ∈ vmasOf s t', s'.vma w = s.vma w)
    (alien : ∀ t', t' ≠ t → ∀ w ∈ vmasOf s' t, w ∉ vmasOf s t') : Regular s' := by
  refine ⟨fun t' => ?_, fun t1 t2 w mem1 mem2 => ?_⟩
  · by_cases here : t' = t
    · rw [here]
      exact own
    · have each := regular.each t'
      have list := beyond t' here
      refine ⟨list ▸ each.once, fun w mem => ?_, fun w memw u memu ne => ?_⟩
      · rw [list] at mem
        rw [kept t' here w mem]
        exact each.nonempty w mem
      · rw [list] at memw memu
        rw [kept t' here w memw, kept t' here u memu]
        exact each.apart w memw u memu ne
  · by_cases here1 : t1 = t <;> by_cases here2 : t2 = t
    · rw [here1, here2]
    · rw [here1] at mem1
      rw [beyond t2 here2] at mem2
      exact absurd mem2 (alien t2 here2 w mem1)
    · rw [here2] at mem2
      rw [beyond t1 here1] at mem1
      exact absurd mem1 (alien t1 here1 w mem2)
    · rw [beyond t1 here1] at mem1
      rw [beyond t2 here2] at mem2
      exact regular.one t1 t2 w mem1 mem2

def Maps (s : Mm) (t : TaskId) (pfn : Pfn) (m : Mapping) : Prop :=
  ∃ v ∈ vmasOf s t, (s.vma v).Holds pfn ∧ mappingAt s v pfn = m

section Regular
variable {s s' : Mm} {t : TaskId} {v new : VmaId} {start stop pfn : Pfn}

theorem Vma.Apart.not_holds {a b : Vma} (apart : a.Apart b) (here : a.Holds pfn) : ¬ b.Holds pfn := fun there =>
  (Vma.apart_iff.mp apart).elim (fun before => Nat.not_lt.mpr (Nat.le_trans before there.1) here.2)
    (fun behind => Nat.not_lt.mpr (Nat.le_trans behind here.1) there.2)

/-- Non-empty ranges without a common page are apart. -/
theorem Vma.apart_of_not_holds {a b : Vma} (nonempty : a.pfnStart < a.pfnEnd) (nonempty' : b.pfnStart < b.pfnEnd)
    (none : ∀ pfn, a.Holds pfn → ¬ b.Holds pfn) : a.Apart b := by
  rw [Vma.apart_iff]
  by_contra meets
  obtain ⟨before, behind⟩ := not_or.mp meets
  rcases Nat.le_total a.pfnStart b.pfnStart with first | first
  · exact none b.pfnStart ⟨first, Nat.not_le.mp before⟩ ⟨Nat.le_refl _, nonempty'⟩
  · exact none a.pfnStart ⟨Nat.le_refl _, nonempty⟩ ⟨first, Nat.not_le.mp behind⟩

theorem pageMap_eq_some {m : Mapping} (regular : RegularAt s t) : pageMap s t pfn = some m ↔ Maps s t pfn m := by
  unfold pageMap
  rw [Option.map_eq_some_iff]
  constructor
  · rintro ⟨v, found, same⟩
    obtain ⟨mem, holds⟩ := findVma_some found
    exact ⟨v, mem, holds, same⟩
  · rintro ⟨v, mem, holds, same⟩
    cases found : findVma s (vmasOf s t) pfn with
    | none =>
      have := List.find?_eq_none.mp found v mem
      exact absurd holds (by simpa [Vma.Holds] using this)
    | some w =>
      obtain ⟨memw, holdsw⟩ := findVma_some found
      have isv : w = v := by
        by_contra ne
        exact (regular.apart w memw v mem ne).not_holds holdsw holds
      exact ⟨w, rfl, isv ▸ same⟩

/-! ## One vma -/

/-- The links to `x` that go with the vma. -/
def linksLost (s : Mm) (start stop : Pfn) (x : ObjId) (v : VmaId) : Nat :=
  if start ≤ (s.vma v).pfnStart ∧ (s.vma v).pfnEnd ≤ stop then (filesOf s v).count x else 0

/-- What taking a range from the vma `v` leaves. -/
structure Removed (s s' : Mm) (t : TaskId) (start stop : Pfn) (v new : VmaId) : Prop where
  regular : RegularAt s' t
  maps : ∀ pfn m, Maps s' t pfn m ↔ Maps s t pfn m ∧ ¬ ((s.vma v).Holds pfn ∧ start ≤ pfn ∧ pfn < stop)
  others : ∀ w ∈ vmasOf s t, w ≠ v → w ∈ vmasOf s' t ∧ s'.vma w = s.vma w ∧ filesOf s' w = filesOf s w
  added : ∀ w ∈ vmasOf s' t, w ∈ vmasOf s t ∨ w = new
  room : (new ∉ vmasOf s t → new ∉ vmasOf s' t) ∨ (s.vma v).pfnStart < start ∧ stop < (s.vma v).pfnEnd
  beyond : ∀ t', t' ≠ t → vmasOf s' t' = vmasOf s t'
  foreign : ∀ w, w ∉ vmasOf s t → w ≠ new → s'.vma w = s.vma w ∧ filesOf s' w = filesOf s w
  kind : s'.kind = s.kind
  lasts : ∀ x k, Lasts x (k + linksLost s start stop x v) s → Lasts x k s'

/-- The vmas that are left of `v`, in place of it on the list. -/
structure Parts (s s' : Mm) (t : TaskId) (start stop : Pfn) (v : VmaId) (parts : List VmaId) : Prop where
  once : (vmasOf s' t).Nodup
  list : ∀ w, w ∈ vmasOf s' t ↔ (w ∈ vmasOf s t ∧ w ≠ v) ∨ w ∈ parts
  same : ∀ w ∈ vmasOf s t, w ≠ v → s'.vma w = s.vma w ∧ filesOf s' w = filesOf s w
  nonempty : ∀ w ∈ parts, (s'.vma w).pfnStart < (s'.vma w).pfnEnd
  apart : ∀ w ∈ parts, ∀ u ∈ parts, w ≠ u → (s'.vma w).Apart (s'.vma u)
  cut : ∀ w ∈ parts, ∀ pfn, (s'.vma w).Holds pfn →
    (s.vma v).Holds pfn ∧ ¬ (start ≤ pfn ∧ pfn < stop) ∧ mappingAt s' w pfn = mappingAt s v pfn
  left : ∀ pfn, (s.vma v).Holds pfn → ¬ (start ≤ pfn ∧ pfn < stop) → ∃ w ∈ parts, (s'.vma w).Holds pfn

theorem Parts.regular {parts : List VmaId} (parted : Parts s s' t start stop v parts) (regular : RegularAt s t)
    (mem : v ∈ vmasOf s t) : RegularAt s' t := by
  refine ⟨parted.once, fun w memw => ?_, fun w memw u memu ne => ?_⟩
  · rcases (parted.list w).mp memw with ⟨old, isv⟩ | part
    · rw [(parted.same w old isv).1]
      exact regular.nonempty w old
    · exact parted.nonempty w part
  · -- A part is apart from another vma because all its pages are pages of `v`.
    have mixed : ∀ {w u}, w ∈ parts → u ∈ vmasOf s t → u ≠ v → (s'.vma w).Apart (s'.vma u) := by
      intro w u part old isv
      rw [(parted.same u old isv).1]
      refine Vma.apart_of_not_holds (parted.nonempty w part) (regular.nonempty u old) (fun pfn holds => ?_)
      exact (regular.apart v mem u old isv.symm).not_holds (parted.cut w part pfn holds).1
    rcases (parted.list w).mp memw with ⟨oldw, isvw⟩ | partw <;> rcases (parted.list u).mp memu with ⟨oldu, isvu⟩ | partu
    · rw [(parted.same w oldw isvw).1, (parted.same u oldu isvu).1]
      exact regular.apart w oldw u oldu ne
    · exact (mixed partu oldw isvw).symm
    · exact mixed partw oldu isvu
    · exact parted.apart w partw u partu ne

theorem Parts.maps {parts : List VmaId} (parted : Parts s s' t start stop v parts) (regular : RegularAt s t)
    (mem : v ∈ vmasOf s t) (pfn : Pfn) (m : Mapping) :
    Maps s' t pfn m ↔ Maps s t pfn m ∧ ¬ ((s.vma v).Holds pfn ∧ start ≤ pfn ∧ pfn < stop) := by
  have unchanged : ∀ w ∈ vmasOf s t, w ≠ v → mappingAt s' w pfn = mappingAt s w pfn := fun w old isv => by
    rw [mappingAt, mappingAt, (parted.same w old isv).1, (parted.same w old isv).2]
  constructor
  · rintro ⟨w, memw, holds, rfl⟩
    rcases (parted.list w).mp memw with ⟨old, isv⟩ | part
    · rw [(parted.same w old isv).1] at holds
      exact ⟨⟨w, old, holds, (unchanged w old isv).symm⟩,
        fun hole => (regular.apart w old v mem isv).not_holds holds hole.1⟩
    · obtain ⟨holdsv, outside, same⟩ := parted.cut w part pfn holds
      exact ⟨⟨v, mem, holdsv, same.symm⟩, fun hole => outside hole.2⟩
  · rintro ⟨⟨w, old, holds, rfl⟩, outside⟩
    by_cases isv : w = v
    · subst isv
      obtain ⟨u, part, holdsu⟩ := parted.left pfn holds (fun hole => outside ⟨holds, hole⟩)
      exact ⟨u, (parted.list u).mpr (.inr part), holdsu, (parted.cut u part pfn holdsu).2.2⟩
    · refine ⟨w, (parted.list w).mpr (.inl ⟨old, isv⟩), ?_, unchanged w old isv⟩
      rwa [(parted.same w old isv).1]

theorem Removed.away (regular : Regular s) (clear : Clear s start stop v) : Removed s s t start stop v new := by
  refine ⟨regular.each t, fun pfn m => ⟨fun maps => ⟨maps, fun hole => ?_⟩, fun both => both.1⟩, fun w mem _ => ⟨mem, rfl, rfl⟩,
    fun w mem => .inl mem, .inl id, fun _ _ => rfl, fun _ _ _ => ⟨rfl, rfl⟩, rfl,
    fun x k lasts => lasts.of_kind rfl lasts.listed (le_refl _)⟩
  rcases setIntersection_eq_false.mp clear with before | behind
  · exact Nat.not_lt.mpr (Nat.le_trans before hole.1.1) hole.2.2
  · exact Nat.not_lt.mpr (Nat.le_trans behind hole.2.1) hole.1.2

/-- What is left of a range when another is taken from it, at one end. -/
structure Vma.Shortened (shorter a : Vma) (start stop : Pfn) : Prop where
  nonempty : shorter.pfnStart < shorter.pfnEnd
  flags : shorter.flags = a.flags
  pages : ∀ pfn, shorter.Holds pfn ↔ a.Holds pfn ∧ ¬ (start ≤ pfn ∧ pfn < stop)
  offset : ∀ pfn, shorter.Holds pfn → faultToFileOffset shorter pfn = faultToFileOffset a pfn

theorem Removed.shrunk (regular : Regular s) (mem : v ∈ vmasOf s t) {shorter : Vma}
    (shortened : shorter.Shortened (s.vma v) start stop)
    (done : s' = { s with vma := update s.vma v shorter, pte := s'.pte }) : Removed s s' t start stop v new := by
  have list : ∀ t', vmasOf s' t' = vmasOf s t' := fun t' => by
    rw [done]
    rfl
  have files : ∀ w, filesOf s' w = filesOf s w := fun w => by
    rw [done]
    rfl
  have own : s'.vma v = shorter := by
    rw [done]
    exact update_self ..
  have other : ∀ w, w ≠ v → s'.vma w = s.vma w := fun w ne => by
    rw [done]
    exact update_of_ne ne ..
  have single : ∀ {w}, w ∈ [v] → w = v := List.mem_singleton.mp
  have parted : Parts s s' t start stop v [v] := by
    refine ⟨list t ▸ (regular.each t).once, fun w => ?_, fun w _ ne => ⟨other w ne, files w⟩, fun w part => ?_,
      fun w partw u partu ne => absurd ((single partw).trans (single partu).symm) ne, fun w part pfn holds => ?_,
      fun pfn holds outside => ⟨v, List.mem_singleton_self v, own ▸ (shortened.pages pfn).mpr ⟨holds, outside⟩⟩⟩
    · rw [list, List.mem_singleton]
      by_cases isv : w = v
      · simp [isv, mem]
      · simp [isv]
    · rw [single part, own]
      exact shortened.nonempty
    · rw [single part, own] at holds
      obtain ⟨old, outside⟩ := (shortened.pages pfn).mp holds
      refine ⟨old, outside, ?_⟩
      rw [single part, mappingAt, mappingAt, own, files, shortened.flags, shortened.offset pfn holds]
  exact ⟨parted.regular (regular.each t) mem, parted.maps (regular.each t) mem, fun w here ne => ⟨by rwa [list], other w ne, files w⟩,
    fun w here => .inl (by rwa [list] at here), .inl (fun absent => by rwa [list]), fun t' _ => list t',
    fun w outside _ => ⟨other w (fun same => outside (same ▸ mem)), files w⟩, by rw [done],
    fun x k lasts => by rw [done]; exact lasts.of_kind rfl lasts.listed (le_refl _)⟩

theorem Removed.destroyed {task : Task} {s1 : Mm} (regular : Regular s) (is : s.task t = some task)
    (mem : v ∈ vmasOf s t) (covers : Covers s start stop v) (dropped : Dropped s s1 v)
    (done : s' = { setVmas s1 t ((vmasOf s t).erase v) with pte := s'.pte }) : Removed s s' t start stop v new := by
  have once := (regular.each t).once
  have own : vmasOf s' t = (vmasOf s t).erase v := by
    rw [done]
    exact vmasOf_setVmas (dropped.task ▸ is)
  have beyond : ∀ t', t' ≠ t → vmasOf s' t' = vmasOf s t' := fun t' ne => by
    rw [done]
    exact (vmasOf_setVmas_of_ne ne).trans (vmasOf_congr (congrFun dropped.task t'))
  have vma : s'.vma = s.vma := by
    rw [done]
    exact dropped.vma
  have files : ∀ w, w ≠ v → filesOf s' w = filesOf s w := fun w ne => by
    rw [done]
    exact dropped.files w ne
  have parted : Parts s s' t start stop v [] := by
    refine ⟨own ▸ once.erase v, fun w => ?_, fun w _ ne => ⟨congrFun vma w, files w ne⟩, ?_, ?_, ?_, fun pfn holds outside => ?_⟩
    · rw [own, once.mem_erase_iff]
      simp [and_comm]
    · exact fun w part => absurd part List.not_mem_nil
    · exact fun w part => absurd part List.not_mem_nil
    · exact fun w part => absurd part List.not_mem_nil
    · exact absurd ⟨Nat.le_trans covers.1 holds.1, Nat.lt_of_lt_of_le holds.2 covers.2⟩ outside
  refine ⟨parted.regular (regular.each t) mem, parted.maps (regular.each t) mem, fun w here ne => ?_, fun w here => .inl ?_,
    .inl (fun absent here => absent ?_), beyond, fun w outside _ => ⟨congrFun vma w, files w (fun same => outside (same ▸ mem))⟩, ?_,
    fun x k lasts => ?_⟩
  · rw [own]
    exact ⟨(List.mem_erase_of_ne ne).mpr here, congrFun vma w, files w ne⟩
  · rw [own] at here
    exact List.mem_of_mem_erase here
  · rw [own] at here
    exact List.mem_of_mem_erase here
  · rw [done]
    exact dropped.kind
  · rw [linksLost, if_pos ⟨covers.1, covers.2⟩] at lasts
    have kept := dropped.lasts x k lasts
    rw [done]
    exact kept.of_kind rfl kept.listed (le_refl _)

/-- The part of the vma in front of the range. -/
theorem Vma.shortened_front {a : Vma} (front : a.pfnStart < start) (back : a.pfnEnd ≤ stop) (meets : start < a.pfnEnd) :
    Vma.Shortened { a with pfnEnd := start } a start stop := by
  refine ⟨front, rfl, fun pfn => ⟨fun holds => ⟨⟨holds.1, Nat.lt_trans holds.2 meets⟩, fun hole => ?_⟩, fun both => ?_⟩,
    fun _ _ => rfl⟩
  · exact Nat.not_lt.mpr hole.1 holds.2
  · refine ⟨both.1.1, Nat.not_le.mp (fun behind => both.2 ⟨behind, Nat.lt_of_lt_of_le both.1.2 back⟩)⟩

/-- The part of the vma behind the range. -/
theorem Vma.shortened_back {a : Vma} (front : start ≤ a.pfnStart) (back : stop < a.pfnEnd) (meets : a.pfnStart < stop) :
    Vma.Shortened { a with pfnStart := stop, fileOffset := a.fileOffset + (stop - a.pfnStart) } a start stop := by
  refine ⟨back, rfl, fun pfn => ⟨fun holds => ⟨⟨Nat.le_trans (Nat.le_of_lt meets) holds.1, holds.2⟩, fun hole => ?_⟩,
    fun both => ?_⟩, fun pfn holds => ?_⟩
  · exact Nat.not_lt.mpr holds.1 hole.2
  · exact ⟨Nat.not_lt.mp (fun inside => both.2 ⟨Nat.le_trans front both.1.1, inside⟩), both.1.2⟩
  · have sums : ∀ f p q r : Nat, p < q → q ≤ r → f + (q - p) + (r - q) = f + (r - p) := by omega
    exact sums _ _ _ _ meets holds.1

/-- The vma `v` is made and put on the list of `t`. -/
structure Made (s s' : Mm) (t : TaskId) (v : VmaId) (vma : Vma) (stack : List ObjId) : Prop where
  list : (vmasOf s' t).Perm (v :: vmasOf s t)
  beyond : ∀ t', t' ≠ t → vmasOf s' t' = vmasOf s t'
  vma : s'.vma v = vma
  files : filesOf s' v = stack.filter (fun o => !isShadow s o)
  kept : ∀ w, w ≠ v → s'.vma w = s.vma w ∧ filesOf s' w = filesOf s w
  kind : s'.kind = s.kind
  listed : s'.files = s.files
  nlinks : ∀ x, s.nlinks x ≤ s'.nlinks x

theorem made {task : Task} {vma : Vma} {stack : List ObjId} {list : List VmaId} (is : s.task t = some task)
    (perm : list.Perm (v :: vmasOf s t))
    (done : s' = { setVmas (vmaCopyLinks { s with vma := update s.vma v vma } v stack) t list with pte := s'.pte }) :
    Made s s' t v vma stack := by
  let s0 : Mm := { s with vma := update s.vma v vma }
  obtain ⟨unseen, chain⟩ := vmaCopyLinks_unseen (s := s0) (v := v) stack
  have listed : (vmaCopyLinks s0 v stack).files = s.files := vmaCopyLinks_files ..
  have more : ∀ x, s.nlinks x ≤ (vmaCopyLinks s0 v stack).nlinks x := fun x => nlinks_vmaCopyLinks (s := s0) ..
  generalize vmaCopyLinks s0 v stack = s1 at unseen chain listed more done
  have shadows : ∀ o, isShadow s1 o = isShadow s o := fun o => by rw [isShadow, isShadow, unseen.kind]
  rw [done]
  refine ⟨?_, fun t' ne => ?_, ?_, ?_, fun w ne => ⟨?_, unseen.files w ne⟩, unseen.kind, listed, more⟩
  · exact (vmasOf_setVmas (s := s1) (unseen.task ▸ is)).symm ▸ perm
  · exact (vmasOf_setVmas_of_ne (s := s1) ne).trans (vmasOf_congr (congrFun unseen.task t'))
  · exact (congrFun unseen.vma v).trans (update_self ..)
  · show (s1.chain v).filter (fun o => !isShadow s1 o) = _
    simp only [chain, shadows]
  · exact (congrFun unseen.vma w).trans (update_of_ne ne ..)

theorem Removed.split {task : Task} (regular : Regular s) (is : s.task t = some task) (mem : v ∈ vmasOf s t)
    (fresh : ∀ t', new ∉ vmasOf s t') (inside : (s.vma v).pfnStart < start ∧ stop < (s.vma v).pfnEnd)
    (ordered : start ≤ stop) (done : vmaSplit s t (vmasOf s t) v new start stop = .ok s') :
    Removed s s' t start stop v new := by
  let front : Vma := { s.vma v with pfnEnd := start }
  let behind : Vma := (s.vma v).behind stop
  let s1 : Mm := shortened s v start
  have split := Except.ok.inj (done.symm.trans (vmaSplit_eq inside))
  have ne : new ≠ v := fun same => fresh t (same ▸ mem)
  have built : Made s1 s' t new behind (s.chain v) := made is (before_perm new mem (regular.each t).once) (by rw [split]; rfl)
  have members : ∀ w, w ∈ vmasOf s' t ↔ w = new ∨ w ∈ vmasOf s t := fun w => built.list.mem_iff.trans List.mem_cons
  have isFront : s'.vma v = front := (built.kept v ne.symm).1.trans (update_self ..)
  have isBehind : s'.vma new = behind := built.vma
  have other : ∀ w, w ≠ v → w ≠ new → s'.vma w = s.vma w := fun w isv isNew => (built.kept w isNew).1.trans (update_of_ne isv ..)
  have files : ∀ w, w ≠ new → filesOf s' w = filesOf s w := fun w isNew => (built.kept w isNew).2
  have copied : filesOf s' new = filesOf s v := built.files
  have old : ∀ {w}, w ∈ vmasOf s t → w ≠ new := fun mem same => fresh t (same ▸ mem)
  have parts : ∀ {w}, w ∈ [v, new] → w = v ∨ w = new := fun part => by simpa using part
  have holdsFront : ∀ pfn, front.Holds pfn → (s.vma v).Holds pfn ∧ ¬ (start ≤ pfn ∧ pfn < stop) := fun pfn holds =>
    ⟨⟨holds.1, Nat.lt_of_lt_of_le holds.2 (Nat.le_trans ordered (Nat.le_of_lt inside.2))⟩,
      fun hole => Nat.not_lt.mpr hole.1 holds.2⟩
  have holdsBehind : ∀ pfn, behind.Holds pfn → (s.vma v).Holds pfn ∧ ¬ (start ≤ pfn ∧ pfn < stop) := fun pfn holds =>
    ⟨⟨Nat.le_trans (Nat.le_of_lt inside.1) (Nat.le_trans ordered holds.1), holds.2⟩,
      fun hole => Nat.not_lt.mpr holds.1 hole.2⟩
  have offset : ∀ pfn, behind.Holds pfn → faultToFileOffset behind pfn = faultToFileOffset (s.vma v) pfn := by
    intro pfn holds
    have sums : ∀ f p q r a : Nat, p < a → a ≤ q → q ≤ r → f + q - p + (r - q) = f + (r - p) := by omega
    exact sums _ _ _ _ _ inside.1 ordered holds.1
  have apart : front.Apart behind := Vma.apart_iff.mpr (.inl ordered)
  have parted : Parts s s' t start stop v [v, new] := by
    refine ⟨?_, fun w => ?_, fun w here isv => ⟨other w isv (old here), files w (old here)⟩, fun w part => ?_,
      fun w partw u partu differ => ?_, fun w part pfn holds => ?_, fun pfn holds outside => ?_⟩
    · exact built.list.nodup_iff.mpr (List.nodup_cons.mpr ⟨fresh t, (regular.each t).once⟩)
    · rw [members]
      by_cases isv : w = v
      · simp [isv, mem]
      · simp [isv, or_comm]
    · rcases parts part with rfl | rfl
      · rw [isFront]
        exact inside.1
      · rw [isBehind]
        exact inside.2
    · rcases parts partw with rfl | rfl <;> rcases parts partu with rfl | rfl
      · exact absurd rfl differ
      · rw [isFront, isBehind]
        exact apart
      · rw [isFront, isBehind]
        exact apart.symm
      · exact absurd rfl differ
    · rcases parts part with rfl | rfl
      · rw [isFront] at holds
        refine ⟨(holdsFront pfn holds).1, (holdsFront pfn holds).2, ?_⟩
        rw [mappingAt, mappingAt, isFront, files w ne.symm]
        rfl
      · rw [isBehind] at holds
        refine ⟨(holdsBehind pfn holds).1, (holdsBehind pfn holds).2, ?_⟩
        rw [mappingAt, mappingAt, isBehind, copied, offset pfn holds]
        rfl
    · by_cases first : pfn < start
      · exact ⟨v, by simp, isFront ▸ ⟨holds.1, first⟩⟩
      · refine ⟨new, by simp, isBehind ▸ ⟨?_, holds.2⟩⟩
        exact Nat.not_lt.mp (fun hole => outside ⟨Nat.not_lt.mp first, hole⟩)
  refine ⟨parted.regular (regular.each t) mem, parted.maps (regular.each t) mem,
    fun w here isv => ⟨(members w).mpr (.inr here), other w isv (old here), files w (old here)⟩, fun w here => ((members w).mp here).symm,
    .inr inside, built.beyond, fun w outside isNew => ⟨other w (fun same => outside (same ▸ mem)) isNew, files w isNew⟩,
    built.kind, fun x k lasts => lasts.of_kind built.kind (built.listed ▸ lasts.listed) (built.nlinks x)⟩

theorem munmapVma_removed (regular : Regular s) (mem : v ∈ vmasOf s t)
    (room : (∀ t', new ∉ vmasOf s t') ∨ Clear s start stop v) (ordered : start ≤ stop) :
    Sat (munmapVma t new start stop s v) (fun s' => Removed s s' t start stop v new) Bug.notFreed := by
  unfold munmapVma
  cases is : s.task t with
  | none => exact trivial
  | some task =>
    simp only
    rw [← vmasOf_of_task is]
    split
    · next meets =>
      have fresh := room.resolve_right (by simp [Clear, meets])
      obtain ⟨before, behind⟩ : (s.vma v).pfnStart < stop ∧ start < (s.vma v).pfnEnd := by
        simpa [setIntersection] using meets
      simp only [vmaUnmap]
      split
      · next inside =>
        rw [vmaSplit_eq inside]
        exact Removed.split regular is mem fresh inside ordered (vmaSplit_eq inside)
      split
      · next ends =>
        simp only [vmaShrink]
        split
        · next front =>
          split
          · exact trivial
          · have back := (ends.resolve_left (fun h => Nat.not_lt.mpr h.1 front)).2
            exact Removed.shrunk regular mem (Vma.shortened_front front back behind) rfl
        · next front =>
          split
          · next back =>
            split
            · exact trivial
            · exact Removed.shrunk regular mem (Vma.shortened_back (Nat.not_lt.mp front) back before) rfl
          · exact trivial
      split
      · next covers =>
        unfold vmaDestroySingle
        exact dropMergeDeleteAll_unseen.bind (fun s1 dropped => Removed.destroyed regular is mem covers dropped rfl)
      · exact trivial
    · next apart => exact Removed.away regular (by simpa [Clear] using apart)

/-- The other tasks' vmas are as they were. -/
theorem Removed.others_regular (removed : Removed s s' t start stop v new) (regular : Regular s)
    (alien : ∀ t', t' ≠ t → new ∉ vmasOf s t') : Regular s' := by
  refine regular.change removed.regular removed.beyond (fun t' ne w mem => ?_) (fun t' ne w mem mem' => ?_)
  · exact (removed.foreign w (fun own => ne (regular.one t' t w mem own)) (fun same => alien t' ne (same ▸ mem))).1
  · rcases removed.added _ mem with old | rfl
    · exact ne (regular.one _ _ _ mem' old)
    · exact alien _ ne mem'

/-! ## The loop of `do_munmap` -/

/-- What taking a range from the vmas of the list `l` leaves. -/
structure RemovedAll (s s' : Mm) (t : TaskId) (start stop : Pfn) (new : VmaId) (l : List VmaId) : Prop where
  regular : Regular s'
  maps : ∀ pfn m, Maps s' t pfn m ↔
    Maps s t pfn m ∧ ¬ ((∃ w ∈ l, (s.vma w).Holds pfn) ∧ start ≤ pfn ∧ pfn < stop)
  added : ∀ w ∈ vmasOf s' t, w ∈ vmasOf s t ∨ w = new
  beyond : ∀ t', t' ≠ t → vmasOf s' t' = vmasOf s t'
  foreign : ∀ w, w ∉ vmasOf s t → w ≠ new → s'.vma w = s.vma w ∧ filesOf s' w = filesOf s w
  kind : s'.kind = s.kind
  lasts : ∀ x k, Lasts x (k + (l.map (linksLost s start stop x)).sum) s → Lasts x k s'

/-- One vma, and then the others of the list. -/
theorem Removed.cons {s1 : Mm} {l : List VmaId} (first : Removed s s1 t start stop v new) (rest : RemovedAll s1 s' t start stop new l)
    (other : ∀ w ∈ l, w ∈ vmasOf s t ∧ w ≠ v) : RemovedAll s s' t start stop new (v :: l) := by
  have same : ∀ w ∈ l, s1.vma w = s.vma w ∧ filesOf s1 w = filesOf s w := fun w mem =>
    (first.others w (other w mem).1 (other w mem).2).2
  refine ⟨rest.regular, fun pfn m => ?_, fun w mem => ?_, fun t' ne => (rest.beyond t' ne).trans (first.beyond t' ne),
    fun w outside isNew => ?_, rest.kind.trans first.kind, fun x k lasts => ?_⟩
  · have pages : (∃ w ∈ l, (s1.vma w).Holds pfn) ↔ ∃ w ∈ l, (s.vma w).Holds pfn :=
      exists_congr (fun w => and_congr_right (fun mem => by rw [(same w mem).1]))
    rw [rest.maps, first.maps, pages]
    simp only [List.mem_cons, exists_eq_or_imp]
    constructor
    · rintro ⟨⟨maps, first⟩, others⟩
      exact ⟨maps, fun hole => hole.1.elim (fun here => first ⟨here, hole.2⟩) (fun there => others ⟨there, hole.2⟩)⟩
    · rintro ⟨maps, none⟩
      exact ⟨⟨maps, fun hole => none ⟨.inl hole.1, hole.2⟩⟩, fun hole => none ⟨.inr hole.1, hole.2⟩⟩
  · exact (rest.added w mem).elim (first.added w) .inr
  · obtain ⟨vma, files⟩ := first.foreign w outside isNew
    obtain ⟨vma', files'⟩ := rest.foreign w (fun mem => (first.added w mem).elim outside isNew) isNew
    exact ⟨vma'.trans vma, files'.trans files⟩
  · have lost : l.map (linksLost s1 start stop x) = l.map (linksLost s start stop x) := List.map_congr_left fun w mem => by
      rw [linksLost, linksLost, (same w mem).1, (same w mem).2]
    refine rest.lasts x k (first.lasts x _ ?_)
    rwa [lost, Nat.add_assoc, Nat.add_comm (List.sum _), ← List.sum_cons, ← List.map_cons]

theorem munmapLoop_removed {l : List VmaId} (regular : Regular s) (ordered : start ≤ stop) (once : l.Nodup)
    (listed : ∀ w ∈ l, w ∈ vmasOf s t) (alien : ∀ t', t' ≠ t → new ∉ vmasOf s t')
    (room : new ∉ vmasOf s t ∨ ∀ w ∈ l, Clear s start stop w) :
    Sat (l.foldlM (munmapVma t new start stop) s) (fun s' => RemovedAll s s' t start stop new l) Bug.notFreed := by
  induction l generalizing s with
  | nil =>
    refine ⟨regular, fun pfn m => ⟨fun maps => ⟨maps, fun hole => ?_⟩, fun both => both.1⟩, fun _ mem => .inl mem,
      fun _ _ => rfl, fun _ _ _ => ⟨rfl, rfl⟩, rfl, fun _ _ lasts => lasts⟩
    obtain ⟨⟨w, mem, -⟩, -⟩ := hole
    exact absurd mem List.not_mem_nil
  | cons v l rest =>
    obtain ⟨absent, once⟩ := List.nodup_cons.mp once
    have mem : v ∈ vmasOf s t := listed v List.mem_cons_self
    have other : ∀ {w}, w ∈ l → w ∈ vmasOf s t ∧ w ≠ v := fun mem =>
      ⟨listed _ (List.mem_cons_of_mem v mem), fun same => absent (same ▸ mem)⟩
    have fresh : (∀ t', new ∉ vmasOf s t') ∨ Clear s start stop v := by
      refine room.imp (fun own t' => ?_) (fun clear => clear v List.mem_cons_self)
      by_cases here : t' = t
      · rw [here]
        exact own
      · exact alien t' here
    refine (munmapVma_removed regular mem fresh ordered).bind (fun s1 first => ?_)
    have room1 : new ∉ vmasOf s1 t ∨ ∀ w ∈ l, Clear s1 start stop w := by
      rcases first.room with keep | inside
      · refine room.imp keep (fun clear w mem => ?_)
        rw [Clear, (first.others w (other mem).1 (other mem).2).2.1]
        exact clear w (List.mem_cons_of_mem v mem)
      · refine .inr (fun w memw => ?_)
        obtain ⟨old, ne⟩ := other memw
        rw [Clear, (first.others w old ne).2.1, setIntersection_eq_false]
        rcases Vma.apart_iff.mp ((regular.each t).apart v mem w old ne.symm) with behind | before
        · exact .inl (Nat.le_trans (Nat.le_of_lt inside.2) behind)
        · exact .inr (Nat.le_trans before (Nat.le_of_lt inside.1))
    have alien1 : ∀ t', t' ≠ t → new ∉ vmasOf s1 t' := fun t' ne => by
      rw [first.beyond t' ne]
      exact alien t' ne
    have listed1 : ∀ w ∈ l, w ∈ vmasOf s1 t := fun w mem => (first.others w (other mem).1 (other mem).2).1
    exact (rest (first.others_regular regular alien) once listed1 alien1 room1).mono fun s' others => first.cons others fun w mem => other mem

end Regular

end Codezero.Mm0
