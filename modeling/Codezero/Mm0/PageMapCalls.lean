import Codezero.Lib.Machine
import Codezero.Mm0.Calls
import Codezero.Mm0.Integrity
import Codezero.Mm0.MunmapCall
import Codezero.Mm0.PageMap

/-!
# `do_mmap` and `do_munmap` edit the page map
-/

namespace Codezero.Mm0
open Codezero.Lib

/-- The vma is on no task's list. -/
def Unlisted (s : Mm) (v : VmaId) : Prop := ∀ t, v ∉ vmasOf s t

section Calls
variable {s s' : Mm} {t : TaskId} {start stop : Pfn} {v new : VmaId}

theorem doMunmap_removed (regular : Regular s) (ordered : start ≤ stop) (fresh : Unlisted s new) :
    Sat (doMunmap s t start stop new) (fun s' => RemovedAll s s' t start stop new (vmasOf s t)) Bug.notFreed := by
  unfold doMunmap
  cases is : s.task t with
  | none => exact trivial
  | some task =>
    simp only
    rw [← vmasOf_of_task is]
    exact munmapLoop_removed regular ordered (regular.each t).once (fun _ mem => mem) (fun t' _ => fresh t') (.inl (fresh t))

/-- The page map of a task is read from its own vmas. -/
theorem pageMap_congr {t' : TaskId} (regular : RegularAt s t') (regular' : RegularAt s' t') {pfn : Pfn}
    (list : vmasOf s' t' = vmasOf s t')
    (kept : ∀ w ∈ vmasOf s t', s'.vma w = s.vma w ∧ filesOf s' w = filesOf s w) : pageMap s' t' pfn = pageMap s t' pfn := by
  refine Option.ext (fun m => ?_)
  rw [pageMap_eq_some regular', pageMap_eq_some regular, Maps, Maps, list]
  refine exists_congr (fun w => and_congr_right (fun mem => ?_))
  rw [mappingAt, mappingAt, (kept w mem).1, (kept w mem).2]

theorem RemovedAll.pageMap (removed : RemovedAll s s' t start stop new (vmasOf s t)) (regular : Regular s)
    (fresh : Unlisted s new) (t' : TaskId) (pfn : Pfn) :
    pageMap s' t' pfn = if t' = t ∧ start ≤ pfn ∧ pfn < stop then none else pageMap s t' pfn := by
  by_cases here : t' = t
  · subst here
    refine Option.ext (fun m => ?_)
    rw [pageMap_eq_some (removed.regular.each t'), removed.maps]
    by_cases hole : start ≤ pfn ∧ pfn < stop
    · rw [if_pos ⟨rfl, hole⟩]
      refine ⟨fun both => ?_, fun none => nomatch none⟩
      obtain ⟨w, mem, holds, -⟩ := both.1
      exact absurd ⟨⟨w, mem, holds⟩, hole⟩ both.2
    · rw [if_neg (fun both => hole both.2), pageMap_eq_some (regular.each t')]
      exact ⟨fun both => both.1, fun maps => ⟨maps, fun taken => hole taken.2⟩⟩
  · rw [if_neg (fun both => here both.1)]
    refine pageMap_congr (regular.each t') (removed.regular.each t') (removed.beyond t' here) (fun w mem => ?_)
    exact removed.foreign w (fun own => here (regular.one t' t w mem own)) (fun same => fresh t' (same ▸ mem))

/-! ## A new vma -/

theorem Made.regular {vma : Vma} {stack : List ObjId} (made : Made s s' t v vma stack) (regular : Regular s)
    (fresh : Unlisted s v) (nonempty : vma.pfnStart < vma.pfnEnd)
    (free : ∀ w ∈ vmasOf s t, ∀ pfn, vma.Holds pfn → ¬ (s.vma w).Holds pfn) : Regular s' := by
  have old : ∀ {t' w}, w ∈ vmasOf s t' → s'.vma w = s.vma w := fun mem =>
    (made.kept _ (fun same => fresh _ (same ▸ mem))).1
  have mem : ∀ {w}, w ∈ vmasOf s' t ↔ w = v ∨ w ∈ vmasOf s t := by
    intro w
    rw [made.list.mem_iff, List.mem_cons]
  have each := regular.each t
  have own : RegularAt s' t := by
    refine ⟨made.list.nodup_iff.mpr (List.nodup_cons.mpr ⟨fresh t, each.once⟩), fun w here => ?_,
      fun w herew u hereu ne => ?_⟩
    · rcases mem.mp here with rfl | here
      · rw [made.vma]
        exact nonempty
      · rw [old here]
        exact each.nonempty w here
    · have apart : ∀ {u}, u ∈ vmasOf s t → (s'.vma v).Apart (s'.vma u) := fun {u} here => by
        rw [made.vma, old here]
        exact Vma.apart_of_not_holds nonempty (each.nonempty u here) (free u here)
      rcases mem.mp herew with rfl | oldw <;> rcases mem.mp hereu with rfl | oldu
      · exact absurd rfl ne
      · exact apart oldu
      · exact (apart oldw).symm
      · rw [old oldw, old oldu]
        exact each.apart w oldw u oldu ne
  refine regular.change own made.beyond (fun _ _ _ => old) (fun t' ne w here here' => ?_)
  rcases mem.mp here with rfl | here
  · exact fresh t' here'
  · exact ne (regular.one t' t w here' here)

theorem Made.pageMap {vma : Vma} {stack : List ObjId} (made : Made s s' t v vma stack) (regular : Regular s)
    (regular' : Regular s') (fresh : Unlisted s v) (t' : TaskId) (pfn : Pfn) :
    pageMap s' t' pfn = if t' = t ∧ vma.pfnStart ≤ pfn ∧ pfn < vma.pfnEnd then
        some ⟨vma.flags, faultToFileOffset vma pfn, stack.filter (fun o => !isShadow s o)⟩
      else pageMap s t' pfn := by
  have kept : ∀ {t' w}, w ∈ vmasOf s t' → s'.vma w = s.vma w ∧ filesOf s' w = filesOf s w := fun mem =>
    made.kept _ (fun same => fresh _ (same ▸ mem))
  by_cases here : t' = t
  · subst here
    have mine : v ∈ vmasOf s' t' := made.list.mem_iff.mpr List.mem_cons_self
    by_cases inside : vma.Holds pfn
    · rw [if_pos ⟨rfl, inside⟩, pageMap_eq_some (regular'.each t')]
      exact ⟨v, mine, by rwa [made.vma], by rw [mappingAt, made.vma, made.files]⟩
    · rw [if_neg (fun both => inside both.2)]
      refine Option.ext (fun m => ?_)
      rw [pageMap_eq_some (regular'.each t'), pageMap_eq_some (regular.each t')]
      constructor
      · rintro ⟨w, mem, holds, rfl⟩
        rcases List.mem_cons.mp (made.list.mem_iff.mp mem) with rfl | old
        · exact absurd (made.vma ▸ holds) inside
        · refine ⟨w, old, (kept old).1 ▸ holds, ?_⟩
          rw [mappingAt, mappingAt, (kept old).1, (kept old).2]
      · rintro ⟨w, mem, holds, rfl⟩
        refine ⟨w, made.list.mem_iff.mpr (List.mem_cons_of_mem v mem), by rwa [(kept mem).1], ?_⟩
        rw [mappingAt, mappingAt, (kept mem).1, (kept mem).2]
  · rw [if_neg (fun both => here both.1)]
    exact pageMap_congr (regular.each t') (regular'.each t') (made.beyond t' here) (fun w mem => kept mem)

end Calls

/-! ## Mapping -/

section Mapping
variable {s s' : Mm} {t : TaskId} {args : MmapArgs} {file : ObjId} {fileOffset addr : Nat}

/-- The files behind a new mapping. -/
def filesBehind (s : Mm) (file : ObjId) : List ObjId :=
  if isShm s file then file :: (getDevzero s).toList else [file]

/-- The new vmas come from the allocator, and what is mapped is a file. -/
structure Callable (s : Mm) (args : MmapArgs) : Prop where
  vma : Unlisted s args.vma
  split : Unlisted s args.split
  ne : args.vma ≠ args.split
  file : ∀ o ∈ args.file, o ∈ s.files ∧ isShadow s o = false

/-- The address `do_mmap` comes to. -/
def mapAddress (s : Mm) (task : Task) (args : MmapArgs) : Except Bug Nat := do
  let valid ← mmapAddressValidate s task args.addr args.flags
  pure (if valid then args.addr else if args.flags.shared then args.shmAddr else findUnmappedArea s task args.npages)

/-- The file keeps a link when the range is cleared for the mapping at `addr`, or loses none, or needs none. -/
def KeptAt (s : Mm) (t : TaskId) (args : MmapArgs) (file : ObjId) (addr : Nat) : Prop :=
  let lost := ((vmasOf s t).map (linksLost s (pfnOf addr) (pfnOf addr + args.npages) file)).sum
  spared s file = true ∨ lost = 0 ∨ lost < s.nlinks file

/-- This holds for the file and the address that the call comes to. -/
def Kept (s : Mm) (t : TaskId) (args : MmapArgs) : Prop :=
  ∀ task file off addr, s.task t = some task → mapFile s args = .ok (some (file, off)) → mapAddress s task args = .ok addr →
    KeptAt s t args file addr

theorem getDevzero_file (found : getDevzero s = some file) : isShadow s file = false := by
  have isDevzero := List.find?_some found
  split at isDevzero
  · next kind => simp [isShadow, kind, Kind.isShadow]
  · exact absurd isDevzero Bool.false_ne_true

/-- What `do_mmap` defines the page map to be. -/
def Defines (s s' : Mm) (t : TaskId) (args : MmapArgs) (file : ObjId) (fileOffset addr : Nat) : Prop :=
  ∀ t' pfn, pageMap s' t' pfn = if t' = t ∧ pfnOf addr ≤ pfn ∧ pfn < pfnOf addr + args.npages then
      some ⟨args.flags, pfnOf fileOffset + (pfn - pfnOf addr), filesBehind s' file⟩
    else pageMap s t' pfn

theorem mmapAt_defines (regular : Regular s) (callable : Callable s args) (some : 0 < args.npages)
    (there : file ∈ s.files) (plain : isShadow s file = false) :
    Sat (mmapAt s t args file fileOffset addr) (fun s' => Regular s' ∧ Defines s s' t args file fileOffset addr)
      (fun b => KeptAt s t args file addr → b.notFreed) := by
  unfold mmapAt
  refine ((doMunmap_removed regular (Nat.le_add_right _ _) callable.split).weaken (fun _ other _ => other)).bind
    (fun s1 removed => ?_)
  have edited := removed.pageMap regular callable.split
  have unlisted : Unlisted s1 args.vma := fun t' mem => by
    by_cases here : t' = t
    · subst here
      exact (removed.added args.vma mem).elim (callable.vma t') callable.ne
    · rw [removed.beyond t' here] at mem
      exact callable.vma t' mem
  have shadow : ∀ o, isShadow s1 o = isShadow s o := fun o => by rw [isShadow, isShadow, removed.kind]
  -- Nothing of the task is left in the range.
  have free : ∀ w ∈ vmasOf s1 t, ∀ pfn, (args.newVma fileOffset addr).Holds pfn → ¬ (s1.vma w).Holds pfn := by
    intro w mem pfn inside holds
    obtain ⟨maps, outside⟩ := (removed.maps pfn (mappingAt s1 w pfn)).mp ⟨w, mem, holds, rfl⟩
    obtain ⟨u, memu, holdsu, -⟩ := maps
    exact outside ⟨⟨u, memu, holdsu⟩, inside⟩
  have nonempty : (args.newVma fileOffset addr).pfnStart < (args.newVma fileOffset addr).pfnEnd :=
    Nat.lt_add_of_pos_right some
  cases is : s1.task t with
  | none => exact fun _ => trivial
  | some task =>
    -- Both kinds of files end alike.
    have finish : ∀ stack : List ObjId, (∀ s2 : Mm, s2.files = s1.files → s2.kind = s1.kind →
          stack.filter (fun o => !isShadow s1 o) = filesBehind s2 file) →
        Sat (do
          let s2 := vmaCopyLinks { s1 with vma := Function.update s1.vma args.vma (args.newVma fileOffset addr) }
            args.vma stack
          let vmas ← taskInsertVma s2 args.vma task.vmas
          pure (setVmas s2 t vmas))
        (fun s' => Regular s' ∧ Defines s s' t args file fileOffset addr) (fun b => KeptAt s t args file addr → b.notFreed) := by
      intro stack files
      refine ((taskInsertVma_sat _).weaken (fun _ other _ => Bug.notFreed_of_elsewhere other)).bind (fun list perm => ?_)
      rw [← vmasOf_of_task is] at perm
      let s2 : Mm := vmaCopyLinks { s1 with vma := Function.update s1.vma args.vma (args.newVma fileOffset addr) } args.vma stack
      have built : Made s1 (setVmas s2 t list) t args.vma (args.newVma fileOffset addr) stack := made is perm rfl
      have regular' := built.regular removed.regular unlisted nonempty free
      refine ⟨regular', fun t' pfn => ?_⟩
      rw [built.pageMap removed.regular regular' unlisted t' pfn, files _ built.listed built.kind, edited]
      by_cases inside : t' = t ∧ pfnOf addr ≤ pfn ∧ pfn < pfnOf addr + args.npages
      · refine Eq.trans (if_pos inside) (Eq.trans ?_ (if_pos inside).symm)
        rfl
      · refine Eq.trans (if_neg inside) (Eq.trans ?_ (if_neg inside).symm)
        rw [if_neg inside]
    simp only
    split
    · next gone => exact fun kept => absurd (removed.lasts file 0 ⟨plain, there, by rw [Nat.zero_add]; exact kept⟩).listed gone
    split
    · next shm =>
      cases found : getDevzero s1 with
      | none => exact fun _ => trivial
      | some dzero =>
        refine finish [file, dzero] (fun s2 list kind => ?_)
        have devzero : getDevzero s2 = getDevzero s1 := by simp only [getDevzero, list, kind]
        have isShm' : isShm s2 file = true := by rw [← shm, isShm, isShm, kind]
        simp [filesBehind, devzero, found, isShm', shadow, plain, shadow dzero ▸ getDevzero_file found]
    · next ordinary =>
      refine finish [file] (fun s2 list kind => ?_)
      have isShm' : isShm s2 file = isShm s1 file := by rw [isShm, isShm, kind]
      simp [filesBehind, isShm', ordinary, shadow, plain]

theorem mmapSizes_pos {npages filePages : Nat} (passed : mmapSizes npages filePages fileOffset = .ok ()) : 0 < npages := by
  rcases Nat.eq_zero_or_pos npages with rfl | some
  · simp only [mmapSizes, Nat.not_lt_zero, gt_iff_lt, if_false, if_true] at passed
    exact nomatch passed
  · exact some

/-- What a successful `do_mmap` does. -/
structure MmapEdit (s s' : Mm) (t : TaskId) (args : MmapArgs) (returned : Nat) : Prop where
  regular : Regular s'
  defines : ∃ task file fileOffset addr, s.task t = some task ∧ mapFile s args = .ok (some (file, fileOffset)) ∧
    (mmapAddressValidate s task args.addr args.flags = .ok true → addr = args.addr) ∧
    returned = (if args.flags.growsdown then addr + args.npages * pageSize else addr) ∧
    Defines s s' t args file fileOffset addr

theorem mmapChecked_edits {task : Task} {sizes : Except Errno Unit} (regular : Regular s) (callable : Callable s args)
    (is : s.task t = some task) (mapped : mapFile s args = .ok (some (file, fileOffset)))
    (there : file ∈ s.files) (plain : isShadow s file = false) (pos : sizes = .ok () → 0 < args.npages) :
    Sat (mmapChecked s t task args file fileOffset sizes)
      (fun r => (r.1 = s ∧ ∃ errno, r.2 = .error errno) ∨ ∃ returned, r.2 = .ok returned ∧ MmapEdit s r.1 t args returned)
      (fun b => Kept s t args → b.notFreed) := by
  cases sizes with
  | error errno => exact .inl ⟨rfl, errno, rfl⟩
  | ok =>
    refine Sat.bind_eq (fun b stopped _ => ?_) (fun valid validated => ?_)
    · unfold mmapAddressValidate at stopped
      split_ifs at stopped <;> cases stopped
      exact trivial
    generalize place : (if valid = true then args.addr else _) = addr
    have chosen : mapAddress s task args = .ok addr := by
      rw [mapAddress, validated, ← place]
      rfl
    have where_ : mmapAddressValidate s task args.addr args.flags = .ok true → addr = args.addr := fun isValid => by
      obtain rfl := Except.ok.inj (validated.symm.trans isValid)
      rw [← place, if_pos rfl]
    dsimp only
    split
    · exact .inl ⟨rfl, _, rfl⟩
    split
    · exact .inl ⟨rfl, _, rfl⟩
    · refine ((mmapAt_defines regular callable (pos rfl) there plain).weaken
        (fun b other kept => other (kept task file fileOffset addr is mapped chosen))).bind (fun s' edited => ?_)
      exact .inr ⟨_, rfl, edited.1, task, file, fileOffset, addr, is, mapped, where_, rfl, edited.2⟩

theorem mapFile_plain (callable : Callable s args) (mapped : mapFile s args = .ok (some (file, fileOffset))) :
    file ∈ s.files ∧ isShadow s file = false := by
  unfold mapFile at mapped
  split at mapped
  · next o is =>
    obtain ⟨rfl, -⟩ := Prod.mk.inj (Option.some.inj (Except.ok.inj mapped))
    exact callable.file o is
  · split at mapped
    · split at mapped
      · next found =>
        obtain ⟨rfl, -⟩ := Prod.mk.inj (Option.some.inj (Except.ok.inj mapped))
        exact ⟨List.mem_of_find?_eq_some found, getDevzero_file found⟩
      · exact nomatch mapped
    · exact nomatch (Except.ok.inj mapped)

theorem doMmap_edits (regular : Regular s) (callable : Callable s args) :
    Sat (doMmap s t args)
      (fun r => (r.1 = s ∧ ∃ errno, r.2 = .error errno) ∨ ∃ returned, r.2 = .ok returned ∧ MmapEdit s r.1 t args returned)
      (fun b => Kept s t args → b.notFreed) := by
  unfold doMmap
  cases is : s.task t with
  | none => exact fun _ => trivial
  | some task =>
    refine Sat.bind_eq (fun b stopped _ => ?_) (fun mapped ran => ?_)
    · unfold mapFile at stopped
      split at stopped
      · cases stopped
      split at stopped
      · split at stopped <;> cases stopped
        exact trivial
      · cases stopped
    cases mapped with
    | none => exact .inl ⟨rfl, _, rfl⟩
    | some mapped =>
      obtain ⟨file, off⟩ := mapped
      dsimp only
      unfold mmapFile
      obtain ⟨there, plain⟩ := mapFile_plain callable ran
      exact mmapChecked_edits regular callable is ran there plain mmapSizes_pos

end Mapping

/-! ## Sequences of calls -/

inductive PageCall
  | mmap (t : TaskId) (args : MmapArgs)
  | munmap (t : TaskId) (start npages : Pfn) (new : VmaId)

def pageCalls : Machine Mm PageCall Bug where
  enabled s
    | .mmap _ args => Callable s args
    | .munmap _ _ _ new => Unlisted s new
  step s
    | .mmap t args => do
      let (s', _) ← doMmap s t args
      pure s'
    | .munmap t start npages new => doMunmap s t start (start + npages) new

/-- No call maps a file whose last links its own unmapping drops. -/
def KeepsFile (s : Mm) : PageCall → Prop
  | .mmap t args => Kept s t args
  | .munmap .. => True

theorem regular_of_reaches {cond : Mm → PageCall → Prop} {s0 s : Mm} (regular : Regular s0)
    (reached : pageCalls.ReachesUnder cond s0 s) : Regular s := by
  refine reached.invariant (fun s call s' regular enabled _ stepped => ?_) regular
  cases call with
  | mmap t args =>
    obtain ⟨r, ran, same⟩ := bind_eq_ok.mp stepped
    obtain rfl := Except.ok.inj same
    rcases (doMmap_edits regular enabled).ok ran with ⟨unchanged, -⟩ | ⟨_, -, edit⟩
    · exact unchanged ▸ regular
    · exact edit.regular
  | munmap t start npages new => exact ((doMunmap_removed regular (Nat.le_add_right _ _) enabled).ok stepped).regular

theorem page_map_edited {s0 s : Mm} (regular : Regular s0) (reached : pageCalls.ReachesUnder KeepsFile s0 s) :
    Regular s ∧
      (∀ t start npages new s', Unlisted s new → doMunmap s t start (start + npages) new = .ok s' →
        ∀ t' pfn, pageMap s' t' pfn =
          if t' = t ∧ start ≤ pfn ∧ pfn < start + npages then none else pageMap s t' pfn) ∧
      ∀ t args, Callable s args → Kept s t args → doMmap s t args ≠ .error .freedFile ∧
        ∀ s' returned, doMmap s t args = .ok (s', .ok returned) → MmapEdit s s' t args returned := by
  have regular := regular_of_reaches regular reached
  refine ⟨regular, fun t start npages new s' fresh ran => ?_, fun t args callable kept => ⟨fun stopped => ?_, fun s' returned ran => ?_⟩⟩
  · exact ((doMunmap_removed regular (Nat.le_add_right _ _) fresh).ok ran).pageMap regular fresh
  · exact (doMmap_edits regular callable).error stopped kept
  · rcases (doMmap_edits regular callable).ok ran with ⟨-, errno, failed⟩ | ⟨_, ok, edit⟩
    · exact nomatch failed
    · obtain rfl := Except.ok.inj ok
      exact edit

theorem bootState_vmas (t : TaskId) : vmasOf bootState t = [] := by
  by_cases here : t = 1 <;> simp [vmasOf, bootState, here]

theorem bootState_regular : Regular bootState := by
  refine ⟨fun t => ⟨?_, ?_, ?_⟩, fun t t' v mem => ?_⟩
  · rw [bootState_vmas]
    exact List.nodup_nil
  · simp [bootState_vmas]
  · simp [bootState_vmas]
  · simp [bootState_vmas] at mem

/-- No other task has a vma: it would hold a page. -/
theorem MmapEdit.unlisted {s s' : Mm} {t : TaskId} {args : MmapArgs} {returned : Nat} {v : VmaId} (edit : MmapEdit s s' t args returned)
    (empty : ∀ t', t' ≠ t → vmasOf s t' = []) (absent : v ∉ vmasOf s' t) : Unlisted s' v := fun t' mem => by
  obtain ⟨_, _, _, _, -, -, -, -, defines⟩ := edit.defines
  have here : t' ≠ t := fun same => absent (same ▸ mem)
  have nothing : pageMap s' t' (s'.vma v).pfnStart = none := by
    rw [defines, if_neg (fun both => here both.1)]
    simp [pageMap, empty t' here, findVma]
  have holds := (pageMap_eq_some (edit.regular.each t')).mpr
    ⟨v, mem, ⟨Nat.le_refl _, (edit.regular.each t').nonempty v mem⟩, rfl⟩
  exact nomatch nothing.symm.trans holds

/-- Four pages are mapped and the second one is unmapped, which splits the vma. -/
theorem page_map_edited_split : ∃ s s', pageCalls.ReachesUnder KeepsFile bootState s ∧ Regular s ∧
    MmapEdit bootState s 1 (anonymous 4 10 11) 0x110000 ∧ vmasOf s 1 = [10] ∧
    doMunmap s 1 0x111 (0x111 + 1) 12 = .ok s' ∧ vmasOf s' 1 = [12, 10] ∧
    ∀ t pfn, pageMap s' t pfn = if t = 1 ∧ 0x111 ≤ pfn ∧ pfn < 0x111 + 1 then none else pageMap s t pfn := by
  have unlisted : ∀ v, Unlisted bootState v := fun v t mem => by simp [bootState_vmas] at mem
  have callable : Callable bootState (anonymous 4 10 11) :=
    ⟨unlisted _, unlisted _, by decide, fun o is => nomatch is⟩
  have calls : (doMmap bootState 1 (anonymous 4 10 11)).toOption.map (fun r => (r.2.toOption, vmasOf r.1 1,
      (doMunmap r.1 1 0x111 (0x111 + 1) 12).toOption.map (fun s' => vmasOf s' 1))) =
      some (some 0x110000, [10], some [12, 10]) := by
    decide +kernel
  obtain ⟨⟨s, result⟩, ran, facts⟩ := Option.map_eq_some_iff.mp calls
  simp only [Prod.mk.injEq] at facts
  obtain ⟨returned, vmas, split⟩ := facts
  obtain ⟨s', unmapped, vmas'⟩ := Option.map_eq_some_iff.mp split
  obtain rfl := toOption_eq_some.mp returned
  have mapped := toOption_eq_some.mp ran
  have cleared := toOption_eq_some.mp unmapped
  have kept : Kept bootState 1 (anonymous 4 10 11) := fun task file off addr _ _ _ => .inr (.inl (by simp [bootState_vmas]))
  have edit := ((page_map_edited bootState_regular .start).2.2 1 (anonymous 4 10 11) callable kept).2 s _ mapped
  have reached : pageCalls.ReachesUnder KeepsFile bootState s :=
    .next .start (show pageCalls.enabled bootState (.mmap 1 (anonymous 4 10 11)) from callable) kept
      (by simp only [pageCalls, mapped]; rfl)
  have fresh : Unlisted s 12 := edit.unlisted (fun t _ => bootState_vmas t) (by rw [vmas]; decide)
  obtain ⟨regular, unmaps, -⟩ := page_map_edited bootState_regular reached
  exact ⟨s, s', reached, regular, edit, vmas, cleared, vmas', unmaps 1 0x111 1 12 s' fresh cleared⟩

/-- A shared memory segment of one page, the file 1. -/
def segment : Mm :=
  { bootState with
    kind := fun o => if o = 1 then .file .shm 0 0x1000 else bootState.kind o
    objects := [0, 1], objectsTotal := 2, files := [0, 1], filesTotal := 2
    regions := { bootState.regions with shmemStart := 0x300, shmemEnd := 0x400 } }

/-- What `do_shmat` calls `do_mmap` with. -/
def attach (vma split : VmaId) : MmapArgs :=
  { file := some 1, fileOffset := 0, addr := 0x300000, npages := 1, vma := vma, split := split, shmAddr := 0x300000
    flags := { read := true, write := true, shared := true, anonymous := true } }

/-- Attached at one address twice, the segment loses its last link before it gets the new one. -/
theorem segment_freed : Regular segment ∧ ∃ s, Callable segment (attach 10 11) ∧
    doMmap segment 1 (attach 10 11) = .ok (s, .ok 0x300000) ∧ Callable s (attach 12 13) ∧
    doMmap s 1 (attach 12 13) = .error .freedFile := by
  have each := bootState_regular.each
  have regular : Regular segment := ⟨fun t => ⟨(each t).once, (each t).nonempty, (each t).apart⟩, bootState_regular.one⟩
  have empty : ∀ t, vmasOf segment t = [] := bootState_vmas
  have callable : Callable segment (attach 10 11) :=
    ⟨fun t => by simp [empty t], fun t => by simp [empty t], by decide, fun o is => by cases is; decide⟩
  have calls : (doMmap segment 1 (attach 10 11)).toOption.map (fun r => (r.2.toOption, vmasOf r.1 1, r.1.files, r.1.kind 1,
      match doMmap r.1 1 (attach 12 13) with
      | .error b => some b
      | .ok _ => none)) = some (some 0x300000, [10], [0, 1], .file .shm 0 0x1000, some .freedFile) := by
    decide +kernel
  obtain ⟨⟨s, result⟩, ran, facts⟩ := Option.map_eq_some_iff.mp calls
  simp only [Prod.mk.injEq] at facts
  obtain ⟨returned, vmas, files, kind, stopped⟩ := facts
  obtain rfl := toOption_eq_some.mp returned
  have mapped := toOption_eq_some.mp ran
  rcases (doMmap_edits regular callable).ok mapped with ⟨-, _, failed⟩ | ⟨_, -, edit⟩
  · cases failed
  have fresh : ∀ v ≠ 10, Unlisted s v := fun v ne => edit.unlisted (fun t _ => empty t) (by simpa [vmas] using ne)
  refine ⟨regular, s, callable, mapped, ⟨fresh 12 (by decide), fresh 13 (by decide), by decide, fun o is => ?_⟩, ?_⟩
  · cases is
    exact ⟨by rw [files]; decide, by rw [isShadow, kind]; rfl⟩
  · cases again : doMmap s 1 (attach 12 13) with
    | ok r => simp [again] at stopped
    | error b => simpa [again] using stopped

end Codezero.Mm0
