import Codezero.Mm0.MunmapCall
import Codezero.Mm0.PageMap
import Codezero.Kernel.State

/-!
# Writing back shared files

`sys_msync` and `sys_munmap` call `vma_flush_pages` on the vmas of their range. It looks for `VMA_SHARED` in the flags of the
object behind the vma, where nothing ever sets it.
-/

namespace Codezero.Mm0.Msync
open Codezero.Lib
open Codezero.Kernel (Word)

def vmWrite : Word := 1 <<< 3
def vmaShared : Word := 1 <<< 4
def vmaAnonymous : Word := 1 <<< 5
def vmDirty : Word := 1 <<< 9
def vmObjShadow : Word := 1 <<< 10
def vmObjFile : Word := 1 <<< 11

/-- `vm_object.flags` as a word: the kind, `VM_WRITE` and `VM_DIRTY` are what is assigned to it, besides the `VM_READ` of a frozen
shadow. -/
def objFlags (s : Mm) (o : ObjId) : Word :=
  (if isShadow s o then vmObjShadow else vmObjFile) ||| (if s.write o then vmWrite else 0) ||| (if s.dirty o then vmDirty else 0)

/-- Where the calls stop: in the handling of objects, at the `BUG_ON` of `vma_flush_pages`, or when the turns allowed to a loop are
used up. -/
inductive Stop
  | mm (bug : Bug)
  | flushType
  | turns
  deriving DecidableEq, Repr

/-- `file_page_out`; `codes` are what `vfs_write` returns for the pages of files. The check of the length shifts the result of
the comparison and never fails. -/
def filePageOut (codes : ObjId → Pfn → Int) (s : Mm) (o : ObjId) (off : Pfn) : Mm × Int :=
  match findPage s o off with
  | none => (s, 0)
  | some p =>
    if p.dirty = false then (s, 0)
    else if codes o off < 0 then (s, codes o off)
    else ({ s with
      vnode := Function.update s.vnode o (Function.update (s.vnode o) off (some (s.mem p.frame)))
      pageCache := Function.update s.pageCache o
        ((s.pageCache o).map (fun q => if q = p then { q with dirty := false } else q)) }, 0)

/-- The loop of `write_file_pages`. -/
def writePages (codes : ObjId → Pfn → Int) (o : ObjId) : List Pfn → Mm → Mm × Int
  | [], s => (s, 0)
  | off :: rest, s =>
    match filePageOut codes s o off with
    | (s, code) => if code < 0 then (s, code) else writePages codes o rest s

/-- `flush_file_pages`, with `write_file_pages`; the size that `vfs_update_file_stats` writes is not part of the pages. -/
def flushFilePages (codes : ObjId → Pfn → Int) (s : Mm) (o : ObjId) : Mm × Int :=
  if s.dirty o = false then (s, 0) else writePages codes o (List.range (filePages s o)) s

/-- `vma_flush_pages`. -/
def vmaFlushPages (codes : ObjId → Pfn → Int) (s : Mm) (v : VmaId) : Except Stop (Mm × Int) :=
  if (s.vma v).flags.write = false then pure (s, 0)
  else match s.chain v with
    | [] => throw (.mm .emptyList)
    | o :: _ =>
      let flags := objFlags s o
      if flags &&& vmDirty = 0 then pure (s, 0)
      else if flags &&& vmObjFile ≠ 0 ∧ flags &&& vmaShared ≠ 0 ∧ flags &&& vmaAnonymous = 0 then
        match s.kind o with
        | .file .vfs _ _ => pure (flushFilePages codes s o)
        | _ => throw .flushType
      else pure (s, 0)

/-- The loop of `do_msync`, with at most `fuel` turns. The next address is compared with a page number. -/
def msyncLoop (codes : ObjId → Pfn → Int) (vmas : List VmaId) (stop : Pfn) : Nat → Nat → Mm → Except Stop (Mm × Int)
  | 0, _, _ => throw .turns
  | fuel + 1, addr, s =>
    match findVma s vmas (pfnOf addr) with
    | none => pure (s, 0)
    | some v => do
      let (s, code) ← vmaFlushPages codes s v
      if code < 0 then pure (s, code)
      else
        let next := (s.vma v).pfnEnd * pageSize % 2 ^ 32
        if next ≥ stop then pure (s, 0) else msyncLoop codes vmas stop fuel next s

/-- `do_msync`. -/
def doMsync (codes : ObjId → Pfn → Int) (fuel : Nat) (s : Mm) (t : TaskId) (addr npages : Nat) : Except Stop (Mm × Int) :=
  match s.task t with
  | none => throw (.mm .noTask)
  | some task => msyncLoop codes task.vmas (pfnOf addr + npages) fuel addr s

def einval : Int := -22

/-- `sys_msync`. -/
def sysMsync (codes : ObjId → Pfn → Int) (fuel : Nat) (s : Mm) (t : TaskId) (addr length : Nat) : Except Stop (Mm × Int) :=
  if addr % pageSize ≠ 0 then pure (s, einval) else doMsync codes fuel s t addr (pagesOf length)

/-- The loop of `do_munmap` with the flushes. -/
def munmapLoop (codes : ObjId → Pfn → Int) (t : TaskId) (new : VmaId) (start stop : Pfn) : List VmaId → Mm → Except Stop (Mm × Int)
  | [], s => pure (s, 0)
  | v :: rest, s =>
    if setIntersection start stop (s.vma v).pfnStart (s.vma v).pfnEnd then do
      let (s, code) ← vmaFlushPages codes s v
      if code < 0 then pure (s, code)
      else do
        let s ← (munmapVmaCall t new start stop s v).mapError .mm
        munmapLoop codes t new start stop rest s
    else munmapLoop codes t new start stop rest s

/-- `sys_munmap` with the flushes. -/
def sysMunmap (codes : ObjId → Pfn → Int) (s : Mm) (t : TaskId) (addr length : Nat) (new : VmaId) : Except Stop (Mm × Int) :=
  if addr % pageSize ≠ 0 then pure (s, einval)
  else match s.task t with
    | none => throw (.mm .noTask)
    | some task => munmapLoop codes t new (pfnOf addr) (pfnOf addr + pagesOf length) task.vmas s

/-! ## Nothing is flushed -/

section Idle
variable {codes : ObjId → Pfn → Int} {s s' : Mm} {o : ObjId} {v : VmaId} {t : TaskId}

theorem objFlags_shared (s : Mm) (o : ObjId) : objFlags s o &&& vmaShared = 0 := by
  unfold objFlags
  split_ifs <;> rfl

theorem vmaFlushPages_idle {r : Mm × Int} (ran : vmaFlushPages codes s v = .ok r) : r = (s, 0) := by
  unfold vmaFlushPages at ran
  split at ran
  · cases ran
    rfl
  split at ran
  · cases ran
  · next o _ _ =>
    dsimp only at ran
    rw [if_neg (c := _ ∧ _) (fun flush => flush.2.1 (objFlags_shared s o))] at ran
    split at ran <;> cases ran <;> rfl

theorem msyncLoop_idle {vmas : List VmaId} {stop : Pfn} {fuel addr : Nat} {r : Mm × Int}
    (ran : msyncLoop codes vmas stop fuel addr s = .ok r) : r = (s, 0) := by
  induction fuel generalizing addr with
  | zero => cases ran
  | succ fuel rest =>
    rw [msyncLoop] at ran
    split at ran
    · cases ran
      rfl
    · obtain ⟨flushed, is, ran⟩ := bind_eq_ok.mp ran
      cases vmaFlushPages_idle is
      dsimp only at ran
      rw [if_neg (by decide)] at ran
      split at ran
      · cases ran
        rfl
      · exact rest ran

end Idle

/-! ## Unmapping leaves the files alone -/

/-- What is in the file system stays there. -/
def Keeps (s : Mm) (m : Except Bug Mm) : Prop := Sat m (fun s' => s'.vnode = s.vnode) (fun _ => True)

section Keeps
variable {s s' : Mm} {v new : VmaId} {t : TaskId}

theorem Keeps.stops {bug : Bug} : Keeps s (.error bug) := trivial

theorem Keeps.bind {m : Except Bug Mm} {f : Mm → Except Bug Mm} (first : Keeps s m) (rest : ∀ s', Keeps s' (f s')) : Keeps s (m >>= f) :=
  Sat.bind first (fun s' same => (rest s').mono (fun _ kept => kept.trans same))

theorem keeps_munmapVma {start stop : Pfn} : Keeps s (munmapVma t new start stop s v) := by
  unfold munmapVma
  split
  · exact .stops
  dsimp only
  split
  swap
  · rfl
  unfold vmaUnmap
  dsimp only
  split
  · unfold vmaSplit
    dsimp only
    split
    · exact .stops
    · exact vmaCopyLinks_vnode ..
  split
  · unfold vmaShrink
    dsimp only
    split
    · split
      · exact .stops
      · rfl
    split
    · split
      · exact .stops
      · rfl
    · exact .stops
  split
  · unfold vmaDestroySingle
    exact Keeps.bind ((dropMergeDeleteAll_unseen.mono (fun _ dropped => dropped.vnode)).weaken (fun _ _ => trivial)) (fun _ => rfl)
  · exact .stops

theorem keeps_munmapVmaCall {start stop : Pfn} : Keeps s (munmapVmaCall t new start stop s v) := by
  unfold munmapVmaCall
  refine keeps_munmapVma.bind (fun s' => ?_)
  split
  · exact .stops
  · rfl

end Keeps

/-! ## What the calls leave in the file system -/

/-- Every dirty page of a VFS file that a shared mapping in the range shows had its contents in the file system of `s'`. -/
def WrittenBack (s s' : Mm) (t : TaskId) (start stop : Pfn) : Prop :=
  ∀ task, s.task t = some task → ∀ v ∈ task.vmas, setIntersection start stop (s.vma v).pfnStart (s.vma v).pfnEnd = true →
    (s.vma v).flags.shared = true → ∀ o rest, s.chain v = o :: rest → (∃ n length, s.kind o = .file .vfs n length) →
    ∀ p ∈ s.pageCache o, p.dirty = true → (s.vma v).fileOffset ≤ p.offset →
      p.offset < (s.vma v).fileOffset + ((s.vma v).pfnEnd - (s.vma v).pfnStart) → s'.vnode o p.offset = some (s.mem p.frame)

theorem WrittenBack.congr {s s' s'' : Mm} {t : TaskId} {start stop : Pfn} (same : s'.vnode = s''.vnode) :
    WrittenBack s s' t start stop ↔ WrittenBack s s'' t start stop := by
  unfold WrittenBack
  rw [same]

section Calls
variable {codes : ObjId → Pfn → Int} {s s' : Mm} {t : TaskId} {addr length : Nat} {new : VmaId}

theorem sysMsync_idle {fuel : Nat} (ran : sysMsync codes fuel s t addr length = .ok (s', 0)) : s' = s := by
  unfold sysMsync at ran
  split at ran
  · cases ran
  unfold doMsync at ran
  split at ran
  · cases ran
  · exact congrArg Prod.fst (msyncLoop_idle ran)

theorem munmapLoop_vnode {start stop : Pfn} {vmas : List VmaId} {r : Mm × Int} (ran : munmapLoop codes t new start stop vmas s = .ok r) :
    r.1.vnode = s.vnode := by
  induction vmas generalizing s with
  | nil =>
    cases ran
    rfl
  | cons v vmas rest =>
    rw [munmapLoop] at ran
    split at ran
    · obtain ⟨flushed, is, ran⟩ := bind_eq_ok.mp ran
      cases vmaFlushPages_idle is
      dsimp only at ran
      rw [if_neg (by decide)] at ran
      obtain ⟨s1, unmapped, ran⟩ := bind_eq_ok.mp ran
      cases call : munmapVmaCall t new start stop s v with
      | error bug =>
        rw [call] at unmapped
        cases unmapped
      | ok s2 =>
        rw [call] at unmapped
        cases unmapped
        have kept : Keeps s (.ok s1) := call ▸ keeps_munmapVmaCall
        exact (rest ran).trans kept
    · exact rest ran

theorem sysMunmap_vnode (ran : sysMunmap codes s t addr length new = .ok (s', 0)) : s'.vnode = s.vnode := by
  unfold sysMunmap at ran
  split at ran
  · cases ran
  split at ran
  · cases ran
  · exact munmapLoop_vnode ran

/-- When the calls have returned 0, the contents of the pages that were dirtied are in the file system exactly if they were there
before. -/
theorem written_back_iff {fuel : Nat} (codes : ObjId → Pfn → Int) (s s' : Mm) (t : TaskId) (addr length : Nat) (new : VmaId)
    (returned : sysMsync codes fuel s t addr length = .ok (s', 0) ∨ sysMunmap codes s t addr length new = .ok (s', 0)) :
    WrittenBack s s' t (pfnOf addr) (pfnOf addr + pagesOf length) ↔ WrittenBack s s t (pfnOf addr) (pfnOf addr + pagesOf length) := by
  rcases returned with synced | unmapped
  · rw [sysMsync_idle synced]
  · exact WrittenBack.congr (sysMunmap_vnode unmapped)

end Calls

/-- A task with an open file of one page of zeros. -/
def openFile : Mm :=
  { bootState with
    kind := Function.update bootState.kind 1 (.file .vfs 1 4096)
    objects := [1, 0], objectsTotal := 2, files := [1, 0], filesTotal := 2
    vnode := fun o _ => if o = 1 then some (fun _ => 0) else none }

/-- The file is mapped shared and its page is written to. -/
def dirtied : Mm :=
  ([Event.mmap 1 ⟨some 1, 0, 0x111000, { read := true, write := true, shared := true }, 1, 10, 11, 0⟩, .fault 1 0x111 false ⟨2, 5, 6⟩,
    .fault 1 0x111 false ⟨2, 5, 6⟩].foldlM step openFile).toOption.getD openFile

/-- A byte is stored that differs. -/
def stored : Mm := storeByte dirtied 1 0x111 0 7

theorem written_back_same : ∃ s', sysMsync (fun _ _ => 1) 1 dirtied 1 0x111000 4096 = .ok (s', 0) ∧
    (dirtied.pageCache 1).map Page.dirty = [true] ∧ WrittenBack dirtied s' 1 0x111 0x112 := by
  have returned : (sysMsync (fun _ _ => 1) 1 dirtied 1 0x111000 4096).toOption.map Prod.snd = some 0 := rfl
  obtain ⟨⟨s', code⟩, ran, zero⟩ := Option.map_eq_some_iff.mp returned
  cases zero
  have ran := toOption_eq_some.mp ran
  refine ⟨s', ran, rfl, (written_back_iff _ _ _ _ _ 4096 0 (.inl ran)).mpr ?_⟩
  intro task is v mem _ _ o rest chain _ p page _ _ _
  have vmas : (dirtied.task 1).map Task.vmas = some [10] := rfl
  rw [is] at vmas
  rw [Option.some.inj vmas] at mem
  cases List.mem_singleton.mp mem
  cases (show dirtied.chain 10 = [1] from rfl).symm.trans chain
  have pages : dirtied.pageCache 1 = [{ frame := 5, owner := 1, offset := 0, refcnt := 0, dirty := true }] := rfl
  rw [pages] at page
  cases List.mem_singleton.mp page
  rfl

theorem stored_old {s' : Mm} (old : (s'.vnode 1 0).map (fun page => page 0) = some 0) : ¬ WrittenBack stored s' 1 0x111 0x112 := by
  intro back
  have task : stored.task 1 = some ⟨[10], 0x100000, 0x200000, 0x110000, 0x200000⟩ := rfl
  have page : s'.vnode 1 0 = some (stored.mem 5) := back _ task 10 (List.mem_singleton.mpr rfl) rfl rfl 1 [] rfl ⟨1, 4096, rfl⟩
    { frame := 5, owner := 1, offset := 0, refcnt := 0, dirty := true } (List.mem_singleton.mpr rfl) rfl (by decide) (by decide)
  rw [page] at old
  exact absurd (Option.some.inj old) (by decide)

/-- After a store both calls return 0 and the file system has the old byte. -/
theorem written_back_lost :
    (∃ s', sysMsync (fun _ _ => 1) 1 stored 1 0x111000 4096 = .ok (s', 0) ∧ ¬ WrittenBack stored s' 1 0x111 0x112) ∧
    ∃ s', sysMunmap (fun _ _ => 1) stored 1 0x111000 4096 12 = .ok (s', 0) ∧ ¬ WrittenBack stored s' 1 0x111 0x112 := by
  have synced : (sysMsync (fun _ _ => 1) 1 stored 1 0x111000 4096).toOption.map
    (fun r => (r.2, (r.1.vnode 1 0).map (fun page => page 0))) = some (0, some 0) := rfl
  have unmapped : (sysMunmap (fun _ _ => 1) stored 1 0x111000 4096 12).toOption.map
    (fun r => (r.2, (r.1.vnode 1 0).map (fun page => page 0))) = some (0, some 0) := rfl
  obtain ⟨⟨s1, code1⟩, ran1, is1⟩ := Option.map_eq_some_iff.mp synced
  obtain ⟨⟨s2, code2⟩, ran2, is2⟩ := Option.map_eq_some_iff.mp unmapped
  obtain ⟨rfl, old1⟩ := Prod.mk.inj is1
  obtain ⟨rfl, old2⟩ := Prod.mk.inj is2
  exact ⟨⟨s1, toOption_eq_some.mp ran1, stored_old old1⟩, ⟨s2, toOption_eq_some.mp ran2, stored_old old2⟩⟩

end Codezero.Mm0.Msync
