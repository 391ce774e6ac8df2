import Mathlib
import Codezero.Mm0.Held
import Codezero.Mm0.Integrity
import Codezero.Mm0.AddressPool
import Codezero.Mm0.Calls

/-!
# Where mappings are placed

`find_unmapped_area` looks for free pages behind each vma of a task. `do_mmap` checks the address it is given, or has
one found, and compares the pages with the length of the file.
-/

namespace Codezero.Mm0
open Codezero.Lib

/-! ## Calls that map something -/

section Map
variable {s : Mm} {t : TaskId} {args : MmapArgs} {file : ObjId} {fileOffset addr : Nat}

/-- The address that `do_mmap` settles on: the one it was asked for, or a new one. -/
inductive Settles (s : Mm) (task : Task) (args : MmapArgs) : Nat → Prop
  | asked (valid : mmapAddressValidate s task args.addr args.flags = .ok true) : Settles s task args args.addr
  | new {addr : Nat} (invalid : mmapAddressValidate s task args.addr args.flags = .ok false) (free : args.flags.fixed = false)
      (found : addr = if args.flags.shared then args.shmAddr else findUnmappedArea s task args.npages) :
      Settles s task args addr

/-- A call of `do_mmap` that maps something. -/
structure MapsFile (s : Mm) (t : TaskId) (args : MmapArgs) (task : Task) (file : ObjId) (off addr : Nat) (s' : Mm) : Prop where
  is : s.task t = some task
  mapped : mapFile s args = .ok (some (file, off))
  sizes : mmapSizes args.npages (filePages s file) off = .ok ()
  settles : Settles s task args addr
  found : addr ≠ 0
  ran : mmapAt s t args file off addr = .ok s'

theorem mmapChecked_ok {task : Task} {sizes : Except Errno Unit} {r : Mm × Except Errno Nat}
    (ran : mmapChecked s t task args file fileOffset sizes = .ok r) :
    (r.1 = s ∧ ∃ e, r.2 = .error e) ∨ ∃ addr, sizes = .ok () ∧ Settles s task args addr ∧ addr ≠ 0 ∧
      mmapAt s t args file fileOffset addr = .ok r.1 := by
  cases sizes with
  | error errno =>
    cases ran
    exact .inl ⟨rfl, errno, rfl⟩
  | ok =>
    obtain ⟨valid, validated, ran⟩ := bind_eq_ok.mp ran
    dsimp only at ran
    generalize is : (if valid then args.addr
      else if args.flags.shared then args.shmAddr else findUnmappedArea s task args.npages) = addr at ran
    by_cases refused : (!valid && args.flags.fixed) = true
    · rw [if_pos refused] at ran
      cases ran
      exact .inl ⟨rfl, _, rfl⟩
    rw [if_neg refused] at ran
    by_cases none : addr = 0
    · rw [if_pos none] at ran
      cases ran
      exact .inl ⟨rfl, _, rfl⟩
    rw [if_neg none] at ran
    obtain ⟨s', mapped, same⟩ := bind_eq_ok.mp ran
    cases same
    refine .inr ⟨addr, rfl, ?_, none, mapped⟩
    cases valid with
    | true =>
      rw [← is]
      exact .asked validated
    | false => exact .new validated (by simpa using refused) is.symm

theorem doMmap_ok {r : Mm × Except Errno Nat} (ran : doMmap s t args = .ok r) :
    (r.1 = s ∧ ∃ e, r.2 = .error e) ∨ ∃ task file off addr, MapsFile s t args task file off addr r.1 := by
  unfold doMmap at ran
  cases is : s.task t with
  | none =>
    rw [is] at ran
    cases ran
  | some task =>
    rw [is] at ran
    obtain ⟨m, mapped, ran⟩ := bind_eq_ok.mp ran
    cases m with
    | none =>
      cases ran
      exact .inl ⟨rfl, _, rfl⟩
    | some f =>
      obtain ⟨file, off⟩ := f
      refine (mmapChecked_ok ran).imp_right (fun ⟨addr, sizes, settles, found, at'⟩ => ?_)
      exact ⟨task, file, off, addr, is, mapped, sizes, settles, found, at'⟩

end Map

end Codezero.Mm0

namespace Codezero.Mm0.Placement
open Codezero.Lib

/-! ## Unmapped areas -/

section Area
variable {s : Mm} {task : Task} {n start : Nat}

/-- `n` pages from the page address `a` on are in the mappable part of the task and in none of its vmas. -/
structure Area (s : Mm) (task : Task) (n a : Nat) : Prop where
  page : a % pageSize = 0
  above : task.mapStart ≤ a
  below : a + n * pageSize ≤ task.mapEnd
  clear : ∀ v ∈ task.vmas, setIntersection (pfnOf a) (pfnOf a + n) (s.vma v).pfnStart (s.vma v).pfnEnd = false

/-- The result is such an address, or zero where there is none. -/
def FindsArea (s : Mm) (task : Task) (n r : Nat) : Prop := (r ≠ 0 → Area s task n r) ∧ (r = 0 → ∀ a, ¬ Area s task n a)

/-- From page `start` on there are `n` pages up to the end of the mappable part that no vma has. -/
def Fits (s : Mm) (task : Task) (n start : Nat) : Prop :=
  start + n ≤ pfnOf task.mapEnd ∧ vmaIntersection s task.vmas start (start + n) = false

/-- The first vma on the list with room for `n` pages behind it. -/
def firstFit (s : Mm) (task : Task) (n : Nat) : Option VmaId :=
  task.vmas.find? (fun v =>
    decide ((s.vma v).pfnEnd + n ≤ pfnOf task.mapEnd) && !vmaIntersection s task.vmas (s.vma v).pfnEnd ((s.vma v).pfnEnd + n))

/-- `__pfn(page_align_up(map_start))`, where addresses do not overflow. -/
def firstPage (task : Task) : Nat := (task.mapStart + (pageSize - 1)) / pageSize

/-- Where the search is right: the first vma with room does not end below the mappable part, and if there is room at the
start of that part then there is also room behind some vma. -/
structure SearchFinds (s : Mm) (task : Task) (n : Nat) : Prop where
  empty : task.vmas = [] → task.mapStart % pageSize = 0 ∧ task.mapStart ≠ 0
  above : ∀ v, firstFit s task n = some v → task.mapStart ≤ (s.vma v).pfnEnd * pageSize
  start : task.vmas ≠ [] → Fits s task n (firstPage task) → ∃ v ∈ task.vmas, Fits s task n (s.vma v).pfnEnd

theorem vmaIntersection_eq_false {vmas : List VmaId} {start stop : Nat} : vmaIntersection s vmas start stop = false ↔
    ∀ v ∈ vmas, setIntersection start stop (s.vma v).pfnStart (s.vma v).pfnEnd = false := by
  simp [vmaIntersection, List.any_eq_false]

theorem findUnmappedArea_nonempty (fits : n ≤ pfnOf (task.mapEnd - task.mapStart)) (some : task.vmas ≠ []) :
    findUnmappedArea s task n = ((firstFit s task n).map (fun v => (s.vma v).pfnEnd * pageSize)).getD 0 := by
  unfold findUnmappedArea
  rw [if_neg (Nat.not_lt.mpr fits), if_neg (by simpa using some)]
  unfold firstFit
  dsimp only
  cases task.vmas.find? _ <;> rfl

theorem firstFit_some {v : VmaId} (found : firstFit s task n = some v) : v ∈ task.vmas ∧ Fits s task n (s.vma v).pfnEnd := by
  refine ⟨List.mem_of_find?_eq_some found, ?_⟩
  simpa [Fits] using List.find?_some found

theorem firstFit_none (none : firstFit s task n = none) : ∀ v ∈ task.vmas, ¬ Fits s task n (s.vma v).pfnEnd := fun v mem fits => by
  have refused := List.find?_eq_none.mp none v mem
  exact refused (by simpa [Fits] using fits)

/-- Room can be moved down until it is behind a vma or at the first page. -/
theorem Fits.slide {first : Nat} (fits : Fits s task n start) (above : first ≤ start) :
    Fits s task n first ∨ ∃ v ∈ task.vmas, Fits s task n (s.vma v).pfnEnd := by
  induction start with
  | zero => exact .inl (Nat.le_zero.mp above ▸ fits)
  | succ k lower =>
    by_cases here : first = k + 1
    · exact .inl (here ▸ fits)
    by_cases ends : ∃ v ∈ task.vmas, (s.vma v).pfnEnd = k + 1
    · obtain ⟨v, mem, same⟩ := ends
      exact .inr ⟨v, mem, same ▸ fits⟩
    · obtain ⟨inside, clear⟩ := fits
      refine lower ⟨by omega, vmaIntersection_eq_false.mpr (fun v mem => ?_)⟩ (by omega)
      have ne : (s.vma v).pfnEnd ≠ k + 1 := fun same => ends ⟨v, mem, same⟩
      have apart := setIntersection_eq_false.mp (vmaIntersection_eq_false.mp clear v mem)
      have moved : ∀ a b : Nat, b ≠ k + 1 → (k + 1 + n ≤ a ∨ b ≤ k + 1) → k + n ≤ a ∨ b ≤ k := by omega
      exact setIntersection_eq_false.mpr (moved _ _ ne apart)

theorem Area.fits {a : Nat} (area : Area s task n a) : Fits s task n (pfnOf a) ∧ firstPage task ≤ pfnOf a := by
  obtain ⟨page, above, below, clear⟩ := area
  refine ⟨⟨?_, vmaIntersection_eq_false.mpr clear⟩, ?_⟩
  · unfold pfnOf pageSize at *
    omega
  · unfold firstPage pfnOf pageSize at *
    omega

theorem Fits.area (fits : Fits s task n start) (above : task.mapStart ≤ start * pageSize) : Area s task n (start * pageSize) := by
  have pfn : pfnOf (start * pageSize) = start := Nat.mul_div_cancel start (by decide)
  obtain ⟨inside, clear⟩ := fits
  refine ⟨Nat.mul_mod_left .., above, ?_, by rw [pfn]; exact vmaIntersection_eq_false.mp clear⟩
  unfold pfnOf pageSize at *
  omega

/-- `find_unmapped_area` is right exactly in these cases. -/
theorem findUnmappedArea_right (ordered : task.mapStart ≤ task.mapEnd)
    (proper : ∀ v ∈ task.vmas, (s.vma v).pfnStart < (s.vma v).pfnEnd) :
    FindsArea s task n (findUnmappedArea s task n) ↔ (n ≤ pfnOf (task.mapEnd - task.mapStart) → SearchFinds s task n) := by
  by_cases fits : n ≤ pfnOf (task.mapEnd - task.mapStart)
  · rw [forall_prop_of_true fits]
    have room : task.mapStart + n * pageSize ≤ task.mapEnd := by
      unfold pfnOf pageSize at *
      omega
    have first : task.mapStart ≤ firstPage task * pageSize := by
      unfold firstPage pageSize
      omega
    by_cases none : task.vmas = []
    · have found : findUnmappedArea s task n = task.mapStart := by
        unfold findUnmappedArea
        rw [if_neg (Nat.not_lt.mpr fits), if_pos (by simp [none])]
      have clear : ∀ v, v ∉ task.vmas := fun v mem => absurd (none ▸ mem) List.not_mem_nil
      rw [found]
      constructor
      · rintro ⟨sound, complete⟩
        have nonzero : task.mapStart ≠ 0 := fun zero => complete zero 0 ⟨rfl, by omega, by omega, fun v mem => absurd mem (clear v)⟩
        exact ⟨fun _ => ⟨(sound nonzero).page, nonzero⟩, fun v found => by simp [firstFit, none] at found, fun some => absurd none some⟩
      · rintro ⟨empty, -, -⟩
        exact ⟨fun _ => ⟨(empty none).1, le_refl _, room, fun v mem => absurd mem (clear v)⟩, fun zero => absurd zero (empty none).2⟩
    · rw [findUnmappedArea_nonempty fits none]
      cases found : firstFit s task n with
      | none =>
        refine ⟨fun ⟨_, complete⟩ => ⟨fun empty => absurd empty none, fun v some => ?_, fun _ atStart => ?_⟩,
          fun finds => ⟨fun some => absurd rfl some, fun _ a area => ?_⟩⟩
        · cases found.symm.trans some
        · exact absurd (atStart.area first) (complete rfl _)
        · obtain ⟨here, above⟩ := area.fits
          obtain ⟨v, mem, behind⟩ := (here.slide above).elim (finds.start none) id
          exact firstFit_none found v mem behind
      | some v =>
        obtain ⟨mem, behind⟩ := firstFit_some found
        have nonzero : (s.vma v).pfnEnd * pageSize ≠ 0 :=
          Nat.mul_ne_zero (Nat.ne_of_gt (Nat.lt_of_le_of_lt (Nat.zero_le _) (proper v mem))) (by decide)
        refine ⟨fun ⟨sound, _⟩ => ⟨fun empty => absurd empty none, fun w other => ?_, fun _ _ => ⟨v, mem, behind⟩⟩,
          fun finds => ⟨fun _ => behind.area (finds.above v found), fun zero => absurd zero nonzero⟩⟩
        cases found.symm.trans other
        exact (sound nonzero).above
  · refine iff_of_true ⟨fun found => absurd ?_ found, fun _ a area => fits ?_⟩ (fun le => absurd le fits)
    · unfold findUnmappedArea
      rw [if_pos (Nat.not_le.mp fits)]
    · have := area.above
      have := area.below
      unfold pfnOf pageSize at *
      omega

end Area

/-- A task with four pages to map and one vma. -/
def oneVma : Task := { vmas := [1], startAddr := 0x100000, endAddr := 0x104000, mapStart := 0x100000, mapEnd := 0x104000 }

/-- Its vma has the pages from `first` up to `last`. -/
def withVma (first last : Pfn) : Mm :=
  { bootState with vma := fun _ => { pfnStart := first, pfnEnd := last, flags := {}, fileOffset := 0 } }

theorem findUnmappedArea_right_behind : FindsArea (withVma 0x100 0x102) oneVma 2 (findUnmappedArea (withVma 0x100 0x102) oneVma 2) ∧
    findUnmappedArea (withVma 0x100 0x102) oneVma 2 = 0x102000 := by
  refine ⟨(findUnmappedArea_right (by decide) (fun v _ => ?_)).mpr (fun _ => ⟨fun none => ?_, fun v _ => ?_, fun _ _ => ⟨1, ?_⟩⟩),
    by decide⟩
  · exact (by decide : 0x100 < 0x102)
  · cases none
  · exact (by decide : 0x100000 ≤ 0x102 * pageSize)
  · exact ⟨by decide, by unfold Fits; decide⟩

/-- The three pages at the end are mapped; the first one is free and is not found. -/
theorem findUnmappedArea_misses_start : findUnmappedArea (withVma 0x101 0x104) oneVma 1 = 0 ∧
    Area (withVma 0x101 0x104) oneVma 1 0x100000 ∧
    ¬ FindsArea (withVma 0x101 0x104) oneVma 1 (findUnmappedArea (withVma 0x101 0x104) oneVma 1) := by
  have area : Area (withVma 0x101 0x104) oneVma 1 0x100000 := ⟨by decide, by decide, by decide, by decide⟩
  have none : findUnmappedArea (withVma 0x101 0x104) oneVma 1 = 0 := by decide
  exact ⟨none, area, fun finds => finds.2 none _ area⟩

/-! ## Bounds of a mapping -/

section Bounds
variable {s s' : Mm} {t : TaskId} {task : Task} {args : MmapArgs} {file : ObjId} {off addr : Nat}

/-- The pages of the vma are in this part of memory. -/
def Inside (lo hi : Nat) (vma : Vma) : Prop := lo ≤ vma.pfnStart * pageSize ∧ vma.pfnEnd * pageSize ≤ hi

/-- They are in the part of the task, or in the one of the utcbs or of shared memory. -/
def InRegion (s : Mm) (task : Task) (flags : VmaFlags) (vma : Vma) : Prop :=
  Inside task.startAddr task.endAddr vma ∨
  flags.priv = true ∧ Inside (s.regions.utcbStart * pageSize) (s.regions.utcbEnd * pageSize) vma ∨
  flags.shared = true ∧ Inside (s.regions.shmemStart * pageSize) (s.regions.shmemEnd * pageSize) vma

def isDevzero (s : Mm) (file : ObjId) : Bool :=
  match s.kind file with
  | .file .devzero _ _ => true
  | _ => false

/-- The pages of the vma are pages of the file. -/
def InFile (s : Mm) (file : ObjId) (vma : Vma) : Prop :=
  isDevzero s file = true ∨
    vma.fileOffset + (vma.pfnEnd - vma.pfnStart) ≤ (fileLength s file + (pageSize - 1)) / pageSize

/-- The address is in a part of memory and the pages end there. -/
def EndsInside (s : Mm) (task : Task) (flags : VmaFlags) (addr n : Nat) : Prop :=
  task.startAddr ≤ addr ∧ (pfnOf addr + n) * pageSize ≤ task.endAddr ∨
  flags.priv = true ∧ s.regions.utcbStart * pageSize ≤ addr ∧ pfnOf addr + n ≤ s.regions.utcbEnd ∨
  flags.shared = true ∧ s.regions.shmemStart * pageSize ≤ addr ∧ pfnOf addr + n ≤ s.regions.shmemEnd

/-- `shm_new_address` takes the address from the pool of the region of shared memory. -/
def ShmGives (s : Mm) (args : MmapArgs) : Prop :=
  ∃ pool : AddressPool, pool.Regular ∧ pool.idpool.bitlimit = pool.pages ∧
    pool.start.toNat = s.regions.shmemStart * pageSize ∧ pool.end'.toNat = s.regions.shmemEnd * pageSize ∧
    args.shmAddr = (addressNew pool args.npages).2.toNat

/-- A call of a task that is set up. -/
structure Placeable (s : Mm) (task : Task) (args : MmapArgs) : Prop where
  start : task.startAddr % pageSize = 0
  mapStart : task.startAddr ≤ task.mapStart
  ordered : task.mapStart ≤ task.mapEnd
  mapEnd : task.mapEnd ≤ task.endAddr
  offset : args.fileOffset % pageSize = 0 ∧ args.fileOffset < 2 ^ 32
  length : ∀ file, fileLength s file < 2 ^ 32
  shm : ShmGives s args

/-- Where the bounds hold: a valid address has its whole range in the part of memory it is in, and what
`find_unmapped_area` finds is not below the task. -/
structure RangeInside (s : Mm) (task : Task) (args : MmapArgs) : Prop where
  asked : mmapAddressValidate s task args.addr args.flags = .ok true → EndsInside s task args.flags args.addr args.npages
  found : mmapAddressValidate s task args.addr args.flags = .ok false → args.flags.shared = false →
    ∀ v, firstFit s task args.npages = some v → task.startAddr ≤ (s.vma v).pfnEnd * pageSize ∨
      args.flags.priv = true ∧ s.regions.utcbStart ≤ (s.vma v).pfnEnd ∧ (s.vma v).pfnEnd + args.npages ≤ s.regions.utcbEnd

theorem mmapAt_vma : Sat (mmapAt s t args file off addr) (fun s' => s'.vma args.vma =
    { pfnStart := pfnOf addr, pfnEnd := pfnOf addr + args.npages, flags := args.flags, fileOffset := pfnOf off })
    (fun _ => True) := by
  unfold mmapAt
  refine Sat.bind_eq (fun _ _ => trivial) (fun s1 _ => ?_)
  cases s1.task t with
  | none => exact trivial
  | some task =>
    dsimp only
    split
    · exact trivial
    -- Whatever objects are put behind the vma, its range stays.
    split
    · cases getDevzero s1 with
      | none => exact trivial
      | some dzero => exact Sat.bind_eq (fun _ _ => trivial) (fun stack _ => Sat.bind_eq (fun _ _ => trivial) (fun vmas _ =>
          (congrFun (vmaCopyLinks_vma _ args.vma stack) args.vma).trans (Function.update_self ..)))
    · exact Sat.bind_eq (fun _ _ => trivial) (fun stack _ => Sat.bind_eq (fun _ _ => trivial) (fun vmas _ =>
        (congrFun (vmaCopyLinks_vma _ args.vma stack) args.vma).trans (Function.update_self ..)))

/-- The check of the sizes, with its difference in 32 bits. -/
theorem mmapSizes_ok {npages pages : Nat} (passed : mmapSizes npages pages off = .ok ()) :
    0 < npages ∧ npages ≤ (pages + 2 ^ 32 - off % 2 ^ 32) % 2 ^ 32 := by
  unfold mmapSizes at passed
  split_ifs at passed
  exact ⟨by omega, by omega⟩

theorem ShmGives.inside (gives : ShmGives s args) (pos : 0 < args.npages) (found : args.shmAddr ≠ 0) :
    s.regions.shmemStart * pageSize ≤ args.shmAddr ∧ pfnOf args.shmAddr + args.npages ≤ s.regions.shmemEnd := by
  obtain ⟨pool, regular, limit, start, stop, gives⟩ := gives
  rcases pool.addressNew_cases pos with ⟨p, least, new⟩ | ⟨-, none⟩
  · have run : p + args.npages ≤ pool.pages := limit ▸ least.1.1
    have ends := AddressPool.pageAddr_pages regular
    rw [new] at gives
    simp only at gives
    rw [AddressPool.addrOf_toNat regular (by omega), AddressPool.pageAddr] at gives
    unfold AddressPool.pageAddr at ends
    have placed : ∀ a b lo hi : Nat, a = lo * 4096 → b = hi * 4096 → a + 4096 * pool.pages = b →
        lo * 4096 ≤ a + 4096 * p ∧ (a + 4096 * p) / 4096 + args.npages ≤ hi := by omega
    rw [gives]
    exact placed _ _ _ _ start stop ends
  · rw [none] at gives
    exact absurd gives found

/-- The pages of a range whose end is inside begin inside too. -/
theorem inRegion_iff {flags : VmaFlags} {n : Nat} {vma : Vma} (aligned : task.startAddr % pageSize = 0)
    (first : vma.pfnStart = pfnOf addr) (last : vma.pfnEnd = pfnOf addr + n) :
    InRegion s task flags vma ↔ EndsInside s task flags addr n := by
  unfold InRegion EndsInside Inside
  rw [first, last]
  have own : ∀ lo : Nat, lo % 4096 = 0 → (lo ≤ addr / 4096 * 4096 ↔ lo ≤ addr) := by omega
  have region : ∀ lo hi : Nat, (lo * 4096 ≤ addr / 4096 * 4096 ∧ (addr / 4096 + n) * 4096 ≤ hi * 4096 ↔
      lo * 4096 ≤ addr ∧ addr / 4096 + n ≤ hi) := by omega
  exact or_congr (and_congr_left' (own _ aligned)) (or_congr (and_congr_right' (region _ _)) (and_congr_right' (region _ _)))

/-- The pages that `find_unmapped_area` finds end inside the task; they begin there unless they are behind a vma below it. -/
theorem findUnmappedArea_inside {n : Nat} {flags : VmaFlags} (mapStart : task.startAddr ≤ task.mapStart)
    (ordered : task.mapStart ≤ task.mapEnd) (mapEnd : task.mapEnd ≤ task.endAddr) (private' : flags.shared = false)
    (found : findUnmappedArea s task n ≠ 0) :
    EndsInside s task flags (findUnmappedArea s task n) n ↔
    ∀ v, firstFit s task n = some v → task.startAddr ≤ (s.vma v).pfnEnd * pageSize ∨
      flags.priv = true ∧ s.regions.utcbStart ≤ (s.vma v).pfnEnd ∧ (s.vma v).pfnEnd + n ≤ s.regions.utcbEnd := by
  by_cases fits : n ≤ pfnOf (task.mapEnd - task.mapStart)
  · by_cases none : task.vmas = []
    · have first : findUnmappedArea s task n = task.mapStart := by
        unfold findUnmappedArea
        rw [if_neg (Nat.not_lt.mpr fits), if_pos (by simp [none])]
      refine iff_of_true (.inl ?_) (fun v some => by simp [firstFit, none] at some)
      rw [first]
      have ends : n ≤ (task.mapEnd - task.mapStart) / 4096 → (task.mapStart / 4096 + n) * 4096 ≤ task.endAddr := by omega
      exact ⟨mapStart, ends fits⟩
    · rw [findUnmappedArea_nonempty fits none] at found ⊢
      cases behind : firstFit s task n with
      | none =>
        rw [behind] at found
        exact absurd rfl found
      | some v =>
        have pfn : pfnOf ((s.vma v).pfnEnd * pageSize) = (s.vma v).pfnEnd := Nat.mul_div_cancel _ (by decide)
        have ends : ((s.vma v).pfnEnd + n) * pageSize ≤ task.endAddr := by
          have inside := (firstFit_some behind).2.1
          have up : ∀ k : Nat, k + n ≤ task.mapEnd / 4096 → (k + n) * 4096 ≤ task.endAddr := by omega
          exact up _ inside
        have scaled : ∀ a b : Nat, a * 4096 ≤ b * 4096 ↔ a ≤ b := by omega
        simp only [Option.map_some, Option.getD_some, EndsInside, pfn, private', Bool.false_eq_true, false_and, or_false, ends,
          and_true, Option.some.injEq, forall_eq']
        exact or_congr_right (and_congr_right' (and_congr_left' (scaled _ _)))
  · refine absurd ?_ found
    unfold findUnmappedArea
    rw [if_pos (Nat.not_le.mp fits)]

theorem mapFile_offset (offset : args.fileOffset % pageSize = 0 ∧ args.fileOffset < 2 ^ 32)
    (mapped : mapFile s args = .ok (some (file, off))) : off % pageSize = 0 ∧ off < 2 ^ 32 := by
  unfold mapFile at mapped
  cases is : args.file with
  | some given =>
    rw [is] at mapped
    cases mapped
    exact offset
  | none =>
    rw [is] at mapped
    dsimp only at mapped
    split at mapped
    · cases zero : getDevzero s with
      | none =>
        rw [zero] at mapped
        cases mapped
      | some dzero =>
        rw [zero] at mapped
        cases mapped
        exact ⟨rfl, by decide⟩
    · cases mapped

/-- The difference of a number of pages and an offset in bytes bounds the pages only where it does not wrap around. -/
theorem mmapSizes_inFile {n length : Nat} (aligned : off % pageSize = 0 ∧ off < 2 ^ 32)
    (passed : mmapSizes n (pfnOf ((length + (pageSize - 1)) % 2 ^ 32)) off = .ok ())
    (small : off ≤ pfnOf ((length + (pageSize - 1)) % 2 ^ 32)) : pfnOf off + n ≤ (length + (pageSize - 1)) / pageSize := by
  obtain ⟨-, bound⟩ := mmapSizes_ok passed
  obtain ⟨-, word⟩ := aligned
  have pages : ∀ p : Nat, p ≤ (length + 4095) / 4096 → p < 2 ^ 32 → off ≤ p → n ≤ (p + 2 ^ 32 - off % 2 ^ 32) % 2 ^ 32 →
      off / 4096 + n ≤ (length + 4095) / 4096 := by omega
  exact pages _ (Nat.div_le_div_right (Nat.mod_le ..)) (by omega) small bound

/-- The range is in bounds exactly under `RangeInside`; the pages are in the file where the difference that `do_mmap`
compares does not wrap around. -/
theorem doMmap_in_bounds {a : Nat} (placeable : Placeable s task args) (is : s.task t = some task)
    (mapped : mapFile s args = .ok (some (file, off))) (ran : doMmap s t args = .ok (s', .ok a)) :
    (InRegion s task args.flags (s'.vma args.vma) ↔ RangeInside s task args) ∧
      (isDevzero s file = true ∨ off ≤ filePages s file → InFile s file (s'.vma args.vma)) := by
  rcases doMmap_ok ran with ⟨-, e, failed⟩ | ⟨task', file', off', addr, maps⟩
  · cases failed
  cases is.symm.trans maps.is
  cases mapped.symm.trans maps.mapped
  have new := mmapAt_vma.ok maps.ran
  obtain ⟨pos, -⟩ := mmapSizes_ok maps.sizes
  refine ⟨?_, ?_⟩
  · rw [inRegion_iff placeable.start (congrArg Vma.pfnStart new) (congrArg Vma.pfnEnd new)]
    cases maps.settles with
    | asked valid =>
      refine ⟨fun ends => ⟨fun _ => ends, fun invalid => ?_⟩, fun range => range.asked valid⟩
      cases valid.symm.trans invalid
    | new invalid free found =>
      have unasked : mmapAddressValidate s task args.addr args.flags = .ok true → EndsInside s task args.flags args.addr args.npages :=
        fun valid => by cases invalid.symm.trans valid
      by_cases shared : args.flags.shared = true
      · rw [if_pos shared] at found
        obtain ⟨begins, ends⟩ := placeable.shm.inside pos (found ▸ maps.found)
        refine iff_of_true (.inr (.inr ⟨shared, ?_⟩)) ⟨unasked, fun _ unshared => absurd shared (by simp [unshared])⟩
        rw [found]
        exact ⟨begins, ends⟩
      · rw [if_neg shared] at found
        rw [found]
        have unshared := Bool.eq_false_iff.mpr shared
        rw [findUnmappedArea_inside placeable.mapStart placeable.ordered placeable.mapEnd unshared (found ▸ maps.found)]
        exact ⟨fun inside => ⟨unasked, fun _ _ => inside⟩, fun range => range.found invalid unshared⟩
  · unfold InFile
    rw [new]
    refine Or.imp_right fun small => ?_
    have count : ∀ p q n : Nat, q + (p + n - p) = q + n := by omega
    rw [show pfnOf off + (pfnOf addr + args.npages - pfnOf addr) = pfnOf off + args.npages from count _ _ _]
    exact mmapSizes_inFile (mapFile_offset placeable.offset mapped) maps.sizes small

end Bounds

/-- A pager with a file of ten pages. -/
def filePager : Mm :=
  { bootState with
    kind := Function.update bootState.kind 1 (.file .vfs 1 0xA000)
    objects := [1, 0], objectsTotal := 2, files := [1, 0], filesTotal := 2
    regions := { utcbStart := 0xF8100, utcbEnd := 0xF8200, shmemStart := 0xF9000, shmemEnd := 0xF9100 } }

def mappingTask : Task := { vmas := [], startAddr := 0x100000, endAddr := 0x200000, mapStart := 0x110000, mapEnd := 0x200000 }

/-- A private mapping of the file. -/
def fileArgs (addr offset npages : Nat) : MmapArgs :=
  { file := some 1, fileOffset := offset, addr, npages, vma := 1, split := 2
    flags := { priv := true, read := true }
    shmAddr := 0xF9000000 }

theorem filePager_placeable (addr : Nat) {npages offset : Nat} (aligned : offset % pageSize = 0 ∧ offset < 2 ^ 32)
    (pos : 0 < npages) (few : npages ≤ 256) : Placeable filePager mappingTask (fileArgs addr offset npages) := by
  refine ⟨by decide, by decide, by decide, by decide, aligned, fun file => ?_, addressPoolInit 0xF9000000 0xF9100000,
    ⟨by decide, by decide, by decide, by decide⟩, ?_⟩
  · by_cases first : file = 1
    · subst first
      decide
    · rw [fileLength, show filePager.kind file = .file .devzero 0 0xFFFFF000 from Function.update_of_ne first ..]
      decide
  · refine ⟨by decide, by decide, by decide, ?_⟩
    have given := (AddressPool.addressNew_fresh rfl pos : (addressNew (addressPoolInit 0xF9000000 0xF9100000) npages).2 = _)
    exact (congrArg BitVec.toNat (given.trans (if_pos few))).symm

theorem filePager_mapped (addr offset npages : Nat) {vma : Vma} (mapped : (doMmap filePager 1 (fileArgs addr offset npages)).toOption.map
    (fun r => (r.2.toOption, r.1.vma 1)) = some (some addr, vma)) :
    ∃ s', doMmap filePager 1 (fileArgs addr offset npages) = .ok (s', .ok addr) ∧ s'.vma 1 = vma := by
  obtain ⟨⟨s', result⟩, ran, facts⟩ := Option.map_eq_some_iff.mp mapped
  obtain ⟨returned, new⟩ := Prod.mk.inj facts
  obtain rfl := toOption_eq_some.mp returned
  exact ⟨s', toOption_eq_some.mp ran, new⟩

theorem doMmap_in_bounds_whole : ∃ s', doMmap filePager 1 (fileArgs 0x100000 0 10) = .ok (s', .ok 0x100000) ∧
    InRegion filePager mappingTask { priv := true, read := true } (s'.vma 1) ∧ InFile filePager 1 (s'.vma 1) := by
  obtain ⟨s', ran, -⟩ := filePager_mapped 0x100000 0 10 (by rfl)
  have placeable : Placeable filePager mappingTask (fileArgs 0x100000 0 10) :=
    filePager_placeable _ ⟨rfl, by decide⟩ (by decide) (by decide)
  obtain ⟨region, inFile⟩ := doMmap_in_bounds placeable rfl rfl ran
  refine ⟨s', ran, region.mpr ⟨fun _ => .inl ⟨by decide, by decide⟩, fun invalid => ?_⟩, inFile (.inr (Nat.zero_le _))⟩
  cases invalid

/-- Twenty pages of the ten, from the second page on, at the last page of the task. -/
theorem mmap_out_of_bounds : ∃ s', Placeable filePager mappingTask (fileArgs 0x1FF000 0x1000 20) ∧
    doMmap filePager 1 (fileArgs 0x1FF000 0x1000 20) = .ok (s', .ok 0x1FF000) ∧
    ¬ InRegion filePager mappingTask { priv := true, read := true } (s'.vma 1) ∧ ¬ InFile filePager 1 (s'.vma 1) := by
  obtain ⟨s', ran, new⟩ := filePager_mapped 0x1FF000 0x1000 20 (by rfl)
  refine ⟨s', filePager_placeable _ ⟨rfl, by decide⟩ (by decide) (by decide), ran, ?_, ?_⟩
  · rw [new]
    unfold InRegion Inside
    decide
  · rw [new]
    unfold InFile
    decide

end Codezero.Mm0.Placement
