import Codezero.Cap.Capability
import Codezero.Kernel.Resource

/-!
# Memory at boot

The kernel starts with the memory of the platform, takes its own image out of it, and then takes out one range for each
memory capability of the containers. `memcap_unmap` cuts the first free capability that the range meets and leaves the
others alone, and the ranges that were taken are not put on the used lists.
-/

namespace Codezero.Resource
open Codezero.Kernel (Word)
open Codezero.Cap (capTypeMask capRtypeMask capTypeMapPhysmem capTypeMapVirtmem)
open Codezero.Lib
open Codezero.Cap.MemcapRange (memcapLeft_meets)

/-! ## The model -/

inductive BootBug
  | range (b : Bug)
  | alreadyUsed
  | noMatch
  | regionType
  deriving DecidableEq, Repr

/-- `struct platform_mem_range`, in bytes. -/
structure MemRange where
  start : Nat
  stop : Nat
  type : Nat

def memTypeRam : Nat := 0
def memTypeDev : Nat := 1

def pfn (addr : Nat) : Nat := addr / pageSize

def MemRange.memcap (r : MemRange) : Memcap := ⟨pfn r.start, pfn r.stop⟩

/-- `struct cap_info`. -/
structure CapInfo where
  type : Word
  start : Nat
  stop : Nat
  size : Int := 0

def capRtypeThreadpool : Word := 1 <<< 20
def capRtypeSpacepool : Word := 1 <<< 21
def capRtypeMutexpool : Word := 1 <<< 22
def capRtypeMappool : Word := 1 <<< 23

structure PagerInfo where
  caps : List CapInfo

structure ContainerInfo where
  caps : List CapInfo
  pager : List PagerInfo

/-- The lists of `struct kernel_resources` and the counts of `struct boot_resources`. -/
structure Boot where
  physmemUsed : List Memcap := []
  physmemFree : List Memcap := []
  devmemUsed : List Memcap := []
  devmemFree : List Memcap := []
  virtmemUsed : List Memcap := []
  virtmemFree : List Memcap := []
  nthreads : Int := 0
  nspaces : Int := 0
  nmutex : Int := 0
  npmds : Int := 0

/-- `set_intersection` of a capability and a range. -/
def Memcap.Meets (cap : Memcap) (start stop : Nat) : Prop := ¬ (stop ≤ cap.start ∨ start ≥ cap.stop)

instance (cap : Memcap) (start stop : Nat) : Decidable (cap.Meets start stop) := inferInstanceAs (Decidable (¬ _))

/-- The second loop of `memcap_unmap`, behind the capabilities `before`; `none` stands for `-EEXIST`. -/
def memcapUnmapFrom (start stop : Nat) (before : List Memcap) : List Memcap → Except BootBug (Option (List Memcap))
  | [] => .ok none
  | cap :: after =>
    if cap.Meets start stop then
      match memcapUnmapRange before cap after start stop with
      | .error b => .error (.range b)
      | .ok free => .ok (some free)
    else memcapUnmapFrom start stop (before ++ [cap]) after

/-- `memcap_unmap`. -/
def memcapUnmap (used free : List Memcap) (start stop : Nat) : Except BootBug (Option (List Memcap)) :=
  if ∃ cap ∈ used, cap.Meets start stop then .error .alreadyUsed else memcapUnmapFrom start stop [] free

/-- The `switch` of `process_cap_info`. -/
def countCap (s : Boot) (cap : CapInfo) : Boot :=
  if cap.type &&& capRtypeMask = capRtypeThreadpool then { s with nthreads := s.nthreads + cap.size }
  else if cap.type &&& capRtypeMask = capRtypeSpacepool then { s with nspaces := s.nspaces + cap.size }
  else if cap.type &&& capRtypeMask = capRtypeMutexpool then { s with nmutex := s.nmutex + cap.size }
  else if cap.type &&& capRtypeMask = capRtypeMappool then { s with npmds := s.npmds + cap.size }
  else s

/-- `process_cap_info`. -/
def processCapInfo (s : Boot) (cap : CapInfo) : Except BootBug Boot := do
  let s := countCap s cap
  if cap.type &&& capTypeMask = capTypeMapVirtmem then
    let free ← memcapUnmap s.virtmemUsed s.virtmemFree cap.start cap.stop
    pure { s with virtmemFree := free.getD s.virtmemFree }
  else if cap.type &&& capTypeMask = capTypeMapPhysmem then
    match ← memcapUnmap s.physmemUsed s.physmemFree cap.start cap.stop with
    | some free => pure { s with physmemFree := free }
    | none =>
      match ← memcapUnmap s.devmemUsed s.devmemFree cap.start cap.stop with
      | some free => pure { s with devmemFree := free }
      | none => throw .noMatch
  else pure s

/-- The body of the loop of `kernel_setup_physmem`. -/
def setupRegion (s : Boot) (r : MemRange) : Except BootBug Boot :=
  if r.type = memTypeRam then .ok { s with physmemFree := r.memcap :: s.physmemFree }
  else if r.type = memTypeDev then .ok { s with devmemFree := r.memcap :: s.devmemFree }
  else .error .regionType

/-- `kernel_setup_physmem`. -/
def kernelSetupPhysmem (regions : List MemRange) : Except BootBug Boot := regions.foldlM setupRegion {}

/-- `init_system_resources` up to the containers. -/
def initLists (regions : List MemRange) (virtmem kernelArea : Memcap) : Except BootBug Boot := do
  let s ← kernelSetupPhysmem regions
  let free ← memcapUnmap [] s.physmemFree kernelArea.start kernelArea.stop
  pure { s with
    virtmemFree := [virtmem]
    physmemUsed := [kernelArea]
    physmemFree := free.getD s.physmemFree }

/-- The capabilities of the containers in the order in which they are processed. -/
def capInfos (conts : List ContainerInfo) : List CapInfo := conts.flatMap (fun c => c.caps ++ c.pager.flatMap PagerInfo.caps)

/-- `init_system_resources` up to the caches. -/
def initSystemResources (regions : List MemRange) (virtmem kernelArea : Memcap) (conts : List ContainerInfo) : Except BootBug Boot := do
  let s ← initLists regions virtmem kernelArea
  (capInfos conts).foldlM processCapInfo s

/-! ## Cutting a range out of the free capabilities -/

def Memcap.Has (cap : Memcap) (page : Nat) : Prop := cap.start ≤ page ∧ page < cap.stop

instance (cap : Memcap) (page : Nat) : Decidable (cap.Has page) := inferInstanceAs (Decidable (_ ∧ _))

/-- One of the capabilities has the page. -/
def Listed (caps : List Memcap) (page : Nat) : Prop := ∃ cap ∈ caps, cap.Has page

def Memcap.Apart (a b : Memcap) : Prop := a.stop ≤ b.start ∨ b.stop ≤ a.start

theorem Memcap.Apart.symm {a b : Memcap} (apart : a.Apart b) : b.Apart a := Or.symm apart

/-- The pieces that are left of `cap` without the range. -/
structure Pieces (cap : Memcap) (start stop : Nat) (pieces : List Memcap) : Prop where
  apart : pieces.Pairwise Memcap.Apart
  inside : ∀ piece ∈ pieces, cap.start ≤ piece.start ∧ piece.stop ≤ cap.stop
  listed : ∀ page, Listed pieces page ↔ cap.Has page ∧ ¬ (start ≤ page ∧ page < stop)

/-- One capability that meets the range is cut; order does not count. -/
structure Cut (free free' : List Memcap) (start stop : Nat) (cap : Memcap) (rest pieces : List Memcap) : Prop where
  before : free.Perm (cap :: rest)
  after : free'.Perm (pieces ++ rest)
  meets : cap.Meets start stop
  pieces : Pieces cap start stop pieces

section Lists
variable {free free' others rest pieces before after : List Memcap} {cap : Memcap} {start stop page : Nat}

theorem listed_append : Listed (free ++ others) page ↔ Listed free page ∨ Listed others page := by
  simp only [Listed, List.mem_append, or_and_right, exists_or]

theorem listed_cons : Listed (cap :: rest) page ↔ cap.Has page ∨ Listed rest page := by
  simp only [Listed, List.mem_cons, or_and_right, exists_or, exists_eq_left]

theorem listed_perm (perm : free.Perm free') : Listed free page ↔ Listed free' page := by
  simp only [Listed, perm.mem_iff]

theorem pieces_nil (covered : ∀ page, cap.Has page → start ≤ page ∧ page < stop) : Pieces cap start stop [] := by
  refine ⟨.nil, by simp, fun page => ⟨fun listed => ?_, fun has => absurd (covered page has.1) has.2⟩⟩
  obtain ⟨piece, mem, -⟩ := listed
  exact absurd mem List.not_mem_nil

theorem pieces_one {piece : Memcap} (inside : cap.start ≤ piece.start ∧ piece.stop ≤ cap.stop)
    (left : ∀ page, piece.Has page ↔ cap.Has page ∧ ¬ (start ≤ page ∧ page < stop)) : Pieces cap start stop [piece] := by
  refine ⟨List.pairwise_singleton _ _, by simpa using inside, fun page => ?_⟩
  rw [← left page]
  simp [Listed]

theorem memcapUnmapRange_cut (before after : List Memcap) (range : start < stop) (meets : cap.Meets start stop) :
    ∃ free' pieces, memcapUnmapRange before cap after start stop = .ok free' ∧
      Cut (before ++ cap :: after) free' start stop cap (before ++ after) pieces := by
  obtain ⟨reaches, begins⟩ := not_or.mp meets
  have middle : (before ++ cap :: after).Perm (cap :: (before ++ after)) := List.perm_middle
  rw [memcapUnmapRange, memcapLeft_meets meets]
  by_cases front : cap.start < start <;> by_cases back : stop < cap.stop
  · rw [if_pos front, if_pos back]
    refine ⟨_, [⟨stop, cap.stop⟩, ⟨cap.start, start⟩], rfl, middle, .cons _ List.perm_middle, meets, ?_, ?_, fun page => ?_⟩
    · exact List.pairwise_pair.mpr (.inr (Nat.le_of_lt range))
    · simp only [List.mem_cons, List.not_mem_nil, or_false, forall_eq_or_imp, forall_eq]
      omega
    · simp only [Listed, Memcap.Has, List.mem_cons, List.not_mem_nil, or_false, exists_eq_or_imp, exists_eq_left]
      omega
  · rw [if_pos front, if_neg back]
    refine ⟨_, [⟨cap.start, start⟩], rfl, middle, List.perm_middle, meets, pieces_one ?_ (fun page => ?_)⟩
    · exact ⟨Nat.le_refl _, Nat.le_of_lt (Nat.not_le.mp begins)⟩
    · simp only [Memcap.Has]
      omega
  · rw [if_neg front, if_pos back]
    refine ⟨_, [⟨stop, cap.stop⟩], rfl, middle, List.perm_middle, meets, pieces_one ?_ (fun page => ?_)⟩
    · exact ⟨Nat.le_of_lt (Nat.not_le.mp reaches), Nat.le_refl _⟩
    · simp only [Memcap.Has]
      omega
  · rw [if_neg front, if_neg back]
    refine ⟨_, [], rfl, middle, .refl _, meets, pieces_nil (fun page has => ?_)⟩
    have := has.1
    have := has.2
    omega

/-- The loop cuts the first capability that the range meets, if there is one. -/
theorem memcapUnmapFrom_cut (before free : List Memcap) (range : start < stop) :
    (memcapUnmapFrom start stop before free = .ok none ∧ ∀ cap ∈ free, ¬ cap.Meets start stop) ∨
    ∃ free' cap rest pieces, memcapUnmapFrom start stop before free = .ok (some free') ∧
      Cut (before ++ free) free' start stop cap rest pieces := by
  induction free generalizing before with
  | nil => exact .inl ⟨rfl, by simp⟩
  | cons cap after next =>
    unfold memcapUnmapFrom
    by_cases meets : cap.Meets start stop
    · obtain ⟨free', pieces, ran, cut⟩ := memcapUnmapRange_cut before after range meets
      refine .inr ⟨free', cap, _, pieces, ?_, cut⟩
      rw [if_pos meets, ran]
    · rw [if_neg meets]
      have later := next (before ++ [cap])
      rw [List.append_assoc, List.singleton_append] at later
      rcases later with ⟨ran, none⟩ | found
      · refine .inl ⟨ran, fun c mem => ?_⟩
        rcases List.mem_cons.mp mem with rfl | later
        · exact meets
        · exact none c later
      · exact .inr found

namespace Cut
variable (cut : Cut free free' start stop cap rest pieces)
include cut

theorem append (others : List Memcap) : Cut (free ++ others) (free' ++ others) start stop cap (rest ++ others) pieces :=
  ⟨cut.before.append_right others, (cut.after.append_right others).trans (by rw [List.append_assoc]), cut.meets, cut.pieces⟩

theorem perm {all all' : List Memcap} (same : all.Perm free) (same' : all'.Perm free') : Cut all all' start stop cap rest pieces :=
  ⟨same.trans cut.before, same'.trans cut.after, cut.meets, cut.pieces⟩

theorem listed (page : Nat) : Listed free' page ↔ (cap.Has page ∧ ¬ (start ≤ page ∧ page < stop)) ∨ Listed rest page := by
  rw [listed_perm cut.after, listed_append, cut.pieces.listed]

theorem apart (apart : free.Pairwise Memcap.Apart) : free'.Pairwise Memcap.Apart := by
  obtain ⟨own, others⟩ := List.pairwise_cons.mp (apart.perm cut.before Memcap.Apart.symm)
  refine (List.pairwise_append.mpr ⟨cut.pieces.apart, others, fun p memp c memc => ?_⟩).perm cut.after.symm Memcap.Apart.symm
  have within := cut.pieces.inside p memp
  rcases own c memc with left | right
  · exact .inl (Nat.le_trans within.2 left)
  · exact .inr (Nat.le_trans right within.1)

/-- A page that is no longer listed was in the range. -/
theorem keeps (out : ¬ (start ≤ page ∧ page < stop)) (old : Listed free page) : Listed free' page := by
  rw [listed_perm cut.before, listed_cons] at old
  exact (cut.listed page).mpr (old.imp_left (fun has => ⟨has, out⟩))

theorem of_listed (left : Listed free' page) : Listed free page := by
  rw [listed_perm cut.before, listed_cons]
  exact ((cut.listed page).mp left).imp_left And.left

/-- Where one capability holds the whole range, that is the one that is cut. -/
theorem removes (apart : free.Pairwise Memcap.Apart) {holder : Memcap} (mem : holder ∈ free)
    (whole : holder.start ≤ start ∧ stop ≤ holder.stop) (left : Listed free' page) : ¬ (start ≤ page ∧ page < stop) := by
  intro inside
  have meets := not_or.mp cut.meets
  have apart := (List.pairwise_cons.mp (apart.perm cut.before Memcap.Apart.symm)).1
  have same : holder = cap := by
    rcases List.mem_cons.mp (cut.before.mem_iff.mp mem) with same | other
    · exact same
    · have := apart holder other
      unfold Memcap.Apart at this
      omega
  rcases (cut.listed page).mp left with own | ⟨other, memo, has⟩
  · exact own.2 inside
  · have := apart other memo
    unfold Memcap.Apart at this
    have := has.1
    have := has.2
    rw [same] at whole
    omega

end Cut

end Lists

/-! ## One capability of a container -/

/-- The free physical memory. -/
def Boot.free (s : Boot) : List Memcap := s.physmemFree ++ s.devmemFree

def CapInfo.IsPhysmem (cap : CapInfo) : Prop := cap.type &&& capTypeMask = capTypeMapPhysmem

instance (cap : CapInfo) : Decidable cap.IsPhysmem := inferInstanceAs (Decidable (_ = _))

def CapInfo.memcap (cap : CapInfo) : Memcap := ⟨cap.start, cap.stop⟩

section Steps
variable {s s' : Boot} {cap : CapInfo}

theorem countCap_free : (countCap s cap).physmemFree = s.physmemFree ∧ (countCap s cap).devmemFree = s.devmemFree := by
  unfold countCap
  split_ifs <;> exact ⟨rfl, rfl⟩

theorem memcapUnmap_ok {used free : List Memcap} {start stop : Nat} {found : Option (List Memcap)}
    (ran : memcapUnmap used free start stop = .ok found) : memcapUnmapFrom start stop [] free = .ok found := by
  unfold memcapUnmap at ran
  split at ran
  · cases ran
  · exact ran

/-- A physical range is cut out of one free capability. -/
theorem processCapInfo_cut (phys : cap.IsPhysmem) (range : cap.start < cap.stop)
    (ran : processCapInfo s cap = .ok s') : ∃ c rest pieces, Cut s.free s'.free cap.start cap.stop c rest pieces := by
  obtain ⟨physSame, devSame⟩ := @countCap_free s cap
  have notVirt : ¬ cap.type &&& capTypeMask = capTypeMapVirtmem := fun virt => absurd (phys.symm.trans virt) (by decide)
  simp only [processCapInfo, if_neg notVirt, if_pos (show cap.type &&& capTypeMask = capTypeMapPhysmem from phys)] at ran
  obtain ⟨found, first, ran⟩ := bind_eq_ok.mp ran
  rw [physSame] at first
  rcases memcapUnmapFrom_cut [] s.physmemFree range with ⟨none, -⟩ | ⟨free', c, rest, pieces, some, cut⟩
  · obtain rfl := Except.ok.inj ((memcapUnmap_ok first).symm.trans none)
    obtain ⟨found, second, ran⟩ := bind_eq_ok.mp ran
    rw [devSame] at second
    rcases memcapUnmapFrom_cut [] s.devmemFree range with ⟨none, -⟩ | ⟨free', c, rest, pieces, some, cut⟩
    · obtain rfl := Except.ok.inj ((memcapUnmap_ok second).symm.trans none)
      cases ran
    · obtain rfl := Except.ok.inj ((memcapUnmap_ok second).symm.trans some)
      cases ran
      refine ⟨c, _, pieces, (cut.append s.physmemFree).perm List.perm_append_comm ?_⟩
      show ((countCap s cap).physmemFree ++ free').Perm _
      rw [physSame]
      exact List.perm_append_comm
  · obtain rfl := Except.ok.inj ((memcapUnmap_ok first).symm.trans some)
    cases ran
    refine ⟨c, _, pieces, (cut.append s.devmemFree).perm (.refl _) ?_⟩
    show (free' ++ (countCap s cap).devmemFree).Perm _
    rw [devSame]

theorem processCapInfo_free (other : ¬ cap.IsPhysmem) (ran : processCapInfo s cap = .ok s') : s'.free = s.free := by
  obtain ⟨physSame, devSame⟩ := @countCap_free s cap
  unfold processCapInfo at ran
  dsimp only at ran
  split at ran
  · obtain ⟨found, -, ran⟩ := bind_eq_ok.mp ran
    cases ran
    exact congrArg₂ _ physSame devSame
  · rw [if_neg (show ¬ cap.type &&& capTypeMask = capTypeMapPhysmem from other)] at ran
    cases ran
    exact congrArg₂ _ physSame devSame

end Steps

/-! ## All capabilities -/

/-- The physical ranges that are asked for. -/
def physRanges (caps : List CapInfo) : List Memcap := (caps.filter (fun cap => cap.IsPhysmem)).map CapInfo.memcap

/-- Every physical range lies in one free capability when its turn comes. -/
def FitAll : Boot → List CapInfo → Prop
  | _, [] => True
  | s, cap :: caps =>
    (cap.IsPhysmem → ∃ holder ∈ s.free, holder.start ≤ cap.start ∧ cap.stop ≤ holder.stop) ∧
      ∀ s', processCapInfo s cap = .ok s' → FitAll s' caps

/-- The ranges are parts of what was free, they have no page in common, and none of their pages is left. -/
structure Taken (s s' : Boot) (ranges : List Memcap) : Prop where
  inside : ∀ r ∈ ranges, ∀ page, r.Has page → Listed s.free page
  apart : ranges.Pairwise (fun a b => ∀ page, ¬ (a.Has page ∧ b.Has page))
  gone : ∀ page, Listed s'.free page → ∀ r ∈ ranges, ¬ r.Has page

section Runs
variable {s s' : Boot} {cap : CapInfo} {caps : List CapInfo}

theorem physRanges_cons_pos (phys : cap.IsPhysmem) : physRanges (cap :: caps) = cap.memcap :: physRanges caps := by
  simp [physRanges, phys]

theorem physRanges_cons_neg (other : ¬ cap.IsPhysmem) : physRanges (cap :: caps) = physRanges caps := by
  simp [physRanges, other]

/-- Only pages of the ranges go, and none come. -/
theorem foldlM_listed (apart : s.free.Pairwise Memcap.Apart) (filled : ∀ cap ∈ caps, cap.IsPhysmem → cap.start < cap.stop)
    (ran : caps.foldlM processCapInfo s = .ok s') (page : Nat) : (Listed s'.free page → Listed s.free page) ∧
      (Listed s.free page → (∀ r ∈ physRanges caps, ¬ r.Has page) → Listed s'.free page) := by
  induction caps generalizing s with
  | nil =>
    cases ran
    exact ⟨id, fun listed _ => listed⟩
  | cons cap caps next =>
    rw [List.foldlM_cons] at ran
    obtain ⟨s1, first, ran⟩ := bind_eq_ok.mp ran
    have later : ∀ cap ∈ caps, cap.IsPhysmem → cap.start < cap.stop := fun c mem => filled c (List.mem_cons_of_mem cap mem)
    by_cases phys : cap.IsPhysmem
    · obtain ⟨c, rest, pieces, cut⟩ := processCapInfo_cut phys (filled cap List.mem_cons_self phys) first
      obtain ⟨back, forth⟩ := next (cut.apart apart) later ran
      rw [physRanges_cons_pos phys]
      refine ⟨fun listed => cut.of_listed (back listed), fun listed none => forth (cut.keeps ?_ listed) ?_⟩
      · exact none _ List.mem_cons_self
      · exact fun r mem => none r (List.mem_cons_of_mem _ mem)
    · have same := processCapInfo_free phys first
      rw [physRanges_cons_neg phys, ← same]
      exact next (same ▸ apart) later ran

/-- Nothing but ranges that fit in one free capability keeps the books right. -/
theorem fitAll_iff (apart : s.free.Pairwise Memcap.Apart) (filled : ∀ cap ∈ caps, cap.IsPhysmem → cap.start < cap.stop)
    (ran : caps.foldlM processCapInfo s = .ok s') : FitAll s caps ↔ Taken s s' (physRanges caps) := by
  induction caps generalizing s with
  | nil =>
    cases ran
    exact ⟨fun _ => ⟨by simp [physRanges], .nil, by simp [physRanges]⟩, fun _ => trivial⟩
  | cons cap caps next =>
    rw [List.foldlM_cons] at ran
    obtain ⟨s1, first, ran⟩ := bind_eq_ok.mp ran
    have later : ∀ cap ∈ caps, cap.IsPhysmem → cap.start < cap.stop := fun c mem => filled c (List.mem_cons_of_mem cap mem)
    have only : ∀ {P : Boot → Prop}, (∀ s', processCapInfo s cap = .ok s' → P s') ↔ P s1 :=
      ⟨fun all => all s1 first, fun holds s' ran' => Except.ok.inj (first.symm.trans ran') ▸ holds⟩
    unfold FitAll
    by_cases phys : cap.IsPhysmem
    swap
    · have same := processCapInfo_free phys first
      have whole := next (same ▸ apart) later ran
      rw [only, whole, physRanges_cons_neg phys]
      refine ⟨fun both => ⟨?_, both.2.apart, both.2.gone⟩, fun taken => ⟨fun is => absurd is phys, ?_, taken.apart, taken.gone⟩⟩
      · rw [← same]
        exact both.2.inside
      · rw [same]
        exact taken.inside
    have range := filled cap List.mem_cons_self phys
    obtain ⟨c, rest, pieces, cut⟩ := processCapInfo_cut phys range first
    have whole := next (cut.apart apart) later ran
    have listed := foldlM_listed (cut.apart apart) later ran
    rw [only, whole, physRanges_cons_pos phys]
    constructor
    · rintro ⟨fits, taken⟩
      obtain ⟨holder, mem, around⟩ := fits phys
      have removed : ∀ page, Listed s1.free page → ¬ cap.memcap.Has page := fun page => cut.removes apart mem around
      refine ⟨fun r memr page has => ?_, List.pairwise_cons.mpr ⟨fun r memr page both => ?_, taken.apart⟩, fun page left r memr => ?_⟩
      · rcases List.mem_cons.mp memr with rfl | memr
        · exact ⟨holder, mem, Nat.le_trans around.1 has.1, Nat.lt_of_lt_of_le has.2 around.2⟩
        · exact cut.of_listed (taken.inside r memr page has)
      · exact removed page (taken.inside r memr page both.2) both.1
      · rcases List.mem_cons.mp memr with rfl | memr
        · exact removed page ((listed page).1 left)
        · exact taken.gone page left r memr
    · intro taken
      obtain ⟨alone, others⟩ := List.pairwise_cons.mp taken.apart
      -- A page of the range outside of the capability that is cut would stay free to the end.
      have cover : ∀ page, cap.memcap.Has page → c.Has page := by
        intro page has
        by_contra out
        have old := taken.inside cap.memcap List.mem_cons_self page has
        rw [listed_perm cut.before, listed_cons] at old
        have stays := (listed page).2 ((cut.listed page).mpr (.inr (old.resolve_left out)))
          (fun r memr hasr => alone r memr page ⟨has, hasr⟩)
        exact taken.gone page stays cap.memcap List.mem_cons_self has
      have low := (cover cap.start ⟨Nat.le_refl _, range⟩).1
      have high := (cover (cap.stop - 1) ⟨Nat.le_sub_one_of_lt range, Nat.sub_one_lt_of_lt range⟩).2
      refine ⟨fun _ => ⟨c, cut.before.mem_iff.mpr List.mem_cons_self, low, by omega⟩, fun r memr page has => ?_, others,
        fun page left r memr => taken.gone page left r (List.mem_cons_of_mem _ memr)⟩
      exact cut.keeps (fun own => alone r memr page ⟨own, has⟩) (taken.inside r (List.mem_cons_of_mem _ memr) page has)

end Runs

/-! ## The platform and the kernel -/

def MemRange.Apart (a b : MemRange) : Prop := a.stop ≤ b.start ∨ b.stop ≤ a.start

theorem MemRange.Apart.memcap {a b : MemRange} (apart : a.Apart b) : a.memcap.Apart b.memcap :=
  apart.imp Nat.div_le_div_right Nat.div_le_div_right

/-- The image of the kernel has pages, all in one region of ram. -/
structure Image (regions : List MemRange) (kernelArea : Memcap) : Prop where
  filled : kernelArea.start < kernelArea.stop
  inside : ∃ r ∈ regions, r.type = memTypeRam ∧ r.memcap.start ≤ kernelArea.start ∧ kernelArea.stop ≤ r.memcap.stop

section Platform
variable {regions : List MemRange} {virtmem kernelArea : Memcap} {s s' : Boot}

theorem foldlM_setupRegion (ran : regions.foldlM setupRegion s = .ok s') :
    s'.free.Perm (regions.map MemRange.memcap ++ s.free) ∧ (∀ cap ∈ s.physmemFree, cap ∈ s'.physmemFree) ∧
      ∀ r ∈ regions, r.type = memTypeRam → r.memcap ∈ s'.physmemFree := by
  induction regions generalizing s with
  | nil =>
    cases ran
    exact ⟨.refl _, fun _ mem => mem, by simp⟩
  | cons r regions next =>
    rw [List.foldlM_cons] at ran
    obtain ⟨s1, first, ran⟩ := bind_eq_ok.mp ran
    obtain ⟨perm, kept, ram⟩ := next ran
    have added : s1.free.Perm (r.memcap :: s.free) ∧ (∀ cap ∈ s.physmemFree, cap ∈ s1.physmemFree) ∧
        (r.type = memTypeRam → r.memcap ∈ s1.physmemFree) := by
      unfold setupRegion at first
      split_ifs at first with isRam isDev <;> cases first
      · exact ⟨.refl _, fun _ mem => List.mem_cons_of_mem _ mem, fun _ => List.mem_cons_self⟩
      · exact ⟨List.perm_middle, fun _ mem => mem, fun is => absurd is isRam⟩
    refine ⟨perm.trans ((added.1.append_left _).trans List.perm_middle), fun cap mem => kept cap (added.2.1 cap mem), fun r' mem is => ?_⟩
    rcases List.mem_cons.mp mem with rfl | later
    · exact kept _ (added.2.2 is)
    · exact ram r' later is

theorem initLists_free (apart : regions.Pairwise MemRange.Apart) (image : Image regions kernelArea)
    (ran : initLists regions virtmem kernelArea = .ok s) : s.free.Pairwise Memcap.Apart ∧
      ∀ page, Listed s.free page ↔ (∃ r ∈ regions, r.memcap.Has page) ∧ ¬ kernelArea.Has page := by
  obtain ⟨s1, setup, ran⟩ := bind_eq_ok.mp ran
  obtain ⟨found, unmapped, ran⟩ := bind_eq_ok.mp ran
  obtain ⟨perm, -, ram⟩ := foldlM_setupRegion setup
  have perm : s1.free.Perm (regions.map MemRange.memcap) := perm.trans (by rw [show Boot.free {} = [] from rfl, List.append_nil])
  have apart1 : s1.free.Pairwise Memcap.Apart :=
    (List.pairwise_map.mpr (apart.imp MemRange.Apart.memcap)).perm perm.symm Memcap.Apart.symm
  obtain ⟨home, mem, isRam, around⟩ := image.inside
  have memHome := ram home mem isRam
  rcases memcapUnmapFrom_cut [] s1.physmemFree image.filled with ⟨-, none⟩ | ⟨free', c, rest, pieces, some, cut⟩
  · have filled := image.filled
    exact absurd (none home.memcap memHome) (not_not.mpr (not_or.mpr ⟨by omega, by omega⟩))
  obtain rfl := Except.ok.inj ((memcapUnmap_ok unmapped).symm.trans some)
  cases ran
  have cut := cut.append s1.devmemFree
  have platform : ∀ page, Listed s1.free page ↔ ∃ r ∈ regions, r.memcap.Has page := fun page => by
    rw [listed_perm perm]
    simp [Listed]
  refine ⟨cut.apart apart1, fun page => ?_⟩
  rw [← platform page]
  exact ⟨fun left => ⟨cut.of_listed left, cut.removes apart1 (List.mem_append_left _ memHome) around left⟩,
    fun both => cut.keeps both.2 both.1⟩

end Platform

/-- Containers have parts of the platform's memory, none in common and none of the kernel's, and the rest is free. -/
structure Isolated (regions : List MemRange) (kernelArea : Memcap) (ranges : List Memcap) (s : Boot) : Prop where
  inside : ∀ r ∈ ranges, ∀ page, r.Has page → ∃ region ∈ regions, region.memcap.Has page
  apart : ranges.Pairwise (fun a b => ∀ page, ¬ (a.Has page ∧ b.Has page))
  kernel : ∀ r ∈ ranges, ∀ page, ¬ (r.Has page ∧ kernelArea.Has page)
  free : ∀ page, Listed s.free page ↔
    (∃ region ∈ regions, region.memcap.Has page) ∧ ¬ kernelArea.Has page ∧ ∀ r ∈ ranges, ¬ r.Has page

/-- Boot isolates the containers exactly if every range lies in one free capability when it is taken. -/
theorem boot_isolates_iff {regions : List MemRange} {virtmem kernelArea : Memcap} {conts : List ContainerInfo} {s : Boot}
    (apart : regions.Pairwise MemRange.Apart) (image : Image regions kernelArea)
    (filled : ∀ cap ∈ capInfos conts, cap.IsPhysmem → cap.start < cap.stop)
    (ran : initSystemResources regions virtmem kernelArea conts = .ok s) :
    Isolated regions kernelArea (physRanges (capInfos conts)) s ↔
      ∀ s0, initLists regions virtmem kernelArea = .ok s0 → FitAll s0 (capInfos conts) := by
  obtain ⟨s0, first, ran⟩ := bind_eq_ok.mp ran
  obtain ⟨apart0, free0⟩ := initLists_free apart image first
  have listed := foldlM_listed apart0 filled ran
  have only : (∀ s', initLists regions virtmem kernelArea = .ok s' → FitAll s' (capInfos conts)) ↔ FitAll s0 (capInfos conts) :=
    ⟨fun all => all s0 first, fun holds s' again => Except.ok.inj (first.symm.trans again) ▸ holds⟩
  rw [only, fitAll_iff apart0 filled ran]
  constructor
  · intro isolated
    refine ⟨fun r mem page has => (free0 page).mpr ⟨isolated.inside r mem page has, fun own => ?_⟩, isolated.apart, fun page left => ?_⟩
    · exact isolated.kernel r mem page ⟨has, own⟩
    · exact ((isolated.free page).mp left).2.2
  · intro taken
    refine ⟨fun r mem page has => ((free0 page).mp (taken.inside r mem page has)).1, taken.apart, fun r mem page both => ?_, fun page => ?_⟩
    · exact ((free0 page).mp (taken.inside r mem page both.1)).2 both.2
    · constructor
      · intro left
        obtain ⟨region, out⟩ := (free0 page).mp ((listed page).1 left)
        exact ⟨region, out, taken.gone page left⟩
      · rintro ⟨region, out, none⟩
        exact (listed page).2 ((free0 page).mpr ⟨region, out⟩) none

/-- 256 pages of ram and 16 of a device. -/
def smallPlatform : List MemRange := [⟨0, 0x100000, memTypeRam⟩, ⟨0x101F0000, 0x10200000, memTypeDev⟩]

def physmem (start stop : Nat) : CapInfo := { type := capTypeMapPhysmem, start := start, stop := stop }

theorem smallPlatform_apart : smallPlatform.Pairwise MemRange.Apart := List.pairwise_pair.mpr (.inl (by decide))

theorem smallPlatform_image : Image smallPlatform ⟨16, 48⟩ := ⟨by decide, _, List.mem_cons_self, rfl, by decide, by decide⟩

/-- Two containers, one of them with the device. -/
theorem boot_isolates_iff_device : ∃ s, initSystemResources smallPlatform ⟨0, 2 ^ 20⟩ ⟨16, 48⟩
      [⟨[], [⟨[physmem 64 128]⟩]⟩, ⟨[physmem 128 192], [⟨[physmem 0x101F0 0x101F4]⟩]⟩] = .ok s ∧
    Isolated smallPlatform ⟨16, 48⟩ [⟨64, 128⟩, ⟨128, 192⟩, ⟨0x101F0, 0x101F4⟩] s := by
  refine ⟨_, rfl, (@boot_isolates_iff _ _ _ [⟨[], [⟨[physmem 64 128]⟩]⟩, ⟨[physmem 128 192], [⟨[physmem 0x101F0 0x101F4]⟩]⟩] _
    smallPlatform_apart smallPlatform_image (by decide) rfl).mpr ?_⟩
  rintro _ ⟨⟩
  refine ⟨fun _ => ?_, ?_⟩
  · exact ⟨⟨48, 256⟩, by decide, by decide⟩
  rintro _ ⟨⟩
  refine ⟨fun _ => ?_, ?_⟩
  · exact ⟨⟨128, 256⟩, by decide, by decide⟩
  rintro _ ⟨⟩
  refine ⟨fun _ => ?_, fun _ _ => trivial⟩
  exact ⟨⟨0x101F0, 0x10200⟩, by decide, by decide⟩

/-- A second container takes the end of what the first one has, and a third one goes over the end of the ram. -/
theorem boot_overlaps : ∃ s, initSystemResources smallPlatform ⟨0, 2 ^ 20⟩ ⟨16, 48⟩
      [⟨[], [⟨[physmem 64 128]⟩]⟩, ⟨[], [⟨[physmem 96 160]⟩]⟩, ⟨[], [⟨[physmem 200 300]⟩]⟩] = .ok s ∧
    (⟨64, 128⟩ : Memcap).Has 100 ∧ (⟨96, 160⟩ : Memcap).Has 100 ∧
    (⟨200, 300⟩ : Memcap).Has 280 ∧ ¬ (∃ region ∈ smallPlatform, region.memcap.Has 280) ∧
    ¬ Isolated smallPlatform ⟨16, 48⟩ [⟨64, 128⟩, ⟨96, 160⟩, ⟨200, 300⟩] s := by
  refine ⟨_, rfl, by decide, by decide, by decide, by decide, fun isolated => ?_⟩
  have apart := (List.pairwise_cons.mp isolated.apart).1 ⟨96, 160⟩ List.mem_cons_self
  exact apart 100 (by decide)

end Codezero.Resource
