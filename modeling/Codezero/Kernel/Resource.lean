import Codezero.Cap.MemcapRange
import Codezero.Kernel.CacheSize

/-!
# The kernel's resource caches

At boot the kernel lays out five caches in its free physical memory. Free memory is a list of ranges of page frames,
and each cache takes the pages of its buffer from the first range that is large enough.
-/

namespace Codezero.Resource
open Codezero.Lib Codezero.Cache
open Codezero.Cap.MemcapRange (Stop memcapLeft memcapShrink)
open Function (update update_of_ne update_self)

/-! ## The model -/

inductive Bug
  | memcap (stop : Stop)
  | cache (b : Cache.Bug)
  deriving DecidableEq, Repr

/-- A memory capability: the page frames from `start` up to `stop`. -/
structure Memcap where
  start : Nat
  stop : Nat
  deriving DecidableEq, Repr

def pageSize : Nat := 4096

/-- `__pfn_to_addr`, a shift of an unsigned word. -/
def pfnToAddr (pfn : Nat) : Nat := pfn * pageSize % 2 ^ 32

/-- `__pfn(page_align_up(size))`. -/
def pagesOf (size : Nat) : Nat := (size + (pageSize - 1)) % 2 ^ 32 / pageSize

/-- `memcap_unmap_range` of the capability between `before` and `after`. A new capability goes to the head of the list. -/
def memcapUnmapRange (before : List Memcap) (cap : Memcap) (after : List Memcap) (start stop : Nat) : Except Bug (List Memcap) :=
  match memcapLeft cap.start cap.stop start stop with
  | .error e => .error (.memcap e)
  | .ok .both => .ok (⟨stop, cap.stop⟩ :: (before ++ ⟨cap.start, start⟩ :: after))
  | .ok .front => .ok (before ++ ⟨cap.start, start⟩ :: after)
  | .ok .back => .ok (before ++ ⟨stop, cap.stop⟩ :: after)
  | .ok .nothing => .ok (before ++ after)

/-- What is asked of `init_resource_cache`. -/
structure Request where
  nstruct : Int
  structSize : Nat
  aligned : Bool

/-- What the layout depends on: `sizeof(struct mem_cache)` and `KERNEL_OFFSET`. -/
structure Platform where
  header : Nat
  kernelOffset : Nat

def Platform.physToVirt (p : Platform) (addr : Nat) : Nat := addr + p.kernelOffset

/-- A cache with the physical range of its buffer. -/
structure Buffer where
  cache : MemCache
  addr : Nat
  size : Nat

/-- An `unsigned long` passed as an `int`. -/
def toInt (n : Nat) : Int := if n < 2 ^ 31 then n else n - 2 ^ 32

/-- The loop of `init_resource_cache` over the free ranges, of which `before` were too small. -/
def initResourceCacheFrom (p : Platform) (r : Request) (before : List Memcap) : List Memcap → Except Bug (List Memcap × Option Buffer)
  | [] => .ok (before, none)
  | cap :: after =>
    let addr := pfnToAddr cap.start
    let bufsize := memCacheBufsize p.header addr r.structSize r.nstruct r.aligned
    if pfnToAddr (cap.stop - cap.start) ≥ bufsize then do
      let free ← memcapUnmapRange before cap after cap.start (cap.start + pagesOf bufsize)
      match memCacheInit p.header (p.physToVirt addr) (toInt bufsize) r.structSize r.aligned with
      | .error b => .error (.cache b)
      | .ok cache => .ok (free, cache.map (fun c => { cache := c, addr := addr, size := bufsize }))
    else initResourceCacheFrom p r (before ++ [cap]) after

/-- `init_resource_cache`. -/
def initResourceCache (p : Platform) (r : Request) (free : List Memcap) : Except Bug (List Memcap × Option Buffer) :=
  initResourceCacheFrom p r [] free

inductive Kind
  | pgd
  | space
  | ktcb
  | mutex
  | pmd
  deriving DecidableEq, Repr

/-- `struct boot_resources`, with the sizes of the two structures that are not fixed by the architecture. -/
structure BootResources where
  nspaces : Int
  nthreads : Int
  nmutex : Int
  npmds : Int
  addressSpaceSize : Nat
  mutexQueueSize : Nat
  some_size : 0 < addressSpaceSize ∧ 0 < mutexQueueSize

def pgdSize : Nat := pageSize * 4
def pmdSize : Nat := 1024

def Kind.request (b : BootResources) : Kind → Request
  | .pgd => ⟨b.nspaces, pgdSize, true⟩
  | .space => ⟨b.nspaces, b.addressSpaceSize, false⟩
  | .ktcb => ⟨b.nthreads, pageSize, true⟩
  | .mutex => ⟨b.nmutex, b.mutexQueueSize, false⟩
  | .pmd => ⟨b.npmds, pmdSize, true⟩

/-- The caches of `struct kernel_resources` and its `physmem_free`. -/
structure KernelResources where
  free : List Memcap
  cache : Kind → Option Buffer := fun _ => none

def initCache (p : Platform) (b : BootResources) (kres : KernelResources) (kind : Kind) : Except Bug KernelResources := do
  let (free, cache) ← initResourceCache p (kind.request b) kres.free
  pure { free := free, cache := update kres.cache kind cache }

/-- `init_resource_allocators`. -/
def initResourceAllocators (p : Platform) (b : BootResources) (free : List Memcap) : Except Bug KernelResources :=
  [Kind.pgd, .space, .ktcb, .mutex, .pmd].foldlM (initCache p b) { free := free }

/-! ## What one cache takes -/

def Memcap.bytes (cap : Memcap) : Set Nat := Set.Ico (cap.start * pageSize) (cap.stop * pageSize)

def freeBytes (free : List Memcap) : Set Nat := {x | ∃ cap ∈ free, x ∈ cap.bytes}

def Buffer.bytes (b : Buffer) : Set Nat := Set.Ico b.addr (b.addr + b.size)

/-- Ranges of physical page frames that do not overlap. -/
structure Granular (free : List Memcap) : Prop where
  range : ∀ cap ∈ free, cap.start ≤ cap.stop ∧ cap.stop ≤ 2 ^ 20
  apart : free.Pairwise (fun a b => Disjoint a.bytes b.bytes)

/-- A request that the layout of caches is made for. -/
structure Request.Regular (r : Request) : Prop where
  pos : 1 ≤ r.structSize
  pow : r.aligned = true → ∃ k, r.structSize = 2 ^ k

/-- The size of the buffer wraps around to nothing. -/
def Request.Wraps (r : Request) (p : Platform) : Prop :=
  ∃ addr, memCacheBufsize p.header addr r.structSize r.nstruct r.aligned = 0

/-- What `init_resource_cache` leaves free, and the buffer it took. -/
structure Carved (p : Platform) (r : Request) (free free' : List Memcap) (buffer : Option Buffer) : Prop where
  granular : Granular free'
  rest : freeBytes free' ⊆ freeBytes free
  inside : ∀ b ∈ buffer, b.bytes ⊆ freeBytes free
  taken : ∀ b ∈ buffer, Disjoint b.bytes (freeBytes free')
  layout : ∀ b ∈ buffer, Layout p.header (p.physToVirt b.addr) b.size r.structSize r.aligned b.cache

section Carve
variable {p : Platform} {r : Request} {before after free : List Memcap} {cap : Memcap} {n : Nat}

@[simp] theorem mem_freeBytes_append {x : Nat} {free free' : List Memcap} :
    x ∈ freeBytes (free ++ free') ↔ x ∈ freeBytes free ∨ x ∈ freeBytes free' := by
  simp only [freeBytes, Set.mem_ofPred_eq, List.mem_append, or_and_right, exists_or]

@[simp] theorem mem_freeBytes_cons {x : Nat} : x ∈ freeBytes (cap :: free) ↔ x ∈ cap.bytes ∨ x ∈ freeBytes free := by
  simp only [freeBytes, Set.mem_ofPred_eq, List.mem_cons, or_and_right, exists_or, exists_eq_left]

/-- A range without its first `n` frames: nothing is left of a range that is used up. -/
def Memcap.behind (cap : Memcap) (n : Nat) : List Memcap :=
  if cap.start + n < cap.stop then [{ cap with start := cap.start + n }] else []

theorem Memcap.mem_behind {cap' : Memcap} (mem : cap' ∈ cap.behind n) :
    cap' = { cap with start := cap.start + n } ∧ cap.start + n < cap.stop := by
  unfold Memcap.behind at mem
  split at mem
  · next less => exact ⟨List.mem_singleton.mp mem, less⟩
  · exact absurd mem List.not_mem_nil

/-- Taking frames from the front of a range never splits it. -/
theorem memcapUnmapRange_front : Sat (memcapUnmapRange before cap after cap.start (cap.start + n))
    (fun free => free = before ++ (cap.behind n ++ after)) (fun _ => n = 0) := by
  unfold memcapUnmapRange memcapLeft memcapShrink Memcap.behind
  rw [if_neg (by omega), if_neg (Nat.lt_irrefl _)]
  by_cases more : cap.start + n < cap.stop
  · rw [if_pos (.inl ⟨Nat.le_refl _, more⟩), if_pos more, if_pos more]
    by_cases none : cap.start + n ≤ cap.start
    · rw [if_pos none]
      exact show n = 0 by omega
    · rw [if_neg none]
      exact rfl
  · rw [if_neg (by omega), if_pos (by omega), if_neg more]
    exact rfl

/-- The frames that are left are those that were free, without the ones taken. -/
theorem Granular.carve (granular : Granular (before ++ cap :: after)) : Granular (before ++ (cap.behind n ++ after)) ∧
    freeBytes (before ++ (cap.behind n ++ after)) ⊆ freeBytes (before ++ cap :: after) ∧
    Disjoint (Set.Ico (cap.start * pageSize) ((cap.start + n) * pageSize) ∩ cap.bytes) (freeBytes (before ++ (cap.behind n ++ after))) := by
  obtain ⟨range, apart⟩ := granular
  have smaller : ∀ cap' ∈ cap.behind n, cap'.bytes ⊆ cap.bytes := by
    intro cap' mem
    obtain ⟨rfl, -⟩ := Memcap.mem_behind mem
    exact Set.Ico_subset_Ico_left (Nat.mul_le_mul_right _ (Nat.le_add_right _ _))
  simp only [List.pairwise_append, List.pairwise_cons, List.mem_cons] at apart
  obtain ⟨apart_before, ⟨apart_cap, apart_after⟩, cross⟩ := apart
  refine ⟨⟨fun cap' mem => ?_, ?_⟩, fun x mem => ?_, ?_⟩
  · simp only [List.mem_append] at mem
    rcases mem with mem | mem | mem
    · exact range cap' (by simp [mem])
    · obtain ⟨rfl, less⟩ := Memcap.mem_behind mem
      have := range cap (by simp)
      exact ⟨Nat.le_of_lt less, this.2⟩
    · exact range cap' (by simp [mem])
  · rw [List.pairwise_append, List.pairwise_append]
    refine ⟨apart_before, ⟨?_, apart_after, fun a mem b mem' => (apart_cap b mem').mono_left (smaller a mem)⟩, fun a mem b mem' => ?_⟩
    · unfold Memcap.behind
      split
      · exact List.pairwise_singleton _ _
      · exact .nil
    · rcases List.mem_append.mp mem' with mem' | mem'
      · exact (cross a mem cap (.inl rfl)).mono_right (smaller b mem')
      · exact cross a mem b (.inr mem')
  · simp only [mem_freeBytes_append, mem_freeBytes_cons] at mem ⊢
    rcases mem with mem | ⟨cap', mem', mem⟩ | mem
    · exact .inl mem
    · exact .inr (.inl (smaller cap' mem' mem))
    · exact .inr (.inr mem)
  · rw [Set.disjoint_left]
    rintro x ⟨taken, inside⟩ left
    simp only [mem_freeBytes_append] at left
    rcases left with ⟨cap', mem', mem⟩ | ⟨cap', mem', mem⟩ | ⟨cap', mem', mem⟩
    · exact Set.disjoint_left.mp (cross cap' mem' cap (.inl rfl)) mem inside
    · obtain ⟨rfl, -⟩ := Memcap.mem_behind mem'
      exact absurd mem.1 (Nat.not_le.mpr taken.2)
    · exact Set.disjoint_left.mp (apart_cap cap' mem') inside mem

/-- The frames of a buffer that fits in a range: they hold it, and the range has as many. -/
theorem pagesOf_fits {size : Nat} (range : cap.start ≤ cap.stop ∧ cap.stop ≤ 2 ^ 20) (some : 0 < size)
    (fits : size ≤ pfnToAddr (cap.stop - cap.start)) : pfnToAddr cap.start = cap.start * pageSize ∧
      size ≤ pagesOf size * pageSize ∧ cap.start + pagesOf size ≤ cap.stop := by
  unfold pfnToAddr pagesOf pageSize at *
  omega

theorem toInt_le (n : Nat) : toInt n ≤ n := by
  unfold toInt
  split <;> omega

theorem initResourceCacheFrom_carved (regular : r.Regular) : ∀ before, Granular (before ++ free) →
    Sat (initResourceCacheFrom p r before free) (fun out => Carved p r (before ++ free) out.1 out.2)
      (fun _ => r.Wraps p) := by
  induction free with
  | nil =>
    intro before granular
    rw [List.append_nil] at *
    refine ⟨granular, subset_rfl, ?_, ?_, ?_⟩ <;> exact fun b mem => absurd mem (Option.not_mem_none b)
  | cons cap after next =>
    intro before granular
    unfold initResourceCacheFrom
    dsimp only
    split
    · next fits =>
      generalize sized : memCacheBufsize p.header (pfnToAddr cap.start) r.structSize r.nstruct r.aligned = size at fits
      have range := granular.range cap (by simp)
      obtain ⟨granular', rest, apart⟩ := granular.carve (n := pagesOf size)
      refine Sat.bind (P := fun free => free = before ++ (cap.behind (pagesOf size) ++ after)) ?_ ?_
      · refine memcapUnmapRange_front.weaken (fun e none => ⟨pfnToAddr cap.start, ?_⟩)
        by_contra some
        have holds := (pagesOf_fits range (by omega) fits).2.1
        rw [none, Nat.zero_mul] at holds
        omega
      rintro _ rfl
      have init := @memCacheInit_layout p.header (p.physToVirt (pfnToAddr cap.start)) (toInt size) r.structSize r.aligned
        (by have := regular.pos; omega) (fun isAligned => by
          obtain ⟨k, eq⟩ := regular.pow isAligned
          exact ⟨k, by rw [eq]; push_cast; rfl⟩)
      obtain ⟨cache, made, layout⟩ := init.exists_ok
      rw [made]
      -- A buffer of no bytes lies anywhere; any other lies at the front of the range.
      have inside : Set.Ico (pfnToAddr cap.start) (pfnToAddr cap.start + size) ⊆
          Set.Ico (cap.start * pageSize) ((cap.start + pagesOf size) * pageSize) ∩ cap.bytes := by
        rintro x ⟨low, high⟩
        obtain ⟨addr, holds, less⟩ := pagesOf_fits range (by omega) fits
        have wide := Nat.mul_le_mul_right pageSize less
        rw [Nat.add_mul] at *
        exact ⟨⟨by omega, by omega⟩, by unfold Memcap.bytes; exact ⟨by omega, by omega⟩⟩
      refine ⟨granular', rest, ?_, ?_, ?_⟩
      all_goals
        intro b mem
        obtain ⟨c, found, rfl⟩ := Option.mem_map.mp mem
      · intro x mem
        simp only [mem_freeBytes_append, mem_freeBytes_cons]
        exact .inr (.inl (inside mem).2)
      · exact apart.mono_left inside
      · exact (layout c found).enlarge (toInt_le size)
    · have moved : before ++ cap :: after = before ++ [cap] ++ after := by simp
      rw [moved] at granular ⊢
      exact next (before ++ [cap]) granular

theorem initResourceCache_carved (regular : r.Regular) (granular : Granular free) :
    Sat (initResourceCache p r free) (fun out => Carved p r free out.1 out.2)
      (fun _ => r.Wraps p) :=
  initResourceCacheFrom_carved regular [] granular

end Carve

/-! ## The five caches -/

/-- Where the caches lie that were made so far, of the memory that was free at first. -/
structure Laid (p : Platform) (b : BootResources) (free : List Memcap) (kres : KernelResources) : Prop where
  granular : Granular kres.free
  rest : freeBytes kres.free ⊆ freeBytes free
  inside : ∀ kind, ∀ buf ∈ kres.cache kind, buf.bytes ⊆ freeBytes free
  taken : ∀ kind, ∀ buf ∈ kres.cache kind, Disjoint buf.bytes (freeBytes kres.free)
  apart : ∀ kind kind', kind ≠ kind' → ∀ buf ∈ kres.cache kind, ∀ buf' ∈ kres.cache kind', Disjoint buf.bytes buf'.bytes
  layout : ∀ kind, ∀ buf ∈ kres.cache kind, Layout p.header (p.physToVirt buf.addr) buf.size (kind.request b).structSize
    (kind.request b).aligned buf.cache

section Caches
variable {p : Platform} {b : BootResources} {free : List Memcap} {kres : KernelResources}

theorem Kind.request_regular (b : BootResources) (kind : Kind) : (kind.request b).Regular := by
  obtain ⟨space, mutex⟩ := b.some_size
  cases kind with
  | pgd => exact ⟨show 1 ≤ pgdSize by decide, fun _ => ⟨14, show pgdSize = 2 ^ 14 by decide⟩⟩
  | space => exact ⟨space, fun no => absurd no Bool.false_ne_true⟩
  | ktcb => exact ⟨show 1 ≤ pageSize by decide, fun _ => ⟨12, show pageSize = 2 ^ 12 by decide⟩⟩
  | mutex => exact ⟨mutex, fun no => absurd no Bool.false_ne_true⟩
  | pmd => exact ⟨show 1 ≤ pmdSize by decide, fun _ => ⟨10, show pmdSize = 2 ^ 10 by decide⟩⟩

theorem initCache_laid (laid : Laid p b free kres) (kind : Kind) : Sat (initCache p b kres kind) (Laid p b free)
    (fun _ => ∃ kind : Kind, (kind.request b).Wraps p) := by
  unfold initCache
  refine Sat.bind ((initResourceCache_carved (kind.request_regular b) laid.granular).weaken (fun e wraps => ⟨kind, wraps⟩)) ?_
  rintro ⟨free', buffer⟩ carved
  simp only [sat_pure]
  -- The new buffer is what one kind has now; the others keep theirs.
  have cases : ∀ kind', ∀ buf ∈ update kres.cache kind buffer kind',
      (kind' = kind ∧ buf ∈ buffer) ∨ (kind' ≠ kind ∧ buf ∈ kres.cache kind') := by
    intro kind' buf mem
    by_cases same : kind' = kind
    · subst same
      rw [update_self] at mem
      exact .inl ⟨rfl, mem⟩
    · rw [update_of_ne same] at mem
      exact .inr ⟨same, mem⟩
  have apart : ∀ kind', ∀ buf ∈ kres.cache kind', ∀ buf' ∈ buffer, Disjoint buf.bytes buf'.bytes := fun kind' buf mem buf' mem' =>
    (laid.taken kind' buf mem).mono_right (carved.inside buf' mem')
  refine ⟨carved.granular, carved.rest.trans laid.rest, ?_, ?_, ?_, ?_⟩
  · intro kind' buf mem
    rcases cases kind' buf mem with ⟨-, new⟩ | ⟨-, old⟩
    · exact (carved.inside buf new).trans laid.rest
    · exact laid.inside kind' buf old
  · intro kind' buf mem
    rcases cases kind' buf mem with ⟨-, new⟩ | ⟨-, old⟩
    · exact carved.taken buf new
    · exact (laid.taken kind' buf old).mono_right carved.rest
  · intro kind' kind'' differ buf mem buf' mem'
    rcases cases kind' buf mem with ⟨rfl, new⟩ | ⟨-, old⟩ <;> rcases cases kind'' buf' mem' with ⟨rfl, new'⟩ | ⟨-, old'⟩
    · exact absurd rfl differ
    · exact (apart kind'' buf' old' buf new).symm
    · exact apart kind' buf old buf' new'
    · exact laid.apart kind' kind'' differ buf old buf' old'
  · intro kind' buf mem
    rcases cases kind' buf mem with ⟨rfl, new⟩ | ⟨-, old⟩
    · exact carved.layout buf new
    · exact laid.layout kind' buf old

theorem initResourceAllocators_laid (granular : Granular free) : Sat (initResourceAllocators p b free) (Laid p b free)
    (fun _ => ∃ kind : Kind, (kind.request b).Wraps p) := by
  refine Sat.foldlM (I := fun _ => Laid p b free) (fun kres kind _ laid => initCache_laid laid kind) _ _ ?_
  refine ⟨granular, subset_rfl, ?_, ?_, ?_, ?_⟩
  · exact fun kind buf mem => absurd mem (Option.not_mem_none buf)
  · exact fun kind buf mem => absurd mem (Option.not_mem_none buf)
  · exact fun kind kind' differ buf mem => absurd mem (Option.not_mem_none buf)
  · exact fun kind buf mem => absurd mem (Option.not_mem_none buf)

end Caches

/-! ## Objects -/

/-- The caches in use, and what is allocated from each. -/
structure Objects where
  cache : Kind → Option MemCache
  live : Kind → List Nat := fun _ => []

inductive ObjectCall
  | alloc (kind : Kind)
  | free (kind : Kind) (addr : Nat)

def Objects.put (s : Objects) (kind : Kind) (c : MemCache) (live : List Nat) : Objects :=
  { cache := update s.cache kind (some c), live := update s.live kind live }

/-- Allocations and frees of the five kinds, in any order. -/
def objectCalls : Machine Objects ObjectCall Cache.Bug where
  enabled s
    | .alloc _ => True
    | .free kind addr => addr ∈ s.live kind
  step s
    | .alloc kind =>
      match s.cache kind with
      | none => pure s
      | some c => do
        let (c, addr) ← memCacheAlloc c
        pure (s.put kind c (addr.toList ++ s.live kind))
    | .free kind addr =>
      match s.cache kind with
      | none => pure s
      | some c => pure (s.put kind (memCacheFree c addr).1 ((s.live kind).erase addr))

instance (s : Objects) (call : ObjectCall) : Decidable (objectCalls.enabled s call) :=
  match call with
  | .alloc _ => isTrue trivial
  | .free kind addr => inferInstanceAs (Decidable (addr ∈ s.live kind))

/-- The caches as they were made, with nothing allocated. -/
def KernelResources.objects (kres : KernelResources) : Objects := { cache := fun kind => (kres.cache kind).map Buffer.cache }

/-- The physical bytes of an object: `virt_to_phys` takes the kernel's offset off again. -/
def Platform.objectBytes (p : Platform) (b : BootResources) (kind : Kind) (addr : Nat) : Set Nat :=
  Set.Ico (addr - p.kernelOffset) (addr - p.kernelOffset + (kind.request b).structSize)

/-- Each cache in use is one that was made, with the objects allocated from it. -/
structure InUse (kres : KernelResources) (s : Objects) : Prop where
  live : ∀ kind, ∀ c ∈ s.cache kind, ∃ buf ∈ kres.cache kind, Live c (s.live kind) ∧ SameLayout buf.cache c
  none : ∀ kind, s.cache kind = none → s.live kind = []

section Objects
variable {p : Platform} {b : BootResources} {free : List Memcap} {kres : KernelResources} {s s' : Objects} {kind kind' : Kind}
  {c c' : MemCache} {addr addr' : Nat}

theorem InUse.put {live : List Nat} {buf : Buffer} (use : InUse kres s) (found : buf ∈ kres.cache kind) (holds : Live c' live)
    (same : SameLayout buf.cache c') : InUse kres (s.put kind c' live) := by
  refine ⟨fun k c mem => ?_, fun k none => ?_⟩
  · by_cases here : k = kind
    · subst here
      simp only [Objects.put, update_self, Option.mem_some_iff] at mem ⊢
      subst mem
      exact ⟨buf, found, holds, same⟩
    · simp only [Objects.put, update_of_ne here] at mem ⊢
      exact use.live k c mem
  · by_cases here : k = kind
    · subst here
      simp [Objects.put] at none
    · simp only [Objects.put, update_of_ne here] at none ⊢
      exact use.none k none

theorem InUse.step {call : ObjectCall} (use : InUse kres s) (enabled : objectCalls.enabled s call)
    (stepped : objectCalls.step s call = .ok s') : InUse kres s' := by
  cases call with
  | alloc kind =>
    simp only [objectCalls] at stepped
    cases found : s.cache kind with
    | none =>
      rw [found] at stepped
      cases stepped
      exact use
    | some c =>
      obtain ⟨buf, made, live, same⟩ := use.live kind c found
      obtain ⟨⟨c', addr⟩, ran, live', same', -⟩ := (memCacheAlloc_sat live).exists_ok
      rw [found] at stepped
      simp only [ran, ok_bind] at stepped
      cases stepped
      exact use.put made live' (same.trans same')
  | free kind addr =>
    simp only [objectCalls] at stepped
    cases found : s.cache kind with
    | none =>
      rw [found] at stepped
      cases stepped
      exact use
    | some c =>
      obtain ⟨buf, made, live, same⟩ := use.live kind c found
      obtain ⟨-, live', same'⟩ := memCacheFree_live live enabled
      rw [found] at stepped
      cases stepped
      exact use.put made live' (same.trans same')

theorem Laid.inUse (laid : Laid p b free kres) (reached : objectCalls.Reaches kres.objects s) : InUse kres s := by
  refine reached.invariant (I := InUse kres) (fun s call s' use enabled stepped => use.step enabled stepped) ⟨fun kind c mem => ?_, fun _ _ => rfl⟩
  obtain ⟨buf, found, rfl⟩ := Option.mem_map.mp mem
  have pos := (kind.request_regular b).pos
  exact ⟨buf, found, (laid.layout kind buf found).toLive (by omega), rfl, rfl, rfl⟩

/-- An object is an element of its cache, as the cache was laid out. -/
theorem InUse.slot (use : InUse kres s) (mem : addr ∈ s.live kind) :
    ∃ buf ∈ kres.cache kind, ∃ i < buf.cache.total.toNat, addr = buf.cache.slot i := by
  cases found : s.cache kind with
  | none =>
    rw [use.none kind found] at mem
    exact absurd mem List.not_mem_nil
  | some c =>
    obtain ⟨buf, made, live, same⟩ := use.live kind c found
    obtain ⟨i, lt, -, rfl⟩ := (live.mem addr).mp mem
    refine ⟨buf, made, i, same.total ▸ lt, ?_⟩
    rw [MemCache.slot, MemCache.slot, same.start, same.structSize]

theorem Laid.objectBytes_subset {buf : Buffer} {i : Nat} (laid : Laid p b free kres) (found : buf ∈ kres.cache kind)
    (lt : i < buf.cache.total.toNat) : p.kernelOffset ≤ buf.cache.slot i ∧ p.objectBytes b kind (buf.cache.slot i) ⊆ buf.bytes := by
  have pos := (kind.request_regular b).pos
  obtain ⟨-, low, high, -⟩ := (laid.layout kind buf found).slot_bounds (by omega) lt
  unfold Platform.physToVirt at low high
  refine ⟨by omega, Set.Ico_subset_Ico (by omega) ?_⟩
  push_cast at high
  omega

/-- Two objects share no byte of physical memory. -/
theorem Laid.objects_apart (laid : Laid p b free kres) (use : InUse kres s) (mem : addr ∈ s.live kind) (mem' : addr' ∈ s.live kind')
    (differ : kind ≠ kind' ∨ addr ≠ addr') : Disjoint (p.objectBytes b kind addr) (p.objectBytes b kind' addr') := by
  obtain ⟨buf, found, i, lt, rfl⟩ := use.slot mem
  obtain ⟨buf', found', j, lt', rfl⟩ := use.slot mem'
  obtain ⟨offset, inside⟩ := laid.objectBytes_subset found lt
  obtain ⟨offset', inside'⟩ := laid.objectBytes_subset found' lt'
  by_cases same : kind = kind'
  · subst same
    obtain rfl := Option.mem_unique found found'
    have pos := (kind.request_regular b).pos
    have bounds := fun {i} lt => (laid.layout kind buf found).slot_bounds (i := i) (by omega) lt
    unfold Platform.objectBytes
    rw [Set.disjoint_left]
    rintro x ⟨low, high⟩ ⟨low', high'⟩
    rcases Nat.lt_trichotomy i j with less | rfl | less
    · have := (bounds lt').2.2.2 i less
      omega
    · exact differ.elim (fun no => no rfl) (fun no => no rfl)
    · have := (bounds lt).2.2.2 j less
      omega
  · exact (laid.apart kind kind' same buf found buf' found').mono inside inside'

/-- The buffers of the caches take free memory, each its own, and no two objects overlap. Boot stops only where the
size of a buffer wraps around to nothing. -/
theorem kernel_objects_apart (granular : Granular free) :
    (∀ e, initResourceAllocators p b free = .error e → ∃ kind : Kind, (kind.request b).Wraps p) ∧
    ∀ kres, initResourceAllocators p b free = .ok kres →
      (∀ kind, ∀ buf ∈ kres.cache kind, buf.bytes ⊆ freeBytes free ∧ Disjoint buf.bytes (freeBytes kres.free) ∧
        ∀ kind', kind ≠ kind' → ∀ buf' ∈ kres.cache kind', Disjoint buf.bytes buf'.bytes) ∧
      ∀ s, objectCalls.Reaches kres.objects s → ∀ kind kind', ∀ addr ∈ s.live kind, ∀ addr' ∈ s.live kind',
        kind ≠ kind' ∨ addr ≠ addr' → Disjoint (p.objectBytes b kind addr) (p.objectBytes b kind' addr') := by
  have boot := @initResourceAllocators_laid p b free granular
  refine ⟨fun e stopped => boot.error stopped, fun kres ran => ?_⟩
  have laid := boot.ok ran
  refine ⟨fun kind buf found => ⟨laid.inside kind buf found, laid.taken kind buf found, fun kind' differ => ?_⟩, ?_⟩
  · exact laid.apart kind kind' differ buf found
  · intro s reached kind kind' addr mem addr' mem' differ
    exact laid.objects_apart (laid.inUse reached) mem mem' differ

/-- Two address spaces, three threads, four mutexes and five page middle directories. -/
def smallBoot : BootResources := ⟨2, 3, 4, 5, 128, 48, by decide⟩

/-- Of two free ranges the first has room for the address spaces only. -/
theorem kernel_objects_apart_boot : ∃ kres s, initResourceAllocators ⟨52, 0xE0000000⟩ smallBoot [⟨1, 2⟩, ⟨16, 64⟩] = .ok kres ∧
    kres.free = [⟨35, 64⟩] ∧ objectCalls.Reaches kres.objects s ∧
    Disjoint (Platform.objectBytes ⟨52, 0xE0000000⟩ smallBoot .pgd 0xE0014000)
      (Platform.objectBytes ⟨52, 0xE0000000⟩ smallBoot .ktcb 0xE001D000) := by
  have granular : Granular [⟨1, 2⟩, ⟨16, 64⟩] := by
    refine ⟨by decide, List.pairwise_pair.mpr (Set.disjoint_left.mpr ?_)⟩
    rintro x ⟨-, below⟩ ⟨above, -⟩
    simp only [pageSize] at below above
    omega
  have ran : (initResourceAllocators ⟨52, 0xE0000000⟩ smallBoot [⟨1, 2⟩, ⟨16, 64⟩]).toOption.bind (fun kres =>
      (objectCalls.run [.alloc .pgd, .alloc .ktcb] kres.objects).map (fun s => (kres.free, s.live .pgd, s.live .ktcb))) =
      some ([⟨35, 64⟩], [0xE0014000], [0xE001D000]) := rfl
  obtain ⟨kres, booted, ran⟩ := Option.bind_eq_some_iff.mp ran
  obtain ⟨s, ran, facts⟩ := Option.map_eq_some_iff.mp ran
  simp only [Prod.mk.injEq] at facts
  obtain ⟨free, pgd, ktcb⟩ := facts
  have booted := toOption_eq_some.mp booted
  have reached := objectCalls.reaches_of_run ran
  obtain ⟨-, apart⟩ := (kernel_objects_apart granular).2 kres booted
  refine ⟨kres, s, booted, free, reached, apart s reached .pgd .ktcb _ ?_ _ ?_ (.inl (by decide))⟩
  · rw [pgd]; exact List.mem_singleton_self _
  · rw [ktcb]; exact List.mem_singleton_self _

end Objects

end Codezero.Resource
