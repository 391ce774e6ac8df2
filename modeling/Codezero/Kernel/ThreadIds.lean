import Codezero.Kernel.Children
import Codezero.Lib.Bitmap
import Codezero.Lib.Bits

/-!
# Thread ids

The tid of a thread is an id of one pool for all containers, with the id of the container in the top bits. Threads are
found by their tids in the list of the container that the top bits name.
-/

namespace Codezero.Kernel.ThreadIds
open Codezero.Lib
open Codezero.Kernel.Children (threadCreateMask threadSpaceMask tcShareSpace tcCopySpace tcNewSpace tcShareUtcb tcShareGroup)
open Function (update update_eq_self update_idem update_of_ne update_self)

/-! ## The model -/

def taskCidMask : Word := 0xFF000000
def taskCidShift : Nat := 24
def nilThread : Word := 0xFFFFFFFF

/-- `tid_to_cid`. -/
def tidToCid (tid : Word) : Word := (tid &&& taskCidMask) >>> taskCidShift

/-- The ids and the container of a `struct ktcb`; a new one has no container. -/
structure Ktcb where
  tid : Word
  tgid : Word
  container : Option Nat := none

structure Container where
  cid : Word
  ktcbList : List Nat := []

/-- A call of `thread_create` that has its new thread: the caller and the arguments. -/
structure Creation where
  caller : Nat
  flags : Word
  tid : Word

/-- Threads and containers by their addresses: the pool `ktcb_ids`, the threads that are allocated, the containers and
their list, the threads to be deleted, and the calls in which a thread is being made. -/
structure Threads where
  nwords : Nat
  bitmap : Nat → BitVec 32
  ktcb : Nat → Option Ktcb
  cont : Nat → Container
  containers : List Nat
  zombies : List Nat := []
  creation : Nat → Option Creation := fun _ => none

inductive Bug
  | idsExhausted
  | idClear
  | taskListLinked
  | taskListUnlinked
  | setupThread
  | nullPointer
  deriving DecidableEq, Repr

/-- `id_new` on `ktcb_ids`. -/
def idNew (k : Threads) : Except Bug (Nat × Threads) :=
  match Bitmap.firstClear k.bitmap (k.nwords * 32) with
  | none => .error .idsExhausted
  | some id => .ok (id, { k with bitmap := Bitmap.set k.bitmap id })

/-- `id_del` on `ktcb_ids`. -/
def idDel (id : Nat) (k : Threads) : Except Bug Threads :=
  if Bitmap.test k.bitmap id then .ok { k with bitmap := Bitmap.clear k.bitmap id } else .error .idClear

/-- The tid that `tcb_alloc_init` puts together. -/
def newTid (id : Nat) (cid : Word) : Word := BitVec.ofNat 32 id ||| (taskCidMask &&& (cid <<< taskCidShift))

/-- `tcb_alloc_init`, with what `ktcb_cap_alloc` returns. -/
def tcbAllocInit (cid : Word) (alloc : Option Nat) (k : Threads) : Except Bug (Option Nat × Threads) :=
  match alloc with
  | none => .ok (none, k)
  | some a => do
    let (id, k) ← idNew k
    .ok (some a, { k with ktcb := update k.ktcb a (some { tid := newTid id cid, tgid := nilThread }) })

/-- `ktcb_cap_free`. -/
def ktcbCapFree (a : Nat) (k : Threads) : Threads := { k with ktcb := update k.ktcb a none }

/-- `container_find_tcb`. -/
def containerFindTcb (c : Nat) (tid : Word) (k : Threads) : Option Nat :=
  (k.cont c).ktcbList.find? (fun a => (k.ktcb a).map Ktcb.tid == some tid)

/-- `container_find` in `kernel_resources`. -/
def containerFind (cid : Word) (k : Threads) : Option Nat := k.containers.find? (fun c => (k.cont c).cid == cid)

/-- `tcb_find`. -/
def tcbFind (current : Nat) (tid : Word) (k : Threads) : Option Nat :=
  match k.ktcb current with
  | none => none
  | some t =>
    if t.tid = tid then some current
    else match t.container with
      | none => none
      | some curcont =>
        if tidToCid tid = (k.cont curcont).cid then containerFindTcb curcont tid k
        else match containerFind (tidToCid tid) k with
          | none => none
          | some c => containerFindTcb c tid k

/-- The link `task_list` of a thread is on some list. -/
def Threads.linked (k : Threads) (t : Nat) : Bool :=
  k.containers.any (fun c => (k.cont c).ktcbList.contains t) || k.zombies.contains t

/-- `tcb_add`. -/
def tcbAdd (t : Nat) (k : Threads) : Except Bug Threads :=
  match (k.ktcb t).bind Ktcb.container with
  | none => .error .nullPointer
  | some c =>
    if k.linked t then .error .taskListLinked
    else .ok { k with cont := update k.cont c { k.cont c with ktcbList := t :: (k.cont c).ktcbList } }

/-- `list_remove_init` on the link of a thread, which is on one list at most. -/
def unlink (t : Nat) (k : Threads) : Threads :=
  { k with
    cont := fun c => { k.cont c with ktcbList := (k.cont c).ktcbList.filter (fun a => a != t) }
    zombies := k.zombies.filter (fun a => a != t) }

/-- `tcb_remove`. -/
def tcbRemove (t : Nat) (k : Threads) : Except Bug Threads :=
  if k.linked t then .ok (unlink t k) else .error .taskListUnlinked

/-- `ktcb_list_add` to the list of zombies. -/
def zombieAdd (t : Nat) (k : Threads) : Except Bug Threads :=
  if k.linked t then .error .taskListLinked else .ok { k with zombies := t :: k.zombies }

/-- The first part of `thread_create`, up to the new thread; the call goes on if there is no return code yet. -/
def threadCreateBegin (caller : Nat) (flags tid : Word) (alloc : Option Nat) (k : Threads) : Except Bug (Option Int × Threads) :=
  let flags := flags &&& threadCreateMask
  if flags &&& tcShareSpace &&& tcCopySpace &&& tcNewSpace ≠ 0 ∨ flags = 0 then .ok (some einval, k)
  else if flags &&& threadSpaceMask = 0 then .ok (some einval, k)
  else if flags &&& tcShareSpace = 0 ∧ (flags &&& tcShareUtcb ≠ 0 ∨ flags &&& tcShareGroup ≠ 0) then .ok (some einval, k)
  else match (k.ktcb caller).bind Ktcb.container with
    | none => .error .nullPointer
    | some curcont => do
      let (new, k) ← tcbAllocInit (k.cont curcont).cid alloc k
      match new with
      | none => .ok (some enomem, k)
      | some a => .ok (none, { k with creation := update k.creation a (some ⟨caller, flags, tid⟩) })

/-- `thread_setup_new_ids` for the new thread. -/
def threadSetupNewIds (flags : Word) (orig : Option Ktcb) (new : Ktcb) : Ktcb :=
  { new with tgid := if flags &&& tcShareGroup ≠ 0 then (orig.map Ktcb.tgid).getD nilThread else new.tid }

/-- The space of the original thread is shared or copied. -/
def Creation.fromParent (call : Creation) : Prop := call.flags &&& tcShareSpace ≠ 0 ∨ call.flags &&& tcCopySpace ≠ 0

instance (call : Creation) : Decidable call.fromParent := inferInstanceAs (Decidable (_ ∨ _))

/-- `orig`. -/
def Creation.orig (call : Creation) (k : Threads) : Option Nat :=
  if call.fromParent then tcbFind call.caller call.tid k else none

/-- The rest of `thread_create` once `thread_setup_space` has returned `space`. -/
def threadCreateEnd (a : Nat) (space : Int) (k : Threads) : Except Bug (Int × Threads) :=
  match k.creation a, k.ktcb a with
  | some call, some new =>
    let done := { k with creation := update k.creation a none }
    if space < 0 then .ok (space, ktcbCapFree a done)
    else
      let orig := call.orig k
      if call.fromParent ∧ orig = none then .ok (einval, ktcbCapFree a done)
      else
        let new := { new with container := (k.ktcb call.caller).bind Ktcb.container }
        let new := threadSetupNewIds call.flags (orig.bind k.ktcb) new
        -- `arch_setup_new_thread` copies from the original thread unless the space is new.
        if (call.flags &&& tcNewSpace ≠ 0) ↔ orig.isSome then .error .setupThread
        else do
          let k ← tcbAdd a { done with ktcb := update k.ktcb a (some new) }
          .ok (0, k)
  | _, _ => .error .nullPointer

/-- `init_pager`. -/
def initPager (c : Nat) (alloc : Option Nat) (k : Threads) : Except Bug Threads := do
  let (new, k) ← tcbAllocInit (k.cont c).cid alloc k
  match new with
  | none => .error .nullPointer
  | some a =>
    match k.ktcb a with
    | none => .error .nullPointer
    | some t => tcbAdd a { k with ktcb := update k.ktcb a (some { t with tgid := t.tid, container := some c }) }

/-- The end of `thread_wait`, `thread_destroy_child` and, for a pager, `thread_destroy_self`. -/
def threadRemove (t : Nat) (k : Threads) : Except Bug Threads := do
  let k ← tcbRemove t k
  zombieAdd t k

/-- `arch_clear_thread`. -/
def archClearThread (t : Nat) (k : Threads) : Except Bug Threads := do
  let k ← tcbRemove t k
  tcbAdd t k

/-- The end of `tcb_delete` and `tcb_delete_pager`. -/
def tcbDelete (t : Nat) (k : Threads) : Except Bug Threads :=
  match k.ktcb t with
  | none => .error .nullPointer
  | some r => do
    let k ← idDel (r.tid &&& ~~~taskCidMask).toNat k
    .ok (ktcbCapFree t k)

/-- A turn of `tcb_delete_zombies`. -/
def deleteZombie (t : Nat) (k : Threads) : Except Bug Threads := tcbDelete t (unlink t k)

/-- The thread is on the list of its container. -/
def Threads.Listed (k : Threads) (t : Nat) : Prop := ∃ c ∈ k.containers, t ∈ (k.cont c).ktcbList

inductive Event
  | initPager (c : Nat) (alloc : Option Nat)
  | createBegin (caller : Nat) (flags tid : Word) (alloc : Option Nat)
  | createEnd (a : Nat) (space : Int)
  | remove (t : Nat)
  | recycle (t : Nat)
  | delete (t : Nat)

/-- `ktcb_cap_alloc` returns what is not in use, callers are threads on lists, and a thread that is in a call is not inactive,
so that no one removes it. -/
def enabled (k : Threads) : Event → Prop
  | .initPager c alloc => c ∈ k.containers ∧ ∀ a, alloc = some a → k.ktcb a = none
  | .createBegin caller _ _ alloc => k.Listed caller ∧ ∀ a, alloc = some a → k.ktcb a = none
  | .createEnd a _ => (k.creation a).isSome = true
  | .remove t => k.Listed t ∧ ∀ a call, k.creation a = some call → call.caller ≠ t
  | .recycle t => k.Listed t ∧ ∀ a call, k.creation a = some call → call.caller ≠ t
  | .delete t => t ∈ k.zombies

def step (k : Threads) : Event → Except Bug Threads
  | .initPager c alloc => initPager c alloc k
  | .createBegin caller flags tid alloc => do
    let (_, k) ← threadCreateBegin caller flags tid alloc k
    pure k
  | .createEnd a space => do
    let (_, k) ← threadCreateEnd a space k
    pure k
  | .remove t => threadRemove t k
  | .recycle t => archClearThread t k
  | .delete t => deleteZombie t k

def machine : Machine Threads Event Bug := ⟨enabled, step⟩

/-- Containers with different ids and no threads yet. -/
structure Initial (k : Threads) : Prop where
  pool : k.nwords * 32 ≤ 2 ^ 24
  small : ∀ c ∈ k.containers, (k.cont c).cid.toNat < 256
  distinct : ∀ c ∈ k.containers, ∀ c' ∈ k.containers, (k.cont c).cid = (k.cont c').cid → c = c'
  empty : ∀ c, (k.cont c).ktcbList = []
  noThreads : ∀ a, k.ktcb a = none
  noZombies : k.zombies = []
  noCreations : ∀ a, k.creation a = none

/-! ## The parts of a tid -/

section Tid
variable {id id' : Nat} {cid : Word}

theorem id_high (small : id < 2 ^ 24) : BitVec.ofNat 32 id &&& taskCidMask = 0#32 := by
  apply BitVec.eq_of_toNat_eq
  rw [show taskCidMask = ~~~BitVec.ofNat 32 (2 ^ 24 - 1) from rfl, toNat_and_not_low _ (by decide), BitVec.toNat_ofNat]
  rw [Nat.mod_eq_of_lt (show id < 2 ^ 32 by omega), Nat.mod_eq_of_lt small, Nat.sub_self]
  rfl

theorem cid_masked : taskCidMask &&& (cid <<< taskCidShift) &&& taskCidMask = taskCidMask &&& (cid <<< taskCidShift) := by
  rw [BitVec.and_comm, ← BitVec.and_assoc, BitVec.and_self]

/-- The pool finds its id again. -/
theorem newTid_id (small : id < 2 ^ 24) : (newTid id cid &&& ~~~taskCidMask).toNat = id := by
  rw [newTid, or_and_high (id_high small) cid_masked, BitVec.toNat_ofNat, Nat.mod_eq_of_lt (by omega)]

theorem tidToCid_newTid (small : id < 2 ^ 24) (below : cid.toNat < 256) : tidToCid (newTid id cid) = cid := by
  rw [tidToCid, newTid, or_and_low (id_high small) cid_masked, BitVec.ushiftRight_and_distrib]
  apply BitVec.eq_of_toNat_eq
  rw [BitVec.and_comm, show taskCidMask >>> taskCidShift = BitVec.ofNat 32 (2 ^ 8 - 1) from rfl, toNat_and_low _ (by decide),
    BitVec.toNat_ushiftRight, BitVec.toNat_shiftLeft, taskCidShift, Nat.shiftLeft_eq, Nat.shiftRight_eq_div_pow]
  omega

end Tid

/-! ## The invariant -/

/-- The container whose id the thread got: its own, or that of the caller while the thread is being made. -/
def Threads.Home (k : Threads) (a c : Nat) : Prop :=
  c ∈ k.containers ∧ ((∃ t, k.ktcb a = some t ∧ t.container = some c) ∨
    ∃ call t, k.creation a = some call ∧ k.ktcb call.caller = some t ∧ t.container = some c)

/-- The id of a thread in the pool. -/
def idOf (t : Ktcb) : Nat := (t.tid &&& ~~~taskCidMask).toNat

structure Sound (k : Threads) : Prop where
  pool : k.nwords * 32 ≤ 2 ^ 24
  small : ∀ c ∈ k.containers, (k.cont c).cid.toNat < 256
  distinct : ∀ c ∈ k.containers, ∀ c' ∈ k.containers, (k.cont c).cid = (k.cont c').cid → c = c'
  tid : ∀ a t, k.ktcb a = some t → ∃ c, k.Home a c ∧ tidToCid t.tid = (k.cont c).cid
  taken : ∀ a t, k.ktcb a = some t → Bitmap.test k.bitmap (idOf t) = true
  apart : ∀ a t a' t', k.ktcb a = some t → k.ktcb a' = some t' → idOf t = idOf t' → a = a'
  listed : ∀ c ∈ k.containers, ∀ a ∈ (k.cont c).ktcbList, k.creation a = none ∧ ∃ t, k.ktcb a = some t ∧ t.container = some c
  zombie : ∀ a ∈ k.zombies, ¬ k.Listed a ∧ k.creation a = none ∧ ∃ t, k.ktcb a = some t ∧ t.container.isSome = true
  making : ∀ a call, k.creation a = some call → k.Listed call.caller ∧ ∃ t, k.ktcb a = some t ∧ t.container = none

theorem Initial.sound {k : Threads} (initial : Initial k) : Sound k where
  pool := initial.pool
  small := initial.small
  distinct := initial.distinct
  tid := fun a t is => by rw [initial.noThreads] at is; cases is
  taken := fun a t is => by rw [initial.noThreads] at is; cases is
  apart := fun a t _ _ is => by rw [initial.noThreads] at is; cases is
  listed := fun c _ a mem => by rw [initial.empty] at mem; cases mem
  zombie := fun a mem => by rw [initial.noZombies] at mem; cases mem
  making := fun a call is => by rw [initial.noCreations] at is; cases is

section Steps
variable {k k' : Threads} {a c t id : Nat} {r r' : Ktcb}

theorem linked_iff : k.linked t = true ↔ k.Listed t ∨ t ∈ k.zombies := by
  simp [Threads.linked, Threads.Listed]

theorem update_eq_some {β : Type} {f : Nat → Option β} {x : Option β} {a a' : Nat} {y : β} :
    update f a x a' = some y ↔ (a' = a ∧ x = some y) ∨ (a' ≠ a ∧ f a' = some y) := by
  by_cases here : a' = a
  · subst here
    simp
  · simp [here]

theorem listed_unlink : (unlink t k).Listed a ↔ k.Listed a ∧ a ≠ t := by
  simp only [Threads.Listed, unlink, List.mem_filter, bne_iff_ne]
  constructor
  · rintro ⟨c, inside, mem, ne⟩
    exact ⟨⟨c, inside, mem⟩, ne⟩
  · rintro ⟨⟨c, inside, mem⟩, ne⟩
    exact ⟨c, inside, mem, ne⟩

theorem mem_zombies_unlink : a ∈ (unlink t k).zombies ↔ a ∈ k.zombies ∧ a ≠ t := by
  simp [unlink]

theorem tcbRemove_ok (removed : tcbRemove t k = .ok k') : k' = unlink t k := by
  unfold tcbRemove at removed
  split at removed <;> cases removed
  rfl

theorem tcbAllocInit_ok {cid : Word} {alloc new : Option Nat} (allocated : tcbAllocInit cid alloc k = .ok (new, k')) :
    (alloc = none ∧ new = none ∧ k' = k) ∨
      ∃ a id, alloc = some a ∧ new = some a ∧ Bitmap.firstClear k.bitmap (k.nwords * 32) = some id ∧
        k' = { k with
          bitmap := Bitmap.set k.bitmap id
          ktcb := update k.ktcb a (some { tid := newTid id cid, tgid := nilThread }) } := by
  unfold tcbAllocInit at allocated
  split at allocated
  · cases allocated
    exact .inl ⟨rfl, rfl, rfl⟩
  · next a =>
    obtain ⟨⟨id, k1⟩, found, allocated⟩ := bind_eq_ok.mp allocated
    unfold idNew at found
    split at found <;> cases found
    next is =>
    cases allocated
    exact .inr ⟨a, id, rfl, rfl, is, rfl⟩

variable (sound : Sound k)
include sound

theorem Sound.home (is : k.ktcb a = some r) (own : r.container = some c) (done : k.creation a = none) :
    c ∈ k.containers ∧ tidToCid r.tid = (k.cont c).cid := by
  obtain ⟨c', ⟨inside, home⟩, tid⟩ := sound.tid a r is
  rcases home with ⟨r', is', own'⟩ | ⟨call, -, making, -⟩
  · cases Option.some.inj (is.symm.trans is')
    cases Option.some.inj (own.symm.trans own')
    exact ⟨inside, tid⟩
  · rw [done] at making
    cases making

theorem Sound.caller {call : Creation} (making : k.creation a = some call) :
    ∃ c r, c ∈ k.containers ∧ k.ktcb call.caller = some r ∧ r.container = some c := by
  obtain ⟨⟨c, inside, mem⟩, -⟩ := sound.making a call making
  obtain ⟨-, r, is, own⟩ := sound.listed c inside _ mem
  exact ⟨c, r, inside, is, own⟩

/-- A thread in the making is on no list. -/
theorem Sound.unlisted {call : Creation} (making : k.creation a = some call) : ¬ k.Listed a ∧ a ∉ k.zombies := by
  constructor
  · rintro ⟨c, inside, mem⟩
    rw [(sound.listed c inside a mem).1] at making
    cases making
  · intro mem
    rw [(sound.zombie a mem).2.1] at making
    cases making

/-- A new thread, either with its container or in a call of a thread of that container. -/
theorem Sound.new (fresh : k.ktcb a = none) (found : Bitmap.firstClear k.bitmap (k.nwords * 32) = some id)
    (inside : c ∈ k.containers) (tid : r.tid = newTid id (k.cont c).cid) {x : Option Creation} (home : (x = none ∧ r.container = some c) ∨
      (r.container = none ∧ ∃ call r', x = some call ∧ k.Listed call.caller ∧ k.ktcb call.caller = some r' ∧ r'.container = some c)) :
    Sound { k with bitmap := Bitmap.set k.bitmap id, ktcb := update k.ktcb a (some r), creation := update k.creation a x } := by
  obtain ⟨below, clear, -⟩ := Bitmap.firstClear_eq_some.mp found
  have small : id < 2 ^ 24 := Nat.lt_of_lt_of_le below sound.pool
  have new : idOf r = id := by rw [idOf, tid, newTid_id small]
  have other : ∀ a' r', k.ktcb a' = some r' → a' ≠ a ∧ idOf r' ≠ id := fun a' r' is => by
    constructor
    · rintro rfl
      rw [fresh] at is
      cases is
    · intro same
      have := sound.taken a' r' is
      rw [same, clear] at this
      cases this
  have old : ∀ a' r', k.ktcb a' = some r' → update k.ktcb a (some r) a' = some r' := fun a' r' is => by
    rw [update_of_ne (other a' r' is).1, is]
  have idle : ∀ a', k.creation a' = none → a' ≠ a → update k.creation a x a' = none := fun a' none ne => by
    rw [update_of_ne ne, none]
  refine ⟨sound.pool, sound.small, sound.distinct, fun a' r' is => ?_, fun a' r' is => ?_, fun a1 r1 a2 r2 is1 is2 same => ?_,
    fun c' inside' a' mem => ?_, fun a' mem => ?_, fun a' call is => ?_⟩
  · rcases update_eq_some.mp is with ⟨rfl, new⟩ | ⟨here, is⟩
    · cases new
      refine ⟨c, ⟨inside, ?_⟩, tid ▸ tidToCid_newTid small (sound.small c inside)⟩
      rcases home with ⟨-, own⟩ | ⟨-, call, r', rfl, -, is', own⟩
      · exact .inl ⟨r, update_self .., own⟩
      · exact .inr ⟨call, r', update_self .., old _ _ is', own⟩
    · obtain ⟨c', ⟨inside', home'⟩, tid'⟩ := sound.tid a' r' is
      refine ⟨c', ⟨inside', home'.imp (fun ⟨r1, is1, own⟩ => ⟨r1, old _ _ is1, own⟩) ?_⟩, tid'⟩
      rintro ⟨call, r1, making, is1, own⟩
      exact ⟨call, r1, (update_of_ne here ..).trans making, old _ _ is1, own⟩
  · show Bitmap.test (Bitmap.set k.bitmap id) (idOf r') = true
    rw [Bitmap.test_set (by decide)]
    rcases update_eq_some.mp is with ⟨-, made⟩ | ⟨-, is⟩
    · cases made
      simp [new]
    · simp [sound.taken a' r' is]
  · rcases update_eq_some.mp is1 with ⟨first, made1⟩ | ⟨-, is1⟩ <;> rcases update_eq_some.mp is2 with ⟨second, made2⟩ | ⟨-, is2⟩
    · rw [first, second]
    · cases made1
      exact absurd (same.symm.trans new) (other _ _ is2).2
    · cases made2
      exact absurd (same.trans new) (other _ _ is1).2
    · exact sound.apart _ _ _ _ is1 is2 same
  · obtain ⟨done, r', is, own⟩ := sound.listed c' inside' a' mem
    exact ⟨idle a' done (other a' r' is).1, r', old _ _ is, own⟩
  · obtain ⟨out, done, r', is, own⟩ := sound.zombie a' mem
    exact ⟨out, idle a' done (other a' r' is).1, r', old _ _ is, own⟩
  · rcases update_eq_some.mp is with ⟨rfl, begun⟩ | ⟨-, is⟩
    · rcases home with ⟨none, -⟩ | ⟨bare, call', r', some, listed, -⟩
      · cases none.symm.trans begun
      · cases Option.some.inj (begun.symm.trans some)
        exact ⟨listed, r, update_self .., bare⟩
    · obtain ⟨listed, r', is', own⟩ := sound.making a' call is
      exact ⟨listed, r', old _ _ is', own⟩

/-- A thread that is on no list is freed; the bits of the others stay. -/
theorem Sound.free (unlisted : ¬ k.Listed a) (kept : a ∉ k.zombies) {b : Nat → BitVec 32}
    (bits : ∀ a' r', a' ≠ a → k.ktcb a' = some r' → Bitmap.test b (idOf r') = true) :
    Sound { k with bitmap := b, ktcb := update k.ktcb a none, creation := update k.creation a none } := by
  have old : ∀ {a' r'}, update k.ktcb a none a' = some r' → a' ≠ a ∧ k.ktcb a' = some r' := fun is =>
    (update_eq_some.mp is).resolve_left (fun gone => nomatch gone.2)
  have stays : ∀ {a' r'}, a' ≠ a → k.ktcb a' = some r' → update k.ktcb a none a' = some r' := fun ne is =>
    (update_of_ne ne ..).trans is
  have idle : ∀ a', k.creation a' = none → update k.creation a none a' = none := fun a' none => by
    by_cases here : a' = a
    · rw [here, update_self]
    · rw [update_of_ne here, none]
  refine ⟨sound.pool, sound.small, sound.distinct, fun a' r' is => ?_, fun a' r' is => bits a' r' (old is).1 (old is).2,
    fun a1 r1 a2 r2 is1 is2 same => sound.apart _ _ _ _ (old is1).2 (old is2).2 same,
    fun c' inside' a' mem => ?_, fun a' mem => ?_, fun a' call is => ?_⟩
  · obtain ⟨ne, is⟩ := old is
    obtain ⟨c', ⟨inside', home⟩, tid⟩ := sound.tid a' r' is
    refine ⟨c', ⟨inside', home.imp (fun ⟨r1, is1, own⟩ => ⟨r1, stays ne is1, own⟩) ?_⟩, tid⟩
    rintro ⟨call, r1, making, is1, own⟩
    have other : call.caller ≠ a := fun same => unlisted (same ▸ (sound.making a' call making).1)
    exact ⟨call, r1, (update_of_ne ne ..).trans making, stays other is1, own⟩
  · obtain ⟨done, r', is, own⟩ := sound.listed c' inside' a' mem
    have ne : a' ≠ a := fun same => unlisted (same ▸ ⟨c', inside', mem⟩)
    exact ⟨idle a' done, r', stays ne is, own⟩
  · obtain ⟨out, done, r', is, own⟩ := sound.zombie a' mem
    exact ⟨out, idle a' done, r', stays (fun same => kept (same ▸ mem)) is, own⟩
  · obtain ⟨here, is⟩ := (update_eq_some.mp is).resolve_left (fun gone => nomatch gone.2)
    obtain ⟨listed, r', is', own⟩ := sound.making a' call is
    exact ⟨listed, r', stays here is', own⟩

/-- A thread gets on the list of its container. -/
theorem Sound.tcbAdd (done : k.creation t = none) (added : tcbAdd t k = .ok k') : Sound k' := by
  unfold ThreadIds.tcbAdd at added
  split at added
  · cases added
  · next c bound =>
    obtain ⟨r, is, own⟩ := Option.bind_eq_some_iff.mp bound
    split at added
    · cases added
    · next free =>
      cases added
      obtain ⟨unlisted, notZombie⟩ := not_or.mp (mt linked_iff.mpr free)
      obtain ⟨inside, -⟩ := sound.home is own done
      have cid : ∀ c', (update k.cont c { k.cont c with ktcbList := t :: (k.cont c).ktcbList } c').cid = (k.cont c').cid := fun c' => by
        by_cases here : c' = c
        · rw [here, update_self]
        · rw [update_of_ne here]
      have list : ∀ c' a, a ∈ (update k.cont c { k.cont c with ktcbList := t :: (k.cont c).ktcbList } c').ktcbList ↔
          (c' = c ∧ a = t) ∨ a ∈ (k.cont c').ktcbList := fun c' a => by
        by_cases here : c' = c
        · rw [here, update_self]
          simp
        · rw [update_of_ne here]
          simp [here]
      have listed : ∀ a, k.Listed a → ∃ c' ∈ k.containers, a ∈
          (update k.cont c { k.cont c with ktcbList := t :: (k.cont c).ktcbList } c').ktcbList :=
        fun a ⟨c', inside', mem⟩ => ⟨c', inside', (list c' a).mpr (.inr mem)⟩
      refine ⟨sound.pool, fun c' inside' => cid c' ▸ sound.small c' inside', fun c1 in1 c2 in2 same => ?_, fun a r' is' => ?_,
        sound.taken, sound.apart, fun c' inside' a mem => ?_, fun a mem => ?_, fun a call is' => ?_⟩
      · exact sound.distinct c1 in1 c2 in2 ((cid c1).symm.trans (same.trans (cid c2)))
      · obtain ⟨c', home, tid⟩ := sound.tid a r' is'
        exact ⟨c', home, tid.trans (cid c').symm⟩
      · rcases (list c' a).mp mem with ⟨rfl, rfl⟩ | mem
        · exact ⟨done, r, is, own⟩
        · exact sound.listed c' inside' a mem
      · obtain ⟨out, rest⟩ := sound.zombie a mem
        refine ⟨?_, rest⟩
        rintro ⟨c', inside', mem'⟩
        rcases (list c' a).mp mem' with ⟨-, rfl⟩ | mem'
        · exact notZombie mem
        · exact out ⟨c', inside', mem'⟩
      · exact (sound.making a call is').imp_left (listed _)

/-- A thread gets off its list; no caller does. -/
theorem Sound.unlink (calls : ∀ a call, k.creation a = some call → call.caller ≠ t) : Sound (unlink t k) := by
  refine ⟨sound.pool, sound.small, sound.distinct, sound.tid, sound.taken, sound.apart, fun c inside a mem => ?_, fun a mem => ?_,
    fun a call is => ?_⟩
  · exact sound.listed c inside a (List.mem_of_mem_filter mem)
  · obtain ⟨out, rest⟩ := sound.zombie a (mem_zombies_unlink.mp mem).1
    exact ⟨fun listed => out (listed_unlink.mp listed).1, rest⟩
  · exact (sound.making a call is).imp_left (fun listed => listed_unlink.mpr ⟨listed, calls a call is⟩)

theorem Sound.zombieAdd (done : k.creation t = none) (is : k.ktcb t = some r) (own : r.container = some c)
    (added : zombieAdd t k = .ok k') : Sound k' := by
  unfold ThreadIds.zombieAdd at added
  split at added
  · cases added
  · next free =>
    cases added
    obtain ⟨unlisted, -⟩ := not_or.mp (mt linked_iff.mpr free)
    refine ⟨sound.pool, sound.small, sound.distinct, sound.tid, sound.taken, sound.apart, sound.listed, fun a mem => ?_, sound.making⟩
    rcases List.mem_cons.mp mem with rfl | mem
    · exact ⟨unlisted, done, r, is, own ▸ rfl⟩
    · exact sound.zombie a mem

theorem Sound.threadRemove (listed : k.Listed t) (calls : ∀ a call, k.creation a = some call → call.caller ≠ t)
    (removed : threadRemove t k = .ok k') : Sound k' := by
  obtain ⟨k1, off, removed⟩ := bind_eq_ok.mp removed
  obtain ⟨c, inside, mem⟩ := listed
  obtain ⟨done, r, is, own⟩ := sound.listed c inside t mem
  cases tcbRemove_ok off
  exact (sound.unlink calls).zombieAdd done is own removed

theorem Sound.archClearThread (listed : k.Listed t) (calls : ∀ a call, k.creation a = some call → call.caller ≠ t)
    (cleared : archClearThread t k = .ok k') : Sound k' := by
  obtain ⟨k1, off, cleared⟩ := bind_eq_ok.mp cleared
  obtain ⟨c, inside, mem⟩ := listed
  cases tcbRemove_ok off
  exact (sound.unlink calls).tcbAdd (sound.listed c inside t mem).1 cleared

theorem Sound.deleteZombie (zombie : t ∈ k.zombies) (deleted : deleteZombie t k = .ok k') : Sound k' := by
  obtain ⟨out, done, r, is, -⟩ := sound.zombie t zombie
  have calls : ∀ a call, k.creation a = some call → call.caller ≠ t := fun a call making same =>
    out (same ▸ (sound.making a call making).1)
  have off := sound.unlink calls
  unfold ThreadIds.deleteZombie tcbDelete at deleted
  rw [show (ThreadIds.unlink t k).ktcb t = some r from is] at deleted
  obtain ⟨k1, cleared, deleted⟩ := bind_eq_ok.mp deleted
  unfold idDel at cleared
  split at cleared <;> cases cleared
  cases deleted
  have freed := off.free (fun listed => (listed_unlink.mp listed).2 rfl) (fun mem => (mem_zombies_unlink.mp mem).2 rfl)
    (b := Bitmap.clear k.bitmap (idOf r)) (fun a r' ne is' => by
      have differ : idOf r ≠ idOf r' := fun same => ne (sound.apart _ _ _ _ is' is same.symm)
      rw [Bitmap.test_clear (by decide), sound.taken a r' is']
      simp [differ])
  have same : update k.creation t none = k.creation := by
    rw [← done, update_eq_self]
  rw [show (ThreadIds.unlink t k).creation = k.creation from rfl, same] at freed
  exact freed

theorem Sound.noCreation (fresh : k.ktcb a = none) : k.creation a = none := by
  cases making : k.creation a with
  | none => rfl
  | some call =>
    obtain ⟨-, r, is, -⟩ := sound.making a call making
    rw [fresh] at is
    cases is

theorem Sound.initPager {alloc : Option Nat} (inside : c ∈ k.containers) (fresh : ∀ a, alloc = some a → k.ktcb a = none)
    (ran : initPager c alloc k = .ok k') : Sound k' := by
  obtain ⟨⟨new, k1⟩, allocated, ran⟩ := bind_eq_ok.mp ran
  rcases tcbAllocInit_ok allocated with ⟨-, rfl, -⟩ | ⟨a, id, is, rfl, found, rfl⟩
  · cases ran
  · dsimp only at ran
    rw [update_self] at ran
    dsimp only at ran
    rw [update_idem] at ran
    have idle := sound.noCreation (fresh a is)
    have made := sound.new (fresh a is) found inside (r := { tid := newTid id (k.cont c).cid, tgid := newTid id (k.cont c).cid, container := some c })
      rfl (x := none) (.inl ⟨rfl, rfl⟩)
    rw [show update k.creation a none = k.creation by rw [← idle, update_eq_self]] at made
    exact made.tcbAdd idle ran

theorem Sound.threadCreateBegin {alloc : Option Nat} {flags tid : Word} {code : Option Int} (listed : k.Listed t)
    (fresh : ∀ a, alloc = some a → k.ktcb a = none) (ran : threadCreateBegin t flags tid alloc k = .ok (code, k')) : Sound k' := by
  obtain ⟨c, inside, mem⟩ := id listed
  obtain ⟨-, r, is, own⟩ := sound.listed c inside t mem
  unfold ThreadIds.threadCreateBegin at ran
  dsimp only at ran
  rw [is, Option.bind_some, own] at ran
  split at ran
  · cases ran
    exact sound
  split at ran
  · cases ran
    exact sound
  split at ran
  · cases ran
    exact sound
  obtain ⟨⟨new, k1⟩, allocated, goesOn⟩ := bind_eq_ok.mp ran
  rcases tcbAllocInit_ok allocated with ⟨-, rfl, rfl⟩ | ⟨a, id, is', rfl, found, rfl⟩
  · cases goesOn
    exact sound
  · cases goesOn
    exact sound.new (fresh a is') found inside rfl (.inr ⟨rfl, _, r, rfl, listed, is, own⟩)

/-- The new thread gets the container of the caller. -/
theorem Sound.settle {call : Creation} {tgid : Word} (making : k.creation a = some call) (is : k.ktcb a = some r)
    (is' : k.ktcb call.caller = some r') (own : r'.container = some c) :
    Sound { k with
      creation := update k.creation a none
      ktcb := update k.ktcb a (some { r with container := some c, tgid := tgid }) } := by
  obtain ⟨unlisted, notZombie⟩ := sound.unlisted making
  have keeps : ∀ {a1 r1}, update k.ktcb a (some { r with container := some c, tgid := tgid }) a1 = some r1 →
      ∃ r2, k.ktcb a1 = some r2 ∧ r2.tid = r1.tid := fun {a1 r1} is1 => by
    rcases update_eq_some.mp is1 with ⟨here, new⟩ | ⟨-, is1⟩
    · cases new
      exact ⟨r, here ▸ is, rfl⟩
    · exact ⟨r1, is1, rfl⟩
  have stays : ∀ {a1 r1}, a1 ≠ a → k.ktcb a1 = some r1 →
      update k.ktcb a (some { r with container := some c, tgid := tgid }) a1 = some r1 := fun ne is1 =>
    (update_of_ne ne ..).trans is1
  have idle : ∀ a', k.creation a' = none → update k.creation a none a' = none := fun a' done => by
    by_cases here : a' = a
    · rw [here, update_self]
    · rw [update_of_ne here, done]
  have callers : ∀ a' call', k.creation a' = some call' → call'.caller ≠ a := fun a' call' making' same =>
    unlisted (same ▸ (sound.making a' call' making').1)
  refine ⟨sound.pool, sound.small, sound.distinct, fun a1 r1 is1 => ?_, fun a1 r1 is1 => ?_, fun a1 r1 a2 r2 is1 is2 same => ?_,
    fun c' inside' a1 mem => ?_, fun a1 mem => ?_, fun a1 call1 is1 => ?_⟩
  · rcases update_eq_some.mp is1 with ⟨rfl, new⟩ | ⟨ne, is1⟩
    · cases new
      obtain ⟨c', ⟨inside, home⟩, tid⟩ := sound.tid _ r is
      rcases home with ⟨r2, is2, own2⟩ | ⟨call2, r2, making2, is2, own2⟩
      · obtain ⟨-, r3, is3, bare⟩ := sound.making _ call making
        cases Option.some.inj (is2.symm.trans is3)
        cases bare.symm.trans own2
      · cases Option.some.inj (making.symm.trans making2)
        cases Option.some.inj (is'.symm.trans is2)
        cases Option.some.inj (own.symm.trans own2)
        exact ⟨c, ⟨inside, .inl ⟨_, update_self .., rfl⟩⟩, tid⟩
    · obtain ⟨c', ⟨inside, home⟩, tid⟩ := sound.tid a1 r1 is1
      refine ⟨c', ⟨inside, home.imp (fun ⟨r2, is2, own2⟩ => ⟨r2, stays ne is2, own2⟩) ?_⟩, tid⟩
      rintro ⟨call2, r2, making2, is2, own2⟩
      exact ⟨call2, r2, (update_of_ne ne ..).trans making2, stays (callers a1 call2 making2) is2, own2⟩
  · obtain ⟨r2, is2, tid⟩ := keeps is1
    rw [idOf, ← tid]
    exact sound.taken a1 r2 is2
  · obtain ⟨r3, is3, tid3⟩ := keeps is1
    obtain ⟨r4, is4, tid4⟩ := keeps is2
    rw [idOf, idOf, ← tid3, ← tid4] at same
    exact sound.apart _ _ _ _ is3 is4 same
  · obtain ⟨done, r1, is1, own1⟩ := sound.listed c' inside' a1 mem
    exact ⟨idle a1 done, r1, stays (fun same => unlisted (same ▸ ⟨c', inside', mem⟩)) is1, own1⟩
  · obtain ⟨out, done, r1, is1, own1⟩ := sound.zombie a1 mem
    exact ⟨out, idle a1 done, r1, stays (fun same => notZombie (same ▸ mem)) is1, own1⟩
  · obtain ⟨ne, is1⟩ := (update_eq_some.mp is1).resolve_left (fun gone => nomatch gone.2)
    obtain ⟨listed, r1, is2, bare⟩ := sound.making a1 call1 is1
    exact ⟨listed, r1, stays ne is2, bare⟩

theorem Sound.threadCreateEnd {space code : Int} (ran : threadCreateEnd a space k = .ok (code, k')) : Sound k' := by
  unfold ThreadIds.threadCreateEnd at ran
  split at ran
  swap
  · cases ran
  next call r making is =>
  obtain ⟨unlisted, notZombie⟩ := sound.unlisted making
  obtain ⟨c, r', -, is', own⟩ := sound.caller making
  have freed := sound.free unlisted notZombie (b := k.bitmap) (fun a1 r1 _ is1 => sound.taken a1 r1 is1)
  split at ran
  · cases ran
    exact freed
  dsimp only at ran
  -- What the original thread is does not matter.
  generalize call.orig k = orig at ran
  split at ran
  · cases ran
    exact freed
  split at ran
  · cases ran
  obtain ⟨k1, added, ran⟩ := bind_eq_ok.mp ran
  cases ran
  rw [is', Option.bind_some, own] at added
  exact (sound.settle making is is' own).tcbAdd (update_self ..) added

theorem Sound.step {e : Event} (enabled : enabled k e) (stepped : step k e = .ok k') : Sound k' := by
  cases e with
  | initPager c alloc => exact sound.initPager enabled.1 enabled.2 stepped
  | createBegin caller flags tid alloc =>
    obtain ⟨⟨code, k1⟩, ran, returned⟩ := bind_eq_ok.mp stepped
    cases returned
    exact sound.threadCreateBegin enabled.1 enabled.2 ran
  | createEnd a space =>
    obtain ⟨⟨code, k1⟩, ran, returned⟩ := bind_eq_ok.mp stepped
    cases returned
    exact sound.threadCreateEnd ran
  | remove t => exact sound.threadRemove enabled.1 enabled.2 stepped
  | recycle t => exact sound.archClearThread enabled.1 enabled.2 stepped
  | delete t => exact sound.deleteZombie enabled stepped

theorem containerFindTcb_eq_some (inside : c ∈ k.containers) {x : Word} (found : containerFindTcb c x k = some t) :
    t ∈ (k.cont c).ktcbList ∧ ∃ r, k.ktcb t = some r ∧ r.tid = x := by
  have mem := List.mem_of_find?_eq_some found
  obtain ⟨-, r, is, -⟩ := sound.listed c inside t mem
  have same := List.find?_some found
  rw [is] at same
  exact ⟨mem, r, is, Option.some.inj (beq_iff_eq.mp same)⟩

/-- Threads have different tids. -/
theorem Sound.unique (is : k.ktcb a = some r) (is' : k.ktcb t = some r') (same : r.tid = r'.tid) : a = t :=
  sound.apart a r t r' is is' (by rw [idOf, idOf, same])

/-- A thread on a list is found there. -/
theorem containerFindTcb_listed (inside : c ∈ k.containers) (mem : t ∈ (k.cont c).ktcbList) (is : k.ktcb t = some r) :
    containerFindTcb c r.tid k = some t := by
  cases found : containerFindTcb c r.tid k with
  | none =>
    have missed := List.find?_eq_none.mp found t mem
    rw [is] at missed
    exact absurd (beq_self_eq_true _) missed
  | some t' =>
    obtain ⟨-, r', is', same⟩ := containerFindTcb_eq_some sound inside found
    rw [sound.unique is' is same]

theorem containerFind_own (inside : c ∈ k.containers) : containerFind (k.cont c).cid k = some c := by
  cases found : containerFind (k.cont c).cid k with
  | none => exact absurd (beq_self_eq_true _) (List.find?_eq_none.mp found c inside)
  | some c' =>
    have same : (k.cont c').cid = (k.cont c).cid := beq_iff_eq.mp (List.find?_some (p := fun c' => (k.cont c').cid == (k.cont c).cid) found)
    rw [sound.distinct c' (List.mem_of_find?_eq_some found) c inside same]

/-- `tcb_find` finds exactly the threads on lists. -/
theorem tcbFind_eq_some_iff (current : k.Listed a) (x : Word) :
    tcbFind a x k = some t ↔ k.Listed t ∧ ∃ r, k.ktcb t = some r ∧ r.tid = x := by
  obtain ⟨c, inside, mem⟩ := id current
  obtain ⟨done, r, is, own⟩ := sound.listed c inside a mem
  unfold tcbFind
  rw [is]
  dsimp only
  rw [own]
  dsimp only
  constructor
  · intro found
    split at found
    · next self =>
      cases found
      exact ⟨current, r, is, self⟩
    split at found
    · obtain ⟨mem', rest⟩ := containerFindTcb_eq_some sound inside found
      exact ⟨⟨c, inside, mem'⟩, rest⟩
    split at found
    · cases found
    · next c' is' =>
      have inside' := List.mem_of_find?_eq_some is'
      obtain ⟨mem', rest⟩ := containerFindTcb_eq_some sound inside' found
      exact ⟨⟨c', inside', mem'⟩, rest⟩
  · rintro ⟨⟨c', inside', mem'⟩, r', is', rfl⟩
    obtain ⟨done', r1, is1, own'⟩ := sound.listed c' inside' t mem'
    cases Option.some.inj (is'.symm.trans is1)
    obtain ⟨-, cid⟩ := sound.home is' own' done'
    split
    · next self => rw [sound.unique is is' self]
    split
    · next here =>
      have same : c' = c := sound.distinct c' inside' c inside (cid.symm.trans here)
      subst same
      exact containerFindTcb_listed sound inside' mem' is'
    · rw [cid, containerFind_own sound inside']
      exact containerFindTcb_listed sound inside' mem' is'

end Steps

/-- In every state that the kernel reaches, threads have different tids, each with the id of its container in the top bits, and
`tcb_find` returns for any word the one thread on a list that has it for a tid, or nothing if there is none. -/
theorem tids_unique_and_found {k0 k : Threads} (initial : Initial k0) (reached : machine.Reaches k0 k) :
    (∀ a r a' r', k.ktcb a = some r → k.ktcb a' = some r' → r.tid = r'.tid → a = a') ∧
    (∀ a r, k.ktcb a = some r → ∃ c, k.Home a c ∧ tidToCid r.tid = (k.cont c).cid) ∧
    ∀ current, k.Listed current → ∀ x t, tcbFind current x k = some t ↔ k.Listed t ∧ ∃ r, k.ktcb t = some r ∧ r.tid = x := by
  have sound : Sound k := reached.invariant (I := Sound) (fun _ _ _ sound enabled stepped => sound.step enabled stepped) initial.sound
  exact ⟨fun a r a' r' is is' same => sound.unique is is' same, sound.tid,
    fun current listed x t => tcbFind_eq_some_iff sound listed x⟩

/-- Two containers. -/
def twoContainers : Threads where
  nwords := 1
  bitmap := fun _ => 1#32
  ktcb := fun _ => none
  cont := fun c => { cid := BitVec.ofNat 32 c }
  containers := [1, 2]

theorem twoContainers_initial : Initial twoContainers where
  pool := by decide
  small := by decide
  distinct := by decide
  empty := fun _ => rfl
  noThreads := fun _ => rfl
  noZombies := rfl
  noCreations := fun _ => rfl

/-- The state after an event. -/
def after (k : Threads) (e : Event) : Threads := (step k e).toOption.getD k

/-- A pager in each container; the first one fails to make a thread and makes another, which has the id behind. -/
def someThreads : Threads :=
  [Event.initPager 1 (some 10), .initPager 2 (some 20), .createBegin 10 tcNewSpace 0 (some 30), .createEnd 30 enomem,
    .createBegin 10 tcNewSpace 0 (some 30), .createEnd 30 0].foldl after twoContainers

theorem tids_unique_and_found_some : machine.Reaches twoContainers someThreads ∧ someThreads.Listed 20 ∧
    (someThreads.ktcb 30).map Ktcb.tid = some 0x01000004 ∧
    (tcbFind 20 0x01000004 someThreads = some 30 ↔
      someThreads.Listed 30 ∧ ∃ r, someThreads.ktcb 30 = some r ∧ r.tid = 0x01000004) := by
  have reached : machine.Reaches twoContainers someThreads := by
    refine .next (.next (.next (.next (.next (.next .start (e := .initPager 1 (some 10)) ?_ trivial rfl)
      (e := .initPager 2 (some 20)) ?_ trivial rfl) (e := .createBegin 10 tcNewSpace 0 (some 30)) ?_ trivial rfl)
      (e := .createEnd 30 enomem) ?_ trivial rfl) (e := .createBegin 10 tcNewSpace 0 (some 30)) ?_ trivial rfl)
      (e := .createEnd 30 0) ?_ trivial rfl
    · exact ⟨by decide, fun a is => rfl⟩
    · refine ⟨by decide, fun a is => ?_⟩
      cases is
      rfl
    · refine ⟨⟨1, by decide, by decide⟩, fun a is => ?_⟩
      cases is
      rfl
    · rfl
    · refine ⟨⟨1, by decide, by decide⟩, fun a is => ?_⟩
      cases is
      rfl
    · rfl
  have listed : someThreads.Listed 20 := ⟨2, by decide, by decide⟩
  exact ⟨reached, listed, by decide, (tids_unique_and_found twoContainers_initial reached).2.2 20 listed 0x01000004 30⟩

end Codezero.Kernel.ThreadIds
