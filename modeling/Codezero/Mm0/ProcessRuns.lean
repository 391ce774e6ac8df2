import Codezero.Mm0.ProcessTree

/-!
# Histories of the process tree

Between calls the tasks of the tree are those on the global list. A creation adds one below a task that is there, an exit
takes one away, and an execution puts a new block into the place of an old one.
-/

namespace Codezero.Mm0.Process
open Codezero.Kernel (Word)
open Codezero.Lib
open Lib.Links (Rings Ring)
open Function (update update_of_ne update_self)

/-- The ids that the kernel has given. -/
structure Numbered (pager : Ptr) (s : Tasks) : Prop where
  tids : ∀ t u a b, s.tcb t = some a → s.tcb u = some b → a.ids.tid = b.ids.tid → t = u
  self : ∃ a, s.tcb pager = some a ∧ a.ids.tid = s.self
  groups : ∀ t a, t ≠ pager → s.tcb t = some a → a.ids.tgid ≠ s.self

structure Sound (pager : Ptr) (s : Tasks) (live : List Ptr) (kids : Ptr → List Ptr) : Prop where
  shaped : Shaped pager s live live kids
  known : ∀ t, (s.tcb t).isSome → t ∈ live
  root : s.parentOf pager = some pager
  numbered : Numbered pager s

section
variable {pager t p new leader : Ptr} {s s' : Tasks} {live members : List Ptr} {kids : Ptr → List Ptr} {tcb : Tcb} {ids : TaskIds}

theorem Shaped.relabel {members' : List Ptr} (shaped : Shaped pager s live members kids) (perm : members.Perm members') :
    Shaped pager s live members' kids := by
  have same : heads s live members' = heads s live members := by
    ext k
    cases k <;> simp [perm.mem_iff]
  refine ⟨same ▸ shaped.rings, shaped.total, shaped.live_alloc, fun t mem => shaped.alloc t (perm.mem_iff.mpr mem), fun q known c => ?_,
    perm.nodup_iff.mp shaped.nodup, fun t mem => ?_, fun t mem => shaped.under t (perm.mem_iff.mpr mem)⟩
  · rw [← perm.mem_iff]
    exact shaped.kids_iff q known c
  · obtain ⟨p, inside, is⟩ := shaped.parents t (perm.mem_iff.mpr mem)
    exact ⟨p, perm.mem_iff.mp inside, is⟩

/-! ## Ids -/

/-- Each block has the ids of an earlier one. -/
theorem Numbered.rename (numbered : Numbered pager s) (f : Ptr → Ptr)
    (earlier : ∀ u a, s'.tcb u = some a → ∃ b, s.tcb (f u) = some b ∧ b.ids = a.ids)
    (inj : ∀ u v, (s'.tcb u).isSome → (s'.tcb v).isSome → f u = f v → u = v) (root : ∀ u, f u = pager → u = pager)
    (kept : s'.tcb pager = s.tcb pager) (self : s'.self = s.self) : Numbered pager s' := by
  refine ⟨fun t u a b ist isu same => ?_, ?_, fun t a ne is => ?_⟩
  · obtain ⟨a', ist', idst⟩ := earlier t a ist
    obtain ⟨b', isu', idsu⟩ := earlier u b isu
    exact inj t u (by simp [ist]) (by simp [isu]) (numbered.tids _ _ a' b' ist' isu' (by rw [idst, idsu, same]))
  · rw [kept, self]
    exact numbered.self
  · obtain ⟨b, is', ids⟩ := earlier t a is
    rw [self, ← ids]
    exact numbered.groups _ b (fun eq => ne (root t eq)) is'

theorem Numbered.create (numbered : Numbered pager s) (tcb : Tcb) (free : s.tcb new = none) (fresh : ∀ u a, s.tcb u = some a → a.ids.tid ≠ tcb.ids.tid)
    (group : tcb.ids.tgid ≠ s.self) (blocks : s'.tcb = update s.tcb new (some tcb)) (self : s'.self = s.self) :
    Numbered pager s' := by
  obtain ⟨p, isPager, tid⟩ := numbered.self
  have ne : pager ≠ new := fun eq => by rw [← eq, isPager] at free; cases free
  have cases : ∀ u a, s'.tcb u = some a → u = new ∧ a = tcb ∨ u ≠ new ∧ s.tcb u = some a := fun u a is => by
    rw [blocks] at is
    by_cases eq : u = new
    · rw [eq, update_self] at is
      exact .inl ⟨eq, (Option.some.inj is).symm⟩
    · rw [update_of_ne eq] at is
      exact .inr ⟨eq, is⟩
  refine ⟨fun t u a b ist isu same => ?_, ⟨p, by rw [blocks, update_of_ne ne]; exact isPager, tid.trans self.symm⟩,
    fun t a below is => ?_⟩
  · rcases cases t a ist with ⟨rfl, rfl⟩ | ⟨-, oldt⟩ <;> rcases cases u b isu with ⟨rfl, rfl⟩ | ⟨-, oldu⟩
    · rfl
    · exact absurd same.symm (fresh u b oldu)
    · exact absurd same (fresh t a oldt)
    · exact numbered.tids t u a b oldt oldu same
  · rw [self]
    rcases cases t a is with ⟨-, rfl⟩ | ⟨-, old⟩
    · exact group
    · exact numbered.groups t a below old

theorem handedOver_ids {ks : List Ptr} {blocks : Ptr → Option Tcb} (is : handedOver p ks blocks t = some tcb) :
    ∃ a, blocks t = some a ∧ a.ids = tcb.ids := by
  unfold handedOver at is
  split at is
  · obtain ⟨a, was, rfl⟩ := Option.map_eq_some_iff.mp is
    exact ⟨a, was, rfl⟩
  · exact ⟨tcb, is, rfl⟩

/-- The blocks after a new one has taken the place of an old one. -/
def recycled (p new leader : Ptr) (old : Tcb) (ks : List Ptr) (blocks : Ptr → Option Tcb) : Ptr → Option Tcb :=
  update (update (handedOver p ks blocks) new (some { ids := old.ids, parent := some p })) leader none

theorem recycled_cases {old a : Tcb} {ks : List Ptr} {blocks : Ptr → Option Tcb} (is : recycled p new leader old ks blocks t = some a) :
    t = new ∧ a.ids = old.ids ∨ t ≠ new ∧ t ≠ leader ∧ ∃ b, blocks t = some b ∧ b.ids = a.ids := by
  unfold recycled at is
  by_cases gone : t = leader
  · simp [gone] at is
  · rw [update_of_ne gone] at is
    by_cases eq : t = new
    · rw [eq, update_self] at is
      exact .inl ⟨eq, by rw [← Option.some.inj is]⟩
    · rw [update_of_ne eq] at is
      exact .inr ⟨eq, gone, handedOver_ids is⟩

theorem findTask_eq (shaped : Shaped pager s live members kids) (tid : Nat) :
    findTask s tid = live.find? fun t => decide ((s.tcb t).map (·.ids.tid) = some tid) := by
  have ring : Ring s.links .global ([] ++ live.map Link.list) := shaped.rings.ring _ global_mem
  have walked : s.links.walk .global (s.total.toNat + 1) ((live.map Link.list).headD .global) = live.map Link.list :=
    ring.walk_eq (by simp [shaped.total])
  unfold findTask
  rw [ring.next_headD, List.nil_append, walked, List.filterMap_map]
  have all : listed ∘ Link.list = some := rfl
  rw [all, List.filterMap_some]

theorem Sound.init_same (free : s.tcb new = none) (known : (s.tcb t).isSome) : (tcbAllocInit new s).tcb t = s.tcb t := by
  have ne : t ≠ new := fun eq => by simp [eq, free] at known
  simp [tcbAllocInit, ne]

namespace Sound

variable (sound : Sound pager s live kids)
include sound

theorem isSome : (s.tcb t).isSome ↔ t ∈ live :=
  ⟨sound.known t, sound.shaped.live_alloc t⟩

theorem pager_live : pager ∈ live := sound.known pager (isSome_of_parentOf sound.root)

/-- A task with a new block beside those that are there is found by its tid. -/
theorem findTask_init (free : s.tcb new = none) (tid : Nat) :
    findTask (tcbAllocInit new s) tid = some t ↔ ∃ a, s.tcb t = some a ∧ a.ids.tid = tid := by
  have same : ∀ u ∈ live, (tcbAllocInit new s).tcb u = s.tcb u := fun u mem => by
    have ne : u ≠ new := fun eq => by simpa [eq, free] using sound.shaped.live_alloc u mem
    simp [tcbAllocInit, ne]
  rw [findTask_eq (sound.shaped.tcbAllocInit free)]
  constructor
  · intro found
    have mem := List.mem_of_find?_eq_some found
    have is := List.find?_some found
    rw [decide_eq_true_eq, same t mem] at is
    simpa using is
  · rintro ⟨a, is, rfl⟩
    have mem := sound.known t (by simp [is])
    cases found : live.find? fun u => decide (((tcbAllocInit new s).tcb u).map (·.ids.tid) = some a.ids.tid) with
    | none => simpa [same t mem, is] using List.find?_eq_none.mp found t mem
    | some u =>
      have matched := List.find?_some found
      rw [decide_eq_true_eq, same u (List.mem_of_find?_eq_some found)] at matched
      obtain ⟨b, isu, tid⟩ := Option.map_eq_some_iff.mp matched
      rw [sound.numbered.tids u t b a isu is tid]

/-! ## Creation -/

/-- A new task below one that is there. -/
theorem create (tcb : Tcb) (free : s.tcb new = none) (inside : p ∈ live)
    (fresh : ∀ u a, s.tcb u = some a → a.ids.tid ≠ tcb.ids.tid) (group : tcb.ids.tgid ≠ s.self) :
    ∃ s' kids', globalAddTask new (adopt new p tcb (tcbAllocInit new s)) = .ok s' ∧ Sound pager s' (live ++ [new]) kids' ∧
      s'.tcb = update s.tcb new (some { tcb with parent := some p }) ∧ s'.self = s.self := by
  have notLive : new ∉ live := fun mem => by simpa [free] using sound.shaped.live_alloc new mem
  have shaped := sound.shaped.tcbAllocInit free
  have alloc : ((tcbAllocInit new s).tcb new).isSome := by simp [tcbAllocInit]
  have palloc := shaped.alloc p inside
  have rings := shaped.rings.insertTail (children_mem.mpr palloc) (childRef_mem.mpr ⟨alloc, notLive⟩) (by simp) rfl
  have joined : Shaped pager (adopt new p tcb (tcbAllocInit new s)) live (new :: live) _ :=
    shaped.join { tcb with parent := some p } (update kids new [] p ++ [new]) alloc notLive inside rfl
      (fun a => by simp [or_comm]) (by simpa [place] using rings)
  have blocks : (adopt new p tcb (tcbAllocInit new s)).tcb = update s.tcb new (some { tcb with parent := some p }) := by
    simp [adopt, tcbAllocInit]
  obtain ⟨s', added, shaped', tcb', self'⟩ := joined.globalAddTask (t := new) (by simp [blocks]) notLive
  have tcb'' := tcb'.trans blocks
  refine ⟨s', _, added, ⟨shaped'.relabel (show ([new] ++ live).Perm _ from List.perm_append_comm), fun u known => ?_, ?_, ?_⟩, tcb'', self'⟩
  · rw [tcb''] at known
    by_cases eq : u = new
    · simp [eq]
    · rw [update_of_ne eq] at known
      simp [sound.known u known]
  · have ne : pager ≠ new := fun eq => notLive (eq ▸ sound.pager_live)
    rw [Tasks.parentOf, tcb'', update_of_ne ne]
    exact sound.root
  · exact sound.numbered.create { tcb with parent := some p } free fresh group tcb'' self'

/-- A task that is there makes one, and it is a child of its own or of its parent. -/
theorem doClone {flags : Word} (below : Below pager s t) (free : s.tcb new = none) (kernel : KernelIds s t flags ids) :
    ∃ s' kids' p, doClone t new ids flags s = .ok s' ∧ Sound pager s' (live ++ [new]) kids' ∧
      s'.tcb = update s.tcb new (some { ids, parent := some p, cloneFlags := flags }) := by
  have mem := sound.known t below.2
  obtain ⟨q, inside, up⟩ := sound.shaped.parents t mem
  have group : ids.tgid ≠ s.self := by
    obtain ⟨fresh, group⟩ := kernel
    split at group
    · obtain ⟨a, is, same⟩ := Option.map_eq_some_iff.mp group
      exact same ▸ sound.numbered.groups t a below.1 is
    · obtain ⟨a, isPager, tid⟩ := sound.numbered.self
      rw [group, ← tid]
      exact (fresh pager a isPager).symm
  have up' : (tcbAllocInit new s).getParent t = .ok q :=
    getParent_ok (by rw [Tasks.parentOf, init_same free below.2]; exact up)
  have created := fun p inside =>
    sound.create (p := p) { ids, cloneFlags := flags } free inside (fun u a is => kernel.1 u a is) group
  unfold Process.doClone taskCreate
  dsimp only
  split
  · obtain ⟨s', kids', added, sound', blocks, -⟩ := created q inside
    refine ⟨s', kids', q, ?_, sound', blocks⟩
    rw [up']
    exact added
  · obtain ⟨s', kids', added, sound', blocks, -⟩ := created t mem
    exact ⟨s', kids', t, added, sound', blocks⟩

theorem initExecve (free : s.tcb new = none) (kernel : KernelIds s pager 0 ids) :
    ∃ s' kids', initExecve new ids s = .ok s' ∧ Sound pager s' (live ++ [new]) kids' := by
  obtain ⟨a, isPager, tid⟩ := sound.numbered.self
  have group : ids.tgid = ids.tid := by simpa using kernel.2
  have found : findTask (tcbAllocInit new s) (tcbAllocInit new s).self = some pager := (sound.findTask_init free s.self).mpr ⟨a, isPager, tid⟩
  obtain ⟨s', kids', added, sound', -⟩ := sound.create { ids } free sound.pager_live (fun u a is => kernel.1 u a is)
    (by rw [group, ← tid]; exact (kernel.1 pager a isPager).symm)
  refine ⟨s', kids', ?_, sound'⟩
  unfold Process.initExecve taskCreate
  simp only [found]
  exact added

/-! ## Destruction -/

theorem parent (below : Below pager s t) : ∃ p ∈ live, s.parentOf t = some p ∧ p ≠ t := by
  have mem := sound.known t below.2
  obtain ⟨p, inside, is⟩ := sound.shaped.parents t mem
  exact ⟨p, inside, is, fun eq => below.1 ((sound.shaped.under t mem).irrefl (eq ▸ is))⟩

theorem pager_kept (below : Below pager s t) : update (handedOver p (kids t) s.tcb) t none pager = s.tcb pager := by
  have notKid : pager ∉ kids t := fun kid => by
    have up := ((sound.shaped.kids_iff t below.2 pager).mp kid).2
    exact below.1 (Option.some.inj (sound.root.symm.trans up)).symm
  rw [update_of_ne (Ne.symm below.1), handedOver, if_neg (by simpa using notKid)]

theorem doExit (below : Below pager s t) (is : s.parentOf t = some p) :
    ∃ s' kids', doExit t s = .ok s' ∧ Sound pager s' (live.erase t) kids' ∧ s'.tcb = update (handedOver p (kids t) s.tcb) t none := by
  have mem := sound.known t below.2
  obtain ⟨s', kids', ran, shaped', blocks, self'⟩ := sound.shaped.tcbDestroy below.1 mem mem is (by omega)
  have kept : s'.tcb pager = s.tcb pager := blocks ▸ sound.pager_kept below
  have earlier : ∀ u a, s'.tcb u = some a → u ≠ t ∧ ∃ b, s.tcb u = some b ∧ b.ids = a.ids := fun u a isu => by
    rw [blocks] at isu
    by_cases eq : u = t
    · simp [eq] at isu
    · rw [update_of_ne eq] at isu
      exact ⟨eq, handedOver_ids isu⟩
  refine ⟨s', kids', ran, ⟨shaped', fun u known => ?_, ?_, ?_⟩, blocks⟩
  · obtain ⟨a, isu⟩ := Option.isSome_iff_exists.mp known
    obtain ⟨ne, b, old, -⟩ := earlier u a isu
    exact (List.mem_erase_of_ne ne).mpr (sound.known u (by simp [old]))
  · rw [Tasks.parentOf, kept]
    exact sound.root
  · exact sound.numbered.rename id (fun u a isu => (earlier u a isu).2) (fun _ _ _ _ eq => eq) (fun _ eq => eq) kept self'

/-- A new task takes the place of an old one. -/
theorem recycle {old : Tcb} (below : Below pager s leader) (free : s.tcb new = none)
    (was : s.tcb leader = some old) (is : s.parentOf leader = some p) :
    ∃ s' kids', (execveRecycleTask new leader (tcbAllocInit new s)).bind (globalAddTask new) = .ok s' ∧
      Sound pager s' (live.erase leader ++ [new]) kids' ∧ s'.tcb = recycled p new leader old (kids leader) s.tcb := by
  have mem := sound.known leader below.2
  have notLive : new ∉ live := fun mem => by simpa [free] using sound.shaped.live_alloc new mem
  have notLeader : leader ≠ new := fun eq => notLive (eq ▸ mem)
  have inside := sound.shaped.closed mem is
  have shaped := sound.shaped.tcbAllocInit free
  have alloc : ((tcbAllocInit new s).tcb new).isSome := by simp [tcbAllocInit]
  have palloc := shaped.alloc p inside
  have rings := shaped.rings.insert (children_mem.mpr palloc) (childRef_mem.mpr ⟨alloc, notLive⟩) (by simp) rfl
  have joined := shaped.join { ids := old.ids, parent := some p } (new :: update kids new [] p) alloc notLive inside rfl
    (fun a => by simp) (by simpa [place] using rings)
  set s1 : Tasks := { tcbAllocInit new s with
    links := (tcbAllocInit new s).links.insert (.childRef new) (.children p)
    tcb := update (tcbAllocInit new s).tcb new (some { ids := old.ids, parent := some p }) }
  have blocks1 : s1.tcb = update (tcbAllocInit new s).tcb new (some { ids := old.ids, parent := some p }) := rfl
  have other : p ≠ leader := fun eq => below.1 ((sound.shaped.under leader mem).irrefl (eq ▸ is))
  have notKid : new ∉ kids leader := fun kid => notLive ((sound.shaped.kids_iff leader below.2 new).mp kid).1
  have parent1 : s1.parentOf leader = some p := by
    rw [Tasks.parentOf, blocks1, update_of_ne notLeader, init_same free below.2]
    exact is
  obtain ⟨s2, kids2, destroyed, shaped2, blocks, self2⟩ := joined.tcbDestroy below.1 mem (List.mem_cons_of_mem new mem) parent1 (by simp)
  have blocks' : s2.tcb = recycled p new leader old (kids leader) s.tcb := by
    rw [blocks, recycled]
    congr 1
    funext u
    rw [update_of_ne (Ne.symm other), update_of_ne notLeader]
    by_cases eq : u = new
    · simp [handedOver, eq, notKid, blocks1]
    · simp [handedOver, eq, blocks1, tcbAllocInit]
  obtain ⟨s', added, shaped', tcb', self'⟩ := shaped2.globalAddTask (t := new) (by simp [blocks', recycled, Ne.symm notLeader])
    (fun mem => notLive (List.mem_of_mem_erase mem))
  have same := tcb'.trans blocks'
  have notPager : pager ≠ new := fun eq => notLive (eq ▸ sound.pager_live)
  have kept : s'.tcb pager = s.tcb pager := by
    rw [same, recycled, update_of_ne (Ne.symm below.1), update_of_ne notPager, ← sound.pager_kept below,
      update_of_ne (Ne.symm below.1)]
  refine ⟨s', kids2, ?_, ⟨shaped'.relabel ?_, fun u known => ?_, ?_, ?_⟩, same⟩
  · have isNew : (tcbAllocInit new s).get new = .ok {} := get_ok (by simp [tcbAllocInit])
    have isOld : (tcbAllocInit new s).get leader = .ok old := get_ok ((init_same free below.2).trans was)
    have isParent : (tcbAllocInit new s).getParent leader = .ok p :=
      getParent_ok (by rw [Tasks.parentOf, init_same free below.2]; exact is)
    have ran : execveRecycleTask new leader (tcbAllocInit new s) = Process.tcbDestroy leader s1 := by
      unfold execveRecycleTask
      simp only [isNew, isOld, isParent]
      rfl
    rw [ran, destroyed]
    exact added
  · rw [List.erase_cons_tail (by simpa using Ne.symm notLeader)]
    exact (show ([new] ++ live.erase leader).Perm _ from List.perm_append_comm)
  · obtain ⟨a, isu⟩ := Option.isSome_iff_exists.mp known
    rcases recycled_cases (same ▸ isu) with ⟨rfl, -⟩ | ⟨-, ne, b, isb, -⟩
    · simp
    · exact List.mem_append_left _ ((List.mem_erase_of_ne ne).mpr (sound.known u (by simp [isb])))
  · rw [Tasks.parentOf, kept]
    exact sound.root
  · refine sound.numbered.rename (fun u => if u = new then leader else u) (fun u a isu => ?_) (fun u v knownu knownv eq => ?_)
      (fun u eq => ?_) kept (self'.trans self2)
    · rcases recycled_cases (same ▸ isu) with ⟨rfl, ids⟩ | ⟨ne, -, old⟩
      · exact ⟨old, by simpa using was, ids.symm⟩
      · simpa [ne] using old
    · have live : ∀ w, (s'.tcb w).isSome → w ≠ leader := fun w known eq => by simp [same, recycled, eq] at known
      split at eq <;> split at eq
      · exact (‹u = new›).trans (‹v = new›).symm
      · exact absurd eq.symm (live v knownv)
      · exact absurd eq (live u knownu)
      · exact eq
    · split at eq
      · exact absurd eq below.1
      · exact eq

/-! ## Execution -/

/-- The loop over the children of a group leader goes on from the first one after it has been freed. -/
theorem exitChildren_freed {c : Ptr} {cs : List Ptr} {fuel : Nat} (free : s.tcb new = none)
    (below : Below pager s leader) (are : kids leader = c :: cs) :
    exitChildren leader (fuel + 1) (.childRef c) (tcbAllocInit new s) = .error .freed := by
  have shaped := sound.shaped.tcbAllocInit free
  obtain ⟨mem, up⟩ := (sound.shaped.kids_iff leader below.2 c).mp (by simp [are])
  have notPager : c ≠ pager := fun eq => below.1 (Option.some.inj (sound.root.symm.trans (eq ▸ up))).symm
  have up' : (tcbAllocInit new s).parentOf c = some leader := by
    rw [Tasks.parentOf, init_same free (sound.shaped.live_alloc c mem)]
    exact up
  obtain ⟨s', kids', ran, -, blocks, -⟩ := shaped.tcbDestroy notPager mem mem up' (by omega)
  have gone : s'.next (.childRef c) = .error .freed := by simp [Tasks.next, Tasks.holds, blocks]; rfl
  rw [exitChildren, if_neg (by simp)]
  simp only [Process.doExit, ran, gone, bind, Except.bind]

theorem leader_below (free : s.tcb new = none) (below : Below pager s t) (is : s.tcb t = some tcb)
    (found : findTask (tcbAllocInit new s) tcb.ids.tgid = some leader) : Below pager s leader := by
  obtain ⟨a, isLeader, tid⟩ := (sound.findTask_init free _).mp found
  refine ⟨fun eq => ?_, by simp [isLeader]⟩
  obtain ⟨b, isPager, self⟩ := sound.numbered.self
  have same := Option.some.inj ((eq ▸ isLeader).symm.trans isPager)
  exact sound.numbered.groups t tcb below.1 is (by rw [← tid, same, self])

/-- Who the group leader is, and that a leader with children is not got past. -/
theorem execveLeader_eq (free : s.tcb new = none) (below : Below pager s t) (is : s.tcb t = some tcb) :
    execveLeader t (tcbAllocInit new s) =
      if tcb.cloneFlags &&& tcbSharedTgroup ≠ 0 then
        match findTask (tcbAllocInit new s) tcb.ids.tgid with
        | none => .error .noLeader
        | some leader => if kids leader = [] then .ok (tcbAllocInit new s, leader) else .error .freed
      else .ok (tcbAllocInit new s, t) := by
  have is' : (tcbAllocInit new s).get t = .ok tcb := get_ok ((init_same free below.2).trans is)
  unfold execveLeader
  simp only [is', bind, Except.bind]
  split
  · cases found : findTask (tcbAllocInit new s) tcb.ids.tgid with
    | none => rfl
    | some leader =>
      have below' := sound.leader_below free below is found
      have notNew : leader ≠ new := fun eq => by simpa [eq, free] using below'.2
      have alloc : ((tcbAllocInit new s).tcb leader).isSome := by rw [init_same free below'.2]; exact below'.2
      have first := (sound.shaped.tcbAllocInit free).kids_next alloc
      rw [update_of_ne notNew] at first
      simp only [next_ok (k := .children leader) alloc, first]
      cases are : kids leader with
      | nil => simp [exitChildren, pure, Except.pure]
      | cons c cs =>
        simp only [List.map_cons, List.headD_cons, sound.exitChildren_freed free below' are]
        rfl
  · rfl

theorem execveLeader_ok {s1 : Tasks} (free : s.tcb new = none) (below : Below pager s t)
    (ran : execveLeader t (tcbAllocInit new s) = .ok (s1, leader)) : s1 = tcbAllocInit new s ∧ Below pager s leader := by
  obtain ⟨tcb, is⟩ := Option.isSome_iff_exists.mp below.2
  rw [sound.execveLeader_eq free below is] at ran
  split at ran
  · split at ran
    · cases ran
    · next found =>
      split at ran
      · cases ran
        exact ⟨rfl, sound.leader_below free below is found⟩
      · cases ran
  · cases ran
    exact ⟨rfl, below⟩

theorem doExecve {old : Tcb} (free : s.tcb new = none) (below : Below pager s leader)
    (leads : execveLeader t (tcbAllocInit new s) = .ok (tcbAllocInit new s, leader)) (was : s.tcb leader = some old)
    (is : s.parentOf leader = some p) : ∃ s' kids', doExecve t new s = .ok s' ∧ Sound pager s' (live.erase leader ++ [new]) kids' ∧
      s'.tcb = recycled p new leader old (kids leader) s.tcb := by
  obtain ⟨s', kids', ran, rest⟩ := sound.recycle below free was is
  refine ⟨s', kids', ?_, rest⟩
  unfold Process.doExecve
  simp only [leads, bind, Except.bind]
  exact ran

/-! ## Runs -/

/-- Every call that does not stop leaves the lists sound. -/
theorem step {e : Event} (able : enabled pager s e) (ran : step s e = .ok s') : ∃ live' kids', Sound pager s' live' kids' := by
  cases e with
  | initExecve new ids =>
    obtain ⟨s1, kids', ran', sound'⟩ := sound.initExecve able.1 able.2
    obtain rfl := Except.ok.inj (ran'.symm.trans ran)
    exact ⟨_, kids', sound'⟩
  | fork t new ids =>
    obtain ⟨s1, kids', p, ran', sound', -⟩ := sound.doClone able.1 able.2.1 able.2.2
    obtain rfl := Except.ok.inj (ran'.symm.trans ran)
    exact ⟨_, kids', sound'⟩
  | clone t new ids flags =>
    obtain ⟨s1, kids', p, ran', sound', -⟩ := sound.doClone able.1 able.2.1 able.2.2
    obtain rfl := Except.ok.inj (ran'.symm.trans ran)
    exact ⟨_, kids', sound'⟩
  | exit t =>
    obtain ⟨p, -, is, -⟩ := sound.parent able
    obtain ⟨s1, kids', ran', sound', -⟩ := sound.doExit able is
    obtain rfl := Except.ok.inj (ran'.symm.trans ran)
    exact ⟨_, kids', sound'⟩
  | exec t new =>
    obtain ⟨⟨s1, leader⟩, leads, -⟩ := bind_eq_ok.mp (show Process.doExecve t new s = .ok s' from ran)
    obtain ⟨rfl, below⟩ := sound.execveLeader_ok able.2 able.1 leads
    obtain ⟨old, was⟩ := Option.isSome_iff_exists.mp below.2
    obtain ⟨p, -, is, -⟩ := sound.parent below
    obtain ⟨s2, kids', ran', sound', -⟩ := sound.doExecve able.2 below leads was is
    obtain rfl := Except.ok.inj (ran'.symm.trans ran)
    exact ⟨_, kids', sound'⟩

end Sound

theorem booted_tcb (pager self : Nat) : (booted pager self).tcb =
    update (fun _ => none) pager (some { ids := ⟨self, self, self⟩, parent := some pager }) := by
  simp [booted, tcbAllocInit]

theorem blank_shaped (pager self : Nat) :
    Shaped pager { links := ⟨fun k => k, fun k => k⟩, total := 0, tcb := fun _ => none, self } [] [] fun _ => [] := by
  have only : ∀ k ∈ heads { links := ⟨fun k => k, fun k => k⟩, total := 0, tcb := fun _ => none, self } [] [], k = .global := fun k head => by
    cases k with
    | global => rfl
    | list t => exact absurd head.1 (by simp)
    | childRef t => exact absurd head.1 (by simp)
    | children t => exact absurd (children_mem.mp head) (by simp)
  refine ⟨⟨fun h head => ?_, fun h memh k memk _ _ _ => (only h memh).trans (only k memk).symm⟩, rfl, nofun, nofun, nofun, List.nodup_nil,
    nofun, nofun⟩
  rw [only h head]
  exact Lib.Links.ring_nil_iff.mpr ⟨rfl, rfl⟩

theorem booted_sound (pager self : Nat) :
    Sound pager (booted pager self) [pager] (update (fun _ => []) pager [pager]) := by
  have isSome : ∀ t, ((booted pager self).tcb t).isSome ↔ t = pager := fun t => by
    rw [booted_tcb]
    by_cases eq : t = pager <;> simp [eq]
  have parentOf : (booted pager self).parentOf pager = some pager := by simp [Tasks.parentOf, booted_tcb]
  have shaped : Shaped pager (tcbAllocInit pager _) [] [] _ := (blank_shaped pager self).tcbAllocInit rfl
  have alloc : ∀ s, ((tcbAllocInit pager s).tcb pager).isSome := fun s => by simp [tcbAllocInit]
  have rings := (shaped.rings.insert (children_mem.mpr (alloc _)) (childRef_mem.mpr ⟨alloc _, by simp⟩) (by simp) rfl).insertTail
    (h := .global) (x := .list pager) ⟨global_mem, by simp⟩ ⟨list_mem.mpr ⟨alloc _, by simp⟩, by simp⟩ (by simp) (by simp [place])
  refine ⟨⟨rings.congr fun h head => ?_, rfl, ?_, ?_, fun q known c => ?_, List.nodup_singleton pager, ?_, ?_⟩, fun t known => ?_, parentOf, ?_⟩
  · cases h with
    | global => exact ⟨⟨⟨trivial, by simp⟩, by simp⟩, by simp [place]⟩
    | list t =>
      obtain ⟨known, out⟩ := list_mem.mp head
      exact absurd ((isSome t).mp known) (by simpa using out)
    | childRef t =>
      obtain ⟨known, out⟩ := childRef_mem.mp head
      exact absurd ((isSome t).mp known) (by simpa using out)
    | children t =>
      obtain rfl := (isSome t).mp (children_mem.mp head)
      exact ⟨⟨⟨children_mem.mpr (alloc _), by simp⟩, by simp⟩, by simp [place]⟩
  · exact fun t mem => (isSome t).mpr (by simpa using mem)
  · exact fun t mem => (isSome t).mpr (by simpa using mem)
  · obtain rfl := (isSome q).mp known
    simp only [update_self, List.mem_singleton]
    exact ⟨fun eq => ⟨eq, eq ▸ parentOf⟩, fun both => both.1⟩
  · exact fun t mem => ⟨pager, by simp, by rw [List.mem_singleton.mp mem]; exact parentOf⟩
  · exact fun t mem => by rw [List.mem_singleton.mp mem]; exact .root
  · exact List.mem_singleton.mpr ((isSome t).mp known)
  · have is : ∀ t a, (booted pager self).tcb t = some a → t = pager := fun t a is => (isSome t).mp (by simp [is])
    exact ⟨fun t u a b ist isu _ => (is t a ist).trans (is u b isu).symm, ⟨_, by rw [booted_tcb, update_self], rfl⟩,
      fun t a ne ist => absurd (is t a ist) ne⟩

theorem reached_sound {self : Nat} (reached : (machine pager).Reaches (booted pager self) s) : ∃ live kids, Sound pager s live kids :=
  Machine.Reaches.invariant (I := fun s => ∃ live kids, Sound pager s live kids)
    (fun _ _ _ held able ran => held.elim fun _ held => held.elim fun _ sound => sound.step able ran) ⟨_, _, booted_sound pager self⟩ reached

/-- The lists as they are threaded through the blocks: the tasks that are live, each below the pager and on the children list of
its parent and on no other. -/
structure Tree (pager : Ptr) (s : Tasks) (live : List Ptr) (kids : Ptr → List Ptr) : Prop where
  live_iff : ∀ t, t ∈ live ↔ (s.tcb t).isSome
  global : Ring s.links .global (live.map .list)
  children : ∀ t ∈ live, Ring s.links (.children t) ((kids t).map .childRef)
  parent : ∀ t ∈ live, t ≠ pager → ∃ p ∈ live, s.parentOf t = some p ∧ (kids p).count t = 1 ∧ ∀ q ∈ live, t ∈ kids q → q = p
  under : ∀ t ∈ live, Under pager s.parentOf t

theorem Sound.tree (sound : Sound pager s live kids) : Tree pager s live kids where
  live_iff _ := sound.isSome.symm
  global := sound.shaped.rings.ring _ global_mem
  children t mem := sound.shaped.rings.ring _ (children_mem.mpr (sound.shaped.live_alloc t mem))
  parent t mem _ := by
    obtain ⟨p, inside, is⟩ := sound.shaped.parents t mem
    refine ⟨p, inside, is, ?_, fun q memq kid => ?_⟩
    · exact List.count_eq_one_of_mem (sound.shaped.kids_nodup (sound.shaped.live_alloc p inside)) (sound.shaped.kid mem is)
    · have up := ((sound.shaped.kids_iff q (sound.shaped.live_alloc q memq) t).mp kid).2
      exact Option.some.inj (up.symm.trans is)
  under := sound.shaped.under

/-- The task that a call destroys. -/
def Event.destroyed : Event → Option Ptr
  | .exit t => some t
  | .exec t _ => some t
  | _ => none

/-- An execution is by a task that was not cloned into a thread group. -/
def Unthreaded (s : Tasks) : Event → Prop
  | .exec t _ => ∀ tcb, s.tcb t = some tcb → tcb.cloneFlags &&& tcbSharedTgroup = 0
  | _ => True

theorem handedOver_parent {ks : List Ptr} {c : Ptr} (kid : c ∈ ks) (known : (s.tcb c).isSome) :
    (handedOver p ks s.tcb c).bind Tcb.parent = some p := by
  obtain ⟨a, is⟩ := Option.isSome_iff_exists.mp known
  simp [handedOver, kid, is]

/-- Over any history every task is on the children list of its parent alone and below the pager, no call stops, and the children
of a task that is destroyed become those of its parent. -/
theorem process_tree {self : Nat} (reached : (machine pager).Reaches (booted pager self) s) :
    (∃ live kids, Tree pager s live kids) ∧ ∀ e, enabled pager s e → Unthreaded s e →
      ∃ s', step s e = .ok s' ∧ ∀ t, e.destroyed = some t → s'.tcb t = none ∧
        ∀ c, s.parentOf c = some t → s'.parentOf c = s.parentOf t := by
  obtain ⟨live, kids, sound⟩ := reached_sound reached
  refine ⟨⟨live, kids, sound.tree⟩, fun e able unthreaded => ?_⟩
  have kid : ∀ {t c}, Below pager s t → s.parentOf c = some t → c ≠ t ∧ c ∈ live ∧ c ∈ kids t := fun {t c} below is => by
    have mem := sound.known c (isSome_of_parentOf is)
    exact ⟨fun eq => below.1 ((sound.shaped.under t (sound.known t below.2)).irrefl (eq ▸ is)), mem, sound.shaped.kid mem is⟩
  cases e with
  | initExecve new ids =>
    obtain ⟨s', kids', ran, -⟩ := sound.initExecve able.1 able.2
    exact ⟨s', ran, nofun⟩
  | fork t new ids =>
    obtain ⟨s', kids', p, ran, -⟩ := sound.doClone able.1 able.2.1 able.2.2
    exact ⟨s', ran, nofun⟩
  | clone t new ids flags =>
    obtain ⟨s', kids', p, ran, -⟩ := sound.doClone able.1 able.2.1 able.2.2
    exact ⟨s', ran, nofun⟩
  | exit t =>
    obtain ⟨p, -, is, -⟩ := sound.parent able
    obtain ⟨s', kids', ran, -, blocks⟩ := sound.doExit able is
    refine ⟨s', ran, ?_⟩
    rintro _ ⟨⟩
    refine ⟨by rw [blocks, update_self], fun c up => ?_⟩
    obtain ⟨ne, mem, inside⟩ := kid able up
    rw [is, Tasks.parentOf, blocks, update_of_ne ne, handedOver_parent inside (sound.shaped.live_alloc c mem)]
  | exec t new =>
    obtain ⟨below, free⟩ := able
    obtain ⟨tcb, known⟩ := Option.isSome_iff_exists.mp below.2
    obtain ⟨p, -, is, -⟩ := sound.parent below
    have leads : execveLeader t (tcbAllocInit new s) = .ok (tcbAllocInit new s, t) := by
      rw [sound.execveLeader_eq free below known, if_neg (by simpa using unthreaded tcb known)]
    obtain ⟨s', kids', ran, -, blocks⟩ := sound.doExecve free below leads known is
    refine ⟨s', ran, ?_⟩
    rintro _ ⟨⟩
    refine ⟨by rw [blocks, recycled, update_self], fun c up => ?_⟩
    obtain ⟨ne, mem, inside⟩ := kid below up
    have notNew : c ≠ new := fun eq => by simpa [eq, free] using sound.shaped.live_alloc c mem
    rw [is, Tasks.parentOf, blocks, recycled, update_of_ne ne, update_of_ne notNew,
      handedOver_parent inside (sound.shaped.live_alloc c mem)]

/-- The first task and a task that it has forked. -/
def family : Tasks := [Event.initExecve 1 ⟨2, 2, 2⟩, .fork 1 2 ⟨3, 3, 3⟩].foldl (fun s e => (step s e).toOption.getD s) (booted 0 1)

theorem family_reached : (machine 0).Reaches (booted 0 1) family := by
  have first : (machine 0).Reaches (booted 0 1) _ := .next (e := .initExecve 1 ⟨2, 2, 2⟩) .start
    ⟨rfl, (by rintro (_ | u) a is <;> cases is; decide), rfl⟩ trivial rfl
  exact .next (e := .fork 1 2 ⟨3, 3, 3⟩) first
    ⟨⟨by decide, rfl⟩, rfl, (by rintro (_ | _ | u) a is <;> cases is <;> decide), rfl⟩ trivial rfl

theorem process_tree_family : ∃ s s', (machine 0).Reaches (booted 0 1) s ∧ step s (.exit 1) = .ok s' ∧
    s.parentOf 2 = some 1 ∧ s'.parentOf 2 = some 0 := by
  obtain ⟨s', ran, handed⟩ := (process_tree family_reached).2 (.exit 1) ⟨by decide, rfl⟩ trivial
  exact ⟨family, s', family_reached, ran, rfl, (handed 1 rfl).2 2 rfl⟩

end

end Codezero.Mm0.Process
