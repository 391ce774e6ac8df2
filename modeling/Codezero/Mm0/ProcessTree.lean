import Codezero.Lib.Outcome
import Codezero.Mm0.Process

/-!
# The shape of the process tree

The links of all control blocks make up one family of rings: the global list, a children list for each task, and the
links that are on no list. Each operation on them is one change to that family, and tasks stay below the pager because a
destroyed task hands its children to its own parent.
-/

namespace Codezero.Mm0.Process
open Codezero.Kernel (Word)
open Codezero.Lib
open Lib.Links (Rings)
open Function (update update_of_ne update_self)

/-- Following parents leads to the pager. -/
inductive Under (pager : Ptr) (parent : Ptr → Option Ptr) : Ptr → Prop
  | root : Under pager parent pager
  | up {t p : Ptr} : parent t = some p → Under pager parent p → Under pager parent t

/-- The lists: the tasks that are live and the children of each task. -/
def place (live : List Ptr) (kids : Ptr → List Ptr) : Link → List Link
  | .global => live.map .list
  | .children t => (kids t).map .childRef
  | _ => []

/-- The heads of lists, and the links of allocated blocks that are on none. -/
def heads (s : Tasks) (live members : List Ptr) : Set Link := fun
  | .global => True
  | .list t => (s.tcb t).isSome ∧ t ∉ live
  | .childRef t => (s.tcb t).isSome ∧ t ∉ members
  | .children t => (s.tcb t).isSome

/-- The links say which tasks are live, which are in the tree and whose children they are. -/
structure Shaped (pager : Ptr) (s : Tasks) (live members : List Ptr) (kids : Ptr → List Ptr) : Prop where
  rings : Rings s.links (heads s live members) (place live kids)
  total : s.total = live.length
  live_alloc : ∀ t ∈ live, (s.tcb t).isSome
  alloc : ∀ t ∈ members, (s.tcb t).isSome
  kids_iff : ∀ p, (s.tcb p).isSome → ∀ c, c ∈ kids p ↔ c ∈ members ∧ s.parentOf c = some p
  nodup : members.Nodup
  parents : ∀ t ∈ members, ∃ p ∈ members, s.parentOf t = some p
  under : ∀ t ∈ members, Under pager s.parentOf t

section
variable {pager t p c new : Ptr} {s s' : Tasks} {live members : List Ptr} {kids : Ptr → List Ptr} {tcb : Tcb}
  {parent parent' : Ptr → Option Ptr}

theorem Under.cases_of_ne (under : Under pager parent t) (below : t ≠ pager) : ∃ p, parent t = some p ∧ Under pager parent p := by
  cases under with
  | root => exact absurd rfl below
  | up is above => exact ⟨_, is, above⟩

theorem isSome_of_parentOf (is : s.parentOf t = some p) : (s.tcb t).isSome := by
  unfold Tasks.parentOf at is
  cases known : s.tcb t with
  | none => rw [known] at is; cases is
  | some tcb => rfl

theorem getParent_ok (is : s.parentOf t = some p) : s.getParent t = .ok p := by
  unfold Tasks.parentOf at is
  unfold Tasks.getParent
  cases known : s.tcb t with
  | none => rw [known] at is; cases is
  | some tcb =>
    rw [known] at is
    simp only [Option.bind_some] at is
    simp only [is]
    rfl

theorem adopt_parentOf (u : Ptr) : (adopt c p tcb s).parentOf u = if u = c then some p else s.parentOf u := by
  by_cases eq : u = c <;> simp [Tasks.parentOf, adopt, eq]

theorem get_ok (is : s.tcb t = some tcb) : s.get t = .ok tcb := by
  unfold Tasks.get
  rw [is]
  rfl

theorem next_ok {k : Link} (holds : s.holds k = true) : s.next k = .ok (s.links.next k) := if_pos holds

@[simp] theorem global_mem : Link.global ∈ heads s live members := trivial

@[simp] theorem list_mem : Link.list t ∈ heads s live members ↔ (s.tcb t).isSome ∧ t ∉ live := Iff.rfl

@[simp] theorem childRef_mem : Link.childRef t ∈ heads s live members ↔ (s.tcb t).isSome ∧ t ∉ members := Iff.rfl

@[simp] theorem children_mem : Link.children t ∈ heads s live members ↔ (s.tcb t).isSome := Iff.rfl

theorem Under.irrefl (under : Under pager parent t) (is : parent t = some t) : t = pager := by
  induction under with
  | root => rfl
  | up above _ ih =>
    have eq := Option.some.inj (above.symm.trans is)
    exact eq ▸ ih (eq.symm ▸ is)

/-- Parents that are the same among tasks that are closed under them lead to the pager as before. -/
theorem Under.transfer (closed : ∀ t ∈ members, ∀ p, parent t = some p → p ∈ members)
    (same : ∀ t ∈ members, parent' t = parent t) (under : Under pager parent t) (mem : t ∈ members) : Under pager parent' t := by
  induction under with
  | root => exact .root
  | up is _ ih => exact .up ((same _ mem).trans is) (ih (closed _ mem _ is))

namespace Shaped

variable (shaped : Shaped pager s live members kids)
include shaped

theorem live_nodup : live.Nodup := (shaped.rings.nodup global_mem).of_map _

theorem kids_nodup (alloc : (s.tcb p).isSome) : (kids p).Nodup :=
  (shaped.rings.nodup (children_mem.mpr alloc)).of_map _

theorem closed (mem : t ∈ members) (is : s.parentOf t = some p) : p ∈ members := by
  obtain ⟨q, inside, is'⟩ := shaped.parents t mem
  exact Option.some.inj (is'.symm.trans is) ▸ inside

theorem kid (mem : t ∈ members) (is : s.parentOf t = some p) : t ∈ kids p :=
  (shaped.kids_iff p (shaped.alloc p (shaped.closed mem is)) t).mpr ⟨mem, is⟩

/-- What is on a list belongs to an allocated block. -/
theorem holds {h k : Link} (head : h ∈ heads s live members) (mem : k ∈ h :: place live kids h) : s.holds k = true := by
  rcases List.mem_cons.mp mem with rfl | mem
  · cases k with
    | global => rfl
    | list t => exact head.1
    | childRef t => exact head.1
    | children t => exact head
  · cases h with
    | global =>
      obtain ⟨t, inside, rfl⟩ := List.mem_map.mp mem
      exact shaped.live_alloc t inside
    | list t => cases mem
    | childRef t => cases mem
    | children t =>
      obtain ⟨c, inside, rfl⟩ := List.mem_map.mp mem
      exact shaped.alloc c ((shaped.kids_iff t head c).mp inside).1

/-- The links of a block that is not allocated are on no list. -/
theorem outside {k : Link} (free : s.holds k = false) : ∀ h ∈ heads s live members, k ∉ h :: place live kids h := fun h head mem => by
  rw [shaped.holds head mem] at free
  cases free

end Shaped

/-! ## Changes to the family -/

theorem place_kids (ys : List Ptr) : place live (update kids p ys) =
    update (place live kids) (.children p) (ys.map .childRef) := by
  funext k
  cases k with
  | children t => by_cases eq : t = p <;> simp [place, eq]
  | _ => simp [place]

theorem place_live (live live' : List Ptr) : place live' kids = update (place live kids) .global (live'.map .list) := by
  funext k
  cases k <;> simp [place]

theorem heads_congr (same : ∀ t, (s'.tcb t).isSome = (s.tcb t).isSome) : heads s' live members = heads s live members := by
  ext k
  cases k <;> simp [same]

/-- A task more in the tree. -/
theorem heads_member {members' : List Ptr} (mem : ∀ u, u ∈ members' ↔ u = t ∨ u ∈ members) :
    heads s live members' = heads s live members \ {.childRef t} := by
  ext k
  cases k with
  | childRef u => simp [mem, and_assoc, and_comm]
  | _ => simp

/-- A task more on the global list. -/
theorem heads_live {live' : List Ptr} (mem : ∀ u, u ∈ live' ↔ u = t ∨ u ∈ live) :
    heads s live' members = heads s live members \ {.list t} := by
  ext k
  cases k with
  | list u => simp [mem, and_assoc, and_comm]
  | _ => simp

/-- The blocks once `ks` have the parent `p`. -/
def handedOver (p : Ptr) (ks : List Ptr) (tcb : Ptr → Option Tcb) (u : Ptr) : Option Tcb :=
  if ks.contains u then (tcb u).map ({ · with parent := some p }) else tcb u

namespace Shaped

variable (shaped : Shaped pager s live members kids)
include shaped

/-! ## Allocation -/

theorem tcbAllocInit (free : s.tcb new = none) : Shaped pager (tcbAllocInit new s) live members (update kids new []) := by
  have notLive : new ∉ live := fun mem => by simpa [free] using shaped.live_alloc new mem
  have notMember : new ∉ members := fun mem => by simpa [free] using shaped.alloc new mem
  have parentOf : ∀ c ∈ members, (Process.tcbAllocInit new s).parentOf c = s.parentOf c := fun c mem => by
    have : c ≠ new := fun eq => notMember (eq ▸ mem)
    simp [Tasks.parentOf, Process.tcbAllocInit, this]
  have alloc : ∀ t, (s.tcb t).isSome → ((Process.tcbAllocInit new s).tcb t).isSome := fun t is => by
    by_cases eq : t = new
    · simp [Process.tcbAllocInit, eq]
    · simpa [Process.tcbAllocInit, eq] using is
  refine ⟨?_, shaped.total, fun t mem => alloc t (shaped.live_alloc t mem), fun t mem => alloc t (shaped.alloc t mem), ?_, shaped.nodup,
    fun t mem => ?_, fun t mem => ?_⟩
  · have out : ∀ k, s.holds k = false → ∀ h ∈ heads s live members, k ∉ h :: place live kids h := fun k free => shaped.outside free
    have listOut := out (.list new) (by simp [Tasks.holds, free])
    have refOut := out (.childRef new) (by simp [Tasks.holds, free])
    have kidsOut := out (.children new) (by simp [Tasks.holds, free])
    have refOut' := Rings.outside_init listOut refOut nofun
    have three := ((shaped.rings.init listOut).init refOut').init
      (Rings.outside_init refOut' (Rings.outside_init listOut kidsOut nofun) nofun)
    refine three.congr fun h head => ?_
    cases h with
    | global => exact ⟨.inr (.inr (.inr trivial)), rfl⟩
    | list t =>
      obtain ⟨known, notin⟩ := head
      by_cases eq : t = new
      · subst eq
        exact ⟨.inr (.inr (.inl rfl)), by simp [place]⟩
      · exact ⟨.inr (.inr (.inr ⟨by simpa [Process.tcbAllocInit, eq] using known, notin⟩)), by simp [place, eq]⟩
    | childRef t =>
      obtain ⟨known, notin⟩ := head
      by_cases eq : t = new
      · subst eq
        exact ⟨.inr (.inl rfl), by simp [place]⟩
      · exact ⟨.inr (.inr (.inr ⟨by simpa [Process.tcbAllocInit, eq] using known, notin⟩)), by simp [place, eq]⟩
    | children t =>
      by_cases eq : t = new
      · subst eq
        exact ⟨.inl rfl, by simp [place]⟩
      · have known : ((Process.tcbAllocInit new s).tcb t).isSome := head
        exact ⟨.inr (.inr (.inr (children_mem.mpr (by simpa [Process.tcbAllocInit, eq] using known)))), by simp [place, eq]⟩
  · intro p known c
    by_cases eq : p = new
    · subst eq
      rw [update_self]
      refine iff_of_false (List.not_mem_nil) fun both => ?_
      have orphan := (parentOf c both.1).symm.trans both.2
      simpa [free] using shaped.alloc p (shaped.closed both.1 orphan)
    · rw [update_of_ne eq]
      have known' : (s.tcb p).isSome := by simpa [Process.tcbAllocInit, eq] using known
      rw [shaped.kids_iff p known' c]
      exact and_congr_right fun mem => by rw [parentOf c mem]
  · obtain ⟨p, inside, is⟩ := shaped.parents t mem
    exact ⟨p, inside, (parentOf t mem).trans is⟩
  · exact (shaped.under t mem).transfer (fun _ mem _ => shaped.closed mem) parentOf mem

/-! ## The global list -/

theorem globalAddTask (alloc : (s.tcb t).isSome) (out : t ∉ live) :
    ∃ s', globalAddTask t s = .ok s' ∧ Shaped pager s' (live ++ [t]) members kids ∧ s'.tcb = s.tcb ∧ s'.self = s.self := by
  have head : Link.list t ∈ heads s live members := ⟨alloc, out⟩
  have empty : s.links.isEmpty (.list t) = true := (shaped.rings.isEmpty_iff head).mpr rfl
  refine ⟨_, if_pos empty, ⟨?_, ?_, fun u mem => ?_, shaped.alloc, shaped.kids_iff, shaped.nodup, shaped.parents, shaped.under⟩, rfl, rfl⟩
  · have rings := shaped.rings.insertTail global_mem head nofun rfl
    have grown : ∀ u, u ∈ live ++ [t] ↔ u = t ∨ u ∈ live := fun u => by simp [or_comm]
    change Rings _ (heads s (live ++ [t]) members) _
    rw [heads_live grown, place_live live (live ++ [t])]
    simpa [place] using rings
  · simp [shaped.total]
  · rcases List.mem_append.mp mem with old | new
    · exact shaped.live_alloc u old
    · exact List.mem_singleton.mp new ▸ alloc

theorem globalRemoveTask (mem : t ∈ live) :
    ∃ s', globalRemoveTask t s = .ok s' ∧ Shaped pager s' (live.erase t) members kids ∧ s'.tcb = s.tcb ∧ s'.self = s.self := by
  have inside : Link.list t ∈ place live kids .global := List.mem_map_of_mem mem
  have linked : ¬ s.links.isEmpty (.list t) = true := by rw [shaped.rings.isEmpty_member global_mem inside]; simp
  have fewer : s.total - 1 = (live.erase t).length := by
    have := List.length_pos_of_mem mem
    rw [List.length_erase_of_mem mem, shaped.total]
    omega
  refine ⟨{ s with links := s.links.unlink (.list t) (.list t), total := s.total - 1 }, ?_,
    ⟨?_, fewer, fun u still => shaped.live_alloc u (List.mem_of_mem_erase still), shaped.alloc, shaped.kids_iff, shaped.nodup,
      shaped.parents, shaped.under⟩, rfl, rfl⟩
  · rw [Process.globalRemoveTask, if_neg linked]
    exact if_neg (show ¬ s.total - 1 < 0 by omega)
  · refine (shaped.rings.unlink global_mem inside).congr fun h head => ?_
    cases h with
    | global => exact ⟨.inr trivial, by simp [place, List.map_erase (fun _ _ => Link.list.inj)]⟩
    | list u =>
      obtain ⟨alloc, out⟩ := head
      by_cases eq : u = t
      · exact ⟨.inl (by rw [eq]), by simp [place, eq]⟩
      · exact ⟨.inr ⟨alloc, fun old => out ((List.mem_erase_of_ne eq).mpr old)⟩, by simp [place, eq]⟩
    | childRef u => exact ⟨.inr head, by simp [place]⟩
    | children u => exact ⟨.inr head, by simp [place]⟩

/-! ## The tree -/

/-- A task that is in no children list is put on that of `p`. -/
theorem join {links : Lib.Links Link} (tcb : Tcb) (ys : List Ptr) (alloc : (s.tcb t).isSome)
    (out : t ∉ members) (inside : p ∈ members) (parent : tcb.parent = some p) (ys_iff : ∀ a, a ∈ ys ↔ a = t ∨ a ∈ kids p)
    (rings : Rings links (heads s live members \ {.childRef t}) (update (place live kids) (.children p) (ys.map .childRef))) :
    Shaped pager { s with links := links, tcb := update s.tcb t (some tcb) } live (t :: members) (update kids p ys) := by
  have isSome : ∀ u, (update s.tcb t (some tcb) u).isSome = (s.tcb u).isSome := fun u => by
    by_cases eq : u = t <;> simp [eq, alloc]
  have own : Tasks.parentOf { s with links := links, tcb := update s.tcb t (some tcb) } t = some p := by
    simp [Tasks.parentOf, parent]
  have same : ∀ c ∈ members,
      Tasks.parentOf { s with links := links, tcb := update s.tcb t (some tcb) } c = s.parentOf c := fun c mem => by
    have : c ≠ t := fun eq => out (eq ▸ mem)
    simp [Tasks.parentOf, this]
  have under : ∀ u ∈ members,
      Under pager (Tasks.parentOf { s with links := links, tcb := update s.tcb t (some tcb) }) u := fun u mem =>
    (shaped.under u mem).transfer (fun _ mem _ => shaped.closed mem) same mem
  refine ⟨?_, shaped.total, fun u mem => (isSome u).trans (shaped.live_alloc u mem), fun u mem => (isSome u).trans ?_, fun q known c => ?_,
    List.nodup_cons.mpr ⟨out, shaped.nodup⟩, fun u mem => ?_, fun u mem => ?_⟩
  · rw [heads_congr isSome, heads_member (t := t) fun u => List.mem_cons, place_kids]
    exact rings
  · rcases List.mem_cons.mp mem with rfl | old
    · exact alloc
    · exact shaped.alloc u old
  · have old : c ∈ kids q ↔ c ∈ members ∧ s.parentOf c = some q := shaped.kids_iff q ((isSome q).symm.trans known) c
    by_cases isNew : c = t
    · subst isNew
      rw [own]
      by_cases eq : q = p
      · simp [eq, ys_iff]
      · rw [update_of_ne eq, old]
        simp [out, Ne.symm eq]
    · have kept : c ∈ t :: members ↔ c ∈ members := by simp [isNew]
      rw [kept, and_congr_right fun mem => by rw [same c mem], ← old]
      by_cases eq : q = p
      · simp [eq, ys_iff, isNew]
      · rw [update_of_ne eq]
  · rcases List.mem_cons.mp mem with rfl | old
    · exact ⟨p, List.mem_cons_of_mem u inside, own⟩
    · obtain ⟨q, above, is⟩ := shaped.parents u old
      exact ⟨q, List.mem_cons_of_mem t above, (same u old).trans is⟩
  · rcases List.mem_cons.mp mem with rfl | old
    · exact .up own (under p inside)
    · exact under u old

/-- The parent of a task that is to go takes over one of its children. -/
theorem move (below : t ≠ pager) (mem : t ∈ members) (parent : s.parentOf t = some p) (kid : c ∈ kids t) (is : s.tcb c = some tcb) :
    p ≠ t ∧ Shaped pager (adopt c p tcb { s with links := s.links.unlink (.childRef c) (.childRef c) }) live members
      (update (update kids t ((kids t).erase c)) p (kids p ++ [c])) := by
  have talloc := shaped.alloc t mem
  have inside := shaped.closed mem parent
  have palloc := shaped.alloc p inside
  obtain ⟨cmem, up⟩ := (shaped.kids_iff t talloc c).mp kid
  have other : p ≠ t := fun eq => below ((shaped.under t mem).irrefl (eq ▸ parent))
  have notSelf : c ≠ t := fun eq => below ((shaped.under t mem).irrefl (eq ▸ up))
  have isSome : ∀ u, (update s.tcb c (some { tcb with parent := some p }) u).isSome = (s.tcb u).isSome := fun u => by
    by_cases eq : u = c <;> simp [eq, is]
  refine ⟨other, ?_, shaped.total, fun u mem => (isSome u).trans (shaped.live_alloc u mem), fun u mem => (isSome u).trans (shaped.alloc u mem),
    fun q known a => ?_, shaped.nodup, fun u mem => ?_, fun u mem => ?_⟩
  · rw [heads_congr isSome, place_kids, place_kids, List.map_append, List.map_erase fun _ _ => Link.childRef.inj]
    exact shaped.rings.move (children_mem.mpr talloc) (children_mem.mpr palloc) (fun eq => other (Link.children.inj eq))
      (List.mem_map_of_mem kid)
  · have old : a ∈ kids q ↔ a ∈ members ∧ s.parentOf a = some q := shaped.kids_iff q ((isSome q).symm.trans known) a
    rw [adopt_parentOf]
    by_cases eq : a = c
    · subst eq
      by_cases atp : q = p
      · simp [atp, cmem]
      · have gone : a ∉ (kids t).erase a := (shaped.kids_nodup talloc).not_mem_erase
        by_cases att : q = t
        · simp [att, other, Ne.symm other, gone]
        · simp [atp, att, Ne.symm atp, old, up, Ne.symm att]
    · rw [if_neg eq]
      refine Iff.trans ?_ old
      by_cases atp : q = p
      · simp [atp, eq]
      · by_cases att : q = t
        · simp [att, Ne.symm other, List.mem_erase_of_ne eq]
        · simp [atp, att]
  · rw [adopt_parentOf]
    split
    · exact ⟨p, inside, rfl⟩
    · exact shaped.parents u mem
  · -- the child's new parent is above its old one
    induction shaped.under u mem with
    | root => exact .root
    | @up u q next _ ih =>
      have above := ih (shaped.closed mem next)
      by_cases eq : u = c
      · obtain rfl := Option.some.inj ((eq ▸ next).symm.trans up)
        obtain ⟨r, here, higher⟩ := above.cases_of_ne below
        rw [adopt_parentOf, if_neg (Ne.symm notSelf)] at here
        obtain rfl := Option.some.inj (here.symm.trans parent)
        exact .up (by rw [adopt_parentOf, if_pos eq]) higher
      · exact .up (by rw [adopt_parentOf, if_neg eq]; exact next) above

theorem kids_next (alloc : (s.tcb t).isSome) : s.links.next (.children t) = ((kids t).map Link.childRef).headD (.children t) :=
  (shaped.rings.ring _ (children_mem.mpr alloc)).next_headD

theorem kids_next_first {cs : List Ptr} (alloc : (s.tcb t).isSome) (are : kids t = c :: cs) :
    s.links.next (.childRef c) = (cs.map Link.childRef).headD (.children t) := by
  have ring := shaped.rings.ring _ (children_mem.mpr alloc)
  simp only [place, are, List.map_cons] at ring
  exact (show Lib.Links.Ring s.links (.children t) ([] ++ Link.childRef c :: cs.map Link.childRef) from ring).next_of

theorem headD_holds {cs : List Ptr} (alloc : (s.tcb t).isSome) (are : kids t = cs) :
    s.holds ((cs.map Link.childRef).headD (.children t)) = true := by
  refine shaped.holds (children_mem.mpr alloc) ?_
  cases cs <;> simp [place, are]

/-- The loop over the children, by induction on those that are left. -/
theorem reparent {fuel : Nat} (below : t ≠ pager) (mem : t ∈ members) (parent : s.parentOf t = some p) (enough : (kids t).length < fuel) :
    ∃ s' kids', Process.reparent t fuel (s.links.next (.children t)) (s.links.next (s.links.next (.children t))) s = .ok s' ∧
      Shaped pager s' live members kids' ∧ kids' t = [] ∧ s'.tcb = handedOver p (kids t) s.tcb ∧ s'.self = s.self := by
  have alloc := shaped.alloc t mem
  generalize are : kids t = ks at enough
  induction ks generalizing s kids fuel with
  | nil =>
    obtain ⟨fuel, rfl⟩ : ∃ n, fuel = n + 1 := ⟨fuel - 1, by simp at enough; omega⟩
    have last : s.links.next (.children t) = .children t := by rw [shaped.kids_next alloc, are]; rfl
    exact ⟨s, kids, by simp [Process.reparent, last, pure, Except.pure], shaped, are, by funext u; simp [handedOver], rfl⟩
  | cons c cs ih =>
    obtain ⟨fuel, rfl⟩ : ∃ n, fuel = n + 1 := ⟨fuel - 1, by simp at enough; omega⟩
    have first : s.links.next (.children t) = .childRef c := by rw [shaped.kids_next alloc, are]; rfl
    have second := shaped.kids_next_first alloc are
    have kid : c ∈ kids t := by simp [are]
    have cmem := ((shaped.kids_iff t alloc c).mp kid).1
    obtain ⟨tcb, is⟩ := Option.isSome_iff_exists.mp (shaped.alloc c cmem)
    obtain ⟨other, moved⟩ := shaped.move below mem parent kid is
    set s1 := adopt c p tcb { s with links := s.links.unlink (.childRef c) (.childRef c) } with s1_eq
    have alloc1 := moved.alloc t mem
    have are1 : update (update kids t ((kids t).erase c)) p (kids p ++ [c]) t = cs := by
      simp [Ne.symm other, are]
    have parent1 : s1.parentOf t = some p := by
      rw [s1_eq, adopt_parentOf]
      split
      · rfl
      · exact parent
    obtain ⟨s', kids', ran, shaped', none, tcb', self'⟩ := ih moved parent1 alloc1 are1 (by simp at enough; omega)
    refine ⟨s', kids', ?_, shaped', none, ?_, self'⟩
    · have step : Process.reparent t (fuel + 1) (.childRef c) (s.links.next (.childRef c)) s =
          (s1.next (s.links.next (.childRef c))).bind fun next => Process.reparent t fuel (s.links.next (.childRef c)) next s1 := by
        rw [Process.reparent, if_neg nofun]
        simp only [getParent_ok (s := { s with links := s.links.unlink (.childRef c) (.childRef c) }) parent,
          get_ok (s := { s with links := s.links.unlink (.childRef c) (.childRef c) }) is]
        rfl
      rw [first, step, second, next_ok (moved.headD_holds alloc1 are1)]
      rw [moved.kids_next alloc1, are1] at ran
      exact ran
    · rw [tcb']
      funext u
      by_cases eq : u = c
      · simp [handedOver, s1_eq, adopt, eq, is]
      · simp [handedOver, s1_eq, adopt, eq]

/-- A task without children that is off the global list is freed. -/
theorem tcbFree (below : t ≠ pager) (mem : t ∈ members) (notLive : t ∉ live) (parent : s.parentOf t = some p) (childless : kids t = []) :
    ∃ s' kids', tcbFree t s = .ok s' ∧ Shaped pager s' live (members.erase t) kids' ∧ s'.tcb = update s.tcb t none ∧ s'.self = s.self := by
  have alloc := shaped.alloc t mem
  have palloc := shaped.alloc p (shaped.closed mem parent)
  have kid : Link.childRef t ∈ place live kids (.children p) := List.mem_map_of_mem (shaped.kid mem parent)
  have rings := shaped.rings.unlink (children_mem.mpr palloc) kid
  have notSelf : p ≠ t := fun eq => below ((shaped.under t mem).irrefl (eq ▸ parent))
  have ofList : (s.links.unlink (.childRef t) (.childRef t)).isEmpty (.list t) = true :=
    (rings.isEmpty_iff (.inr (list_mem.mpr ⟨alloc, notLive⟩))).mpr (by simp [place])
  have ofRef : (s.links.unlink (.childRef t) (.childRef t)).isEmpty (.childRef t) = true :=
    (rings.isEmpty_iff (.inl rfl)).mpr (by simp)
  have ofChildren : (s.links.unlink (.childRef t) (.childRef t)).isEmpty (.children t) = true :=
    (rings.isEmpty_iff (.inr (children_mem.mpr alloc))).mpr (by simp [place, Ne.symm notSelf, childless])
  have known : ∀ u, (update s.tcb t none u).isSome ↔ u ≠ t ∧ (s.tcb u).isSome := fun u => by
    by_cases eq : u = t <;> simp [eq]
  have left : ∀ u, u ∈ members.erase t ↔ u ≠ t ∧ u ∈ members := fun u => shaped.nodup.mem_erase_iff
  have parentOf : ∀ u, u ≠ t → Tasks.parentOf
      { s with links := s.links.unlink (.childRef t) (.childRef t), tcb := update s.tcb t none } u = s.parentOf u := fun u ne => by
    simp [Tasks.parentOf, ne]
  have closed : ∀ u ∈ members.erase t, ∀ q, s.parentOf u = some q → q ∈ members.erase t := fun u mem q is => by
    have inside := ((left u).mp mem).2
    refine (left q).mpr ⟨fun eq => ?_, shaped.closed inside is⟩
    have kid := shaped.kid inside is
    rw [eq, childless] at kid
    cases kid
  refine ⟨{ s with links := s.links.unlink (.childRef t) (.childRef t), tcb := update s.tcb t none },
    update kids p ((kids p).erase t), by simp [Process.tcbFree, ofList, ofRef, ofChildren, pure, Except.pure],
    ⟨?_, shaped.total, fun u mem => (known u).mpr ⟨fun eq => notLive (eq ▸ mem), shaped.live_alloc u mem⟩,
      fun u mem => (known u).mpr ⟨((left u).mp mem).1, shaped.alloc u ((left u).mp mem).2⟩, fun q qalloc a => ?_, shaped.nodup.erase t,
      fun u mem => ?_, fun u mem => ?_⟩, rfl, rfl⟩
  · rw [place_kids, List.map_erase fun _ _ => Link.childRef.inj]
    refine rings.congr fun h head => ?_
    cases h with
    | global => exact ⟨.inr trivial, by simp [place]⟩
    | list u => exact ⟨.inr (list_mem.mpr ⟨((known u).mp head.1).2, head.2⟩), by simp [place]⟩
    | childRef u =>
      by_cases eq : u = t
      · exact ⟨.inl (by rw [eq]), by simp [place, eq]⟩
      · exact ⟨.inr (childRef_mem.mpr ⟨((known u).mp head.1).2, fun mem => head.2 ((left u).mpr ⟨eq, mem⟩)⟩), by simp [place, eq]⟩
    | children u => exact ⟨.inr (children_mem.mpr ((known u).mp head).2), by simp [place]⟩
  · have old : a ∈ kids q ↔ a ∈ members ∧ s.parentOf a = some q := shaped.kids_iff q ((known q).mp qalloc).2 a
    rw [left]
    by_cases eq : a = t
    · subst eq
      have gone : a ∉ (kids p).erase a := (shaped.kids_nodup palloc).not_mem_erase
      by_cases atp : q = p
      · simp [atp, gone]
      · simp [atp, old, parent, Ne.symm atp]
    · rw [parentOf a eq]
      by_cases atp : q = p
      · subst atp
        simp [List.mem_erase_of_ne eq, old, eq]
      · simp [atp, old, eq]
  · obtain ⟨ne, inside⟩ := (left u).mp mem
    obtain ⟨q, -, is⟩ := shaped.parents u inside
    exact ⟨q, closed u mem q is, (parentOf u ne).trans is⟩
  · exact (shaped.under u ((left u).mp mem).2).transfer closed (fun c mem => parentOf c ((left c).mp mem).1) mem

theorem kids_length (alloc : (s.tcb t).isSome) : (kids t).length ≤ members.length :=
  ((shaped.kids_nodup alloc).subperm fun c kid => ((shaped.kids_iff t alloc c).mp kid).1).length_le

/-- A task goes, and its children are handed over to its parent. -/
theorem tcbDestroy (below : t ≠ pager) (mem : t ∈ live) (inside : t ∈ members)
    (parent : s.parentOf t = some p) (few : members.length ≤ live.length + 1) :
    ∃ s' kids', tcbDestroy t s = .ok s' ∧ Shaped pager s' (live.erase t) (members.erase t) kids' ∧
      s'.tcb = update (handedOver p (kids t) s.tcb) t none ∧ s'.self = s.self := by
  obtain ⟨s1, removed, shaped1, tcb1, self1⟩ := shaped.globalRemoveTask mem
  have alloc := shaped1.alloc t inside
  have parent1 : s1.parentOf t = some p := by rw [Tasks.parentOf, tcb1]; exact parent
  have enough : (kids t).length < s1.total.toNat + 3 := by
    have bound := shaped1.kids_length alloc
    rw [shaped1.total, List.length_erase_of_mem mem]
    omega
  obtain ⟨s2, kids2, looped, shaped2, childless, tcb2, self2⟩ := shaped1.reparent below inside parent1 enough
  have parent2 : s2.parentOf t = some p := by
    obtain ⟨tcb, is, up⟩ := Option.bind_eq_some_iff.mp parent
    rw [Tasks.parentOf, tcb2, handedOver, tcb1, is]
    split
    · rfl
    · exact up
  obtain ⟨s3, kids3, freed, shaped3, tcb3, self3⟩ :=
    shaped2.tcbFree below inside shaped.live_nodup.not_mem_erase parent2 childless
  refine ⟨s3, kids3, ?_, shaped3, by rw [tcb3, tcb2, tcb1], self3.trans (self2.trans self1)⟩
  have first : s1.next (.children t) = .ok (s1.links.next (.children t)) := next_ok alloc
  have second : s1.next (s1.links.next (.children t)) = .ok (s1.links.next (s1.links.next (.children t))) :=
    next_ok (by rw [shaped1.kids_next alloc]; exact shaped1.headD_holds alloc rfl)
  unfold Process.tcbDestroy
  simp only [removed, first, second, looped, freed, bind, Except.bind]

end Shaped

end

end Codezero.Mm0.Process
