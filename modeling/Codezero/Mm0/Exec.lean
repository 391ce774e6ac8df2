import Codezero.Mm0.ProcessRuns

/-!
# Execution and the thread group

A task that was cloned into a thread group has its group leader looked up and the leader's children taken for the threads of the
group. But a thread is a child of the leader's parent, so these are the tasks that the leader has forked, and the walk over
them reads a link of each after it has been freed.
-/

namespace Codezero.Mm0.Process
open Codezero.Kernel (Word)
open Codezero.Lib

/-- What an execution by `t` is to leave: of the tasks other than `t`, those of its group are gone and no others, and one task of
the group is left, with the ids of the group leader. -/
structure Replaced (t : Ptr) (tcb : Tcb) (s s' : Tasks) : Prop where
  destroyed : ∀ u a, u ≠ t → s.tcb u = some a → (s'.tcb u = none ↔ a.ids.tgid = tcb.ids.tgid)
  one : ∃ leader b u a, s.tcb leader = some b ∧ b.ids.tid = tcb.ids.tgid ∧ s'.tcb u = some a ∧ a.ids = b.ids ∧
    ∀ v c, s'.tcb v = some c → (c.ids.tgid = tcb.ids.tgid ↔ v = u)

/-- The group is the task that executes, and it has no children if it was cloned into the group. -/
def Alone (t : Ptr) (tcb : Tcb) (s : Tasks) : Prop :=
  tcb.ids.tid = tcb.ids.tgid ∧ (∀ u a, s.tcb u = some a → a.ids.tgid = tcb.ids.tgid → u = t) ∧
    (tcb.cloneFlags &&& tcbSharedTgroup ≠ 0 → ∀ c, s.parentOf c ≠ some t)

section
variable {pager t p new leader u : Ptr} {s s' : Tasks} {live : List Ptr} {kids : Ptr → List Ptr} {tcb old a : Tcb} {ks : List Ptr}
  {blocks : Ptr → Option Tcb}

theorem recycled_new (ne : new ≠ leader) : recycled p new leader old ks blocks new = some { ids := old.ids, parent := some p } := by
  simp [recycled, ne]

/-- A task other than the one that is replaced keeps its ids. -/
theorem recycled_other (notNew : u ≠ new) (other : u ≠ leader) (is : blocks u = some a) :
    ∃ b, recycled p new leader old ks blocks u = some b ∧ b.ids = a.ids := by
  rw [recycled, Function.update_of_ne other, Function.update_of_ne notNew, handedOver, is]
  split
  · exact ⟨_, rfl, rfl⟩
  · exact ⟨a, rfl, rfl⟩

theorem Sound.leads_self (sound : Sound pager s live kids) (free : s.tcb new = none) (below : Below pager s t) (is : s.tcb t = some tcb)
    (alone : Alone t tcb s) : execveLeader t (tcbAllocInit new s) = .ok (tcbAllocInit new s, t) := by
  obtain ⟨leader, -, childless⟩ := alone
  rw [sound.execveLeader_eq free below is]
  split
  · next threaded =>
    have none : kids t = [] := List.eq_nil_iff_forall_not_mem.mpr fun c kid =>
      childless threaded c ((sound.shaped.kids_iff t below.2 c).mp kid).2
    rw [(sound.findTask_init free _).mpr ⟨tcb, is, leader⟩]
    simp [none]
  · rfl

theorem Sound.leader_cases {s1 : Tasks} (sound : Sound pager s live kids) (free : s.tcb new = none) (below : Below pager s t)
    (is : s.tcb t = some tcb) (leads : execveLeader t (tcbAllocInit new s) = .ok (s1, leader)) :
    tcb.cloneFlags &&& tcbSharedTgroup = 0 ∧ leader = t ∨
      tcb.cloneFlags &&& tcbSharedTgroup ≠ 0 ∧ kids leader = [] ∧ ∀ old, s.tcb leader = some old → old.ids.tid = tcb.ids.tgid := by
  rw [sound.execveLeader_eq free below is] at leads
  split at leads
  · next threaded =>
    split at leads
    · cases leads
    · next found =>
      split at leads
      · next childless =>
        cases leads
        obtain ⟨a, isa, tid⟩ := (sound.findTask_init free _).mp found
        exact .inr ⟨threaded, childless, fun old was => by rw [Option.some.inj (was.symm.trans isa), tid]⟩
      · cases leads
  · next unthreaded =>
    cases leads
    exact .inl ⟨by simpa using unthreaded, rfl⟩

/-- A task that executes is replaced, or else another one is and it lives on beside the new one. -/
theorem exec_replaces_iff {self : Nat} (reached : (machine pager).Reaches (booted pager self) s) (able : enabled pager s (.exec t new))
    (is : s.tcb t = some tcb) : (∃ s', doExecve t new s = .ok s' ∧ Replaced t tcb s s') ↔ Alone t tcb s := by
  obtain ⟨live, kids, sound⟩ := reached_sound reached
  obtain ⟨below, free⟩ := able
  have notNew : ∀ {u a}, s.tcb u = some a → u ≠ new := fun isu eq => by simp [← eq, isu] at free
  constructor
  · rintro ⟨s', ran, replaced⟩
    obtain ⟨⟨s1, leader⟩, leads, -⟩ := bind_eq_ok.mp ran
    obtain ⟨rfl, below'⟩ := sound.execveLeader_ok free below leads
    obtain ⟨old, was⟩ := Option.isSome_iff_exists.mp below'.2
    obtain ⟨p, -, up, -⟩ := sound.parent below'
    obtain ⟨s2, kids', ran', -, blocks⟩ := sound.doExecve free below' leads was up
    obtain rfl := Except.ok.inj (ran'.symm.trans ran)
    have found := sound.leader_cases free below is leads
    obtain ⟨l, b, u, a, isb, tid, isa, ids, group⟩ := replaced.one
    have same : leader = t := by
      by_contra other
      -- the task that executes is left, so it is the one with the ids of the leader
      obtain ⟨c, isc, idsc⟩ := recycled_other (notNew is) (Ne.symm other) is
      rw [← blocks] at isc
      obtain rfl := (group t c isc).mp (by rw [idsc])
      have isTid : tcb.ids.tid = tcb.ids.tgid := by rw [← tid, ← ids, ← Option.some.inj (isc.symm.trans isa), idsc]
      rcases found with ⟨-, eq⟩ | ⟨-, -, isLeader⟩
      · exact other eq
      · exact other (sound.numbered.tids leader t old tcb was is ((isLeader old was).trans isTid.symm))
    subst same
    obtain rfl := Option.some.inj (was.symm.trans is)
    have isNew : s2.tcb new = some { ids := old.ids, parent := some p } := by rw [blocks]; exact recycled_new (notNew is).symm
    refine ⟨?_, fun v c isv sameGroup => ?_, fun threaded c up => ?_⟩
    · obtain rfl := (group new _ isNew).mp rfl
      rw [← tid, ← ids, ← Option.some.inj (isNew.symm.trans isa)]
    · by_contra other
      obtain ⟨d, isd, -⟩ := recycled_other (notNew isv) other isv
      rw [← blocks, (replaced.destroyed v c other isv).mpr sameGroup] at isd
      cases isd
    · rcases found with ⟨unthreaded, -⟩ | ⟨-, childless, -⟩
      · exact threaded unthreaded
      · have kid := sound.shaped.kid (sound.known c (isSome_of_parentOf up)) up
        rw [childless] at kid
        cases kid
  · intro alone
    obtain ⟨p, -, up, -⟩ := sound.parent below
    obtain ⟨s', kids', ran, -, blocks⟩ := sound.doExecve free below (sound.leads_self free below is alone) is up
    obtain ⟨leader, only, -⟩ := alone
    refine ⟨s', ran, ⟨fun u a other isu => ?_, ⟨t, tcb, new, { ids := tcb.ids, parent := some p }, is, leader, ?_, rfl, fun v c isv => ?_⟩⟩⟩
    · obtain ⟨b, isb, -⟩ := recycled_other (notNew isu) other isu
      rw [← blocks] at isb
      rw [isb]
      exact ⟨nofun, fun same => absurd (only u a isu same) other⟩
    · rw [blocks]
      exact recycled_new (notNew is).symm
    · rcases recycled_cases (blocks ▸ isv) with ⟨rfl, ids⟩ | ⟨ne, other, b, isb, ids⟩
      · simp [ids]
      · exact iff_of_false (fun same => other (only v b isb (by rw [ids, same]))) ne

/-- A task that has forked a child is replaced, and the child stays. -/
theorem exec_replaces_iff_init : ∃ s s', (machine 0).Reaches (booted 0 1) s ∧ doExecve 1 3 s = .ok s' ∧
    Replaced 1 { ids := ⟨2, 2, 2⟩, parent := some 0 } s s' ∧ s.parentOf 2 = some 1 ∧ s'.tcb 2 ≠ none := by
  have able : enabled 0 family (.exec 1 3) := ⟨⟨by decide, rfl⟩, rfl⟩
  obtain ⟨s', ran, replaced⟩ := (exec_replaces_iff family_reached able rfl).mpr
    ⟨rfl, (by rintro (_ | _ | _ | u) a is <;> cases is <;> decide), fun threaded => absurd rfl threaded⟩
  exact ⟨family, s', family_reached, ran, replaced, rfl, fun gone => absurd ((replaced.destroyed 2 _ (by decide) rfl).mp gone) (by decide)⟩

/-- A task that has a forked child clones a thread. The thread's execution exits the child and stops at the freed block, and the
leader's execution leaves the thread. -/
theorem exec_frees_fork : ∃ s, (machine 0).Reaches (booted 0 1) s ∧ enabled 0 s (.exec 3 4) ∧ enabled 0 s (.exec 1 4) ∧
    doExecve 3 4 s = .error .freed ∧
    ∃ s', doExecve 1 4 s = .ok s' ∧ (s'.tcb 3).map (·.ids) = some ⟨4, 2, 2⟩ ∧ (s'.tcb 4).map (·.ids) = some ⟨2, 2, 2⟩ := by
  have third : (machine 0).Reaches (booted 0 1) _ := .next (e := .clone 1 3 ⟨4, 2, 2⟩ (cloneVm ||| cloneThread)) family_reached
    ⟨⟨by decide, rfl⟩, rfl, (by rintro (_ | _ | _ | u) a is <;> cases is <;> decide), rfl⟩ trivial rfl
  exact ⟨_, third, ⟨⟨by decide, rfl⟩, rfl⟩, ⟨⟨by decide, rfl⟩, rfl⟩, rfl, _, rfl, rfl, rfl⟩

end

end Codezero.Mm0.Process
