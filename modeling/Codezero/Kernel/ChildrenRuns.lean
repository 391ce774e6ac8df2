import Codezero.Kernel.Children

/-!
# The counts of children and of threads in a space

Over every run, a thread's `nchild` is the number of its children that are not deleted and a space's `ktcb_refs` that
of the threads attached to it. Both are read off the fields of the live threads, and only creation and deletion change
these.
-/

namespace Codezero.Kernel.Children
open Codezero.Lib
open Function (update update_idem update_of_ne update_self)

/-! ## What keeps the pagers -/

/-- The pagers of all threads are the same. -/
structure SamePagers (k k' : State) : Prop where
  pager : ∀ t, (k'.tcb t).pager = (k.tcb t).pager

/-- A computation from `k` that keeps the pagers if it returns. -/
def KeepsPagers {α : Type} (k : State) (out : α → State) (m : Except Bug α) : Prop :=
  Sat m (fun a => SamePagers k (out a)) (fun _ => True)

section Pagers
variable {k k1 k' k'' : State} {t : L4id}

theorem SamePagers.refl : SamePagers k k := ⟨fun _ => rfl⟩

theorem SamePagers.trans (first : SamePagers k k') (second : SamePagers k' k'') : SamePagers k k'' :=
  ⟨fun t => (second.pager t).trans (first.pager t)⟩

theorem SamePagers.modify (f : Ktcb → Ktcb) (same : (f (k.tcb t)).pager = (k.tcb t).pager) : SamePagers k (k.modify t f) := by
  refine ⟨fun u => ?_⟩
  rw [State.modify_tcb]
  split
  · next self => rw [self]; exact same
  · rfl

theorem KeepsPagers.after {α : Type} {out : α → State} {m : Except Bug α} (first : SamePagers k k1)
    (keeps : KeepsPagers k1 out m) : KeepsPagers k out m := Sat.mono keeps fun _ same => first.trans same

theorem keeps_schedResumeAsync (t : L4id) (k : State) : KeepsPagers k id (schedResumeAsync t k) :=
  Sat.bind_eq (fun _ _ => trivial) fun _ _ =>
    ⟨(SamePagers.modify (fun c => { c with state := .runnable }) rfl).pager⟩

theorem samePagers_wqhTake (q : Wqh) (t : L4id) (i : Bool) (k : State) : SamePagers k (wqhTake q t i k) := by
  have unset : SamePagers (wqhRemove q t k) (taskUnsetWqh t (wqhRemove q t k)) := .modify _ rfl
  have removed : SamePagers k (wqhRemove q t k) := ⟨fun _ => rfl⟩
  exact (removed.trans unset).trans (.modify _ rfl)

theorem keeps_wakeUp (q : Wqh) (flags : WakeupFlags) (k : State) : KeepsPagers k Prod.fst (wakeUp q flags k) := by
  cases ran : wakeUp q flags k with
  | error b => exact trivial
  | ok r =>
    rcases IpcRuns.wakeUp_ok (show wakeUp q flags k = .ok (r.1, r.2) from ran) with ⟨-, same⟩ | ⟨t, _, _, resumed⟩
    · exact same ▸ SamePagers.refl
    · exact (samePagers_wqhTake ..).trans ((keeps_schedResumeAsync _ _).ok resumed)

theorem keeps_wakeUpAllLoop (q : Wqh) (i : Bool) (fuel : Nat) (k : State) : KeepsPagers k id (wakeUpAllLoop q i fuel k) := by
  induction fuel generalizing k with
  | zero => exact SamePagers.refl
  | succ fuel rest =>
    unfold wakeUpAllLoop
    split_ifs
    · split
      · exact trivial
      · refine Sat.bind ((keeps_schedResumeAsync _ _).after (samePagers_wqhTake ..)) fun k1 same => ?_
        exact (rest k1).after same
    · exact SamePagers.refl

theorem keeps_wakeUpAll (q : Wqh) (i : Bool) (k : State) : KeepsPagers k id (wakeUpAll q i k) := by
  unfold wakeUpAll
  split_ifs
  · exact trivial
  · exact keeps_wakeUpAllLoop q i _ k

theorem keeps_threadRemove (t : L4id) (k : State) : KeepsPagers k id (threadRemove t k) := by
  have gone : SamePagers k { k with present := update k.present t false } := ⟨fun _ => rfl⟩
  exact Sat.bind ((keeps_wakeUpAll _ _ _).after gone) fun _ first => (keeps_wakeUpAll _ _ _).after first

theorem keeps_schedSuspend (k : State) : KeepsPagers k id (schedSuspend k) := by
  refine Sat.bind_eq (fun _ _ => trivial) fun s _ => ?_
  have suspended : SamePagers k { k.modify k.current (fun c =>
      { c with state := .inactive, flags := { c.flags with suspending := false } }) with sched := s } :=
    ⟨(SamePagers.modify (fun c => { c with state := .inactive, flags := { c.flags with suspending := false } }) rfl).pager⟩
  dsimp only
  split_ifs
  · exact suspended
  · exact Sat.bind ((keeps_wakeUp _ _ _).after suspended) fun _ same => same

theorem keeps_archSetupNewThread (t : L4id) (orig : Option L4id) (flags : Word) (inSyscall : Bool) (k : State) :
    KeepsPagers k id (archSetupNewThread t orig flags inSyscall k) := by
  have divided : ∀ {o : L4id} {a b : Nat}, SamePagers k ((k.modify t fun c => { c with ticksLeft := a }).modify o fun c =>
      { c with ticksLeft := b }) := (SamePagers.modify _ rfl).trans (.modify _ rfl)
  unfold archSetupNewThread
  split
  · cases orig
    · exact SamePagers.refl
    · exact trivial
  · cases orig with
    | none => exact trivial
    | some o =>
      dsimp only
      split
      · exact divided
      · exact SamePagers.refl

end Pagers

/-! ## The counts -/

/-- The pager of a live thread that is not its own. -/
def Family.parent (f : Family) (t : L4id) : Option L4id :=
  if f.live t = true ∧ (f.k.tcb t).pager ≠ some t then (f.k.tcb t).pager else none

/-- The space of a live thread. -/
def Family.attached (f : Family) (t : L4id) : Option L4id := if f.live t then f.space t else none

structure Accounted (f : Family) : Prop where
  nchild : ∀ p, f.live p = true → f.nchild p = held f.parent p
  ktcbRefs : ∀ s, f.ktcbRefs s = if held f.attached s = 0 then none else some (held f.attached s)
  pagers : ∀ t, f.live t = true → ∃ p, (f.k.tcb t).pager = some p ∧ f.live p = true
  zombies : ∀ t ∈ f.zombies, f.live t = true
  once : f.zombies.Nodup

section Steps
variable {f f' : Family} {k' : State} {p t s : L4id}

theorem Accounted.childless (accounted : Accounted f) (dead : f.live t = false) : held f.parent t = 0 := by
  refine held_eq_zero_iff.mpr fun u child => ?_
  rw [Family.parent] at child
  split_ifs at child with alive
  obtain ⟨p, pager, live⟩ := accounted.pagers u alive.1
  obtain rfl := Option.some.inj (child.symm.trans pager)
  exact absurd live (by simp [dead])

/-- What neither creates nor deletes a thread, nor changes its pager. -/
theorem Accounted.same (accounted : Accounted f) (pagers : SamePagers f.k f'.k) (live : f'.live = f.live)
    (nchild : f'.nchild = f.nchild) (space : f'.space = f.space) (refs : f'.ktcbRefs = f.ktcbRefs)
    (zombies : ∀ u ∈ f'.zombies, f.live u = true) (once : f'.zombies.Nodup) : Accounted f' := by
  have parent : f'.parent = f.parent := funext fun u => by rw [Family.parent, Family.parent, live, pagers.pager u]
  have attached : f'.attached = f.attached := funext fun u => by rw [Family.attached, Family.attached, live, space]
  refine ⟨?_, ?_, fun u alive => ?_, live ▸ zombies, once⟩
  · rw [live, nchild, parent]
    exact accounted.nchild
  · rw [refs, attached]
    exact accounted.ktcbRefs
  · rw [pagers.pager u, live] at *
    exact accounted.pagers u alive

/-- What `thread_create` does: the new thread is a child of its creator, attached to a space that is new or shared. -/
structure Created (f : Family) (p t s : L4id) (f' : Family) : Prop where
  live : f'.live = update f.live t true
  pager : (f'.k.tcb t).pager = some p
  pagers : ∀ u, u ≠ t → (f'.k.tcb u).pager = (f.k.tcb u).pager
  space : f'.space = update f.space t (some s)
  ktcbRefs : f'.ktcbRefs = update f.ktcbRefs s (some ((f.ktcbRefs s).getD 0 + 1))
  nchild : f'.nchild = update (update f.nchild t 0) p (update f.nchild t 0 p + 1)
  zombies : f'.zombies = f.zombies

theorem Accounted.created (accounted : Accounted f) (created : Created f p t s f') (fresh : f.live t = false)
    (creator : f.live p = true) : Accounted f' := by
  have apart : p ≠ t := fun same => absurd creator (by simp [same, fresh])
  have parent : f'.parent = update f.parent t (some p) := funext fun u => by
    by_cases self : u = t
    · subst self
      simp [Family.parent, created.live, created.pager, apart]
    · simp [Family.parent, created.live, created.pagers u self, self]
  have attached : f'.attached = update f.attached t (some s) := funext fun u => by
    by_cases self : u = t
    · subst self
      simp [Family.attached, created.live, created.space]
    · simp [Family.attached, created.live, created.space, self]
  have orphan : ∀ q, f.parent t ≠ some q := fun q => by simp [Family.parent, fresh]
  have detached : ∀ r, f.attached t ≠ some r := fun r => by simp [Family.attached, fresh]
  refine ⟨fun q alive => ?_, fun r => ?_, fun u alive => ?_, fun u mem => ?_, created.zombies ▸ accounted.once⟩
  · rw [created.nchild, parent]
    by_cases self : q = p
    · subst self
      rw [update_self, held_gain (orphan q), update_of_ne apart, accounted.nchild q creator]
    · rw [update_of_ne self, held_update_of_ne (orphan q) (by simpa using Ne.symm self)]
      by_cases new : q = t
      · subst new
        rw [update_self, accounted.childless fresh]
      · rw [created.live, update_of_ne new] at alive
        rw [update_of_ne new, accounted.nchild q alive]
  · rw [created.ktcbRefs, attached]
    by_cases self : r = s
    · subst self
      have many := held_nonneg f.attached r
      have more : held f.attached r + 1 ≠ 0 := by omega
      rw [update_self, held_gain (detached r), if_neg more, accounted.ktcbRefs r]
      split_ifs with none
      · rw [none]; rfl
      · rfl
    · rw [update_of_ne self, held_update_of_ne (detached r) (by simpa using Ne.symm self), accounted.ktcbRefs r]
  · by_cases new : u = t
    · subst new
      exact ⟨p, created.pager, by rw [created.live, update_of_ne apart, creator]⟩
    · rw [created.live, update_of_ne new] at alive
      obtain ⟨q, pager, live⟩ := accounted.pagers u alive
      refine ⟨q, (created.pagers u new).trans pager, ?_⟩
      rw [created.live, update_of_ne (fun same => absurd live (by simp [same, fresh])), live]
  · have alive := accounted.zombies u (created.zombies ▸ mem)
    rw [created.live, update_of_ne (fun same => absurd alive (by simp [same, fresh])), alive]

/-- What deletion does: the thread and its reference are gone, and the space with its last reference. -/
structure Deleted (f : Family) (t s : L4id) (f' : Family) : Prop where
  pagers : SamePagers f.k f'.k
  live : f'.live = update f.live t false
  space : f'.space = f.space
  home : f.space t = some s
  childless : f.nchild t = 0
  ktcbRefs : f'.ktcbRefs = update f.ktcbRefs s
    (if (f.ktcbRefs s).getD 0 - 1 = 0 then none else some ((f.ktcbRefs s).getD 0 - 1))
  nchild : ∀ q, q ≠ t → f'.nchild q = if f.parent t = some q then f.nchild q - 1 else f.nchild q
  zombies : f'.zombies = f.zombies.erase t

theorem Accounted.deleted (accounted : Accounted f) (deleted : Deleted f t s f') (alive : f.live t = true) : Accounted f' := by
  have parent : f'.parent = update f.parent t none := funext fun u => by
    by_cases self : u = t
    · subst self
      simp [Family.parent, deleted.live]
    · simp [Family.parent, deleted.live, deleted.pagers.pager u, self]
  have attached : f'.attached = update f.attached t none := funext fun u => by
    by_cases self : u = t
    · subst self
      simp [Family.attached, deleted.live]
    · simp [Family.attached, deleted.live, deleted.space, self]
  have here : f.attached t = some s := by simp [Family.attached, alive, deleted.home]
  have left : ∀ u, f'.live u = true → u ≠ t ∧ f.live u = true := fun u now => by
    by_cases self : u = t
    · simp [self, deleted.live] at now
    · exact ⟨self, by rwa [deleted.live, update_of_ne self] at now⟩
  have childless : ∀ u, f.parent u ≠ some t :=
    held_eq_zero_iff.mp ((accounted.nchild t alive).symm.trans deleted.childless)
  refine ⟨fun q now => ?_, fun r => ?_, fun u now => ?_, fun u mem => ?_, deleted.zombies ▸ accounted.once.erase t⟩
  · obtain ⟨other, before⟩ := left q now
    rw [deleted.nchild q other, parent, accounted.nchild q before]
    split_ifs with child
    · rw [held_lose child (by simp)]
    · rw [held_update_of_ne child (by simp)]
  · rw [deleted.ktcbRefs, attached]
    by_cases self : r = s
    · subst self
      have some : held f.attached r ≠ 0 := fun zero => held_eq_zero_iff.mp zero t here
      rw [update_self, held_lose here (by simp), accounted.ktcbRefs r, if_neg some]
      rfl
    · have elsewhere : f.attached t ≠ some r := fun same => self (Option.some.inj (same.symm.trans here))
      rw [update_of_ne self, held_update_of_ne elsewhere (by simp), accounted.ktcbRefs r]
  · obtain ⟨other, before⟩ := left u now
    obtain ⟨q, pager, live⟩ := accounted.pagers u before
    refine ⟨q, (deleted.pagers.pager u).trans pager, ?_⟩
    have apart : q ≠ t := by
      rintro rfl
      exact childless u (by simp [Family.parent, before, pager, Ne.symm other])
    rw [deleted.live, update_of_ne apart, live]
  · rw [deleted.zombies] at mem
    obtain ⟨other, before⟩ := (accounted.once.mem_erase_iff).mp mem
    rw [deleted.live, update_of_ne other, accounted.zombies u before]

/-! ## The calls -/

/-- A call moves the thread between the lists and changes nothing else that is counted. -/
structure Moved (f f' : Family) (t : L4id) : Prop where
  pagers : SamePagers f.k f'.k
  live : f'.live = f.live
  nchild : f'.nchild = f.nchild
  space : f'.space = f.space
  ktcbRefs : f'.ktcbRefs = f.ktcbRefs
  zombies : f'.zombies = f.zombies ∨ f'.zombies = t :: f.zombies.erase t

theorem Accounted.moved (accounted : Accounted f) (moved : Moved f f' t) (alive : f.live t = true) : Accounted f' := by
  refine accounted.same moved.pagers moved.live moved.nchild moved.space moved.ktcbRefs ?_ ?_
  · rcases moved.zombies with same | more
    · exact same ▸ accounted.zombies
    · rw [more]
      exact List.forall_mem_cons.mpr ⟨alive, fun u mem => accounted.zombies u (List.mem_of_mem_erase mem)⟩
  · rcases moved.zombies with same | more
    · exact same ▸ accounted.once
    · rw [more]
      exact List.nodup_cons.mpr ⟨fun mem => (accounted.once.mem_erase_iff.mp mem).1 rfl, accounted.once.erase t⟩

/-- The end of `thread_wait`, `thread_destroy_child` and of a pager's `thread_destroy_self`. -/
theorem tcbRemove_ok (ok : tcbRemove t f = .ok f') :
    ∃ k', SamePagers f.k k' ∧ f' = { f with k := k', zombies := f.zombies.erase t } := by
  unfold tcbRemove at ok
  split at ok
  · exact nomatch ok
  · obtain ⟨k', ran, ok⟩ := bind_eq_ok.mp ok
    cases ok
    exact ⟨k', (keeps_threadRemove t f.k).ok ran, rfl⟩

theorem zombieAdd_ok (ok : zombieAdd t f = .ok f') : f' = { f with zombies := t :: f.zombies } := by
  unfold zombieAdd at ok
  split at ok
  · exact nomatch ok
  · cases ok
    rfl

theorem threadWait_moved (ok : threadWait t f = .ok f') : Moved f f' t := by
  obtain ⟨f1, removed, ok⟩ := bind_eq_ok.mp ok
  obtain ⟨k', same, rfl⟩ := tcbRemove_ok removed
  dsimp only at ok
  split at ok
  · exact nomatch ok
  · obtain rfl := zombieAdd_ok ok
    exact ⟨same, rfl, rfl, rfl, rfl, .inr rfl⟩

theorem Moved.after {f1 : Family} {k : State} (moved : Moved f1 f' t) (pagers : SamePagers f.k k) (before : f1 = { f with k := k }) :
    Moved f f' t := by
  subst before
  exact ⟨pagers.trans moved.pagers, moved.live, moved.nchild, moved.space, moved.ktcbRefs, moved.zombies⟩

theorem threadDestroyChild_moved (ok : threadDestroyChild t f = .ok f') : Moved f f' t :=
  (threadWait_moved ok).after (.modify _ rfl) rfl

theorem threadDestroySelf_moved (ok : threadDestroySelf f = .ok f') : Moved f f' f.k.current := by
  have exited : ∀ {k k'}, schedSuspend (k.modify f.k.current fun c => { c with flags := { c.flags with exited := true } }) = .ok k' →
      SamePagers k k' :=
    fun suspended => (SamePagers.modify _ rfl).trans ((keeps_schedSuspend _).ok suspended)
  unfold threadDestroySelf at ok
  dsimp only at ok
  split at ok
  · obtain ⟨f1, removed, ok⟩ := bind_eq_ok.mp ok
    obtain ⟨f2, added, ok⟩ := bind_eq_ok.mp ok
    obtain ⟨k', suspended, ok⟩ := bind_eq_ok.mp ok
    cases ok
    obtain ⟨k1, gone, rfl⟩ := tcbRemove_ok removed
    obtain rfl := zombieAdd_ok added
    exact ⟨gone.trans (exited suspended), rfl, rfl, rfl, rfl, .inr rfl⟩
  · obtain ⟨_, stays, ok⟩ := bind_eq_ok.mp ok
    cases stays
    obtain ⟨k', suspended, ok⟩ := bind_eq_ok.mp ok
    cases ok
    exact ⟨exited suspended, rfl, rfl, rfl, rfl, .inl rfl⟩

theorem deletable_childless (checked : deletable t f) : f.nchild t = 0 := by
  unfold deletable at checked
  tauto

theorem tcbDeletePager_ok (ok : tcbDeletePager t f = .ok f') :
    ∃ s refs, deletable t f ∧ f.space t = some s ∧ f.ktcbRefs s = some refs ∧ f' = ktcbCapFree t (dropRef s refs f) := by
  unfold tcbDeletePager at ok
  split at ok
  · exact nomatch ok
  · next checked =>
    split at ok
    · exact nomatch ok
    · next s home =>
      split at ok
      · exact nomatch ok
      · next refs found =>
        split at ok
        · exact nomatch ok
        · cases ok
          exact ⟨s, refs, not_not.mp checked, home, found, rfl⟩

theorem tcbDelete_ok (ok : tcbDelete t f = .ok f') :
    ∃ p s refs k', (f.k.tcb t).pager = some p ∧ deletable t f ∧ f.space t = some s ∧ f.ktcbRefs s = some refs ∧
      SamePagers f.k k' ∧
      f' = { ktcbCapFree t (dropRef s refs f) with k := k', nchild := update f.nchild p (f.nchild p - 1) } := by
  unfold tcbDelete at ok
  split at ok
  · exact nomatch ok
  · next p pager =>
    split at ok
    · exact nomatch ok
    · next checked =>
      split at ok
      · exact nomatch ok
      · next s home =>
        split at ok
        · exact nomatch ok
        · next refs found =>
          split at ok
          · exact nomatch ok
          · split at ok
            · exact nomatch ok
            · dsimp only at ok
              split at ok
              · obtain ⟨r, woken, ok⟩ := bind_eq_ok.mp ok
                cases ok
                exact ⟨p, s, refs, r.1, pager, not_not.mp checked, home, found, (keeps_wakeUp _ _ _).ok woken, rfl⟩
              · cases ok
                exact ⟨p, s, refs, f.k, pager, not_not.mp checked, home, found, .refl, rfl⟩

theorem deleteZombie_deleted (ok : deleteZombie t f = .ok f') (alive : f.live t = true) : ∃ s, Deleted f t s f' := by
  unfold deleteZombie at ok
  dsimp only at ok
  split at ok
  · next self =>
    obtain ⟨s, refs, checked, home, found, rfl⟩ := tcbDeletePager_ok ok
    have orphan : f.parent t = none := if_neg fun both => both.2 self
    have childless : f.nchild t = 0 := deletable_childless (f := { f.enter f.k.sched.idleTask with zombies := f.zombies.erase t }) checked
    refine ⟨s, ⟨fun _ => rfl⟩, rfl, rfl, home, childless, ?_, fun q _ => ?_, rfl⟩
    · rw [show f.ktcbRefs s = some refs from found]
      rfl
    · rw [orphan, if_neg (by simp)]
      rfl
  · next other =>
    obtain ⟨p, s, refs, k', pager, checked, home, found, same, rfl⟩ := tcbDelete_ok ok
    have child : f.parent t = some p := (if_pos ⟨alive, other⟩).trans pager
    have childless : f.nchild t = 0 := deletable_childless (f := { f.enter f.k.sched.idleTask with zombies := f.zombies.erase t }) checked
    refine ⟨s, ⟨same.pager⟩, rfl, rfl, home, childless, ?_, fun q _ => ?_, rfl⟩
    · rw [show f.ktcbRefs s = some refs from found]
      rfl
    · rw [child]
      change update f.nchild p (f.nchild p - 1) q = _
      by_cases self : q = p
      · subst self; simp
      · simp [self, Ne.symm self]

/-- The space a thread gets: one that is there, shared, or one that is new. -/
theorem threadSetupSpace_ok {flags : Word} {spid : L4id} {fresh : Option L4id} {code : Int}
    (new : ∀ s, fresh = some s → f.ktcbRefs s = none) (set : threadSetupSpace t flags spid fresh f = (f', code)) (fine : ¬ code < 0) :
    (∃ s, f' = addressSpaceAttach t s ((f.ktcbRefs s).getD 0) f) ∨
      f' = f ∧ flags &&& tcShareSpace = 0 ∧ flags &&& tcCopySpace = 0 ∧ flags &&& tcNewSpace = 0 := by
  have refused : ∀ {c : Int}, c < 0 → (f, c) ≠ (f', code) := fun low same => fine ((Prod.mk.inj same).2 ▸ low)
  have made : ∀ s, fresh = some s → (addressSpaceAttach t s 0 f, (0 : Int)) = (f', code) →
      ∃ s, f' = addressSpaceAttach t s ((f.ktcbRefs s).getD 0) f := fun s some set =>
    ⟨s, by rw [new s some]; exact (Prod.mk.inj set).1.symm⟩
  unfold threadSetupSpace at set
  split_ifs at set with share copy fresh'
  · split at set
    · exact absurd set (refused (by decide))
    · next refs found => exact .inl ⟨spid, by rw [found]; exact (Prod.mk.inj set).1.symm⟩
  · split at set
    · exact absurd set (refused (by decide))
    · split at set
      · exact absurd set (refused (by decide))
      · next s => exact .inl (made s rfl set)
  · split at set
    · exact absurd set (refused (by decide))
    · next s => exact .inl (made s rfl set)
  · exact .inr ⟨(Prod.mk.inj set).1.symm, not_not.mp share, not_not.mp copy, not_not.mp fresh'⟩

theorem threadCreate_created {a : CreateArgs} (ok : threadCreate a f = .ok (f', 0))
    (new : ∀ s, a.newSpace = some s → f.ktcbRefs s = none) : ∃ t s, a.newTid = some t ∧ Created f f.k.current t s f' := by
  have refused : ∀ {g : Family} {c : Int}, c ≠ 0 → (pure (g, c) : Except Bug (Family × Int)) ≠ .ok (f', 0) :=
    fun apart same => apart (Prod.mk.inj (Except.ok.inj same)).2
  unfold threadCreate at ok
  dsimp only at ok
  split at ok
  · exact absurd ok (refused (by decide))
  split at ok
  · exact absurd ok (refused (by decide))
  split at ok
  · exact absurd ok (refused (by decide))
  split at ok
  · exact absurd ok (refused (by decide))
  next t tid =>
    generalize set : threadSetupSpace t _ a.spid a.newSpace (tcbAllocInit t f) = r at ok
    obtain ⟨f1, code⟩ := r
    dsimp only at ok
    split at ok
    · next low => exact absurd ok (refused (ne_of_lt low))
    next fine =>
      split at ok
      · exact absurd ok (refused (by decide))
      obtain ⟨k', setup, ok⟩ := bind_eq_ok.mp ok
      have kept := (keeps_archSetupNewThread ..).ok setup
      cases ok
      rcases threadSetupSpace_ok (f := tcbAllocInit t f) new set fine with ⟨s, rfl⟩ | ⟨-, share, copy, fresh⟩
      · refine ⟨t, s, tid, rfl, ?_, fun u other => ?_, update_idem .., rfl, rfl, rfl⟩
        · exact (kept.pager t).trans (by rw [State.modify_tcb, if_pos rfl]; rfl)
        · refine (kept.pager u).trans ?_
          simp [addressSpaceAttach, tcbAllocInit, tcbInit, State.setWqh, other]
      · -- No space flag that is known: `arch_setup_new_thread` has no thread to copy from.
        simp [archSetupNewThread, share, copy, fresh] at setup

/-! ## Runs -/

/-- What a step does to the threads that are counted. -/
theorem step_cases {e : Event} (accounted : Accounted f) (able : enabled f e) (ok : step f e = .ok f') :
    (∃ t s, e = .deleteZombie t ∧ f.live t = true ∧ Deleted f t s f') ∨
    (∃ p t s, f.live p = true ∧ f.live t = false ∧ Created f p t s f') ∨
    (∃ t, f.live t = true ∧ Moved f f' t) ∨
    (∃ k, SamePagers f.k k ∧ f' = { f with k := k }) := by
  have entered : ∀ {p t}, Moved (f.enter p) f' t → Moved f f' t := fun {p _} moved =>
    moved.after (k := { f.k with current := p }) ⟨fun _ => rfl⟩ rfl
  cases e with
  | create p a =>
    obtain ⟨⟨g, code⟩, created, ok⟩ := bind_eq_ok.mp ok
    cases ok
    obtain ⟨creator, freshTid, freshSpace, succeeds⟩ := able
    obtain rfl : code = 0 := succeeds _ created
    obtain ⟨t, s, tid, made⟩ := threadCreate_created created freshSpace
    exact .inr (.inl ⟨p, t, s, creator, freshTid t tid,
      made.live, made.pager, made.pagers, made.space, made.ktcbRefs, made.nchild, made.zombies⟩)
  | destroyChild p t => exact .inr (.inr (.inl ⟨t, able.2.1, entered (threadDestroyChild_moved ok)⟩))
  | wait p t => exact .inr (.inr (.inl ⟨t, able.2, entered (threadWait_moved ok)⟩))
  | destroySelf t => exact .inr (.inr (.inl ⟨t, able.1, entered (threadDestroySelf_moved ok)⟩))
  | deleteZombie t =>
    have alive := accounted.zombies t able
    obtain ⟨s, deleted⟩ := deleteZombie_deleted ok alive
    exact .inl ⟨t, s, rfl, alive, deleted⟩
  | other k =>
    cases ok
    exact .inr (.inr (.inr ⟨k, ⟨able⟩, rfl⟩))

theorem Accounted.step {e : Event} (accounted : Accounted f) (able : enabled f e) (ok : step f e = .ok f') : Accounted f' := by
  rcases step_cases accounted able ok with ⟨t, s, -, alive, deleted⟩ | ⟨p, t, s, creator, fresh, created⟩ |
    ⟨t, alive, moved⟩ | ⟨k, same, rfl⟩
  · exact accounted.deleted deleted alive
  · exact accounted.created created fresh creator
  · exact accounted.moved moved alive
  · exact accounted.same same rfl rfl rfl rfl accounted.zombies accounted.once

/-- A space is there as long as a live thread is attached to it. -/
theorem Accounted.ktcbRefs_none (accounted : Accounted f) (s : L4id) :
    f.ktcbRefs s = none ↔ ∀ t, f.live t = true → f.space t ≠ some s := by
  have none : f.ktcbRefs s = none ↔ held f.attached s = 0 := by
    rw [accounted.ktcbRefs s]
    split_ifs with zero
    · simp [zero]
    · simp [zero]
  rw [none, held_eq_zero_iff]
  refine forall_congr' fun t => ?_
  rw [Family.attached]
  split_ifs with alive
  · simp [alive]
  · simp [alive]

/-- A step leaves each live thread alive and in its space, but for the one it deletes. -/
theorem step_attached {e : Event} (accounted : Accounted f) (able : enabled f e) (ok : step f e = .ok f')
    (alive : f.live t = true) (kept : e ≠ .deleteZombie t) : f'.live t = true ∧ f'.space t = f.space t := by
  rcases step_cases accounted able ok with ⟨u, s, rfl, -, deleted⟩ | ⟨p, u, s, -, fresh, created⟩ |
    ⟨u, -, moved⟩ | ⟨k, -, rfl⟩
  · have other : t ≠ u := fun same => kept (same ▸ rfl)
    rw [deleted.live, deleted.space, update_of_ne other]
    exact ⟨alive, rfl⟩
  · have other : t ≠ u := fun same => absurd alive (by simp [same, fresh])
    rw [created.live, created.space, update_of_ne other, update_of_ne other]
    exact ⟨alive, rfl⟩
  · rw [moved.live, moved.space]
    exact ⟨alive, rfl⟩
  · exact ⟨alive, rfl⟩

/-- A space goes with the last thread attached to it. -/
theorem step_ktcbRefs_none {e : Event} (accounted : Accounted f) (able : enabled f e) (ok : step f e = .ok f')
    (there : f.ktcbRefs s ≠ none) :
    f'.ktcbRefs s = none ↔
      ∃ t, e = .deleteZombie t ∧ f.space t = some s ∧ ∀ u, f.live u = true → f.space u = some s → u = t := by
  rw [(accounted.step able ok).ktcbRefs_none]
  constructor
  · intro left
    have gone : ∀ u, f.live u = true → f.space u = some s → e = .deleteZombie u := fun u alive here => by
      by_contra kept
      obtain ⟨now, same⟩ := step_attached accounted able ok alive kept
      exact left u now (same.trans here)
    obtain ⟨t, alive, here⟩ : ∃ t, f.live t = true ∧ f.space t = some s := by
      by_contra nobody
      exact there ((accounted.ktcbRefs_none s).mpr fun u alive here => nobody ⟨u, alive, here⟩)
    refine ⟨t, gone t alive here, here, fun u other same => ?_⟩
    exact Event.deleteZombie.inj ((gone u other same).symm.trans (gone t alive here))
  · rintro ⟨t, rfl, -, last⟩ u now here
    obtain ⟨r, deleted⟩ := deleteZombie_deleted ok (accounted.zombies t able)
    have other : u ≠ t := fun same => absurd now (by simp [same, deleted.live])
    rw [deleted.live, update_of_ne other] at now
    exact other (last u now (deleted.space ▸ here))

end Steps

/-- After the pagers are set up: each is its own pager, without children and alone in its space. -/
structure Boot (f : Family) : Prop where
  pager : ∀ t, f.live t = true → (f.k.tcb t).pager = some t
  nchild : ∀ t, f.live t = true → f.nchild t = 0
  space : ∀ t, f.live t = true → ∃ s, f.space t = some s ∧ f.ktcbRefs s = some 1
  alone : ∀ t u s, f.live t = true → f.live u = true → f.space t = some s → f.space u = some s → t = u
  ktcbRefs : ∀ s, f.ktcbRefs s ≠ none → ∃ t, f.live t = true ∧ f.space t = some s
  zombies : f.zombies = []

theorem Boot.accounted {f : Family} (boot : Boot f) : Accounted f := by
  have orphans : ∀ t, f.parent t = none := fun t => if_neg fun both => both.2 (boot.pager t both.1)
  refine ⟨fun p alive => ?_, fun s => ?_, fun t alive => ⟨t, boot.pager t alive, alive⟩, by simp [boot.zombies],
    by simp [boot.zombies]⟩
  · rw [boot.nchild p alive, eq_comm, held_eq_zero_iff]
    exact fun t child => nomatch (orphans t).symm.trans child
  · by_cases there : f.ktcbRefs s = none
    · have nobody : held f.attached s = 0 := held_eq_zero_iff.mpr fun t here => by
        rw [Family.attached] at here
        split_ifs at here with alive
        obtain ⟨r, home, one⟩ := boot.space t alive
        obtain rfl := Option.some.inj (here.symm.trans home)
        exact nomatch there.symm.trans one
      rw [if_pos nobody, there]
    · obtain ⟨t, alive, home⟩ := boot.ktcbRefs s there
      have one : held f.attached s = 1 := by
        have only : {u | f.attached u = some s} = {t} := Set.ext fun u => by
          simp only [Set.mem_ofPred_eq, Set.mem_singleton_iff, Family.attached]
          constructor
          · intro here
            split_ifs at here with other
            exact boot.alone u t s other alive here home
          · rintro rfl
            simp [alive, home]
        rw [held, only, Set.ncard_singleton]
        rfl
      obtain ⟨r, home', refs⟩ := boot.space t alive
      obtain rfl := Option.some.inj (home.symm.trans home')
      rw [one, if_neg (by decide), refs]

theorem Boot.reaches {f0 f : Family} (boot : Boot f0) (reached : machine.Reaches f0 f) : Accounted f :=
  reached.invariant (I := Accounted) (fun _ _ _ accounted able ok => accounted.step able ok) boot.accounted

/-- Over every run from the pagers that stops at no BUG: a thread's `nchild` is the number of the threads it pages that
are not deleted, a space's `ktcb_refs` is the number of those attached to it, and a step deletes a space if and only if
it deletes the last of these. -/
theorem children_accounted {f0 f : Family} (boot : Boot f0) (reached : machine.Reaches f0 f) :
    (∀ p, f.live p = true →
      f.nchild p = ({t | t ≠ p ∧ f.live t = true ∧ (f.k.tcb t).pager = some p} : Set L4id).ncard) ∧
    (∀ s refs, f.ktcbRefs s = some refs → refs = ({t | f.live t = true ∧ f.space t = some s} : Set L4id).ncard) ∧
    (∀ s, f.ktcbRefs s = none ↔ ∀ t, f.live t = true → f.space t ≠ some s) ∧
    (∀ e f' s, machine.enabled f e → machine.step f e = .ok f' → f.ktcbRefs s ≠ none →
      (f'.ktcbRefs s = none ↔
        ∃ t, e = .deleteZombie t ∧ f.space t = some s ∧ ∀ u, f.live u = true → f.space u = some s → u = t)) := by
  have accounted := boot.reaches reached
  refine ⟨fun p alive => ?_, fun s refs found => ?_, accounted.ktcbRefs_none, fun e f' s able ok there =>
     step_ktcbRefs_none accounted able ok there⟩
  · rw [accounted.nchild p alive, held]
    congr 2
    refine Set.ext fun t => ?_
    rw [Set.mem_ofPred_eq, Set.mem_ofPred_eq, Family.parent]
    constructor
    · intro child
      split_ifs at child with both
      exact ⟨fun same => both.2 (same ▸ child), both.1, child⟩
    · rintro ⟨other, live, pager⟩
      rw [if_pos ⟨live, fun self => other (Option.some.inj (self.symm.trans pager))⟩, pager]
  · rw [accounted.ktcbRefs s] at found
    split_ifs at found
    rw [← Option.some.inj found, held]
    congr 2
    refine Set.ext fun t => ?_
    rw [Set.mem_ofPred_eq, Set.mem_ofPred_eq, Family.attached]
    split_ifs with alive
    · simp [alive]
    · simp [alive]

/-- The pager 1 in its space 1. -/
def onePager : Family :=
  { k := { tcb := update (fun _ => {}) 1 { state := .runnable, pager := some 1 }
           present := update (fun _ => false) 1 true
           sched := Scheduler.ready [1]
           current := 1 }
    live := update (fun _ => false) 1 true
    space := update (fun _ => none) 1 (some 1)
    ktcbRefs := update (fun _ => none) 1 (some 1) }

theorem onePager_boot : Boot onePager := by
  have one : ∀ t, onePager.live t = true → t = 1 := fun t alive => by
    by_contra other
    change update (fun _ => false) 1 true t = true at alive
    rw [update_of_ne other] at alive
    exact nomatch alive
  refine ⟨fun t alive => ?_, fun _ _ => rfl, fun t alive => ⟨1, ?_⟩,
    fun t u _ first second _ _ => (one t first).trans (one u second).symm, fun s there => ⟨1, rfl, ?_⟩, rfl⟩
  · obtain rfl := one t alive
    rfl
  · obtain rfl := one t alive
    exact ⟨rfl, rfl⟩
  · by_contra other
    have elsewhere : s ≠ 1 := fun same => other (congrArg some same.symm)
    refine there ?_
    change update (fun _ => none) 1 (some 1) s = none
    rw [update_of_ne elsewhere]

/-- It creates the thread 2 in a space of its own. -/
def newChild : CreateArgs := { flags := tcNewSpace, newTid := some 2, newSpace := some 2 }

def withChild : Family := ((threadCreate newChild (onePager.enter 1)).toOption.get rfl).1

theorem reaches_withChild : machine.Reaches onePager withChild := by
  refine .next (e := Event.create 1 newChild) .start ⟨rfl, ?_, ?_, fun r created => ?_⟩ trivial rfl
  · rintro t ⟨⟩
    rfl
  · rintro s ⟨⟩
    rfl
  · cases created
    rfl

/-- The child, never started, has been waited for. -/
def waitedFor : Family := ((threadWait 2 (withChild.enter 1)).toOption.get rfl)

theorem reaches_waitedFor : machine.Reaches onePager waitedFor :=
  reaches_withChild.next (e := Event.wait 1 2) ⟨rfl, rfl⟩ trivial rfl

theorem children_accounted_one : waitedFor.nchild 1 = 1 ∧
    waitedFor.nchild 1 = ({t | t ≠ 1 ∧ waitedFor.live t = true ∧ (waitedFor.k.tcb t).pager = some 1} : Set L4id).ncard ∧
    ∃ f', machine.step waitedFor (.deleteZombie 2) = .ok f' ∧ f'.ktcbRefs 2 = none ∧
      ∀ u, waitedFor.live u = true → waitedFor.space u = some 2 → u = 2 := by
  have ⟨nchild, _, _, spaces⟩ := children_accounted onePager_boot reaches_waitedFor
  have zombie : 2 ∈ waitedFor.zombies := List.mem_singleton.mpr rfl
  have there : waitedFor.ktcbRefs 2 ≠ none := nofun
  refine ⟨rfl, nchild 1 rfl, _, rfl, rfl, ?_⟩
  obtain ⟨t, same, -, last⟩ := (spaces (.deleteZombie 2) _ 2 zombie rfl there).mp rfl
  cases same
  exact last

end Codezero.Kernel.Children
