import Codezero.Kernel.MutexControl

/-!
# The kernel half of user mutexes keeps tallies

For every key the mutex queue, its two wait queues and its counter are a tally of wake-ups owed: a lock
arrives at it, an unlock releases it. The two bodies keep that, whatever the other keys do.
-/

namespace Codezero.Kernel
open Codezero.Lib
open Function (update update_of_ne update_self)

/-- The checks of mutexes, of mutex queues and of the wait queues in them. -/
def Bug.ofMutexQueue : Bug → Bool
  | .holdersSleep | .contendersSleep | .sleepers | .taskListEmpty | .mutexNotLocked | .nlocks => true
  | _ => false

/-- What sleeping and waking leave alone. -/
structure Frame (k k' : State) : Prop where
  lock : k'.lock = k.lock
  current : k'.current = k.current
  flags : ∀ t, (k'.tcb t).flags = (k.tcb t).flags
  nlocks : ∀ t, (k'.tcb t).nlocks = (k.tcb t).nlocks

theorem Frame.refl (k : State) : Frame k k := ⟨rfl, rfl, fun _ => rfl, fun _ => rfl⟩

theorem Frame.trans {k k' k'' : State} (first : Frame k k') (second : Frame k' k'') : Frame k k'' where
  lock := second.lock.trans first.lock
  current := second.current.trans first.current
  flags t := (second.flags t).trans (first.flags t)
  nlocks t := (second.nlocks t).trans (first.nlocks t)

/-- The threads `ts` were taken from the front of queue `q`. -/
structure Woke (q : Wqh) (ts : List L4id) (w w' : Queues Wqh L4id) : Prop where
  wf : w'.Wf
  front : w.list q = ts ++ w'.list q
  others : ∀ r, r ≠ q → w'.list r = w.list r
  home : ∀ t, w'.home t = if t ∈ ts then none else w.home t

/-- Every thread but `c` stayed where it was or was woken. -/
def Left (c : L4id) (w w' : Queues Wqh L4id) : Prop := ∀ t, t ≠ c → w'.home t = w.home t ∨ w'.home t = none

section
variable {q r : Wqh} {t c : L4id} {ts : List L4id} {w w' w'' : Queues Wqh L4id} {k k' : State}

theorem Left.refl : Left c w w := fun _ _ => .inl rfl

theorem Left.trans (first : Left c w w') (second : Left c w' w'') : Left c w w'' := by
  intro t apart
  rcases second t apart with same | gone
  · rw [same]; exact first t apart
  · exact .inr gone

theorem Left.insert : Left t w (w.insert false q t) := fun u apart => .inl (by simp [Queues.insert, apart])

theorem Woke.none (wf : w.Wf) : Woke q [] w w := ⟨wf, rfl, fun _ _ => rfl, fun _ => by simp⟩

theorem Woke.trans {us : List L4id} (first : Woke q ts w w') (second : Woke q us w' w'') : Woke q (ts ++ us) w w'' where
  wf := second.wf
  front := by rw [first.front, second.front, List.append_assoc]
  others r apart := (second.others r apart).trans (first.others r apart)
  home t := by
    rw [second.home, first.home]
    by_cases early : t ∈ ts <;> by_cases late : t ∈ us <;> simp [early, late]

theorem Woke.head {rest : List L4id} (wf : w.Wf) (list : w.list q = t :: rest) : Woke q [t] w (w.remove q t) where
  wf := wf.remove (wf.home_of_mem (i := q) (by simp [list]))
  front := by simp [Queues.remove, list]
  others r apart := by simp [Queues.remove, apart]
  home u := by
    by_cases self : u = t
    · subst self; simp [Queues.remove]
    · simp [Queues.remove, self]

theorem Woke.left (woke : Woke q ts w w') : Left c w w' := by
  intro t _
  rw [woke.home]
  split
  · exact .inr rfl
  · exact .inl rfl

theorem Woke.still_free (woke : Woke q ts w w') (free : w.home t = Option.none) : w'.home t = Option.none := by
  rw [woke.home]
  split
  · rfl
  · exact free

/-- A sleeper taken off its queue, marked if it is interrupted, and resumed. -/
structure Taken (q : Wqh) (t : L4id) (i : Bool) (k k' : State) : Prop where
  waits : k'.waits = k.waits.remove q t
  lock : k'.lock = k.lock
  current : k'.current = k.current
  nlocks : ∀ u, (k'.tcb u).nlocks = (k.tcb u).nlocks
  flags : ∀ u, u ≠ t → (k'.tcb u).flags = (k.tcb u).flags
  flag : (k'.tcb t).flags = { (k.tcb t).flags with interrupted := (k.tcb t).flags.interrupted || i }

theorem taken_of_resumed {i : Bool} (resumed : schedResumeAsync t (wqhTake q t i k) = .ok k') : Taken q t i k k' := by
  obtain ⟨σ, _, rfl⟩ := schedResumeAsync_ok.mp resumed
  refine ⟨?_, rfl, rfl, fun u => ?_, fun u other => ?_, ?_⟩
  · rw [← waits_wqhTake (i := i)]
    exact waits_modify (k := wqhTake q t i k) (f := fun c => { c with state := .runnable }) rfl
  · by_cases self : u = t
    · subst self; simp [wqhTake_tcb_self]
    · simp [self, wqhTake_tcb_of_ne self]
  · simp [other, wqhTake_tcb_of_ne other]
  · simp [wqhTake_tcb_self]

theorem frame_take (resumed : schedResumeAsync t (wqhTake q t false k) = .ok k') :
    k'.waits = k.waits.remove q t ∧ Frame k k' := by
  have taken := taken_of_resumed resumed
  refine ⟨taken.waits, taken.lock, taken.current, fun u => ?_, taken.nlocks⟩
  by_cases self : u = t
  · subst self; rw [taken.flag]; simp
  · exact taken.flags u self

/-- What `schedResumeAsync` can stop at. -/
theorem schedResumeAsync_error {b : Bug} (stopped : schedResumeAsync t k = .error b) : b.ofMutexQueue = false := by
  unfold schedResumeAsync schedRqAddTask at stopped
  by_cases linked : k.sched.onRq t
  · rw [if_pos linked] at stopped
    cases stopped; rfl
  · rw [if_neg linked] at stopped
    cases stopped

/-- An asynchronous `wake_up` takes the first sleeper, if there is one. -/
theorem wakeUp_woke (wf : k.waits.Wf) : Sat (wakeUp q {} k)
    (fun x => Woke q ((k.wqh q).taskList.take 1) k.waits x.1.waits ∧ Frame k x.1) (fun b => b.ofMutexQueue = false) := by
  have counted : 0 ≤ (k.wqh q).sleepers := wf.count_nonneg (i := q)
  unfold wakeUp
  rw [if_neg (by omega)]
  split
  · next sleeping =>
    have full : (k.wqh q).taskList ≠ [] := wf.count_pos_iff.mp sleeping
    split
    · next empty => exact absurd empty full
    · next t rest list =>
      refine Sat.bind_eq (fun b stopped => schedResumeAsync_error stopped) fun k' resumed => ?_
      obtain ⟨waits, frame⟩ := frame_take resumed
      refine ⟨?_, frame⟩
      rw [list, waits]
      exact Woke.head wf list
  · next quiet =>
    have empty : (k.wqh q).taskList = [] := by
      by_contra full
      exact quiet (wf.count_pos_iff.mpr full)
    rw [empty]
    exact ⟨Woke.none wf, Frame.refl k⟩

theorem schedRqRemoveTask_error {σ : Scheduler} {b : Bug} (stopped : schedRqRemoveTask t σ = .error b) :
    b.ofMutexQueue = false := by
  unfold schedRqRemoveTask at stopped
  split at stopped
  · cases stopped; rfl
  · split at stopped
    · cases stopped; rfl
    · split at stopped
      · cases stopped; rfl
      · cases stopped

/-- The current thread goes to sleep at the end of a queue. -/
theorem waitOnPrepare_sat (q : Wqh) (k : State) : Sat (waitOnPrepare q k)
    (fun k' => k'.waits = k.waits.insert false q k.current ∧ Frame k k') (fun b => b.ofMutexQueue = false) := by
  cases prepared : waitOnPrepare q k with
  | error b =>
    unfold waitOnPrepare schedPrepareSleep at prepared
    cases removed : schedRqRemoveTask k.current k.sched with
    | ok σ =>
      have through := waitOnPrepare_ok (q := q) (k := k).mpr ⟨σ, removed, rfl⟩
      exact nomatch through.symm.trans prepared
    | error b' =>
      have same : b' = b := by
        change (schedRqRemoveTask k.current k.sched >>= _) = _ at prepared
        rw [removed] at prepared
        cases prepared; rfl
      exact same ▸ schedRqRemoveTask_error removed
  | ok k' =>
    obtain ⟨σ, _, rfl⟩ := waitOnPrepare_ok.mp prepared
    change (slept k.current q k σ).waits = _ ∧ Frame k (slept k.current q k σ)
    refine ⟨slept_waits, rfl, rfl, fun u => ?_, fun u => ?_⟩ <;> by_cases self : u = k.current
    · subst self; simp [slept_tcb_self]
    · rw [slept_tcb_of_ne self]
    · subst self; simp [slept_tcb_self]
    · rw [slept_tcb_of_ne self]

end

/-! ## The list of mutex queues -/

section
variable {key key' : Word} {q q' : MutexQueue} {mq : MutexQueueHead} {addr : Nat} {n : Int}

/-- Every queue has its own memory and its own key. -/
structure MutexQueueHead.Wf (mq : MutexQueueHead) : Prop where
  addrs : (mq.list.map MutexQueue.addr).Nodup
  keys : (mq.list.map MutexQueue.physical).Nodup

theorem find_mem (found : mutexControlFind key mq = some q) : q ∈ mq.list ∧ q.physical = key := by
  have held := List.find?_some found
  exact ⟨List.mem_of_find?_eq_some found, by simpa using held⟩

theorem MutexQueueHead.Wf.find (wf : mq.Wf) (mem : q ∈ mq.list) : mutexControlFind q.physical mq = some q := by
  cases found : mutexControlFind q.physical mq with
  | none => exact absurd (List.find?_eq_none.mp found q mem) (by simp)
  | some q' =>
    obtain ⟨mem', same⟩ := find_mem found
    rw [List.inj_on_of_nodup_map wf.keys mem' mem same]

theorem MutexQueueHead.Wf.addr_ne (wf : mq.Wf) (first : mutexControlFind key mq = some q)
    (second : mutexControlFind key' mq = some q') (apart : key' ≠ key) : q'.addr ≠ q.addr := by
  obtain ⟨mem, rfl⟩ := find_mem first
  obtain ⟨mem', rfl⟩ := find_mem second
  intro same
  exact apart (congrArg _ (List.inj_on_of_nodup_map wf.addrs mem' mem same))

theorem find_add : mutexControlFind key' (mutexControlAdd q mq) =
    if q.physical = key' then some q else mutexControlFind key' mq := by
  unfold mutexControlFind mutexControlAdd
  rw [List.find?_cons]
  split
  · next same => rw [if_pos (by simpa using same)]
  · next other => rw [if_neg (by simpa using other)]

theorem find_set : mutexControlFind key (setContenders addr n mq) =
    (mutexControlFind key mq).map fun q => if q.addr = addr then { q with contenders := n } else q := by
  unfold mutexControlFind setContenders
  rw [List.find?_map]
  congr 1
  refine congrArg (fun f => List.find? f mq.list) (funext fun q => ?_)
  simp only [Function.comp_apply]
  split <;> rfl

theorem MutexQueueHead.Wf.remove (wf : mq.Wf) : (mutexControlRemove addr mq).Wf :=
  ⟨wf.addrs.sublist (List.Sublist.map _ List.filter_sublist), wf.keys.sublist (List.Sublist.map _ List.filter_sublist)⟩

theorem MutexQueueHead.Wf.find_remove (wf : mq.Wf) (found : mutexControlFind key mq = some q) :
    mutexControlFind key' (mutexControlRemove q.addr mq) = if key' = key then none else mutexControlFind key' mq := by
  obtain ⟨mem, held⟩ := find_mem found
  have kept : ∀ q', q' ∈ (mutexControlRemove q.addr mq).list ↔ q' ∈ mq.list ∧ q'.addr ≠ q.addr := fun q' => by
    simp [mutexControlRemove]
  split
  · next same =>
    refine List.find?_eq_none.mpr fun q' mem' wanted => ?_
    obtain ⟨listed, apart⟩ := (kept q').mp mem'
    have equal : q' = q := List.inj_on_of_nodup_map wf.keys listed mem (by
      rw [held, ← same]; simpa using wanted)
    exact apart (congrArg _ equal)
  · next other =>
    cases found' : mutexControlFind key' mq with
    | none =>
      refine List.find?_eq_none.mpr fun q' mem' => ?_
      exact List.find?_eq_none.mp found' q' ((kept q').mp mem').1
    | some q' =>
      obtain ⟨listed, rfl⟩ := find_mem found'
      exact wf.remove.find ((kept q').mpr ⟨listed, wf.addr_ne found found' other⟩)

theorem MutexQueueHead.Wf.set (wf : mq.Wf) : (setContenders addr n mq).Wf := by
  have addrs : (setContenders addr n mq).list.map MutexQueue.addr = mq.list.map MutexQueue.addr := by
    simp only [setContenders, List.map_map]
    refine List.map_congr_left fun q _ => ?_
    simp only [Function.comp_apply]
    split <;> rfl
  have keys : (setContenders addr n mq).list.map MutexQueue.physical = mq.list.map MutexQueue.physical := by
    simp only [setContenders, List.map_map]
    refine List.map_congr_left fun q _ => ?_
    simp only [Function.comp_apply]
    split <;> rfl
  exact ⟨addrs ▸ wf.addrs, keys ▸ wf.keys⟩

theorem MutexQueueHead.Wf.add (wf : mq.Wf) (fresh : ∀ q' ∈ mq.list, q'.addr ≠ q.addr)
    (absent : mutexControlFind q.physical mq = none) : (mutexControlAdd q mq).Wf := by
  refine ⟨List.nodup_cons.mpr ⟨fun mem => ?_, wf.addrs⟩, List.nodup_cons.mpr ⟨fun mem => ?_, wf.keys⟩⟩
  · obtain ⟨q', mem', same⟩ := List.mem_map.mp mem
    exact fresh q' mem' same
  · obtain ⟨q', mem', same⟩ := List.mem_map.mp mem
    simpa [same] using List.find?_eq_none.mp absent q' mem'

end

/-! ## Linking queues and tallies -/

/-- The queue of one key, with what sleeps in it, is the key's tally. -/
def KeyLinked (d : Tally L4id) (w : Queues Wqh L4id) : Option MutexQueue → Prop
  | none => d = {}
  | some q => q.contenders = d.owed ∧ w.list (.holders q.addr) = d.holder.toList ∧ w.list (.contenders q.addr) = d.waiting

structure Linked (D : Word → Tally L4id) (w : Queues Wqh L4id) (mq : MutexQueueHead) : Prop where
  waits : w.Wf
  queues : mq.Wf
  tallies : ∀ key, (D key).Wf
  each : ∀ key, KeyLinked (D key) w (mutexControlFind key mq)
  /-- Nobody sleeps in the wait queues of memory that is not a mutex queue. -/
  placed : ∀ t a, w.home t = some (.holders a) ∨ w.home t = some (.contenders a) → ∃ q ∈ mq.list, q.addr = a

section
variable {D D' : Word → Tally L4id} {d : Tally L4id} {w w' : Queues Wqh L4id} {mq mq' : MutexQueueHead}
  {key key' : Word} {t c : L4id} {a : Nat}

theorem Linked.waiting_nodup (linked : Linked D w mq) : (D key).waiting.Nodup := by
  have each := linked.each key
  cases found : mutexControlFind key mq with
  | none => rw [found] at each; rw [show D key = {} from each]; exact List.nodup_nil
  | some q => rw [found] at each; rw [← each.2.2]; exact linked.waits.nodup _

/-- Who is held up at a tally sleeps in the queue of its key. -/
theorem Linked.home_of_has (linked : Linked D w mq) (held : (D key).Has t) : ∃ q, mutexControlFind key mq = some q ∧
    (w.home t = some (.holders q.addr) ∨ w.home t = some (.contenders q.addr)) := by
  have each := linked.each key
  cases found : mutexControlFind key mq with
  | none =>
    rw [found] at each
    rw [show D key = {} from each] at held
    rcases held with waits | holds
    · exact nomatch waits
    · exact nomatch holds
  | some q =>
    obtain ⟨_, holders, contenders⟩ : KeyLinked (D key) w (some q) := found ▸ each
    refine ⟨q, rfl, ?_⟩
    rcases held with waits | holds
    · exact .inr (linked.waits.home_of_mem (contenders ▸ waits))
    · exact .inl (linked.waits.home_of_mem (by rw [holders, holds]; simp))

/-- A thread that sleeps nowhere is held up at no tally. -/
theorem Linked.not_has (linked : Linked D w mq) (free : w.home t = none) : ¬ (D key).Has t := by
  intro held
  obtain ⟨q, _, home⟩ := linked.home_of_has held
  rcases home with home | home <;> rw [free] at home <;> exact absurd home.symm (Option.some_ne_none _)

/-- Who sleeps in a mutex queue is held up at some tally. -/
theorem Linked.has_of_home (linked : Linked D w mq)
    (home : w.home t = some (.holders a) ∨ w.home t = some (.contenders a)) : ∃ key, (D key).Has t := by
  obtain ⟨q, listed, rfl⟩ := linked.placed t a home
  obtain ⟨_, holders, contenders⟩ : KeyLinked (D q.physical) w (some q) :=
    linked.queues.find listed ▸ linked.each q.physical
  refine ⟨q.physical, ?_⟩
  rcases home with home | home
  · have mem := (linked.waits.mem_iff _ _).mpr home
    rw [holders, Option.mem_toList] at mem
    exact .inr mem
  · have mem := (linked.waits.mem_iff _ _).mpr home
    rw [contenders] at mem
    exact .inl mem

theorem Linked.one_key (linked : Linked D w mq) (first : (D key).Has t) (second : (D key').Has t) : key = key' := by
  obtain ⟨q, found, home⟩ := linked.home_of_has first
  obtain ⟨q', found', home'⟩ := linked.home_of_has second
  by_contra apart
  have addr : q'.addr ≠ q.addr := linked.queues.addr_ne found found' (Ne.symm apart)
  rcases home with home | home <;> rcases home' with home' | home' <;> rw [home] at home' <;>
    simp only [Option.some.injEq, Wqh.holders.injEq, Wqh.contenders.injEq, reduceCtorEq] at home' <;>
    exact addr home'.symm

/-- Between two bodies a thread of the key sleeps on exactly if the new tally still has it. -/
theorem Linked.still (linked : Linked D w mq) (linked' : Linked (update D key d) w' mq') (left : Left c w w')
    (other : t ≠ c) (held : (D key).Has t) : w'.home t ≠ none ↔ d.Has t := by
  constructor
  · intro sleeps
    obtain ⟨q, _, home⟩ := linked.home_of_has held
    have same : w'.home t = w.home t := (left t other).resolve_right sleeps
    rw [← same] at home
    obtain ⟨key', has⟩ := linked'.has_of_home home
    by_cases here : key' = key
    · subst here
      rwa [update_self] at has
    · rw [update_of_ne here] at has
      exact absurd (linked.one_key has held) here
  · intro has
    have here : (update D key d key).Has t := by rwa [update_self]
    obtain ⟨q, _, home⟩ := linked'.home_of_has here
    rcases home with home | home <;> simp [home]

end

/-- What a body changes is the queue of its key. -/
structure Local (addr : Nat) (w w' : Queues Wqh L4id) : Prop where
  wf : w'.Wf
  others : ∀ r, r ≠ .holders addr → r ≠ .contenders addr → w'.list r = w.list r
  home : ∀ t, w'.home t = w.home t ∨ w'.home t = none ∨ w'.home t = some (.holders addr) ∨
    w'.home t = some (.contenders addr)

section
variable {D : Word → Tally L4id} {w w' w'' : Queues Wqh L4id} {mq : MutexQueueHead} {key : Word} {q : MutexQueue}
  {d : Tally L4id} {addr a : Nat} {t : L4id} {ts : List L4id}

theorem Local.trans (first : Local addr w w') (second : Local addr w' w'') : Local addr w w'' where
  wf := second.wf
  others r holders contenders := (second.others r holders contenders).trans (first.others r holders contenders)
  home t := by
    rcases second.home t with same | rest
    · rw [same]; exact first.home t
    · exact .inr rest

theorem Local.refl (wf : w.Wf) : Local addr w w := ⟨wf, fun _ _ _ => rfl, fun _ => .inl rfl⟩

/-- Where a sleeper is after the change it was before, unless it is at the queue. -/
theorem Local.sleeps (moved : Local addr w w') (home : w'.home t = some (.holders a) ∨ w'.home t = some (.contenders a)) :
    a = addr ∨ w.home t = some (.holders a) ∨ w.home t = some (.contenders a) := by
  rcases moved.home t with same | gone | holder | contender
  · exact .inr (same ▸ home)
  · simp [gone] at home
  · exact .inl (by simpa [holder, eq_comm] using home)
  · exact .inl (by simpa [contender, eq_comm] using home)

theorem Woke.moved {r : Wqh} (woke : Woke r ts w w') (place : r = .holders addr ∨ r = .contenders addr) : Local addr w w' := by
  refine ⟨woke.wf, fun s holders contenders => woke.others s ?_, fun t => ?_⟩
  · rcases place with rfl | rfl <;> assumption
  · rw [woke.home]
    split
    · exact .inr (.inl rfl)
    · exact .inl rfl

theorem local_insert {r : Wqh} (wf : w.Wf) (free : w.home t = none) (place : r = .holders addr ∨ r = .contenders addr) :
    Local addr w (w.insert false r t) := by
  refine ⟨wf.insert false free, fun s holders contenders => ?_, fun u => ?_⟩
  · have apart : s ≠ r := by rcases place with rfl | rfl <;> assumption
    simp [Queues.insert, apart]
  · by_cases self : u = t
    · subst self
      rcases place with rfl | rfl <;> simp [Queues.insert]
    · simp [Queues.insert, self]

/-- The queue of another key keeps its tally. -/
theorem KeyLinked.other {o : Option MutexQueue} (linked : KeyLinked d w o) (moved : Local addr w w')
    (apart : ∀ q, o = some q → q.addr ≠ addr) : KeyLinked d w' o := by
  cases o with
  | none => exact linked
  | some q =>
    have other := apart q rfl
    obtain ⟨count, holders, contenders⟩ := linked
    refine ⟨count, ?_, ?_⟩
    · rw [moved.others _ (by simpa using other) (by simp)]; exact holders
    · rw [moved.others _ (by simp) (by simpa using other)]; exact contenders

theorem Linked.tallies_update (linked : Linked D w mq) (wf : d.Wf) : ∀ other, (update D key d other).Wf :=
  (Function.forall_update_iff D fun _ d => d.Wf).mpr ⟨wf, fun other _ => linked.tallies other⟩

/-- The queue of `key` changed in place. -/
theorem Linked.touch (linked : Linked D w mq) (found : mutexControlFind key mq = some q) (moved : Local q.addr w w')
    (wf : d.Wf) {n : Int} (count : n = d.owed) (holders : w'.list (.holders q.addr) = d.holder.toList)
    (contenders : w'.list (.contenders q.addr) = d.waiting) :
    Linked (update D key d) w' (setContenders q.addr n mq) where
  waits := moved.wf
  queues := linked.queues.set
  tallies := linked.tallies_update wf
  each other := by
    rw [find_set]
    by_cases same : other = key
    · subst same
      rw [found, update_self]
      simpa [KeyLinked] using ⟨count, holders, contenders⟩
    · rw [update_of_ne same]
      have kept := (linked.each other).other moved fun q' found' => linked.queues.addr_ne found found' same
      cases found' : mutexControlFind other mq with
      | none => rw [found'] at kept; exact kept
      | some q' =>
        rw [found'] at kept
        simpa [linked.queues.addr_ne found found' same] using kept
  placed u a home := by
    have kept : ∀ q' ∈ mq.list, ∃ q'' ∈ (setContenders q.addr n mq).list, q''.addr = q'.addr := fun q' mem =>
      ⟨_, List.mem_map.mpr ⟨q', mem, rfl⟩, by split <;> rfl⟩
    rcases moved.sleeps home with rfl | before
    · exact kept q (find_mem found).1
    · obtain ⟨q', mem, rfl⟩ := linked.placed u a before
      exact kept q' mem

/-- The queue of `key` is freed with nobody in it. -/
theorem Linked.drop (linked : Linked D w mq) (found : mutexControlFind key mq = some q) (moved : Local q.addr w w')
    (holders : w'.list (.holders q.addr) = []) (contenders : w'.list (.contenders q.addr) = []) :
    Linked (update D key {}) w' (mutexControlRemove q.addr mq) where
  waits := moved.wf
  queues := linked.queues.remove
  tallies := linked.tallies_update Tally.wf_empty
  each other := by
    rw [linked.queues.find_remove found]
    by_cases same : other = key
    · subst same; simp [KeyLinked]
    · rw [update_of_ne same, if_neg same]
      exact (linked.each other).other moved fun q' found' => linked.queues.addr_ne found found' same
  placed u a home := by
    have apart : a ≠ q.addr := by
      rintro rfl
      rcases home with holder | contender
      · have mem := (moved.wf.mem_iff _ _).mpr holder
        simp [holders] at mem
      · have mem := (moved.wf.mem_iff _ _).mpr contender
        simp [contenders] at mem
    obtain ⟨q', mem, rfl⟩ := linked.placed u a ((moved.sleeps home).resolve_left apart)
    exact ⟨q', List.mem_filter.mpr ⟨mem, by simpa using apart⟩, rfl⟩

/-- A new queue for `key`, with its first sleeper. -/
theorem Linked.create (linked : Linked D w mq) (absent : mutexControlFind key mq = none)
    (fresh : ∀ q' ∈ mq.list, q'.addr ≠ addr) (moved : Local addr w w') (wf : d.Wf) {n : Int} (count : n = d.owed)
    (holders : w'.list (.holders addr) = d.holder.toList) (contenders : w'.list (.contenders addr) = d.waiting) :
    Linked (update D key d) w' (mutexControlAdd ⟨addr, key, n⟩ mq) where
  waits := moved.wf
  queues := linked.queues.add fresh absent
  tallies := linked.tallies_update wf
  each other := by
    rw [find_add]
    by_cases same : other = key
    · subst same
      rw [if_pos rfl, update_self]
      exact ⟨count, holders, contenders⟩
    · rw [if_neg (Ne.symm same), update_of_ne same]
      exact (linked.each other).other moved fun q' found' => fresh q' (find_mem found').1
  placed u a home := by
    rcases moved.sleeps home with rfl | before
    · exact ⟨⟨a, key, n⟩, List.mem_cons_self, rfl⟩
    · obtain ⟨q', mem, rfl⟩ := linked.placed u a before
      exact ⟨q', List.mem_cons_of_mem _ mem, rfl⟩

end

/-! ## The bodies -/

/-- The largest value of an `int`. -/
def intMax : Nat := 2 ^ 31 - 1

theorem int32_eq {x : Int} (low : -1 ≤ x) (high : x ≤ intMax) : int32 x = x := by
  have bound : (intMax : Int) = 2 ^ 31 - 1 := by decide
  exact Int.bmod_eq_of_le (by omega) (by omega)

section
variable {D : Word → Tally L4id} {s : Ctl} {key : Word} {q : MutexQueue} {addr : Nat}

/-- A queue with nobody in it passes the checks of `mutex_control_delete`. -/
theorem dropQueue_ok (wf : s.k.waits.Wf) (holders : s.k.waits.list (.holders addr) = [])
    (contenders : s.k.waits.list (.contenders addr) = []) :
    dropQueue addr s = .ok { s with mq := mutexControlRemove addr s.mq } := by
  have noHolder : (s.k.wqh (.holders addr)).sleepers = 0 := by
    have count := wf.count_eq (.holders addr)
    rw [holders] at count
    exact count
  have noContender : (s.k.wqh (.contenders addr)).sleepers = 0 := by
    have count := wf.count_eq (.contenders addr)
    rw [contenders] at count
    exact count
  change (s.k.wqh (.holders addr)).taskList = [] at holders
  change (s.k.wqh (.contenders addr)).taskList = [] at contenders
  simp [dropQueue, mutexControlDelete, noHolder, noContender, holders, contenders, bind, Except.bind, pure, Except.pure]

/-- Fresh memory has empty wait queues already. -/
theorem Linked.init (linked : Linked D s.k.waits s.mq) (fresh : ∀ q ∈ s.mq.list, q.addr ≠ addr) :
    (mutexQueueInit addr s.k).waits = s.k.waits ∧ s.k.waits.list (.holders addr) = [] ∧
      s.k.waits.list (.contenders addr) = [] := by
  have empty : ∀ r, r = .holders addr ∨ r = .contenders addr → s.k.waits.list r = [] := by
    intro r place
    refine List.eq_nil_iff_forall_not_mem.mpr fun t mem => ?_
    have home := linked.waits.home_of_mem mem
    have here : s.k.waits.home t = some (.holders addr) ∨ s.k.waits.home t = some (.contenders addr) := by
      rcases place with rfl | rfl
      · exact .inl home
      · exact .inr home
    obtain ⟨q, listed, same⟩ := linked.placed t addr here
    exact fresh q listed same
  have clean : ∀ r, r = .holders addr ∨ r = .contenders addr → s.k.wqh r = {} := by
    intro r place
    have list : (s.k.wqh r).taskList = [] := empty r place
    have count := linked.waits.count_eq r
    rw [empty r place] at count
    have count : (s.k.wqh r).sleepers = 0 := count
    cases head : s.k.wqh r with
    | mk sleepers taskList => simp_all
  have same : (mutexQueueInit addr s.k).wqh = s.k.wqh := by
    funext r
    simp only [mutexQueueInit, State.setWqh_wqh]
    split
    · next here => rw [here, clean _ (.inr rfl)]
    · split
      · next here => rw [here, clean _ (.inl rfl)]
      · rfl
  exact ⟨waits_congr same fun _ => rfl, empty _ (.inl rfl), empty _ (.inr rfl)⟩

theorem setContenders_same (wf : s.mq.Wf) (found : mutexControlFind key s.mq = some q) :
    setContenders q.addr q.contenders s.mq = s.mq := by
  obtain ⟨mem, _⟩ := find_mem found
  have same : (s.mq.list.map fun q' => if q'.addr = q.addr then { q' with contenders := q.contenders } else q') = s.mq.list := by
    conv_rhs => rw [← List.map_id s.mq.list]
    refine List.map_congr_left fun q' mem' => ?_
    split
    · next here => rw [List.inj_on_of_nodup_map wf.addrs mem' mem here]; rfl
    · rfl
  unfold setContenders
  rw [same]

theorem remove_setContenders {n : Int} {mq : MutexQueueHead} :
    mutexControlRemove addr (setContenders addr n mq) = mutexControlRemove addr mq := by
  have same : (mq.list.map fun q => if q.addr = addr then { q with contenders := n } else q).filter (·.addr ≠ addr) =
      mq.list.filter (·.addr ≠ addr) := by
    induction mq.list with
    | nil => rfl
    | cons q rest kept =>
      by_cases here : q.addr = addr
      · simpa [here] using kept
      · simpa [here] using kept
  simp only [mutexControlRemove, setContenders, same]

/-- Sleeping and waking in other wait queues keeps every tally. -/
theorem Linked.elsewhere {w w' : Queues Wqh L4id} {mq : MutexQueueHead} (linked : Linked D w mq) (wf : w'.Wf)
    (lists : ∀ a, w'.list (.holders a) = w.list (.holders a) ∧ w'.list (.contenders a) = w.list (.contenders a)) :
    Linked D w' mq where
  waits := wf
  queues := linked.queues
  tallies := linked.tallies
  each other := by
    have each := linked.each other
    cases found : mutexControlFind other mq with
    | none => rw [found] at each; exact each
    | some q =>
      rw [found] at each
      exact ⟨each.1, (lists q.addr).1.trans each.2.1, (lists q.addr).2.trans each.2.2⟩
  placed t a home := by
    refine linked.placed t a ?_
    rcases home with home | home
    · have mem := (wf.mem_iff _ _).mpr home
      rw [(lists a).1] at mem
      exact .inl (linked.waits.home_of_mem mem)
    · have mem := (wf.mem_iff _ _).mpr home
      rw [(lists a).2] at mem
      exact .inr (linked.waits.home_of_mem mem)

/-- A contender that is taken off its queue gives up at its tally. -/
theorem Linked.giveUp {t : L4id} (linked : Linked D s.k.waits s.mq) (home : s.k.waits.home t = some (.contenders addr)) :
    ∃ key, Linked (update D key ((D key).giveUp t)) (s.k.waits.remove (.contenders addr) t) s.mq := by
  obtain ⟨q, listed, rfl⟩ := linked.placed t addr (.inr home)
  have found := linked.queues.find listed
  obtain ⟨count, holders, contenders⟩ : KeyLinked (D q.physical) s.k.waits (some q) := found ▸ linked.each q.physical
  have moved : Local q.addr s.k.waits (s.k.waits.remove (.contenders q.addr) t) := by
    refine ⟨linked.waits.remove home, fun r _ other => by simp [Queues.remove, other], fun u => ?_⟩
    by_cases self : u = t
    · subst self; simp [Queues.remove]
    · simp [Queues.remove, self]
  refine ⟨q.physical, ?_⟩
  rw [← setContenders_same linked.queues found]
  refine linked.touch found moved (linked.tallies q.physical).giveUp count ?_ ?_
  · simpa [Queues.remove, Tally.giveUp] using holders
  · simp [Queues.remove, contenders, Tally.giveUp]

/-- How a lock left off: released at once, or asleep at the end of the contenders. -/
structure LockDone (D : Word → Tally L4id) (key : Word) (s : Ctl) (r : Ctl × Exit) : Prop where
  linked : Linked (update D key ((D key).arrive s.k.current)) r.1.k.waits r.1.mq
  frame : Frame s.k r.1.k
  exit : r.2 = if 0 < (D key).owed then .ret 0 else .sleep
  homes : Left s.k.current s.k.waits r.1.k.waits
  /-- The caller sleeps only if it says so. -/
  awake : r.2 ≠ .sleep → r.1.k.waits.home s.k.current = none

/-- **`mutex_control_lock` arrives at the tally of its key.** -/
theorem Linked.lock (linked : Linked D s.k.waits s.mq) (free : s.k.waits.home s.k.current = none)
    (fresh : ∀ q ∈ s.mq.list, q.addr ≠ addr) (bound : (D key).owed ≤ intMax) :
    Sat (mutexControlLock (some addr) key s) (LockDone D key s) (fun b => b.ofMutexQueue = false) := by
  have wf := linked.tallies key
  unfold mutexControlLock
  cases found : mutexControlFind key s.mq with
  | none =>
    have empty : D key = {} := by
      have here := linked.each key
      rwa [found] at here
    obtain ⟨init, noHolder, noContender⟩ := linked.init fresh
    refine Sat.bind (waitOnPrepare_sat _ _) fun k' slept => ?_
    obtain ⟨waits, frame⟩ := slept
    have none : ¬ 0 < (D key).owed := by simp [empty]
    have inserted : k'.waits = s.k.waits.insert false (.contenders addr) s.k.current := waits.trans (by rw [← init]; rfl)
    refine ⟨?_, ⟨frame.lock, frame.current, frame.flags, frame.nlocks⟩, by simp [none],
      inserted ▸ Left.insert, fun wakes => absurd rfl wakes⟩
    · have arrived : (D key).arrive s.k.current = { waiting := [s.k.current] } := by
        rw [Tally.arrive_waits (by simp [empty]), empty]; rfl
      rw [arrived]
      change Linked _ k'.waits _
      rw [inserted]
      refine linked.create found fresh (local_insert linked.waits free (.inr rfl)) ⟨by simp, by simp⟩ rfl ?_ ?_
      · simp [Queues.insert, noHolder]
      · simp [Queues.insert, noContender]
  | some q =>
    obtain ⟨count, holders, contenders⟩ : KeyLinked (D key) s.k.waits (some q) := found ▸ linked.each key
    have asleep : (s.k.wqh (.holders q.addr)).sleepers = (D key).holder.toList.length := by
      rw [← holders]; exact linked.waits.count_eq (.holders q.addr)
    by_cases owes : 0 < (D key).owed
    · have stays := wf.stays.mp owes
      obtain ⟨h, holder⟩ := Option.isSome_iff_exists.mp stays
      have sleeping : (s.k.wqh (.holders q.addr)).sleepers ≠ 0 := by rw [asleep, holder]; simp
      have alone := wf.apart owes
      have left : int32 (q.contenders - 1) = ((D key).owed - 1 : Nat) := by
        rw [int32_eq (by omega) (by omega)]; omega
      simp only [sleeping, ne_eq, not_false_eq_true, if_true, left]
      split
      · next last =>
        have one : (D key).owed = 1 := by omega
        refine Sat.bind (wakeUp_woke linked.waits) fun r woken => ?_
        obtain ⟨woke, frame⟩ := woken
        have list : (s.k.wqh (.holders q.addr)).taskList = [h] := by
          have := holders; rw [holder] at this; exact this
        rw [list] at woke
        have noHolder : r.1.waits.list (.holders q.addr) = [] := by
          have front := woke.front
          rw [show s.k.waits.list (.holders q.addr) = [h] from list] at front
          simpa using front
        have noContender : r.1.waits.list (.contenders q.addr) = [] := by
          rw [woke.others _ (by simp), contenders, alone]
        rw [dropQueue_ok woke.wf noHolder noContender]
        have arrived : (D key).arrive s.k.current = {} := by
          simp only [Tally.arrive, if_true, one]
          simp [alone]
        refine ⟨?_, frame, by simp [owes], woke.left, fun _ => woke.still_free free⟩
        rw [arrived]
        rw [remove_setContenders]
        exact linked.drop found (woke.moved (.inl rfl)) noHolder noContender
      · next more =>
        have several : (D key).owed ≠ 1 := by omega
        refine ⟨?_, Frame.refl _, by simp [owes], Left.refl, fun _ => free⟩
        have arrived : (D key).arrive s.k.current = { D key with owed := (D key).owed - 1 } := by
          simp only [Tally.arrive, owes, if_true, several, if_false]
        rw [arrived]
        refine linked.touch found (Local.refl linked.waits) ?_ rfl holders contenders
        rw [← arrived]; exact wf.arrive
    · have quiet : (D key).holder = none := by
        cases holder : (D key).holder with
        | none => rfl
        | some h => exact absurd (wf.stays.mpr (by simp [holder])) owes
      have awake : (s.k.wqh (.holders q.addr)).sleepers = 0 := by rw [asleep, quiet]; rfl
      simp only [awake, ne_eq, not_true_eq_false, if_false]
      refine Sat.bind (waitOnPrepare_sat _ _) fun k' slept => ?_
      obtain ⟨waits, frame⟩ := slept
      refine ⟨?_, frame, by simp [owes], waits ▸ Left.insert, fun wakes => absurd rfl wakes⟩
      · rw [Tally.arrive_waits (by omega)]
        change Linked _ k'.waits s.mq
        rw [waits, ← setContenders_same linked.queues found]
        refine linked.touch found (local_insert linked.waits free (.inr rfl)) ?_ count ?_ ?_
        · rw [← Tally.arrive_waits (by omega)]; exact wf.arrive
        · simpa [Queues.insert] using holders
        · simp [Queues.insert, contenders]

/-- The loop of an unlock takes as many contenders as it may, or as there are. -/
theorem wakeContenders_sat (fuel : Nat) : ∀ {n : Nat} {k : State}, k.waits.Wf → n ≤ intMax →
    (k.waits.list (.contenders addr)).length = fuel →
    Sat (wakeContenders addr fuel n k) (fun r => r.1 = (n - fuel : Nat) ∧
      Woke (.contenders addr) ((k.waits.list (.contenders addr)).take n) k.waits r.2.waits ∧ Frame k r.2)
      (fun b => b.ofMutexQueue = false) := by
  induction fuel with
  | zero =>
    intro n k wf _ length
    rw [List.eq_nil_of_length_eq_zero length, List.take_nil]
    exact ⟨rfl, Woke.none wf, Frame.refl k⟩
  | succ fuel rest =>
    intro n k wf bound length
    unfold wakeContenders
    cases n with
    | zero =>
      simp only [Int.natCast_zero, ne_eq, not_true_eq_false, false_and, if_false, List.take_zero]
      exact ⟨by simp, Woke.none wf, Frame.refl k⟩
    | succ n =>
      have count : (k.wqh (.contenders addr)).sleepers = fuel + 1 := by
        have same := wf.count_eq (.contenders addr)
        rw [length] at same
        exact same
      have turn : ((n + 1 : Nat) : Int) ≠ 0 ∧ (k.wqh (.contenders addr)).sleepers ≠ 0 := by
        constructor <;> omega
      rw [if_pos turn]
      obtain ⟨t, others, list⟩ := List.exists_cons_of_length_eq_add_one length
      refine Sat.bind (wakeUp_woke wf) fun r woken => ?_
      obtain ⟨woke, frame⟩ := woken
      rw [show (k.wqh (.contenders addr)).taskList = t :: others from list] at woke
      have left : r.1.waits.list (.contenders addr) = others := by
        have front := woke.front
        rw [list] at front
        simpa using front.symm
      have less : int32 ((n + 1 : Nat) - 1) = n := by
        rw [int32_eq (by omega) (by omega)]; omega
      simp only [less]
      refine (rest woke.wf (by omega) (by rw [left]; simpa [list] using length)).mono fun x done => ?_
      obtain ⟨amount, more, frame'⟩ := done
      refine ⟨by rw [amount]; congr 1; omega, ?_, frame.trans frame'⟩
      rw [left] at more
      rw [list]
      exact woke.trans more

theorem wakeHolder_sat {k : State} (wf : k.waits.Wf) {h : Option L4id} (holder : k.waits.list (.holders addr) = h.toList) :
    Sat (wakeHolder addr k) (fun k' => Woke (.holders addr) h.toList k.waits k'.waits ∧ Frame k k')
      (fun b => b.ofMutexQueue = false) := by
  have list : (k.wqh (.holders addr)).taskList = h.toList := holder
  have count : (k.wqh (.holders addr)).sleepers = h.toList.length := by
    rw [← holder]; exact wf.count_eq (.holders addr)
  unfold wakeHolder
  split
  · refine Sat.bind (wakeUp_woke wf) fun r woken => ?_
    rw [list] at woken
    have one : h.toList.take 1 = h.toList := by cases h <;> rfl
    rw [one] at woken
    exact woken
  · next none =>
    have empty : h.toList = [] := List.eq_nil_of_length_eq_zero (by omega)
    rw [empty]
    exact ⟨Woke.none wf, Frame.refl k⟩

/-- How an unlock left off: done, or asleep as the holder. -/
structure UnlockDone (D : Word → Tally L4id) (key : Word) (c : Nat) (s : Ctl) (r : Ctl × Exit) : Prop where
  linked : Linked (update D key ((D key).release s.k.current c)) r.1.k.waits r.1.mq
  frame : Frame s.k r.1.k
  exit : r.2 = if (D key).owed + c ≤ (D key).waiting.length then .ret 0 else .sleep
  homes : Left s.k.current s.k.waits r.1.k.waits
  /-- The caller sleeps only if it says so. -/
  awake : r.2 ≠ .sleep → r.1.k.waits.home s.k.current = none

/-- **`mutex_control_unlock` releases at the tally of its key.** -/
theorem Linked.unlock {c : Nat} (linked : Linked D s.k.waits s.mq) (free : s.k.waits.home s.k.current = none)
    (fresh : ∀ q ∈ s.mq.list, q.addr ≠ addr) (some_ : 1 ≤ c) (bound : (D key).owed + c ≤ intMax) :
    Sat (mutexControlUnlock (some addr) key c s) (UnlockDone D key c s) (fun b => b.ofMutexQueue = false) := by
  unfold mutexControlUnlock
  cases found : mutexControlFind key s.mq with
  | none =>
    have empty : D key = {} := by
      have here := linked.each key
      rwa [found] at here
    obtain ⟨init, noHolder, noContender⟩ := linked.init fresh
    refine Sat.bind (waitOnPrepare_sat _ _) fun k' slept => ?_
    obtain ⟨waits, frame⟩ := slept
    have inserted : k'.waits = s.k.waits.insert false (.holders addr) s.k.current := waits.trans (by rw [← init]; rfl)
    have more : ¬ c ≤ 0 := by omega
    refine ⟨?_, ⟨frame.lock, frame.current, frame.flags, frame.nlocks⟩, by simp [empty, more],
      inserted ▸ Left.insert, fun wakes => absurd rfl wakes⟩
    · have released : (D key).release s.k.current c = { owed := c, holder := some s.k.current } := by
        simp [empty, Tally.release, more]
      rw [released]
      change Linked _ k'.waits _
      rw [inserted]
      refine linked.create found fresh (local_insert linked.waits free (.inl rfl)) ⟨by simp; omega, by simp⟩ rfl ?_ ?_
      · simp [Queues.insert, noHolder]
      · simp [Queues.insert, noContender]
  | some q =>
    obtain ⟨count, holders, contenders⟩ : KeyLinked (D key) s.k.waits (some q) := found ▸ linked.each key
    have sum : int32 (q.contenders + c) = ((D key).owed + c : Nat) := by
      rw [count, int32_eq (by omega) (by omega)]; rfl
    refine Sat.bind (wakeHolder_sat linked.waits holders) fun k1 woken => ?_
    obtain ⟨woke1, frame1⟩ := woken
    have list1 : k1.waits.list (.contenders q.addr) = (D key).waiting := by
      rw [woke1.others _ (by simp)]; exact contenders
    have fuel : (k1.wqh (.contenders q.addr)).sleepers.toNat = (k1.waits.list (.contenders q.addr)).length := by
      rw [show (k1.wqh (.contenders q.addr)).sleepers = _ from woke1.wf.count_eq (.contenders q.addr)]; rfl
    rw [fuel, sum]
    refine Sat.bind (wakeContenders_sat _ woke1.wf bound rfl) fun x woken => ?_
    obtain ⟨n, k2⟩ := x
    obtain ⟨left, woke2, frame2⟩ := woken
    rw [list1] at left woke2
    simp only at left
    subst left
    have moved := (woke1.moved (.inl rfl)).trans (woke2.moved (.inr rfl))
    have noHolder : k2.waits.list (.holders q.addr) = [] := by
      rw [woke2.others _ (by simp)]
      have front := woke1.front
      rw [holders] at front
      simpa using front
    have waiting : k2.waits.list (.contenders q.addr) = (D key).waiting.drop ((D key).owed + c) := by
      have front := woke2.front
      rw [list1] at front
      exact List.append_cancel_left (front.symm.trans (List.take_append_drop _ _).symm)
    have gone : Left s.k.current s.k.waits k2.waits := woke1.left.trans woke2.left
    have still : k2.waits.home s.k.current = none := woke2.still_free (woke1.still_free free)
    have frame := frame1.trans frame2
    simp only [unlockEnd]
    by_cases enough : (D key).owed + c ≤ (D key).waiting.length
    · have none : (D key).owed + c - (D key).waiting.length = 0 := Nat.sub_eq_zero_of_le enough
      rw [if_pos (by rw [none]; rfl)]
      have released : (D key).release s.k.current c = { waiting := (D key).waiting.drop ((D key).owed + c) } := by
        simp [Tally.release, enough]
      have asleep : (k2.wqh (.contenders q.addr)).sleepers = ((D key).waiting.drop ((D key).owed + c)).length := by
        rw [← waiting]; exact woke2.wf.count_eq (.contenders q.addr)
      split
      · next quiet =>
        change (k2.wqh (.contenders q.addr)).sleepers = 0 at quiet
        have empty : (D key).waiting.drop ((D key).owed + c) = [] := List.eq_nil_of_length_eq_zero (by omega)
        rw [dropQueue_ok woke2.wf noHolder (waiting.trans empty)]
        refine ⟨?_, frame, by simp [enough], gone, fun _ => still⟩
        rw [released, empty, remove_setContenders]
        exact linked.drop found moved noHolder (waiting.trans empty)
      · refine ⟨?_, frame, by simp [enough], gone, fun _ => still⟩
        rw [released]
        exact linked.touch found moved ⟨by simp, by simp⟩ (by rw [none]) noHolder waiting
    · have owes : (((D key).owed + c - (D key).waiting.length : Nat) : Int) ≠ 0 := by omega
      rw [if_neg owes]
      refine Sat.bind (waitOnPrepare_sat _ _) fun k' slept => ?_
      obtain ⟨waits, frame3⟩ := slept
      have current : k2.current = s.k.current := frame.current
      have waits : k'.waits = k2.waits.insert false (.holders q.addr) s.k.current := current ▸ waits
      have empty : (D key).waiting.drop ((D key).owed + c) = [] := List.drop_eq_nil_of_le (by omega)
      have released : (D key).release s.k.current c =
          { owed := (D key).owed + c - (D key).waiting.length, holder := some s.k.current } := by
        simp [Tally.release, enough, empty]
      refine ⟨?_, frame.trans frame3, by simp [enough], gone.trans (waits ▸ Left.insert),
        fun wakes => absurd rfl wakes⟩
      · rw [released]
        change Linked _ k'.waits _
        rw [waits]
        refine linked.touch found (moved.trans (local_insert moved.wf still (.inl rfl))) ?_ rfl ?_ ?_
        · rw [← released]; exact Tally.Wf.release
        · simp [Queues.insert, noHolder]
        · simpa [Queues.insert, empty] using waiting

end

end Codezero.Kernel
