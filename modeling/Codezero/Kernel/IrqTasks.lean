import Codezero.Kernel.ChildrenRuns
import Codezero.Kernel.Irq

/-!
# The threads that irq descriptors name

`irq_register` keeps a pointer to the ktcb of the thread, and nothing takes it back: the descriptor names the thread
after the idle task has freed its ktcb.
-/

namespace Codezero.Kernel.IrqTasks
open Codezero.Lib
open Irq (IrqDesc Irqs irqControlRegister irqRegister irqThreadNotify irqNotify wqhIrq)
open Children (Family Accounted Boot SamePagers)
open Function (update update_of_ne update_self)

/-! ## The model -/

/-- The threads with the irq descriptors. A ktcb that is freed can be allocated again, so `freed` records for each
descriptor whether the thread it was registered for has been deleted since. -/
structure Handlers where
  family : Family
  desc : L4id → IrqDesc := fun _ => {}
  notify : Word → BitVec 8 := fun _ => 0
  utcb : L4id → Word := fun t => t <<< 8
  freed : L4id → Bool := fun _ => false

namespace Handlers

def irqs (s : Handlers) : Irqs := { k := s.family.k, desc := s.desc, notify := s.notify, utcb := s.utcb }

/-- What an irq call leaves. -/
def after (s : Handlers) (i : Irqs) : Handlers :=
  { s with family := { s.family with k := i.k }, desc := i.desc, notify := i.notify }

end Handlers

inductive Event
  /-- What happens to threads: `thread_create`, the ways to destroy one, and what the idle task deletes. -/
  | thread (e : Children.Event)
  | register (t : L4id) (notifySlot : Word) (irq : L4id) (utcb : Int)
  | irq (irq : L4id) (utcb : Int)

def enabled (s : Handlers) : Event → Prop
  | .thread e => Children.enabled s.family e
  | .register t _ _ _ => s.family.live t = true ∧ (s.family.k.tcb t).state = .runnable
  | .irq irq _ => (s.desc irq).task.isSome = true

/-- The descriptors whose thread has been deleted, after `e`. -/
def noteFreed (s : Handlers) : Children.Event → L4id → Bool
  | .deleteZombie t => fun irq => s.freed irq || (s.desc irq).task == some t
  | _ => s.freed

def step (s : Handlers) : Event → Except Bug Handlers
  | .thread e => do
    let f ← Children.step s.family e
    pure { s with family := f, freed := noteFreed s e }
  | .register t notifySlot irq utcb =>
    match irqControlRegister t notifySlot irq utcb (s.irqs.enter t) with
    | (i, code) =>
      let s := s.after i
      pure (if code = 0 then { s with freed := update s.freed irq false } else s)
  | .irq irq utcb => do
    let i ← irqThreadNotify irq utcb s.irqs
    pure (s.after i)

def machine : Machine Handlers Event Bug := ⟨enabled, step⟩

/-! ## What the descriptors name -/

/-- A delivery of the irq finds the ktcb of the thread that registered. -/
def Live (s : Handlers) (irq : L4id) : Prop := ∀ t, (s.desc irq).task = some t → s.family.live t = true ∧ s.freed irq = false

/-- No thread is deleted while a descriptor names it. -/
def Released (s : Handlers) (e : Event) : Prop :=
  ∀ t, e = .thread (.deleteZombie t) → ∀ irq, (s.desc irq).task ≠ some t

structure Sound (s : Handlers) : Prop where
  family : Accounted s.family
  live : ∀ irq, Live s irq

section
variable {s s' : Handlers} {t irq : L4id}

variable {e : Children.Event} {notifySlot : Word} {utcb code : Int} {i i' : Irqs}

theorem accounted_after (accounted : Accounted s.family) {i : Irqs} (same : SamePagers s.family.k i.k) :
    Accounted (s.after i).family :=
  accounted.same same rfl rfl rfl rfl accounted.zombies accounted.once

theorem noteFreed_eq (other : ∀ t, e = .deleteZombie t → (s.desc irq).task ≠ some t) :
    noteFreed s e irq = s.freed irq := by
  cases e with
  | deleteZombie t =>
    have apart : ((s.desc irq).task == some t) = false := beq_eq_false_iff_ne.mpr (other t rfl)
    simp only [noteFreed, apart, Bool.or_false]
  | _ => rfl

theorem Sound.thread {f : Family} (sound : Sound s) (able : Children.enabled s.family e)
    (released : Released s (.thread e)) (ok : Children.step s.family e = .ok f) :
    Sound { s with family := f, freed := noteFreed s e } := by
  refine ⟨sound.family.step able ok, fun irq t task => ?_⟩
  obtain ⟨alive, kept⟩ := sound.live irq t task
  have other : e ≠ .deleteZombie t := fun same => released t (same ▸ rfl) irq task
  refine ⟨(Children.step_attached sound.family able ok alive other).1, ?_⟩
  rw [← kept]
  exact noteFreed_eq fun u same => released u (same ▸ rfl) irq

theorem irqControlRegister_cases
    (ran : irqControlRegister t notifySlot irq utcb i = (i', code)) :
    code ≠ 0 ∧ i' = i ∨ code = 0 ∧ SamePagers i.k i'.k ∧
      i'.desc = update i.desc irq { i.desc irq with task := some t, taskNotifySlot := notifySlot, ready := true } := by
  unfold irqControlRegister irqRegister at ran
  split_ifs at ran with low unwired above
  · cases ran
    exact .inl ⟨ne_of_lt low, rfl⟩
  · cases ran
    exact .inl ⟨by decide, rfl⟩
  · cases ran
    exact .inl ⟨by decide, rfl⟩
  · cases ran
    exact .inr ⟨rfl, ⟨fun _ => rfl⟩, rfl⟩

/-- A registration names the thread that makes it. -/
theorem Sound.register (sound : Sound s) (alive : s.family.live t = true)
    (ran : irqControlRegister t notifySlot irq utcb (s.irqs.enter t) = (i, code)) :
    Sound (if code = 0 then { s.after i with freed := update s.freed irq false } else s.after i) := by
  rcases irqControlRegister_cases ran with ⟨refused, rfl⟩ | ⟨rfl, same, desc⟩
  · rw [if_neg refused]
    exact ⟨accounted_after sound.family ⟨fun _ => rfl⟩, sound.live⟩
  · rw [if_pos rfl]
    refine ⟨accounted_after sound.family ⟨same.pager⟩, fun n u task => ?_⟩
    change (i.desc n).task = some u at task
    rw [desc] at task
    by_cases self : n = irq
    · subst self
      rw [update_self] at task
      obtain rfl := Option.some.inj task
      exact ⟨alive, update_self ..⟩
    · rw [update_of_ne self] at task
      obtain ⟨live, kept⟩ := sound.live n u task
      exact ⟨live, (update_of_ne self ..).trans kept⟩

theorem irqNotify_same (t : L4id) (i : Irqs) : (irqNotify t irq i).k = i.k ∧ (irqNotify t irq i).desc = i.desc := by
  unfold irqNotify
  split_ifs
  · exact ⟨rfl, rfl⟩
  · exact ⟨rfl, rfl⟩

theorem irqThreadNotify_ok (ok : irqThreadNotify irq utcb i = .ok i') :
    SamePagers i.k i'.k ∧ i'.desc = i.desc := by
  unfold irqThreadNotify at ok
  split at ok
  · exact nomatch ok
  · next t _ =>
    split at ok
    · exact nomatch ok
    · obtain ⟨⟨k, woken⟩, ran, ok⟩ := bind_eq_ok.mp ok
      cases ok
      have same := (Children.keeps_wakeUp _ _ _).ok ran
      rw [(irqNotify_same t i).1] at same
      exact ⟨same, (irqNotify_same t i).2⟩

theorem Sound.step {e : Event} (sound : Sound s) (able : enabled s e) (released : Released s e) (ok : step s e = .ok s') :
    Sound s' := by
  cases e with
  | thread e =>
    obtain ⟨f, ran, ok⟩ := bind_eq_ok.mp ok
    cases ok
    exact sound.thread able released ran
  | register t notifySlot irq utcb =>
    cases ok
    exact sound.register able.1 rfl
  | irq irq utcb =>
    obtain ⟨i, ran, ok⟩ := bind_eq_ok.mp ok
    cases ok
    obtain ⟨same, desc⟩ := irqThreadNotify_ok ran
    refine ⟨accounted_after sound.family same, fun n t task => sound.live n t ?_⟩
    exact (congrArg (fun d => (d n).task) desc).symm.trans task

/-- The idle task frees a ktcb, whatever names it. -/
theorem step_freed (accounted : Accounted s.family) (able : enabled s (.thread (.deleteZombie t)))
    (ok : step s (.thread (.deleteZombie t)) = .ok s') (task : (s.desc irq).task = some t) :
    (s'.desc irq).task = some t ∧ s'.family.live t = false ∧ s'.freed irq = true := by
  obtain ⟨f, ran, ok⟩ := bind_eq_ok.mp ok
  cases ok
  obtain ⟨_, deleted⟩ := Children.deleteZombie_deleted ran (accounted.zombies t able)
  refine ⟨task, ?_, ?_⟩
  · change f.live t = false
    rw [deleted.live, update_self]
  · simp [noteFreed, task]

end

/-- The pagers after boot, with no thread registered for any irq. -/
structure Start (s : Handlers) : Prop where
  boot : Boot s.family
  none : ∀ irq, (s.desc irq).task = none

theorem Start.sound {s : Handlers} (start : Start s) : Sound s :=
  ⟨start.boot.accounted, fun irq _ task => nomatch (start.none irq).symm.trans task⟩

/-- In every run that deletes no thread a descriptor names, each irq that is delivered finds the thread registered for
it; and a step goes on so if and only if it is no such deletion. -/
theorem handlers_live {s0 s : Handlers} (start : Start s0) (reached : machine.ReachesUnder Released s0 s) :
    (∀ irq, Live s irq) ∧
      ∀ e s', machine.enabled s e → machine.step s e = .ok s' → ((∀ irq, Live s' irq) ↔ Released s e) := by
  have sound : Sound s := reached.invariant (I := Sound)
    (fun _ _ _ sound able released ok => sound.step able released ok) start.sound
  refine ⟨sound.live, fun e s' able ok => ⟨?_, fun released => (sound.step able released ok).live⟩⟩
  rintro live t rfl irq task
  obtain ⟨named, dead, -⟩ := step_freed sound.family able ok task
  exact nomatch dead.symm.trans (live irq t named).1

/-- The pager 1 runs, and the kernel has a handler and a chip for the irq 5. -/
def wired : Handlers :=
  { family := Children.onePager
    desc := update (fun _ => {}) 5 { wired := true } }

theorem wired_start : Start wired := by
  refine ⟨Children.onePager_boot, fun irq => ?_⟩
  change (update (fun _ => ({} : IrqDesc)) 5 { wired := true } irq).task = none
  by_cases self : irq = 5
  · rw [self, update_self]
  · rw [update_of_ne self]

/-- The pager registers for the irq. -/
def registered : Handlers := ((step wired (.register 1 0 5 0)).toOption.get rfl)

theorem reaches_registered (cond : Handlers → Event → Prop) (may : cond wired (.register 1 0 5 0)) :
    machine.ReachesUnder cond wired registered := .next (e := .register 1 0 5 0) .start ⟨rfl, rfl⟩ may rfl

/-- The pager then has a child, and waits for its end. -/
def childGone : Handlers :=
  ((step registered (.thread (.create 1 Children.newChild)) >>= fun s => step s (.thread (.wait 1 2))).toOption.get rfl)

/-- The idle task has deleted the child. -/
def childDeleted : Handlers := ((step childGone (.thread (.deleteZombie 2))).toOption.get rfl)

theorem handlers_live_registered : childGone.family.live 2 = true ∧ childDeleted.family.live 2 = false ∧
    (childDeleted.desc 5).task = some 1 ∧ Live childDeleted 5 := by
  have named : ∀ irq, (childGone.desc irq).task ≠ some 2 := fun irq => by
    change (update (update (fun _ => ({} : IrqDesc)) 5 { wired := true }) 5 { task := some 1, wired := true, ready := true } irq).task ≠ some 2
    by_cases self : irq = 5
    · rw [self, update_self]
      decide
    · rw [update_of_ne self, update_of_ne self]
      exact nofun
  have created : machine.ReachesUnder Released wired _ := (reaches_registered Released nofun).next
    (e := .thread (.create 1 Children.newChild)) ⟨rfl, by rintro t ⟨⟩; rfl, by rintro s ⟨⟩; rfl, by rintro r ⟨⟩; rfl⟩ nofun rfl
  have waited : machine.ReachesUnder Released wired childGone := created.next (e := .thread (.wait 1 2)) ⟨rfl, rfl⟩ nofun rfl
  have deleted : machine.ReachesUnder Released wired childDeleted :=
    waited.next (e := .thread (.deleteZombie 2)) (List.mem_singleton.mpr rfl) (by rintro t ⟨⟩; exact named) rfl
  exact ⟨rfl, rfl, rfl, (handlers_live wired_start deleted).1 5⟩

/-! ## A thread that exits while registered -/

/-- The pager destroys itself. -/
def exited : Handlers := ((step registered (.thread (.destroySelf 1))).toOption.get rfl)

/-- The idle task has deleted it. -/
def deletedHandler : Handlers := ((step exited (.thread (.deleteZombie 1))).toOption.get rfl)

/-- The irq comes in, and `irq_thread_notify` goes to a ktcb that is freed. -/
theorem freed_handler : Start wired ∧ ∃ s, machine.Reaches wired s ∧ machine.enabled s (.irq 5 0) ∧
    (s.desc 5).task = some 1 ∧ s.family.live 1 = false ∧ s.freed 5 = true ∧ ¬ Live s 5 := by
  have exits : machine.Reaches wired exited :=
    (reaches_registered _ trivial).next (e := .thread (.destroySelf 1)) ⟨rfl, fun _ => rfl⟩ trivial rfl
  have zombie : 1 ∈ exited.family.zombies := List.mem_singleton.mpr rfl
  have deleted : machine.Reaches wired deletedHandler :=
    exits.next (e := .thread (.deleteZombie 1)) zombie trivial rfl
  exact ⟨wired_start, deletedHandler, deleted, rfl, rfl, rfl, rfl, fun live => nomatch (live 1 rfl).1⟩

end Codezero.Kernel.IrqTasks
