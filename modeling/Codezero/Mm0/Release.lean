import Codezero.Mm0.Merge

/-!
# Releasing a vma

`vma_drop_merge_delete_all` drops the links of one vma from the top down. Other vmas keep finding the same
pages, although objects they share may be merged on the way, and the objects left without links are deleted.
-/

namespace Codezero.Mm0
open Codezero.Lib
open Codezero.Lib.Stack (Over)
open Function (update update_of_ne update_self)

/-- Some stack holds the object. -/
def Linked (s : Mm) (o : ObjId) : Prop := ∃ v, o ∈ s.chain v

/-- The objects that stay although no link is left: devzero, and files that are open. -/
def spared (s : Mm) (o : ObjId) : Bool :=
  match s.kind o with
  | .file .devzero _ _ => true
  | .file .vfs openers _ => !(openers == 0)
  | _ => false

theorem Links.linked_iff {s : Mm} {o : ObjId} (links : Links s) (live : o ∈ s.objects) :
    Linked s o ↔ s.nlinks o ≠ 0 := by
  constructor
  · rintro ⟨v, mem⟩
    have := links.nlinks_pos mem
    omega
  · intro some
    by_contra none
    have empty : s.linkList o = [] := List.eq_nil_iff_forall_not_mem.mpr
      (fun v mem => none ⟨v, (links.mem_linkList live).mp mem⟩)
    exact some (by simp [links.nlinks o live, empty])

/-- How `vma_drop_merge_delete` ends. -/
inductive Settled (s : Mm) (o : ObjId) : Mm → Prop
  | kept (reason : s.nlinks o = 0 → spared s o = true) : Settled s o s
  | deleted (unlinked : s.nlinks o = 0) (free : s.shref o = none) (plain : spared s o = false) :
      Settled s o (deleted s o)
  | merged {s' : Mm} {f n : ObjId} {w : VmaId} {pre post : List ObjId} (merged : Merged s s' o f n w pre post) :
      Settled s o s'

section DealWith
variable {s s' : Mm} {o : ObjId}

theorem Sound.isDeletable (sound : Sound s) (live : o ∈ s.objects) (free : s.nlinks o = 0 → s.shref o = none) :
    vmObjectIsDeletable s o = .ok (decide (s.nlinks o = 0) && !spared s o) := by
  unfold vmObjectIsDeletable
  by_cases unlinked : s.nlinks o = 0
  · have childless : s.shadows o = 0 := by
      rw [sound.shrefs.shadows o live, sound.no_shadows live unlinked]
      rfl
    rw [if_neg (not_not.mpr unlinked), if_neg (not_not.mpr childless), free unlinked, decide_eq_true unlinked]
    simp only [spared, Option.isSome_none, Bool.false_eq_true, if_false, Bool.true_and]
    cases s.kind o with
    | shadow => rfl
    | file type openers length => cases type <;> simp [pure, Except.pure]
  · rw [if_pos unlinked, decide_eq_false unlinked]
    rfl

theorem Sound.dealWith (sound : Sound s) (live : o ∈ s.objects) (free : s.nlinks o = 0 → s.shref o = none) :
    ∃ s', dealWith s o = .ok s' ∧ Settled s o s' := by
  unfold Mm0.dealWith
  rw [sound.isDeletable live free]
  simp only [bind, Except.bind]
  by_cases unlinked : s.nlinks o = 0
  · cases plain : spared s o with
    | true =>
      refine ⟨s, ?_, .kept (fun _ => plain)⟩
      simp [unlinked]
      rfl
    | false =>
      have ours : isDevzero s o = false := by
        cases kind : s.kind o with
        | shadow => simp [isDevzero, kind]
        | file type openers length => cases type <;> simp_all [isDevzero, spared]
      refine ⟨Mm0.deleted s o, ?_, .deleted unlinked (free unlinked) plain⟩
      simpa [unlinked] using sound.delete_ok live unlinked (free unlinked) ours
  · simp only [unlinked, decide_false, Bool.false_and, Bool.false_eq_true, if_false]
    by_cases redundant : isShadow s o = true ∧ s.nlinks o = 1 ∧ s.shadows o = 1
    · obtain ⟨s', f, n, w, pre, post, ran, merged⟩ :=
        sound.merge_ok live redundant.1 redundant.2.1 redundant.2.2
      exact ⟨s', by simp [redundant, ran], .merged merged⟩
    · refine ⟨s, ?_, .kept (fun zero => absurd zero unlinked)⟩
      rw [if_neg (by simpa [and_assoc] using redundant)]
      rfl

namespace Settled

theorem reshaped (settled : Settled s o s') : Reshaped s s' := by
  cases settled with
  | kept => rfl
  | deleted => rfl
  | merged merged => exact merged.reshaped

theorem sound (settled : Settled s o s') (sound : Sound s) (live : o ∈ s.objects) : Sound s' := by
  cases settled with
  | kept => exact sound
  | deleted unlinked free _ => exact sound.of_deleted live unlinked free
  | merged merged => exact merged.sound

end Settled

end DealWith

/-- What a merge leaves of the pages two shadows have. -/
theorem Merged.yields {s s' : Mm} {r f n : ObjId} {w : VmaId} {pre post : List ObjId}
    (merged : Merged s s' r f n w pre post) (off : Pfn) : yields s' f off = (yields s f off).or (yields s r off) := by
  have shadow : ∀ x, isShadow s x = true → s.kind x = .shadow := fun x shadow => by
    cases kind : s.kind x with
    | shadow => rfl
    | file => simp [isShadow, kind, Kind.isShadow] at shadow
  have kf := shadow f merged.redundant.front
  have kr := shadow r merged.redundant.shadow
  simp only [Mm0.yields, merged.reshaped.kind, kf, kr, merged.find off]
  cases findPage s f off <;> cases findPage s r off <;> rfl

/-- Every vma keeps finding the same pages. -/
theorem Settled.chainYields {s s' : Mm} {o : ObjId} (settled : Settled s o s') (sound : Sound s)
    (live : o ∈ s.objects) (v : VmaId) (off : Pfn) : chainYields s' v off = chainYields s v off := by
  cases settled with
  | kept => rfl
  | deleted unlinked free _ =>
    refine Stack.lookup_congr (fun x mem => ?_)
    have ne : x ≠ o := fun same => (sound.links.unlinked live unlinked).2 v (same ▸ mem)
    rw [deleted_reshaped.yields (update_of_ne ne ..)]
  | @merged s' f n w pre post merged =>
    have red := merged.redundant
    unfold Mm0.chainYields
    rw [merged.chain]
    by_cases here : v = w
    · subst here
      rw [update_self, red.stack]
      refine Stack.lookup_merge (merged.yields off) (fun x mem => ?_)
      have nef : x ≠ f := by
        rintro rfl
        exact (List.mem_append.mp mem).elim red.oncef.1 red.oncef.2
      have ner : x ≠ o := by
        rintro rfl
        exact (List.mem_append.mp mem).elim red.once.1 red.once.2
      rw [merged.reshaped.yields (merged.others x nef ner)]
    · rw [update_of_ne here]
      refine Stack.lookup_congr (fun x mem => ?_)
      rw [merged.reshaped.yields (merged.others x (fun same => red.onlyf v here (same ▸ mem))
        (fun same => red.only v here (same ▸ mem)))]

/-! ## Dropping the top link -/

/-- What dropping links of `v` leaves. -/
structure Trimmed (s s' : Mm) (v : VmaId) : Prop where
  sound : Sound s'
  reshaped : Reshaped s s'
  objects : ∀ x ∈ s'.objects, x ∈ s.objects
  fewer : ∀ w x, x ∈ s'.chain w → x ∈ s.chain w
  empty : ∀ w, w ≠ v → (s'.chain w = [] ↔ s.chain w = [])
  keeps : ∀ w, w ≠ v → ∀ off, chainYields s' w off = chainYields s w off
  deletes : ∀ x ∈ s.objects, x ∉ s'.objects ↔ Linked s x ∧ ¬ Linked s' x ∧ spared s x = false

theorem Trimmed.refl {s : Mm} {v : VmaId} (sound : Sound s) : Trimmed s s v :=
  ⟨sound, .refl, fun _ h => h, fun _ _ h => h, fun _ _ => Iff.rfl, fun _ _ _ => rfl,
    fun _ live => ⟨fun gone => absurd live gone, fun ⟨linked, unlinked, _⟩ => absurd linked unlinked⟩⟩

theorem Trimmed.trans {s s' s'' : Mm} {v : VmaId} (first : Trimmed s s' v) (second : Trimmed s' s'' v) :
    Trimmed s s'' v := by
  have same : spared s' = spared s := by
    funext x
    rw [spared, first.reshaped.kind, spared]
  refine ⟨second.sound, first.reshaped.trans second.reshaped, fun x live => first.objects x (second.objects x live),
    fun w x mem => first.fewer w x (second.fewer w x mem),
    fun w ne => (second.empty w ne).trans (first.empty w ne), fun w ne off => (second.keeps w ne off).trans (first.keeps w ne off), fun x live => ?_⟩
  have dead : ∀ y, y ∉ s''.objects → ¬ Linked s'' y := fun y dead ⟨w, mem⟩ => dead (second.sound.links.alive w y mem)
  constructor
  · intro gone
    by_cases live' : x ∈ s'.objects
    · obtain ⟨⟨w, mem⟩, unlinked, plain⟩ := (second.deletes x live').mp gone
      exact ⟨⟨w, first.fewer w x mem⟩, unlinked, same ▸ plain⟩
    · obtain ⟨linked, -, plain⟩ := (first.deletes x live).mp live'
      exact ⟨linked, dead x gone, plain⟩
  · rintro ⟨linked, unlinked, plain⟩ live''
    have live' := second.objects x live''
    by_cases linked' : Linked s' x
    · exact (second.deletes x live').mpr ⟨linked', unlinked, same ▸ plain⟩ live''
    · exact (first.deletes x live).mpr ⟨linked, linked', plain⟩ live'

section DropHead
variable {s : Mm} {v : VmaId} {o : ObjId} {rest : List ObjId}

/-- The top link of `v`, to `o`, is dropped, which gives `s1`, and then `o` is dealt with. -/
structure TopDropped (s : Mm) (v : VmaId) (o : ObjId) (rest : List ObjId) (s1 s' : Mm) : Prop where
  stack : s.chain v = o :: rest
  sound : Sound s1
  relinked : Relinked s s1
  chain : s1.chain = update s.chain v rest
  settled : Settled s1 o s'

variable {s s' : Mm} {o : ObjId}

theorem Sound.drop_head (sound : Sound s) (stack : s.chain v = o :: rest) :
    ∃ s1 s', vmaDropMergeDelete s v 0 = .ok s' ∧ TopDropped s v o rest s1 s' := by
  have live := sound.links.alive v o (by simp [stack])
  obtain ⟨s1, dropped, sound1, relinked, chain, free⟩ := exitDrop_sound sound stack
  obtain ⟨s', dealt, settled⟩ := sound1.dealWith (relinked.objects ▸ live) free
  refine ⟨s1, s', ?_, stack, sound1, relinked, chain, settled⟩
  unfold vmaDropMergeDelete
  have first : (s.chain v)[0]? = some o := by simp [stack]
  have second : (s.chain v)[0 + 1]? = rest.head? := by simp [stack, List.head?_eq_getElem?]
  rw [first, second]
  simp only [dropped, bind, Except.bind]
  exact dealt

theorem Settled.sublist (settled : Settled s o s') (w : VmaId) :
    (s'.chain w).Sublist (s.chain w) := by
  cases settled with
  | kept => exact .refl _
  | deleted => exact .refl _
  | @merged s' f n u pre post merged =>
    rw [merged.chain]
    by_cases here : w = u
    · subst here
      rw [update_self, merged.redundant.stack]
      exact (List.Sublist.refl pre).append (((List.Sublist.refl (n :: post)).cons o).cons_cons f)
    · rw [update_of_ne here]

/-- Nothing is taken from the top of a stack. -/
theorem Settled.tail (settled : Settled s o s') (w : VmaId) :
    (∀ x ∈ (s'.chain w).tail, x ∈ (s.chain w).tail) ∧ (s'.chain w = [] ↔ s.chain w = []) := by
  cases settled with
  | kept => exact ⟨fun _ h => h, Iff.rfl⟩
  | deleted => exact ⟨fun _ h => h, Iff.rfl⟩
  | @merged s' f n u pre post merged =>
    rw [merged.chain]
    by_cases here : w = u
    · subst here
      rw [update_self, merged.redundant.stack]
      refine ⟨fun x mem => ?_, by simp⟩
      cases pre with
      | nil => exact List.mem_cons_of_mem o mem
      | cons y pre =>
        simp only [List.cons_append, List.tail_cons, List.mem_append, List.mem_cons] at mem ⊢
        exact mem.imp_right (fun mem => mem.imp_right .inr)
    · rw [update_of_ne here]
      exact ⟨fun _ h => h, Iff.rfl⟩

theorem Settled.linked (settled : Settled s o s') {w : VmaId} {x : ObjId} (ne : x ≠ o) :
    x ∈ s'.chain w ↔ x ∈ s.chain w := by
  cases settled with
  | kept => rfl
  | deleted => rfl
  | @merged s' f n u pre post merged =>
    rw [merged.chain]
    by_cases here : w = u
    · subst here
      rw [update_self, merged.redundant.stack]
      simp [ne]
    · rw [update_of_ne here]

/-- An object that is dealt with and then in no stack has been deleted, unless it is spared. -/
theorem Settled.gone (settled : Settled s o s') (sound : Sound s) (live : o ∈ s.objects) :
    (o ∉ s'.objects ↔ ¬ Linked s' o ∧ spared s o = false) ∧ ∀ x, x ≠ o → (x ∈ s'.objects ↔ x ∈ s.objects) := by
  cases settled with
  | kept reason =>
    refine ⟨⟨fun gone => absurd live gone, fun ⟨unlinked, plain⟩ => ?_⟩, fun x _ => Iff.rfl⟩
    have zero : s.nlinks o = 0 := not_not.mp (fun some => unlinked ((sound.links.linked_iff live).mpr some))
    simp [reason zero] at plain
  | deleted unlinked free plain =>
    refine ⟨⟨fun _ => ⟨fun ⟨w, mem⟩ => (sound.links.unlinked live unlinked).2 w mem, plain⟩, fun _ => ?_⟩, fun x ne => ?_⟩
    · simp [mem_deleted sound.globals]
    · simp [mem_deleted sound.globals, ne]
  | @merged s' f n u pre post merged =>
    refine ⟨⟨fun gone => ⟨fun ⟨w, mem⟩ => gone (merged.sound.links.alive w o mem), ?_⟩, fun _ => ?_⟩, fun x ne => ?_⟩
    · have := merged.redundant.shadow
      cases kind : s.kind o <;> simp_all [isShadow, spared, Kind.isShadow]
    · simp [merged.objects]
    · simp [merged.objects, ne]

theorem TopDropped.trimmed {s1 : Mm} (dropped : TopDropped s v o rest s1 s') (sound : Sound s) :
    Trimmed s s' v ∧ (s'.chain v).length < (s.chain v).length := by
  obtain ⟨stack, sound1, relinked, chain, settled⟩ := dropped
  have live : o ∈ s.objects := sound.links.alive v o (by simp [stack])
  have live1 : o ∈ s1.objects := relinked.objects ▸ live
  obtain ⟨gone, others⟩ := settled.gone sound1 live1
  have elsewhere : ∀ w, w ≠ v → s1.chain w = s.chain w := fun w ne => by rw [chain, update_of_ne ne]
  have own : s1.chain v = rest := by rw [chain, update_self]
  have yields : Mm0.yields s1 = Mm0.yields s := relinked.yields
  have same : spared s1 o = spared s o := by rw [spared, relinked.reshaped.kind, spared]
  have fewer1 : ∀ w x, x ∈ s1.chain w → x ∈ s.chain w := fun w x mem => by
    by_cases here : w = v
    · subst here
      rw [own] at mem
      simp [stack, mem]
    · rwa [elsewhere w here] at mem
  refine ⟨
    { sound := settled.sound sound1 live1
      reshaped := relinked.reshaped.trans settled.reshaped
      objects := fun x live' => ?_
      fewer := fun w x mem => fewer1 w x ((settled.sublist w).subset mem)
      empty := fun w ne => by rw [(settled.tail w).2, elsewhere w ne]
      keeps := fun w ne off => ?_
      deletes := fun x livex => ?_ }, ?_⟩
  · by_cases iso : x = o
    · exact iso ▸ live
    · rw [← relinked.objects]
      exact (others x iso).mp live'
  · rw [settled.chainYields sound1 live1, chainYields, elsewhere w ne, yields, chainYields]
  · by_cases iso : x = o
    · subst iso
      rw [gone, same]
      exact ⟨fun ⟨unlinked, plain⟩ => ⟨⟨v, by simp [stack]⟩, unlinked, plain⟩, And.right⟩
    · rw [others x iso, relinked.objects]
      refine ⟨fun dead => absurd livex dead, fun ⟨⟨w, mem⟩, unlinked, _⟩ => absurd ⟨w, ?_⟩ unlinked⟩
      rw [settled.linked iso]
      by_cases here : w = v
      · subst here
        rw [own]
        simpa [stack, iso] using mem
      · rwa [elsewhere w here]
  · have := (settled.sublist v).length_le
    rw [own] at this
    simp only [stack, List.length_cons]
    omega

end DropHead

/-! ## Dropping all links -/

/-- Link by link, the stack of `v` is emptied from the top. -/
inductive Emptied (v : VmaId) : Mm → Mm → Prop
  | done {s : Mm} (empty : s.chain v = []) : Emptied v s s
  | next {s s1 s2 s' : Mm} {o : ObjId} {rest : List ObjId} (dropped : TopDropped s v o rest s1 s2)
      (emptied : Emptied v s2 s') : Emptied v s s'

section DropLinks
variable {s s' : Mm} {v : VmaId}

theorem Emptied.trimmed (emptied : Emptied v s s') (sound : Sound s) : Trimmed s s' v ∧ s'.chain v = [] := by
  induction emptied with
  | done empty => exact ⟨.refl sound, empty⟩
  | next dropped _ rest =>
    obtain ⟨first, -⟩ := dropped.trimmed sound
    obtain ⟨trimmed, empty⟩ := rest first.sound
    exact ⟨first.trans trimmed, empty⟩

theorem Sound.dropLinks {n : Nat} (sound : Sound s) (enough : (s.chain v).length ≤ n) :
    ∃ s', dropLinks v n s = .ok s' ∧ Emptied v s s' := by
  induction n generalizing s with
  | zero => exact ⟨s, rfl, .done (List.length_eq_zero_iff.mp (by omega))⟩
  | succ n rest =>
    rw [Mm0.dropLinks]
    cases stack : s.chain v with
    | nil => exact ⟨s, rfl, .done stack⟩
    | cons o below =>
      obtain ⟨s1, s2, ran1, dropped⟩ := sound.drop_head stack
      obtain ⟨first, shorter⟩ := dropped.trimmed sound
      obtain ⟨s', ran, emptied⟩ := rest first.sound (by omega)
      refine ⟨s', ?_, .next dropped emptied⟩
      simp only [List.isEmpty_cons, Bool.false_eq_true, if_false, ran1, bind, Except.bind]
      exact ran

theorem Sound.dropMergeDeleteAll (sound : Sound s) (mapped : s.chain v ≠ []) :
    ∃ s', vmaDropMergeDeleteAll s v = .ok s' ∧ Emptied v s s' := by
  rw [vmaDropMergeDeleteAll, if_neg (by simpa using mapped)]
  exact sound.dropLinks (Nat.le_refl _)

end DropLinks

end Codezero.Mm0
