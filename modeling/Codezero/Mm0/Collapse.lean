import Codezero.Mm0.Grow

/-!
# Dropping the object under the top shadow

When a shadow has as many pages as the shadow under it, `copy_on_write` drops the link to the lower one. This
keeps the state sound where the upper shadow has no link but the one of this vma.
-/

namespace Codezero.Mm0
open Codezero.Lib
open Codezero.Lib.Stack (Over)
open Function (update update_of_ne update_self)

/-- `p` becomes a shadow of `n`. -/
def rehang (s : Mm) (p n : ObjId) : Mm := setShadows (setOrig (shrefInsert s p n) p n) n (s.shadows n + 1)

section Rehang
variable {s : Mm} {a b p n : ObjId}

theorem rehang_relinked : Relinked s (rehang s p n) := rfl

theorem mem_rehang : a ∈ (rehang s p n).shdwList b ↔ (a = p ∧ b = n) ∨ a ∈ s.shdwList b := by
  simp only [rehang, setShadows, setOrig, shrefInsert]
  by_cases isn : b = n
  · subst isn
    simp
  · simp [isn]

theorem Shrefs.of_rehang (shrefs : Shrefs s) (live : p ∈ s.objects) (liven : n ∈ s.objects)
    (free : s.shref p = none) : Shrefs (rehang s p n) := by
  have shref : ∀ {x}, x ≠ p → (rehang s p n).shref x = s.shref x := fun ne => update_of_ne ne ..
  have absent : ∀ b ∈ s.objects, p ∉ s.shdwList b := fun b liveb mem => by
    have := (shrefs.shadowed b liveb p mem).2
    rw [free] at this
    exact absurd this.symm (Option.some_ne_none b)
  constructor
  · intro b liveb a mem
    rcases mem_rehang.mp mem with ⟨rfl, rfl⟩ | mem
    · exact ⟨live, update_self ..⟩
    · rw [shref (fun same => absent b liveb (same ▸ mem))]
      exact shrefs.shadowed b liveb a mem
  · intro a livea b on
    by_cases isp : a = p
    · subst isp
      have : b = n := by simpa [rehang, setShadows, setOrig, shrefInsert] using on.symm
      exact ⟨this ▸ liven, mem_rehang.mpr (.inl ⟨rfl, this⟩)⟩
    · rw [shref isp] at on
      obtain ⟨liveb, mem⟩ := shrefs.hangs a livea b on
      exact ⟨liveb, mem_rehang.mpr (.inr mem)⟩
  · intro b liveb
    have before := shrefs.once b liveb
    simp only [rehang, setShadows, setOrig, shrefInsert]
    by_cases isn : b = n
    · subst isn
      rw [update_self, List.nodup_cons]
      exact ⟨absent b liveb, before⟩
    · rwa [update_of_ne isn]
  · intro b liveb
    have before := shrefs.shadows b liveb
    simp only [rehang, setShadows, setOrig, shrefInsert]
    by_cases isn : b = n
    · subst isn
      simp [before]
    · rwa [update_of_ne isn, update_of_ne isn]

end Rehang

/-! ## The drop -/

/-- `o` stands between `p` and `n` in `v`'s stack, and `p` in no other stack. -/
structure Droppable (s : Mm) (v : VmaId) (p o n : ObjId) (rest : List ObjId) : Prop where
  stack : s.chain v = p :: o :: n :: rest
  front : isShadow s p = true
  shadow : isShadow s o = true
  alone : s.nlinks p = 1

section Drop
variable {s : Mm} {v : VmaId} {p o n : ObjId} {rest : List ObjId}

/-- The state after the link is dropped and the shadow in front rehung. -/
def droppedFrom (s : Mm) (v : VmaId) (p o n : ObjId) : Mm := rehang (cut (vmaDropLink s v 1 o) p o) p n

theorem Droppable.relinked : Relinked s (droppedFrom s v p o n) :=
  (show Relinked s (vmaDropLink s v 1 o) from rfl).trans (cut_relinked.trans rehang_relinked)

variable (drop : Droppable s v p o n rest)
include drop

namespace Droppable

theorem over_front : Over (s.chain v) p o := by
  rw [drop.stack]
  exact .inl ⟨rfl, rfl⟩

theorem over_next : Over (s.chain v) o n := by
  rw [drop.stack]
  exact .inr (.inl ⟨rfl, rfl⟩)

end Droppable

variable (sound : Sound s)
include sound

namespace Droppable

/-- The shadow in front stands once, at the top of `v`'s stack. -/
theorem once : p ∉ o :: n :: rest ∧ ∀ w, w ≠ v → p ∉ s.chain w := by
  have mem : p ∈ s.chain v := drop.over_front.mem_left
  obtain ⟨w, -, count, only⟩ := sound.links.last (sound.links.alive v p mem) drop.alone
  have same : v = w := by
    by_contra ne
    exact only v ne mem
  subst same
  refine ⟨?_, only⟩
  rw [drop.stack, List.count_cons_self] at count
  exact List.count_eq_zero.mp (by omega)

theorem hangs : (vmaDropLink s v 1 o).shref p = some o :=
  (sound.shrefs.shadowed o (sound.links.alive v o drop.over_front.mem_right) p
    (sound.ordered.listed v p o drop.over_front drop.front)).2

theorem chain : (droppedFrom s v p o n).chain = update s.chain v (p :: n :: rest) := by
  have dropped : (vmaDropLink s v 1 o).chain = update s.chain v ([p] ++ n :: rest) :=
    vmaDropLink_chain (show s.chain v = [p] ++ o :: n :: rest from drop.stack)
  rw [droppedFrom, cut_eq (drop.hangs sound)]
  exact dropped

theorem links : Links (droppedFrom s v p o n) := by
  have links : Links (vmaDropLink s v 1 o) :=
    sound.links.drop (show s.chain v = [p] ++ o :: n :: rest from drop.stack)
  rw [droppedFrom, cut_eq (drop.hangs sound)]
  exact ⟨links.alive, links.links, links.nlinks⟩

theorem shrefs : Shrefs (droppedFrom s v p o n) := by
  have live : p ∈ s.objects := sound.links.alive v p drop.over_front.mem_left
  have liven : n ∈ s.objects := sound.links.alive v n drop.over_next.mem_right
  have before : Shrefs (vmaDropLink s v 1 o) :=
    ⟨sound.shrefs.shadowed, sound.shrefs.hangs, sound.shrefs.once, sound.shrefs.shadows⟩
  have objects : (cut (vmaDropLink s v 1 o) p o).objects = s.objects := cut_relinked.objects
  refine (before.of_cut live (drop.hangs sound)).of_rehang (objects ▸ live) (objects ▸ liven) ?_
  rw [cut_eq (drop.hangs sound)]
  exact update_self ..

theorem mem_shdwList {a b : ObjId} (live : b ∈ s.objects) :
    a ∈ (droppedFrom s v p o n).shdwList b ↔ (a = p ∧ b = n) ∨ (a ∈ s.shdwList b ∧ a ≠ p) := by
  have before : Shrefs (vmaDropLink s v 1 o) :=
    ⟨sound.shrefs.shadowed, sound.shrefs.hangs, sound.shrefs.once, sound.shrefs.shadows⟩
  rw [droppedFrom, mem_rehang, before.mem_cut (drop.hangs sound) live]
  rfl

theorem over_iff {w : VmaId} {a b : ObjId} : Over ((droppedFrom s v p o n).chain w) a b ↔
      (w = v ∧ a = p ∧ b = n) ∨ (w ≠ v ∧ Over (s.chain w) a b) ∨ (w = v ∧ Over (n :: rest) a b) := by
  rw [drop.chain sound]
  by_cases here : w = v
  · subst here
    simp [eq_comm]
  · simp [here]

/-- Every neighbour in a stack of the new state but the front one was one before, and is not `p`. -/
theorem over_before {w : VmaId} {a b : ObjId}
    (on : Over ((droppedFrom s v p o n).chain w) a b) : (a = p ∧ b = n) ∨ (Over (s.chain w) a b ∧ a ≠ p) := by
  have once := drop.once sound
  rcases (drop.over_iff sound).mp on with ⟨-, same⟩ | ⟨ne, on⟩ | ⟨rfl, behind⟩
  · exact .inl same
  · exact .inr ⟨on, fun same => once.2 w ne (same ▸ on.mem_left)⟩
  · refine .inr ⟨?_, fun same => once.1 (List.mem_cons_of_mem o (same ▸ behind.mem_left))⟩
    rw [drop.stack]
    exact behind.cons.cons

theorem ordered : Ordered (droppedFrom s v p o n) := by
  have liven : n ∈ s.objects := sound.links.alive v n drop.over_next.mem_right
  have orig : ∀ a, a ≠ p → (droppedFrom s v p o n).origObj a = s.origObj a := fun a ne => by
    rw [droppedFrom, cut_eq (drop.hangs sound)]
    exact update_of_ne ne ..
  have shadow := (relinked (s := s) (v := v) (p := p) (o := o) (n := n)).reshaped.isShadow
  constructor
  · intro w a b on isShadow
    rcases drop.over_before sound on with ⟨rfl, rfl⟩ | ⟨on, ne⟩
    · exact update_self ..
    · rw [orig a ne]
      exact sound.ordered.orig w a b on ((shadow a).symm.trans isShadow)
  · intro w a b on isShadow
    rcases drop.over_before sound on with ⟨rfl, rfl⟩ | ⟨on, ne⟩
    · exact (drop.mem_shdwList sound liven).mpr (.inl ⟨rfl, rfl⟩)
    · exact (drop.mem_shdwList sound (sound.links.alive w b on.mem_right)).mpr
        (.inr ⟨sound.ordered.listed w a b on ((shadow a).symm.trans isShadow), ne⟩)
  · intro w x bottom
    rw [shadow]
    refine sound.ordered.ends w x ?_
    rw [drop.chain sound] at bottom
    by_cases here : w = v
    · subst here
      rw [update_self] at bottom
      rw [drop.stack]
      simpa using bottom
    · rwa [update_of_ne here] at bottom

theorem ne : o ≠ p :=
  fun same => (drop.once sound).1 (by simp [same])

theorem orig : (droppedFrom s v p o n).origObj o = some n := by
  have same : (droppedFrom s v p o n).origObj o = s.origObj o := by
    rw [droppedFrom, cut_eq (drop.hangs sound)]
    exact update_of_ne (drop.ne sound) ..
  rw [same]
  exact sound.ordered.orig v o n drop.over_next drop.shadow

/-- A shadow other than the dropped object still stands where it hangs; so does the dropped one while it is in
another stack. -/
theorem standing {a b : ObjId} (live : b ∈ s.objects)
    (mem : a ∈ (droppedFrom s v p o n).shdwList b) (held : a = o → (droppedFrom s v p o n).nlinks o ≠ 0) :
    isShadow s a = true ∧ ∃ w, Over ((droppedFrom s v p o n).chain w) a b := by
  rcases (drop.mem_shdwList sound live).mp mem with ⟨rfl, rfl⟩ | ⟨mem, ne⟩
  · exact ⟨drop.front, v, (drop.over_iff sound).mpr (.inl ⟨rfl, rfl, rfl⟩)⟩
  · obtain ⟨shadow, w, on⟩ := sound.standing b live a mem
    refine ⟨shadow, ?_⟩
    by_cases here : w = v
    · subst here
      rw [drop.stack] at on
      rcases on with ⟨same, -⟩ | ⟨rfl, rfl⟩ | on
      · exact absurd same.symm ne
      · have live' : o ∈ s.objects := sound.links.alive w o drop.over_next.mem_left
        obtain ⟨x, linked⟩ := ((drop.links sound).linked_iff (relinked.objects.symm ▸ live')).mpr (held rfl)
        exact ⟨x, (drop.ordered sound).over_orig ((relinked.reshaped.isShadow o).trans shadow) linked (drop.orig sound)⟩
      · exact ⟨w, (drop.over_iff sound).mpr (.inr (.inr ⟨rfl, on⟩))⟩
    · exact ⟨w, (drop.over_iff sound).mpr (.inr (.inl ⟨here, on⟩))⟩

/-- The dropped object is still in another stack. -/
theorem sound_held (held : (droppedFrom s v p o n).nlinks o ≠ 0) : Sound (droppedFrom s v p o n) :=
  { links := drop.links sound
    shrefs := drop.shrefs sound
    ordered := drop.ordered sound
    globals := relinked.globals sound.globals
    oneEach := relinked.oneEach sound.oneEach
    counted := relinked.counted sound.counted
    standing := fun b live a mem => by
      rw [relinked.reshaped.isShadow]
      exact drop.standing sound (relinked.objects ▸ live) mem (fun _ => held) }

/-- The dropped object was in this stack only, and leaves the list of shadows it hangs on. -/
theorem sound_cut (unlinked : (droppedFrom s v p o n).nlinks o = 0) : Sound (cut (droppedFrom s v p o n) o n) := by
  have liveo : o ∈ s.objects := sound.links.alive v o drop.over_next.mem_left
  have liven : n ∈ s.objects := sound.links.alive v n drop.over_next.mem_right
  have links := drop.links sound
  have shrefs := drop.shrefs sound
  have ordered := drop.ordered sound
  have objects : (droppedFrom s v p o n).objects = s.objects := relinked.objects
  have here : o ∈ s.shdwList n := sound.ordered.listed v o n drop.over_next drop.shadow
  have hangs : (droppedFrom s v p o n).shref o = some n :=
    (shrefs.shadowed n (objects.symm ▸ liven) o ((drop.mem_shdwList sound liven).mpr (.inr ⟨here, drop.ne sound⟩))).2
  have cutOff : Relinked s (cut (droppedFrom s v p o n) o n) := relinked.trans cut_relinked
  have gone := (links.unlinked (objects.symm ▸ liveo) unlinked).2
  exact
    { links := by rw [cut_eq hangs]; exact ⟨links.alive, links.links, links.nlinks⟩
      shrefs := shrefs.of_cut (objects.symm ▸ liveo) hangs
      ordered :=
        { orig := by rw [cut_eq hangs]; exact ordered.orig
          listed := fun w a b on shadow => by
            have on : Over ((droppedFrom s v p o n).chain w) a b := by rwa [cut_eq hangs] at on
            refine (shrefs.mem_cut hangs (links.alive w b on.mem_right)).mpr
              ⟨ordered.listed w a b on (by rwa [cut_eq hangs] at shadow), fun same => gone w (same ▸ on.mem_left)⟩
          ends := by rw [cut_eq hangs]; exact ordered.ends }
      globals := cutOff.globals sound.globals
      oneEach := cutOff.oneEach sound.oneEach
      counted := cutOff.counted sound.counted
      standing := fun b live a mem => by
        rw [cutOff.objects] at live
        obtain ⟨mem, ne⟩ := (shrefs.mem_cut hangs (objects.symm ▸ live)).mp mem
        rw [cutOff.reshaped.isShadow, cut_eq hangs]
        exact drop.standing sound live mem (fun same => absurd same ne) }

end Droppable

theorem shadowDrop_sound (writable : s.write p = true) :
    ∃ s', shadowDrop (vmaDropLink s v 1 o) p o (some n) = .ok s' ∧ Sound s' ∧ Relinked s s' ∧
      s'.chain = update s.chain v (p :: n :: rest) ∧ (s'.nlinks o = 0 → s'.shref o = none) := by
  have front : isShadow (vmaDropLink s v 1 o) p = true := drop.front
  have write : (vmaDropLink s v 1 o).write p = true := writable
  have liveo : o ∈ s.objects := sound.links.alive v o drop.over_next.mem_left
  have liven : n ∈ s.objects := sound.links.alive v n drop.over_next.mem_right
  have counted : ¬ (vmaDropLink s v 1 o).shadows o - 1 < 0 := by
    have here := sound.ordered.listed v p o drop.over_front drop.front
    have pos := List.length_pos_of_mem here
    have count : (vmaDropLink s v 1 o).shadows o = (s.shdwList o).length := sound.shrefs.shadows o liveo
    omega
  -- The state in which the source asks whether the object has referrers left.
  let moved := setOrig (shrefInsert (cut (vmaDropLink s v 1 o) p o) p n) p n
  have executed : shadowDrop (vmaDropLink s v 1 o) p o (some n) =
      if moved.nlinks o = 0 then
        if moved.origObj o ≠ some n then throw .dropMergeDelete else pure (shrefRemove moved o)
      else pure (setShadows moved n (moved.shadows n + 1)) := by
    unfold shadowDrop
    simp only [front, write, Bool.not_true, Bool.false_eq_true, if_false, if_neg counted, drop.hangs sound, Option.isNone_some]
    rfl
  rw [executed]
  by_cases unlinked : moved.nlinks o = 0
  · have orig : moved.origObj o = some n := drop.orig sound
    have uncounted : cut (droppedFrom s v p o n) o n = shrefRemove moved o := by
      have : setShadows (droppedFrom s v p o n) n ((droppedFrom s v p o n).shadows n - 1) = moved := by
        simp [droppedFrom, rehang, setShadows, moved, setOrig, shrefInsert]
      rw [cut, this]
    have liven' : n ∈ (droppedFrom s v p o n).objects := Droppable.relinked.objects.symm ▸ liven
    have here : o ∈ (droppedFrom s v p o n).shdwList n := (drop.mem_shdwList sound liven).mpr
      (.inr ⟨sound.ordered.listed v o n drop.over_next drop.shadow, drop.ne sound⟩)
    have hangs' := ((drop.shrefs sound).shadowed n liven' o here).2
    refine ⟨cut (droppedFrom s v p o n) o n, ?_, drop.sound_cut sound unlinked,
      Droppable.relinked.trans cut_relinked, ?_, fun _ => ?_⟩
    · rw [if_pos unlinked, if_neg (not_not.mpr orig), uncounted]
      rfl
    · rw [cut_eq hangs']
      exact drop.chain sound
    · rw [cut_eq hangs']
      exact update_self ..
  · refine ⟨droppedFrom s v p o n, ?_, drop.sound_held sound unlinked, Droppable.relinked, drop.chain sound,
      fun zero => absurd zero unlinked⟩
    rw [if_neg unlinked]
    rfl

/-- Dropping the link under the top one: the link goes, then the object is dealt with. -/
theorem Sound.drop_under (writable : s.write p = true) : ∃ s1 s', vmaDropMergeDelete s v 1 = .ok s' ∧ Sound s1 ∧ Relinked s s1 ∧
      s1.chain = update s.chain v (p :: n :: rest) ∧ Settled s1 o s' := by
  have live := sound.links.alive v o drop.over_next.mem_left
  obtain ⟨s1, dropped, sound1, relinked, chain, free⟩ := shadowDrop_sound drop sound writable
  obtain ⟨s', dealt, settled⟩ := sound1.dealWith (relinked.objects ▸ live) free
  refine ⟨s1, s', ?_, sound1, relinked, chain, settled⟩
  unfold vmaDropMergeDelete
  have here : (s.chain v)[1]? = some o := by simp [drop.stack]
  have next : (s.chain v)[1 + 1]? = some n := by simp [drop.stack]
  have prev : (s.chain v)[0]? = some p := by simp [drop.stack]
  rw [here, next]
  simp only [prev, dropped, bind, Except.bind]
  exact dealt

end Drop

end Codezero.Mm0
