import Codezero.Mm0.Graph

/-!
# Dropping links

What the parts of `vma_drop_merge_delete` do to a sound state: a link is dropped, and the object it referred
to is deleted, merged into the shadow in front of it, or kept.
-/

namespace Codezero.Mm0
open Codezero.Lib
open Codezero.Lib.Stack (Over)
open Function (update update_of_ne update_self)

/-- Only links, shadow lists and stacks differ. -/
def Relinked (s s' : Mm) : Prop :=
  s' = { s with
    nlinks := s'.nlinks, shadows := s'.shadows, shref := s'.shref, shdwList := s'.shdwList,
    linkList := s'.linkList, origObj := s'.origObj, chain := s'.chain }

/-- Beside these only page caches and the global lists differ. -/
def Reshaped (s s' : Mm) : Prop :=
  s' = { s with
    nlinks := s'.nlinks, shadows := s'.shadows, shref := s'.shref, shdwList := s'.shdwList,
    linkList := s'.linkList, origObj := s'.origObj, chain := s'.chain, npages := s'.npages,
    pageCache := s'.pageCache, objects := s'.objects, objectsTotal := s'.objectsTotal, files := s'.files,
    filesTotal := s'.filesTotal }

namespace Reshaped
variable {s s' s'' : Mm}

theorem kind (r : Reshaped s s') : s'.kind = s.kind := by rw [r]

theorem write (r : Reshaped s s') : s'.write = s.write := by rw [r]

theorem zpage (r : Reshaped s s') : s'.zpage = s.zpage := by rw [r]

theorem vnode (r : Reshaped s s') : s'.vnode = s.vnode := by rw [r]

theorem isShadow (r : Reshaped s s') (o : ObjId) : Mm0.isShadow s' o = Mm0.isShadow s o := by
  rw [Mm0.isShadow, Mm0.isShadow, r.kind]

theorem isDevzero (r : Reshaped s s') (o : ObjId) : Mm0.isDevzero s' o = Mm0.isDevzero s o := by
  rw [Mm0.isDevzero, Mm0.isDevzero, r.kind]

theorem refl : Reshaped s s := rfl

theorem trans (r : Reshaped s s') (r' : Reshaped s' s'') : Reshaped s s'' := by
  unfold Reshaped
  rw [r', r]

/-- An object whose cached pages are the same has the same pages. -/
theorem yields (r : Reshaped s s') {o : ObjId} (pages : s'.pageCache o = s.pageCache o) :
    Mm0.yields s' o = Mm0.yields s o := by
  funext off
  simp only [Mm0.yields, findPage, r.kind, r.vnode, r.zpage, pages]

end Reshaped

namespace Relinked
variable {s s' s'' : Mm}

theorem reshaped (r : Relinked s s') : Reshaped s s' := by
  unfold Reshaped
  rw [r]

theorem objects (r : Relinked s s') : s'.objects = s.objects := by rw [r]

theorem pageCache (r : Relinked s s') : s'.pageCache = s.pageCache := by rw [r]

theorem trans (r : Relinked s s') (r' : Relinked s' s'') : Relinked s s'' := by
  unfold Relinked
  rw [r', r]

theorem yields (r : Relinked s s') : Mm0.yields s' = Mm0.yields s :=
  funext (fun o => r.reshaped.yields (by rw [r.pageCache]))

theorem globals (r : Relinked s s') (globals : Globals s) : Globals s' := by
  have kind := r.reshaped.isShadow
  constructor
  · rw [r.objects]; exact globals.objects
  · rw [r]; exact globals.objectsTotal
  · rw [r]; exact globals.files
  · rw [r]; exact globals.filesTotal
  · intro o
    rw [r.objects, kind]
    have files : s'.files = s.files := by rw [r]
    rw [files]
    exact globals.fileObjects o

theorem oneEach (r : Relinked s s') (oneEach : OneEach s) : OneEach s' := by
  unfold OneEach
  rw [r.objects, r.pageCache]
  exact oneEach

theorem counted (r : Relinked s s') (counted : Counted s) : Counted s' := by
  have npages : s'.npages = s.npages := by rw [r]
  constructor
  · intro o live
    rw [r.reshaped.isDevzero, npages, r.pageCache]
    exact counted.npages o (r.objects ▸ live)
  · rw [r.objects, r.pageCache]
    exact counted.refcnt

end Relinked

/-! ## Unlinking -/

section DropLink
variable {s : Mm} {v : VmaId} {o : ObjId} {pre post : List ObjId}

theorem vmaDropLink_chain (stack : s.chain v = pre ++ o :: post) :
    (vmaDropLink s v pre.length o).chain = update s.chain v (pre ++ post) := by
  simp only [vmaDropLink, stack]
  rw [List.eraseIdx_append_of_length_le (Nat.le_refl _), Nat.sub_self, List.eraseIdx_cons_zero]

theorem Links.drop (links : Links s) (stack : s.chain v = pre ++ o :: post) :
    Links (vmaDropLink s v pre.length o) := by
  have chain := vmaDropLink_chain stack
  have mem : o ∈ s.chain v := by simp [stack]
  have live := links.alive v o mem
  constructor
  · intro w x mem'
    rw [chain] at mem'
    by_cases same : w = v
    · subst same
      rw [update_self] at mem'
      refine links.alive w x ?_
      rw [stack]
      simp only [List.mem_append, List.mem_cons] at mem' ⊢
      tauto
    · rw [update_of_ne same] at mem'
      exact links.alive w x mem'
  · intro x livex w
    have before := links.links x livex w
    rw [chain]
    simp only [vmaDropLink]
    by_cases sameo : x = o <;> by_cases same : w = v
    · subst sameo same
      simp only [update_self, List.count_erase_self]
      rw [before, stack]
      simp
    · subst sameo
      rw [update_self, update_of_ne same, List.count_erase_of_ne same]
      exact before
    · subst same
      rw [update_self, update_of_ne sameo, before, stack]
      simp [Ne.symm sameo]
    · rw [update_of_ne same, update_of_ne sameo]
      exact before
  · intro x livex
    have before := links.nlinks x livex
    simp only [vmaDropLink]
    by_cases sameo : x = o
    · subst sameo
      have here := (links.mem_linkList live).mpr mem
      have pos := List.length_pos_of_mem here
      rw [update_self, update_self, List.length_erase_of_mem here]
      omega
    · rw [update_of_ne sameo, update_of_ne sameo]
      exact before

end DropLink

/-! ## Leaving a list of shadows -/

section Cut
variable {s : Mm} {a b o n : ObjId}

theorem shrefRemove_eq (hangs : s.shref a = some b) :
    shrefRemove s a = { s with
      shref := update s.shref a none
      shdwList := update s.shdwList b ((s.shdwList b).erase a) } := by
  rw [shrefRemove, hangs]

theorem shrefRemove_none (free : s.shref a = none) : shrefRemove s a = s := by
  rw [shrefRemove, free]

theorem shrefRemove_relinked : Relinked s (shrefRemove s a) := by
  cases hangs : s.shref a with
  | none => rw [shrefRemove_none hangs]; rfl
  | some b => rw [shrefRemove_eq hangs]; rfl

/-- `o` leaves the list it hangs on, and is no longer counted there. -/
def cut (s : Mm) (o n : ObjId) : Mm := shrefRemove (setShadows s n (s.shadows n - 1)) o

theorem cut_relinked : Relinked s (cut s o n) :=
  (show Relinked s (setShadows s n (s.shadows n - 1)) from rfl).trans shrefRemove_relinked

theorem cut_eq (hangs : s.shref o = some n) :
    cut s o n = { s with
      shadows := update s.shadows n (s.shadows n - 1)
      shref := update s.shref o none
      shdwList := update s.shdwList n ((s.shdwList n).erase o) } :=
  shrefRemove_eq (s := setShadows s n (s.shadows n - 1)) hangs

theorem Shrefs.mem_cut (shrefs : Shrefs s) (hangs : s.shref o = some n) (live : b ∈ s.objects) :
    a ∈ (cut s o n).shdwList b ↔ a ∈ s.shdwList b ∧ a ≠ o := by
  rw [cut_eq hangs]
  by_cases same : b = n
  · subst same
    simp only [update_self, (shrefs.once b live).mem_erase_iff]
    exact and_comm
  · simp only [update_of_ne same]
    refine ⟨fun mem => ⟨mem, fun eq => same ?_⟩, And.left⟩
    have := (shrefs.shadowed b live a mem).2
    rw [eq, hangs] at this
    exact (Option.some.inj this).symm

theorem Shrefs.of_cut (shrefs : Shrefs s) (live : o ∈ s.objects) (hangs : s.shref o = some n) :
    Shrefs (cut s o n) := by
  obtain ⟨liven, here⟩ := shrefs.hangs o live n hangs
  have objects : (cut s o n).objects = s.objects := cut_relinked.objects
  have shref : (cut s o n).shref = update s.shref o none := by rw [cut_eq hangs]
  constructor
  · intro b liveb a mem
    rw [objects] at liveb ⊢
    obtain ⟨mem, ne⟩ := (shrefs.mem_cut hangs liveb).mp mem
    rw [shref, update_of_ne ne]
    exact shrefs.shadowed b liveb a mem
  · intro a livea b on
    rw [objects] at livea ⊢
    by_cases same : a = o
    · simp [shref, same] at on
    · rw [shref, update_of_ne same] at on
      obtain ⟨liveb, mem⟩ := shrefs.hangs a livea b on
      exact ⟨liveb, (shrefs.mem_cut hangs liveb).mpr ⟨mem, same⟩⟩
  · intro b liveb
    rw [objects] at liveb
    rw [cut_eq hangs]
    by_cases same : b = n
    · subst same
      simpa using (shrefs.once b liveb).erase o
    · simpa [update_of_ne same] using shrefs.once b liveb
  · intro b liveb
    rw [objects] at liveb
    rw [cut_eq hangs]
    by_cases same : b = n
    · subst same
      have := shrefs.shadows b liveb
      have pos := List.length_pos_of_mem here
      simp only [update_self, List.length_erase_of_mem here]
      omega
    · simpa [update_of_ne same] using shrefs.shadows b liveb

end Cut

/-! ## Exits -/

section Exit
variable {s : Mm} {v : VmaId} {o : ObjId} {rest : List ObjId}

theorem Ordered.drop_head (ordered : Ordered s) (stack : s.chain v = o :: rest) :
    Ordered (vmaDropLink s v 0 o) := by
  have chain : (vmaDropLink s v 0 o).chain = update s.chain v rest :=
    vmaDropLink_chain (show s.chain v = [] ++ o :: rest from stack)
  have before : ∀ w a b, Over ((vmaDropLink s v 0 o).chain w) a b → Over (s.chain w) a b := by
    intro w a b on
    rw [chain] at on
    by_cases same : w = v
    · subst same
      rw [update_self] at on
      rw [stack]
      exact on.cons
    · rwa [update_of_ne same] at on
  constructor
  · intro w a b on
    exact ordered.orig w a b (before w a b on)
  · intro w a b on
    exact ordered.listed w a b (before w a b on)
  · intro w x bottom
    rw [chain] at bottom
    by_cases same : w = v
    · subst same
      rw [update_self] at bottom
      refine ordered.ends w x ?_
      rw [stack, List.getLast?_cons, bottom]
      rfl
    · rw [update_of_ne same] at bottom
      exact ordered.ends w x bottom

/-- A shadow other than the dropped object still stands where it stood; so does the dropped one while it is in
another stack. -/
theorem Sound.standing_drop_head (sound : Sound s) (stack : s.chain v = o :: rest) {a b : ObjId}
    (live : b ∈ s.objects) (mem : a ∈ s.shdwList b) (held : a = o → (vmaDropLink s v 0 o).nlinks o ≠ 0) :
    isShadow s a = true ∧ ∃ w, Over ((vmaDropLink s v 0 o).chain w) a b := by
  have chain : (vmaDropLink s v 0 o).chain = update s.chain v rest :=
    vmaDropLink_chain (show s.chain v = [] ++ o :: rest from stack)
  have links : Links (vmaDropLink s v 0 o) := sound.links.drop (show s.chain v = [] ++ o :: rest from stack)
  have ordered := sound.ordered.drop_head stack
  obtain ⟨shadow, w, on⟩ := sound.standing b live a mem
  refine ⟨shadow, ?_⟩
  by_cases same : w = v
  · subst same
    by_cases dropped : a = o
    · subst dropped
      have livea := (sound.shrefs.shadowed b live a mem).1
      obtain ⟨x, linked⟩ : ∃ x, x ∈ (vmaDropLink s w 0 a).linkList a := by
        by_contra none
        have := List.eq_nil_iff_forall_not_mem.mpr (not_exists.mp none)
        exact held rfl (by simp [links.nlinks a livea, this])
      exact ⟨x, ordered.over_orig shadow ((links.mem_linkList livea).mp linked)
        (sound.ordered.orig w a b on shadow)⟩
    · refine ⟨w, ?_⟩
      rw [chain, update_self]
      rw [stack] at on
      cases rest with
      | nil => exact absurd on Stack.not_over_single
      | cons n rest =>
        rcases on with ⟨eq, -⟩ | on
        · exact absurd eq.symm dropped
        · exact on
  · exact ⟨w, by rwa [chain, update_of_ne same]⟩

theorem exitDrop_sound (sound : Sound s) (stack : s.chain v = o :: rest) :
    ∃ s', exitDrop (vmaDropLink s v 0 o) o rest.head? = .ok s' ∧ Sound s' ∧ Relinked s s' ∧
      s'.chain = update s.chain v rest ∧ (s'.nlinks o = 0 → s'.shref o = none) := by
  have mem : o ∈ s.chain v := by simp [stack]
  have live := sound.links.alive v o mem
  have chain : (vmaDropLink s v 0 o).chain = update s.chain v rest :=
    vmaDropLink_chain (show s.chain v = [] ++ o :: rest from stack)
  have links : Links (vmaDropLink s v 0 o) := sound.links.drop (show s.chain v = [] ++ o :: rest from stack)
  have relinked : Relinked s (vmaDropLink s v 0 o) := rfl
  have ordered := sound.ordered.drop_head stack
  -- The state is sound as it is unless a shadow has lost its last link.
  have whole : (isShadow s o = true → (vmaDropLink s v 0 o).nlinks o ≠ 0) → Sound (vmaDropLink s v 0 o) :=
    fun held =>
      { links := links
        shrefs := ⟨sound.shrefs.shadowed, sound.shrefs.hangs, sound.shrefs.once, sound.shrefs.shadows⟩
        ordered := ordered
        globals := relinked.globals sound.globals
        oneEach := relinked.oneEach sound.oneEach
        counted := relinked.counted sound.counted
        standing := fun b liveb a mem => sound.standing_drop_head stack liveb mem
          (fun same => held (same ▸ (sound.standing b liveb a mem).1)) }
  by_cases zero : (vmaDropLink s v 0 o).nlinks o = 0
  · by_cases shadow : isShadow s o = true
    · cases rest with
      | nil => simp [sound.ordered.ends v o (by simp [stack])] at shadow
      | cons n rest =>
        have on : Over (s.chain v) o n := by rw [stack]; exact .inl ⟨rfl, rfl⟩
        have orig : (vmaDropLink s v 0 o).origObj o = some n := sound.ordered.orig v o n on shadow
        have here := sound.ordered.listed v o n on shadow
        have liven := sound.links.alive v n on.mem_right
        have hangs : (vmaDropLink s v 0 o).shref o = some n := (sound.shrefs.shadowed n liven o here).2
        have shrefs : Shrefs (vmaDropLink s v 0 o) :=
          ⟨sound.shrefs.shadowed, sound.shrefs.hangs, sound.shrefs.once, sound.shrefs.shadows⟩
        have counted : ¬ (vmaDropLink s v 0 o).shadows n - 1 < 0 := by
          have := List.length_pos_of_mem here
          have := shrefs.shadows n liven
          have same : (vmaDropLink s v 0 o).shdwList n = s.shdwList n := rfl
          rw [same] at this
          omega
        have cutOff : Relinked s (cut (vmaDropLink s v 0 o) o n) := relinked.trans cut_relinked
        refine ⟨cut (vmaDropLink s v 0 o) o n, ?_, ?_, cutOff, by rw [cut_eq hangs]; exact chain, ?_⟩
        · unfold exitDrop
          rw [if_pos zero]
          have : isShadow (vmaDropLink s v 0 o) o = true := shadow
          simp only [List.head?_cons, this, if_true]
          rw [if_neg (not_not.mpr orig), if_neg counted]
          rfl
        · exact
            { links := by rw [cut_eq hangs]; exact ⟨links.alive, links.links, links.nlinks⟩
              shrefs := shrefs.of_cut live hangs
              ordered :=
                { orig := by rw [cut_eq hangs]; exact ordered.orig
                  listed := by
                    intro w a b on shadow
                    have on : Over ((vmaDropLink s v 0 o).chain w) a b := by rwa [cut_eq hangs] at on
                    have gone := (links.unlinked live zero).2 w
                    refine (shrefs.mem_cut hangs (links.alive w b on.mem_right)).mpr
                      ⟨ordered.listed w a b on (by rwa [cut_eq hangs] at shadow), fun same => gone ?_⟩
                    rw [← same]
                    exact on.mem_left
                  ends := by rw [cut_eq hangs]; exact ordered.ends }
              globals := cutOff.globals sound.globals
              oneEach := cutOff.oneEach sound.oneEach
              counted := cutOff.counted sound.counted
              standing := by
                intro b liveb a mem
                rw [cutOff.objects] at liveb
                obtain ⟨mem, ne⟩ := (shrefs.mem_cut hangs liveb).mp mem
                rw [cut_eq hangs]
                exact sound.standing_drop_head stack liveb mem (fun same => absurd same ne) }
        · intro _
          rw [cut_eq hangs]
          exact update_self ..
    · have free : s.shref o = none := sound.file_shref live (by simpa using shadow)
      refine ⟨vmaDropLink s v 0 o, ?_, whole (fun h => absurd h shadow), relinked, chain, fun _ => free⟩
      unfold exitDrop
      rw [if_pos zero]
      cases rest with
      | nil => rfl
      | cons n rest =>
        have file : isShadow (vmaDropLink s v 0 o) o = false := eq_false_of_ne_true shadow
        simp only [List.head?_cons, file]
        rfl
  · refine ⟨vmaDropLink s v 0 o, ?_, whole (fun _ => zero), relinked, chain, fun h => absurd h zero⟩
    unfold exitDrop
    rw [if_neg zero]
    rfl

end Exit

end Codezero.Mm0
