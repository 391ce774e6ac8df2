import Codezero.Mm0.Release
import Codezero.Mm0.Mmap

/-!
# New links, new shadows and new pages

A new vma over the objects of another one, a new shadow on top of a stack and a new page in a cache keep the
state sound.
-/

namespace Codezero.Mm0
open Codezero.Lib
open Codezero.Lib.Stack (Over)
open Function (update update_eq_self update_of_ne update_self)

/-! ## New links -/

section CopyLinks
variable {s : Mm} {v : VmaId} {o : ObjId} {stack : List ObjId}

/-- One turn of `vma_copy_links`. -/
def linkBelow (s : Mm) (v : VmaId) (o : ObjId) : Mm :=
  { vmLinkObject s v o with chain := update s.chain v (s.chain v ++ [o]) }

theorem Links.linkBelow (links : Links s) (live : o ∈ s.objects) : Links (linkBelow s v o) := by
  constructor
  · intro w x mem
    simp only [Mm0.linkBelow] at mem
    by_cases here : w = v
    · subst here
      rw [update_self, List.mem_append, List.mem_singleton] at mem
      rcases mem with mem | rfl
      · exact links.alive w x mem
      · exact live
    · rw [update_of_ne here] at mem
      exact links.alive w x mem
  · intro x livex w
    have before := links.links x livex w
    simp only [Mm0.linkBelow, vmLinkObject]
    by_cases iso : x = o <;> by_cases here : w = v
    · subst iso here
      simp [before]
    · subst iso
      simp [update_of_ne here, before, Ne.symm here]
    · subst here
      simp [update_of_ne iso, before, Ne.symm iso]
    · rw [update_of_ne iso, update_of_ne here]
      exact before
  · intro x livex
    have before := links.nlinks x livex
    simp only [Mm0.linkBelow, vmLinkObject]
    by_cases iso : x = o
    · subst iso
      simp [before]
    · rw [update_of_ne iso, update_of_ne iso]
      exact before

/-- Only links and one stack differ. -/
def Attached (s s' : Mm) (v : VmaId) (stack : List ObjId) : Prop :=
  s' = { s with linkList := s'.linkList, nlinks := s'.nlinks, chain := update s.chain v stack }

theorem linkBelow_fold (links : Links s) (live : ∀ o ∈ stack, o ∈ s.objects) :
    Links (stack.foldl (fun s o => linkBelow s v o) s) ∧
      Attached s (stack.foldl (fun s o => linkBelow s v o) s) v (s.chain v ++ stack) := by
  induction stack generalizing s with
  | nil => exact ⟨links, by simp [Attached]⟩
  | cons o stack rest =>
    have here : (linkBelow s v o).chain v = s.chain v ++ [o] := update_self ..
    obtain ⟨links', attached⟩ := rest (links.linkBelow (live o (by simp))) (fun x mem => live x (by simp [mem]))
    refine ⟨links', ?_⟩
    unfold Attached at attached ⊢
    rw [List.foldl_cons, attached]
    simp [linkBelow, vmLinkObject]

/-- The stack could stand over some vma: it is ordered like the others. -/
structure Fits (s : Mm) (stack : List ObjId) : Prop where
  live : ∀ o ∈ stack, o ∈ s.objects
  orig : ∀ a b, Over stack a b → isShadow s a = true → s.origObj a = some b
  listed : ∀ a b, Over stack a b → isShadow s a = true → a ∈ s.shdwList b
  ends : ∀ o, stack.getLast? = some o → isShadow s o = false

theorem Sound.fits (sound : Sound s) (v : VmaId) : Fits s (s.chain v) :=
  ⟨sound.links.alive v, sound.ordered.orig v, sound.ordered.listed v, sound.ordered.ends v⟩

theorem fits_single (live : o ∈ s.objects) (file : isShadow s o = false) : Fits s [o] :=
  ⟨by simpa using live, fun _ _ on => absurd on Stack.not_over_single, fun _ _ on => absurd on Stack.not_over_single,
    fun x bottom => by
      have : x = o := by simpa using bottom.symm
      rw [this, file]⟩

theorem Links.copyLinks (links : Links s) (free : s.chain v = []) (live : ∀ o ∈ stack, o ∈ s.objects) :
    Links (vmaCopyLinks s v stack) ∧ Attached s (vmaCopyLinks s v stack) v stack := by
  have same : { s with chain := update s.chain v [] } = s := by
    rw [← free, update_eq_self]
  have unfolded : vmaCopyLinks s v stack = stack.foldl (fun s o => Mm0.linkBelow s v o) s := by
    unfold vmaCopyLinks
    rw [same]
    rfl
  have folded := linkBelow_fold (v := v) links live
  rwa [← unfolded, free, List.nil_append] at folded

theorem Sound.copyLinks (sound : Sound s) (free : s.chain v = []) (fits : Fits s stack) :
    Sound (vmaCopyLinks s v stack) ∧ Attached s (vmaCopyLinks s v stack) v stack := by
  obtain ⟨links, attached⟩ := sound.links.copyLinks free fits.live
  refine ⟨?_, attached⟩
  generalize vmaCopyLinks s v stack = s' at attached links
  have relinked : Relinked s s' := by
    unfold Relinked
    rw [attached]
  have chain : s'.chain = update s.chain v stack := by rw [attached]
  have orig : s'.origObj = s.origObj := by rw [attached]
  have shdw : s'.shdwList = s.shdwList := by rw [attached]
  have shref : s'.shref = s.shref := by rw [attached]
  have shadows : s'.shadows = s.shadows := by rw [attached]
  have shadow := relinked.reshaped.isShadow
  have other : ∀ w, w ≠ v → s'.chain w = s.chain w := fun w ne => by rw [chain, update_of_ne ne]
  have own : s'.chain v = stack := by rw [chain, update_self]
  exact
    { links := links
      shrefs := by
        constructor
        all_goals simp only [relinked.objects, shdw, shref, shadows]
        exacts [sound.shrefs.shadowed, sound.shrefs.hangs, sound.shrefs.once, sound.shrefs.shadows]
      ordered := by
        constructor
        all_goals intro w
        all_goals by_cases here : w = v
        all_goals first | (subst here; simp only [own]) | simp only [other w here]
        all_goals simp only [shadow, orig, shdw]
        exacts [fits.orig, sound.ordered.orig w, fits.listed, sound.ordered.listed w, fits.ends, sound.ordered.ends w]
      globals := relinked.globals sound.globals
      oneEach := relinked.oneEach sound.oneEach
      counted := relinked.counted sound.counted
      standing := fun b live a mem => by
        rw [relinked.objects] at live
        rw [shdw] at mem
        obtain ⟨isShadow, w, on⟩ := sound.standing b live a mem
        refine ⟨(shadow a).trans isShadow, w, ?_⟩
        have ne : w ≠ v := by
          rintro rfl
          rw [free] at on
          exact Stack.not_over_nil on
        rwa [other w ne] }

end CopyLinks

/-! ## New shadows -/

section Shadow
variable {s : Mm} {v : VmaId} {top new : ObjId} {below : List ObjId}

/-- The state with the new shadow of `top` in front of `v`'s stack. -/
def withShadow (s : Mm) (v : VmaId) (top new : ObjId) : Mm :=
  { s with
    npages := update s.npages new 0
    nlinks := update s.nlinks new 1
    shadows := update (update s.shadows new 0) top (s.shadows top + 1)
    shref := update s.shref new (some top)
    shdwList := update (update s.shdwList new []) top (new :: s.shdwList top)
    linkList := update s.linkList new [v]
    origObj := update s.origObj new (some top)
    kind := update s.kind new .shadow
    write := update s.write new true
    dirty := update s.dirty new false
    pageCache := update s.pageCache new []
    chain := update s.chain v (new :: s.chain v)
    objects := new :: s.objects
    objectsTotal := s.objectsTotal + 1 }

theorem createShadow_eq (dead : new ∉ s.objects) (ne : top ≠ new) :
    createShadow s v top new = .ok (withShadow s v top new) := by
  unfold createShadow globalAddVmObject
  simp [shrefInsert, withShadow, update_of_ne ne, dead]
  rfl

namespace WithShadow

theorem isShadow_self : isShadow (withShadow s v top new) new = true := by
  simp [isShadow, withShadow, Kind.isShadow]

theorem isShadow_of_ne {o : ObjId} (ne : o ≠ new) : isShadow (withShadow s v top new) o = isShadow s o := by
  simp [isShadow, withShadow, update_of_ne ne]

theorem isDevzero_of_ne {o : ObjId} (ne : o ≠ new) : isDevzero (withShadow s v top new) o = isDevzero s o := by
  simp [isDevzero, withShadow, update_of_ne ne]

theorem chain_self : (withShadow s v top new).chain v = new :: s.chain v := update_self ..

theorem chain_of_ne {w : VmaId} (ne : w ≠ v) : (withShadow s v top new).chain w = s.chain w :=
  update_of_ne ne ..

theorem over_iff (stack : s.chain v = top :: below) {w : VmaId} {a b : ObjId} :
    Over ((withShadow s v top new).chain w) a b ↔ (w = v ∧ a = new ∧ b = top) ∨ Over (s.chain w) a b := by
  by_cases here : w = v
  · subst here
    rw [chain_self, stack]
    simp only [Stack.over_cons_cons, true_and]
    rw [eq_comm (a := new), eq_comm (a := top)]
  · rw [chain_of_ne here]
    simp [here]

theorem mem_shdwList (ne : top ≠ new) {a b : ObjId} (other : b ≠ new) :
    a ∈ (withShadow s v top new).shdwList b ↔ (a = new ∧ b = top) ∨ a ∈ s.shdwList b := by
  simp only [withShadow]
  by_cases ist : b = top
  · subst ist
    simp
  · rw [update_of_ne ist, update_of_ne other]
    simp [ist]

theorem shdwList_self (ne : top ≠ new) : (withShadow s v top new).shdwList new = [] := by
  simp [withShadow, update_of_ne ne.symm]

theorem links (links : Links s) (dead : new ∉ s.objects) : Links (withShadow s v top new) := by
  have nowhere : ∀ w, new ∉ s.chain w := fun w mem => dead (links.alive w new mem)
  constructor
  · intro w x mem
    by_cases here : w = v
    · subst here
      rw [chain_self, List.mem_cons] at mem
      exact List.mem_cons.mpr (mem.imp id (links.alive w x))
    · rw [chain_of_ne here] at mem
      exact List.mem_cons_of_mem new (links.alive w x mem)
  · intro x live w
    by_cases isNew : x = new
    · subst isNew
      have absent := List.count_eq_zero.mpr (nowhere w)
      by_cases here : w = v
      · subst here
        rw [chain_self]
        simp [withShadow, absent]
      · rw [chain_of_ne here, absent]
        simp [withShadow, Ne.symm here]
    · have live' : x ∈ s.objects := (List.mem_cons.mp live).resolve_left isNew
      have before := links.links x live' w
      have list : (withShadow s v top new).linkList x = s.linkList x := update_of_ne isNew ..
      rw [list, before]
      by_cases here : w = v
      · subst here
        rw [chain_self, List.count_cons_of_ne (Ne.symm isNew)]
      · rw [chain_of_ne here]
  · intro x live
    simp only [withShadow]
    by_cases isNew : x = new
    · subst isNew
      simp
    · rw [update_of_ne isNew, update_of_ne isNew]
      exact links.nlinks x ((List.mem_cons.mp live).resolve_left isNew)

theorem shrefs (sound : Sound s) (stack : s.chain v = top :: below) (dead : new ∉ s.objects) :
    Shrefs (withShadow s v top new) := by
  have livet : top ∈ s.objects := sound.links.alive v top (by simp [stack])
  have ne : top ≠ new := fun same => dead (same ▸ livet)
  have old : ∀ {x}, x ≠ new → x ∈ (withShadow s v top new).objects → x ∈ s.objects :=
    fun isNew live => (List.mem_cons.mp live).resolve_left isNew
  have shref : ∀ {x}, x ≠ new → (withShadow s v top new).shref x = s.shref x := fun isNew => update_of_ne isNew ..
  constructor
  · intro b live a mem
    by_cases isNew : b = new
    · rw [isNew, shdwList_self ne] at mem
      exact absurd mem List.not_mem_nil
    · rcases (mem_shdwList ne isNew).mp mem with ⟨rfl, rfl⟩ | mem
      · exact ⟨List.mem_cons_self, update_self ..⟩
      · obtain ⟨livea, on⟩ := sound.shrefs.shadowed b (old isNew live) a mem
        exact ⟨List.mem_cons_of_mem new livea, (shref (fun same => dead (same ▸ livea))).trans on⟩
  · intro a live b on
    by_cases isNew : a = new
    · subst isNew
      have : b = top := by simpa [withShadow] using on.symm
      subst this
      exact ⟨List.mem_cons_of_mem _ livet, (mem_shdwList ne ne).mpr (.inl ⟨rfl, rfl⟩)⟩
    · rw [shref isNew] at on
      obtain ⟨liveb, mem⟩ := sound.shrefs.hangs a (old isNew live) b on
      exact ⟨List.mem_cons_of_mem new liveb, (mem_shdwList ne (fun same => dead (same ▸ liveb))).mpr (.inr mem)⟩
  · intro b live
    by_cases isNew : b = new
    · rw [isNew, shdwList_self ne]
      exact List.nodup_nil
    · have before := sound.shrefs.once b (old isNew live)
      simp only [withShadow]
      by_cases ist : b = top
      · subst ist
        rw [update_self, List.nodup_cons]
        exact ⟨fun mem => dead (sound.shrefs.shadowed b livet new mem).1, before⟩
      · rwa [update_of_ne ist, update_of_ne isNew]
  · intro b live
    by_cases isNew : b = new
    · subst isNew
      rw [shdwList_self ne]
      simp [withShadow, update_of_ne ne.symm]
    · have before := sound.shrefs.shadows b (old isNew live)
      simp only [withShadow]
      by_cases ist : b = top
      · subst ist
        simp [before]
      · rw [update_of_ne ist, update_of_ne isNew, update_of_ne ist,
          update_of_ne isNew]
        exact before

theorem ordered (sound : Sound s) (stack : s.chain v = top :: below) (dead : new ∉ s.objects) :
    Ordered (withShadow s v top new) := by
  have livet : top ∈ s.objects := sound.links.alive v top (by simp [stack])
  have ne : top ≠ new := fun same => dead (same ▸ livet)
  have old : ∀ {w x}, x ∈ s.chain w → x ≠ new := fun mem same => dead (same ▸ sound.links.alive _ _ mem)
  constructor
  · intro w a b on shadow
    rcases (over_iff stack).mp on with ⟨-, rfl, rfl⟩ | on
    · exact update_self ..
    · have isNew := old on.mem_left
      rw [isShadow_of_ne isNew] at shadow
      have same : (withShadow s v top new).origObj a = s.origObj a := update_of_ne isNew ..
      rw [same]
      exact sound.ordered.orig w a b on shadow
  · intro w a b on shadow
    rcases (over_iff stack).mp on with ⟨-, rfl, rfl⟩ | on
    · exact (mem_shdwList ne ne).mpr (.inl ⟨rfl, rfl⟩)
    · rw [isShadow_of_ne (old on.mem_left)] at shadow
      exact (mem_shdwList ne (old on.mem_right)).mpr (.inr (sound.ordered.listed w a b on shadow))
  · intro w o bottom
    have before : (s.chain w).getLast? = some o := by
      by_cases here : w = v
      · subst here
        rw [chain_self, stack] at bottom
        rw [stack]
        simpa using bottom
      · rwa [chain_of_ne here] at bottom
    rw [isShadow_of_ne (old (List.mem_of_getLast? before))]
    exact sound.ordered.ends w o before

theorem globals (globals : Globals s) (dead : new ∉ s.objects) : Globals (withShadow s v top new) := by
  refine ⟨List.nodup_cons.mpr ⟨dead, globals.objects⟩, ?_, globals.files, globals.filesTotal, ?_⟩
  · have := globals.objectsTotal
    simp only [withShadow, List.length_cons]
    omega
  · intro o
    by_cases isNew : o = new
    · subst isNew
      refine ⟨fun mem => absurd ((globals.fileObjects o).mp mem).1 dead, fun ⟨_, file⟩ => ?_⟩
      rw [isShadow_self] at file
      exact Bool.noConfusion file
    · rw [isShadow_of_ne isNew]
      have : o ∈ (withShadow s v top new).objects ↔ o ∈ s.objects := by simp [withShadow, isNew]
      rw [this]
      exact globals.fileObjects o

theorem sound (sound : Sound s) (stack : s.chain v = top :: below) (dead : new ∉ s.objects) :
    Sound (withShadow s v top new) := by
  have livet : top ∈ s.objects := sound.links.alive v top (by simp [stack])
  have ne : top ≠ new := fun same => dead (same ▸ livet)
  have old : ∀ {x}, x ≠ new → x ∈ (withShadow s v top new).objects → x ∈ s.objects :=
    fun isNew live => (List.mem_cons.mp live).resolve_left isNew
  have pages : ∀ {x}, x ≠ new → (withShadow s v top new).pageCache x = s.pageCache x :=
    fun isNew => update_of_ne isNew ..
  have none : (withShadow s v top new).pageCache new = [] := update_self ..
  exact
    { links := links sound.links dead
      shrefs := shrefs sound stack dead
      ordered := ordered sound stack dead
      globals := globals sound.globals dead
      oneEach := fun o live => by
        by_cases isNew : o = new
        · simp [isNew, none]
        · rw [pages isNew]
          exact sound.oneEach o (old isNew live)
      standing := fun b live a mem => by
        by_cases isNew : b = new
        · rw [isNew, shdwList_self ne] at mem
          exact absurd mem List.not_mem_nil
        · rcases (mem_shdwList ne isNew).mp mem with ⟨rfl, rfl⟩ | mem
          · exact ⟨isShadow_self, v, (over_iff stack).mpr (.inl ⟨rfl, rfl, rfl⟩)⟩
          · obtain ⟨shadow, w, on⟩ := sound.standing b (old isNew live) a mem
            have isOld : a ≠ new := fun same => dead (same ▸ sound.links.alive w a on.mem_left)
            exact ⟨(isShadow_of_ne isOld).trans shadow, w, (over_iff stack).mpr (.inr on)⟩
      counted :=
        { npages := fun o live ours => by
            by_cases isNew : o = new
            · subst isNew
              simp [withShadow]
            · rw [isDevzero_of_ne isNew] at ours
              have count : (withShadow s v top new).npages o = s.npages o := update_of_ne isNew ..
              rw [pages isNew, count]
              exact sound.counted.npages o (old isNew live) ours
          refcnt := fun o live p mem => by
            by_cases isNew : o = new
            · simp [isNew, none] at mem
            · rw [pages isNew] at mem
              exact sound.counted.refcnt o (old isNew live) p mem } }

end WithShadow

end Shadow

/-! ## What soundness does not depend on -/

/-- Only memory, page tables, vma ranges, task lists and object flags differ. -/
def Beside (s s' : Mm) : Prop :=
  s' = { s with
    write := s'.write, dirty := s'.dirty, zpage := s'.zpage, vma := s'.vma, task := s'.task, regions := s'.regions,
    pte := s'.pte, mem := s'.mem, vnode := s'.vnode }

namespace Beside
variable {s s' s'' : Mm}

theorem sound (same : Beside s s') (sound : Sound s) : Sound s' := by
  rw [same]
  exact
    { links := ⟨sound.links.alive, sound.links.links, sound.links.nlinks⟩
      shrefs := ⟨sound.shrefs.shadowed, sound.shrefs.hangs, sound.shrefs.once, sound.shrefs.shadows⟩
      ordered := ⟨sound.ordered.orig, sound.ordered.listed, sound.ordered.ends⟩
      globals := ⟨sound.globals.objects, sound.globals.objectsTotal, sound.globals.files, sound.globals.filesTotal,
        sound.globals.fileObjects⟩
      oneEach := sound.oneEach
      standing := sound.standing
      counted := ⟨sound.counted.npages, sound.counted.refcnt⟩ }

theorem chain (same : Beside s s') : s'.chain = s.chain := by rw [same]

theorem objects (same : Beside s s') : s'.objects = s.objects := by rw [same]

theorem kind (same : Beside s s') : s'.kind = s.kind := by rw [same]

theorem isShadow (same : Beside s s') (o : ObjId) : Mm0.isShadow s' o = Mm0.isShadow s o := by
  rw [Mm0.isShadow, Mm0.isShadow, same.kind]

end Beside

/-! ## New pages -/

section NewPage
variable {s s' : Mm} {o : ObjId} {p : Page} {pages : List Page}

theorem Sound.added (sound : Sound s) (added : Added s o p pages s') (free : findPage s o p.offset = none)
    (live : o ∈ s.objects) (zero : p.refcnt = 0) : Sound s' := by
  have once := added.nodup free (sound.oneEach o live)
  rw [added.pageCache, update_self] at once
  rw [added.state]
  refine sound.repage (fun x live' => ?_) (fun x live' ours => ?_) (fun x live' q mem => ?_)
  all_goals by_cases iso : x = o
  · subst iso
    simpa using once
  · rw [update_of_ne iso]
    exact sound.oneEach x live'
  · subst iso
    rw [update_self, update_self, added.perm.length_eq, sound.counted.npages x live' ours]
    simp
  · rw [update_of_ne iso, update_of_ne iso]
    exact sound.counted.npages x live' ours
  · subst iso
    rw [update_self, added.perm.mem_iff, List.mem_cons] at mem
    rcases mem with rfl | mem
    · exact zero
    · exact sound.counted.refcnt x live' q mem
  · rw [update_of_ne iso] at mem
    exact sound.counted.refcnt x live' q mem

end NewPage

end Codezero.Mm0
