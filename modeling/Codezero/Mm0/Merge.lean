import Codezero.Mm0.Drop
import Codezero.Mm0.Pages

/-!
# Deleting and merging objects

A shadow with one link and one shadow of its own is redundant: `vma_merge_object` moves its pages into the
shadow in front and takes it out of the one stack it is in.
-/

namespace Codezero.Mm0
open Codezero.Lib
open Codezero.Lib.Stack (Over)
open Function (update update_comm update_idem update_of_ne update_self)

/-! ## Deleting -/

section Delete
variable {s : Mm} {o : ObjId}

theorem deleted_reshaped : Reshaped s (deleted s o) := rfl

theorem mem_deleted (globals : Globals s) {x : ObjId} : x ∈ (deleted s o).objects ↔ x ∈ s.objects ∧ x ≠ o := by
  simp only [deleted, globals.objects.mem_erase_iff]
  exact and_comm

theorem Globals.of_deleted (globals : Globals s) (live : o ∈ s.objects) : Globals (deleted s o) := by
  have length := List.length_erase_of_mem live
  have pos := List.length_pos_of_mem live
  have total := globals.objectsTotal
  cases shadow : isShadow s o with
  | true =>
    refine ⟨globals.objects.erase o, ?_, ?_, ?_, ?_⟩
    · simp only [deleted, length]
      omega
    · simpa [deleted, shadow] using globals.files
    · simpa [deleted, shadow] using globals.filesTotal
    · intro x
      rw [mem_deleted globals, deleted_reshaped.isShadow]
      simp only [deleted, shadow, if_true, globals.fileObjects x]
      constructor
      · rintro ⟨mem, file⟩
        refine ⟨⟨mem, fun same => ?_⟩, file⟩
        rw [same, shadow] at file
        exact Bool.noConfusion file
      · rintro ⟨⟨mem, -⟩, file⟩
        exact ⟨mem, file⟩
  | false =>
    have listed : o ∈ s.files := (globals.fileObjects o).mpr ⟨live, shadow⟩
    have lengthFiles := List.length_erase_of_mem listed
    have posFiles := List.length_pos_of_mem listed
    have totalFiles := globals.filesTotal
    refine ⟨globals.objects.erase o, ?_, ?_, ?_, ?_⟩
    · simp only [deleted, length]
      omega
    · simpa [deleted, shadow] using globals.files.erase o
    · simp only [deleted, shadow, Bool.false_eq_true, if_false, lengthFiles]
      omega
    · intro x
      rw [mem_deleted globals, deleted_reshaped.isShadow]
      simp only [deleted, shadow, Bool.false_eq_true, if_false, globals.files.mem_erase_iff,
        globals.fileObjects x]
      constructor
      · rintro ⟨ne, mem, file⟩
        exact ⟨⟨mem, ne⟩, file⟩
      · rintro ⟨⟨mem, ne⟩, file⟩
        exact ⟨ne, mem, file⟩

/-- Deleting an object that no stack holds and that hangs on no list keeps the state sound. -/
theorem Sound.of_deleted (sound : Sound s) (live : o ∈ s.objects) (unlinked : s.nlinks o = 0)
    (free : s.shref o = none) : Sound (deleted s o) := by
  have mem : ∀ {x}, x ∈ (deleted s o).objects ↔ x ∈ s.objects ∧ x ≠ o := mem_deleted sound.globals
  have nowhere := (sound.links.unlinked live unlinked).2
  have childless := sound.no_shadows live unlinked
  have pages : ∀ x, x ≠ o → (deleted s o).pageCache x = s.pageCache x :=
    fun x ne => update_of_ne ne ..
  exact
    { links :=
        { alive := fun v x here => mem.mpr ⟨sound.links.alive v x here, fun same => nowhere v (same ▸ here)⟩
          links := fun x live' => sound.links.links x (mem.mp live').1
          nlinks := fun x live' => sound.links.nlinks x (mem.mp live').1 }
      shrefs :=
        { shadowed := fun b live' a here => by
            obtain ⟨livea, on⟩ := sound.shrefs.shadowed b (mem.mp live').1 a here
            refine ⟨mem.mpr ⟨livea, fun same => ?_⟩, on⟩
            rw [same, free] at on
            exact absurd on.symm (Option.some_ne_none _)
          hangs := fun a live' b on => by
            obtain ⟨liveb, here⟩ := sound.shrefs.hangs a (mem.mp live').1 b on
            refine ⟨mem.mpr ⟨liveb, fun same => ?_⟩, here⟩
            have here : a ∈ s.shdwList b := here
            rw [same, childless] at here
            exact List.not_mem_nil here
          once := fun b live' => sound.shrefs.once b (mem.mp live').1
          shadows := fun b live' => sound.shrefs.shadows b (mem.mp live').1 }
      ordered := ⟨sound.ordered.orig, sound.ordered.listed, sound.ordered.ends⟩
      globals := sound.globals.of_deleted live
      oneEach := fun x live' => by
        rw [pages x (mem.mp live').2]
        exact sound.oneEach x (mem.mp live').1
      standing := fun b live' a here => sound.standing b (mem.mp live').1 a here
      counted :=
        { npages := fun x live' devzero => by
            rw [pages x (mem.mp live').2]
            have same : (deleted s o).npages x = s.npages x := update_of_ne (mem.mp live').2 ..
            rw [same]
            exact sound.counted.npages x (mem.mp live').1 devzero
          refcnt := fun x live' => by
            rw [pages x (mem.mp live').2]
            exact sound.counted.refcnt x (mem.mp live').1 } }

/-- `vm_object_delete` of such an object hits no `BUG`. -/
theorem Sound.delete_ok (sound : Sound s) (live : o ∈ s.objects) (unlinked : s.nlinks o = 0)
    (free : s.shref o = none) (ours : isDevzero s o = false) : vmObjectDelete s o = .ok (deleted s o) := by
  have childless := sound.no_shadows live unlinked
  refine vmObjectDelete_eq sound.globals live (sound.counted.refcnt o live)
    (by rw [sound.counted.npages o live ours]) unlinked ?_ (sound.links.unlinked live unlinked).1 childless free
  rw [sound.shrefs.shadows o live, childless]
  rfl

end Delete

/-! ## Moving pages -/

/-- The page as it stands in `f`'s cache. -/
def Page.ownedBy (f : ObjId) (p : Page) : Page := { p with owner := f }

/-- What moving the pages `ps` of `r` into `f` leaves. -/
structure Moved (r f : ObjId) (ps : List Page) (s s' : Mm) : Prop where
  state : s' = { s with pageCache := s'.pageCache, npages := s'.npages }
  others : ∀ o, o ≠ f → o ≠ r → s'.pageCache o = s.pageCache o
  counts : ∀ o, o ≠ f → s'.npages o = s.npages o
  left : (s'.pageCache r).Sublist (s.pageCache r)
  taken : ∃ moved : List Page, moved.Sublist ps ∧
    (s'.pageCache f).Perm (moved.map (Page.ownedBy f) ++ s.pageCache f)
  counted : s'.npages f = s.npages f + (s'.pageCache f).length - (s.pageCache f).length
  once : ((s'.pageCache f).map Page.offset).Nodup
  find : ∀ off, findPage s' f off =
    (findPage s f off).or ((ps.find? (fun p => p.offset == off)).map (Page.ownedBy f))

theorem movePage_none {s : Mm} {r f : ObjId} {p : Page} (ne : f ≠ r) (free : findPage s f p.offset = none)
    (once : ((s.pageCache f).map Page.offset).Nodup) :
    ∃ s', movePage r f s p = .ok s' ∧ Moved r f [p] s s' := by
  let t : Mm := { s with pageCache := update s.pageCache r ((s.pageCache r).erase p) }
  have cache : t.pageCache f = s.pageCache f := update_of_ne ne ..
  have finds : findPage t f = findPage s f := by funext off; rw [findPage, cache, findPage]
  have free' : findPage t f (p.ownedBy f).offset = none := by rw [finds]; exact free
  obtain ⟨pages, s', added, spec⟩ := addPage_added free'
  refine ⟨s', by rw [movePage, free]; exact added, ?_⟩
  have caches : s'.pageCache = update t.pageCache f pages := spec.pageCache
  have npages : s'.npages = update s.npages f (s.npages f + 1) := by rw [spec.state]
  have length : pages.length = (s.pageCache f).length + 1 := by rw [spec.perm.length_eq, cache]; rfl
  exact
    { state := by rw [spec.state]
      others := fun o nef ner => by
        rw [caches, update_of_ne nef]
        exact update_of_ne ner ..
      counts := fun o nef => by rw [npages, update_of_ne nef]
      left := by
        rw [caches, update_of_ne (Ne.symm ne)]
        simpa [t] using List.erase_sublist
      taken := ⟨[p], .refl _, by rw [caches, update_self, ← cache]; exact spec.perm⟩
      counted := by
        rw [npages, caches, update_self, update_self, length]
        push_cast
        omega
      once := spec.nodup free' (by rw [cache]; exact once)
      find := fun off => by
        rw [spec.find_self free' (by rw [cache]; exact once) off, finds]
        by_cases same : p.offset = off
        · subst same
          simp [Page.ownedBy, free]
        · simp [Page.ownedBy, same] }

/-- The loop of `vma_merge_object` moves what `f` lacks. -/
theorem movePages {s : Mm} {r f : ObjId} {ps : List Page} (ne : f ≠ r)
    (once : ((s.pageCache f).map Page.offset).Nodup) :
    ∃ s', ps.foldlM (movePage r f) s = .ok s' ∧ Moved r f ps s s' := by
  induction ps generalizing s with
  | nil =>
    exact ⟨s, rfl, rfl, fun _ _ _ => rfl, fun _ _ => rfl, .refl _, ⟨[], .refl _, .refl _⟩, by omega, once,
      by simp⟩
  | cons p ps rest =>
    rw [List.foldlM_cons]
    cases found : findPage s f p.offset with
    | some q =>
      obtain ⟨s', ran, moved⟩ := rest once
      have skipped : movePage r f s p = .ok s := by rw [movePage, found]; rfl
      refine ⟨s', by rw [skipped]; exact ran, { moved with taken := ?_, find := fun off => ?_ }⟩
      · obtain ⟨taken, sub, perm⟩ := moved.taken
        exact ⟨taken, sub.cons p, perm⟩
      · rw [moved.find off, List.find?_cons]
        by_cases same : p.offset = off
        · subst same
          simp [found]
        · rw [beq_eq_false_iff_ne.mpr same]
    | none =>
      obtain ⟨s1, ran1, first⟩ := movePage_none ne found once
      obtain ⟨s', ran, moved⟩ := rest first.once
      refine ⟨s', by rw [ran1]; exact ran, ?_⟩
      obtain ⟨taken1, sub1, perm1⟩ := first.taken
      obtain ⟨taken, sub, perm⟩ := moved.taken
      exact
        { state := by rw [moved.state, first.state]
          others := fun o nef ner => (moved.others o nef ner).trans (first.others o nef ner)
          counts := fun o nef => (moved.counts o nef).trans (first.counts o nef)
          left := moved.left.trans first.left
          taken := by
            refine ⟨taken1 ++ taken, by simpa using sub1.append sub, perm.trans ((perm1.append_left _).trans ?_)⟩
            rw [List.map_append, ← List.append_assoc]
            exact List.perm_append_comm.append_right _
          counted := by
            have := moved.counted
            have := first.counted
            omega
          once := moved.once
          find := fun off => by
            rw [moved.find off, first.find off, Option.or_assoc, List.find?_cons]
            by_cases same : p.offset = off
            · simp [same]
            · simp [beq_eq_false_iff_ne.mpr same] }

/-! ## Taking a redundant shadow out of its stack -/

/-- `r` has one link, in `w`'s stack between `f` and `n`, and `f` is its only shadow. -/
structure Redundant (s : Mm) (r f n : ObjId) (w : VmaId) (pre post : List ObjId) : Prop where
  live : r ∈ s.objects
  liven : n ∈ s.objects
  shadow : isShadow s r = true
  front : isShadow s f = true
  stack : s.chain w = pre ++ f :: r :: n :: post
  links : s.linkList r = [w]
  nlinks : s.nlinks r = 1
  shadows : s.shadows r = 1
  shdw : s.shdwList r = [f]
  hangs : s.shref r = some n
  hangsf : s.shref f = some r
  orig : s.origObj r = some n
  once : r ∉ pre ∧ r ∉ n :: post
  oncef : f ∉ pre ∧ f ∉ n :: post
  only : ∀ v, v ≠ w → r ∉ s.chain v
  onlyf : ∀ v, v ≠ w → f ∉ s.chain v
  ne : f ≠ r

namespace Redundant
variable {s : Mm} {r f n : ObjId} {w : VmaId} {pre post : List ObjId}

theorem ne_next (red : Redundant s r f n w pre post) : r ≠ n := fun same => red.once.2 (by simp [same])

end Redundant

/-- A shadow with one link and one shadow stands between the two in one stack only. -/
theorem Sound.redundant {s : Mm} {r : ObjId} (sound : Sound s) (live : r ∈ s.objects) (shadow : isShadow s r = true)
    (nlinks : s.nlinks r = 1) (shadows : s.shadows r = 1) :
    ∃ f n w pre post, Redundant s r f n w pre post := by
  obtain ⟨f, shdw⟩ := sound.shrefs.single live shadows
  obtain ⟨w, links, count, only⟩ := sound.links.last live nlinks
  have memf : f ∈ s.shdwList r := by simp [shdw]
  obtain ⟨front, v, on⟩ := sound.standing r live f memf
  have here : v = w := by
    by_contra ne
    exact only v ne on.mem_right
  subst here
  obtain ⟨pre, behind, stack⟩ := on.split
  obtain ⟨n, onn, orig⟩ := sound.ordered.stands shadow on.mem_right
  have origf := sound.ordered.orig v f r on front
  -- `r` stands once, so what is behind it starts with `n`.
  have once : r ∉ pre ++ [f] ∧ r ∉ behind := by
    rw [stack] at count
    simp only [List.count_append, List.count_cons_self, List.count_cons] at count
    constructor
    · rw [← List.count_eq_zero, List.count_append, List.count_singleton]
      omega
    · rw [← List.count_eq_zero]
      omega
  have ne : f ≠ r := fun same => once.1 (by simp [same])
  obtain ⟨post, rfl⟩ : ∃ post, behind = n :: post := by
    cases behind with
    | nil => simp [sound.ordered.ends v r (by simp [stack])] at shadow
    | cons m post =>
      have onm : Over (s.chain v) r m := by
        rw [stack]
        exact Stack.over_append.mpr (.inr (.inr (.inl ⟨rfl, rfl⟩)))
      have := sound.ordered.orig v r m onm shadow
      rw [orig] at this
      exact ⟨post, by rw [Option.some.inj this]⟩
  have liven := sound.links.alive v n onn.mem_right
  have hangs := (sound.shrefs.shadowed n liven r (sound.ordered.listed v r n onn shadow)).2
  -- Wherever `f` stands, `r` is under it.
  have under : ∀ c, Over (s.chain v) f c → c = r := fun c onc => by
    have := sound.ordered.orig v f c onc front
    rw [origf] at this
    exact (Option.some.inj this).symm
  have oncef : f ∉ pre ∧ f ∉ n :: post := by
    constructor
    · intro mem
      obtain ⟨a, b, rfl⟩ := List.append_of_mem mem
      cases b with
      | nil =>
        exact ne (under f (by rw [stack]; simpa using Stack.over_split a (r :: n :: post) f f))
      | cons c b =>
        have same := under c (by rw [stack]; simpa using Stack.over_split a (b ++ f :: r :: n :: post) f c)
        exact once.1 (by simp [same])
    · intro mem
      have cut : s.chain v = (pre ++ [f, r]) ++ n :: post := by simp [stack]
      obtain ⟨c, onc⟩ := Stack.exists_over mem (fun bottom => by
        have file := sound.ordered.ends v f (by rw [cut, List.getLast?_append, bottom]; rfl)
        simp [file] at front)
      have same := under c (by rw [cut]; exact Stack.over_append.mpr (.inr onc))
      exact once.2 (same ▸ onc.mem_right)
  refine ⟨f, n, v, pre, post, live, liven, shadow, front, stack, links, nlinks, shadows, shdw, hangs,
    (sound.shrefs.shadowed r live f memf).2, orig, ⟨fun mem => once.1 (by simp [mem]), once.2⟩, oncef, only,
    fun x other mem => ?_, ne⟩
  exact only x other (sound.ordered.over_orig front mem origf).mem_right

/-- The state in which `vma_merge_object` deletes `r`. -/
def bypassed (s : Mm) (r f n : ObjId) (w : VmaId) (stack : List ObjId) : Mm :=
  { s with
    shref := update (update s.shref r none) f (some n)
    shdwList := update (update s.shdwList r []) n (f :: (s.shdwList n).erase r)
    origObj := update s.origObj f (some n)
    chain := update s.chain w stack
    linkList := update s.linkList r []
    nlinks := update s.nlinks r 0
    shadows := update s.shadows r 0 }

namespace Redundant
variable {s : Mm} {r f n : ObjId} {w : VmaId} {pre post : List ObjId}

theorem bypassed_relinked (stack : List ObjId) : Relinked s (bypassed s r f n w stack) := rfl

variable (red : Redundant s r f n w pre post)
include red

theorem mergeRelink_eq : mergeRelink s r f n w = vmObjectDelete (bypassed s r f n w (pre ++ f :: n :: post)) r := by
  have place : (s.chain w).idxOf r = (pre ++ [f]).length := by
    rw [red.stack, show pre ++ f :: r :: n :: post = (pre ++ [f]) ++ r :: n :: post by simp,
      List.idxOf_append_of_notMem (by simp [red.once.1, red.ne.symm])]
    simp
  have short : (s.chain w).eraseIdx (pre ++ [f]).length = pre ++ f :: n :: post := by
    rw [red.stack, show pre ++ f :: r :: n :: post = (pre ++ [f]) ++ r :: n :: post by simp,
      List.eraseIdx_append_of_length_le (Nat.le_refl _)]
    simp
  have hangs : (shrefRemove s f).shref r = some n := by
    rw [shrefRemove_eq red.hangsf]
    simpa [update_of_ne red.ne.symm] using red.hangs
  have empty : (shrefRemove s f).shdwList r = [] := by
    rw [shrefRemove_eq red.hangsf]
    simp [red.shdw]
  unfold mergeRelink
  simp only [empty, List.isEmpty_nil, Bool.not_true, Bool.false_eq_true, if_false]
  rw [shrefRemove_eq hangs, shrefRemove_eq red.hangsf]
  simp only [shrefInsert, setOrig, vmaDropLink, setShadows, red.shadows, place, short]
  rw [if_neg (by omega)]
  have shref : update (update (update s.shref f none) r none) f (some n) =
      update (update s.shref r none) f (some n) := by
    rw [update_comm red.ne, update_idem]
  simp [bypassed, shref, red.nlinks, red.shdw, red.links, update_of_ne red.ne_next.symm]

theorem mem_bypassed (sound : Sound s) {stack : List ObjId} {a b : ObjId}
    (live : b ∈ s.objects) : a ∈ (bypassed s r f n w stack).shdwList b ↔
      (a = f ∧ b = n) ∨ (a ∈ s.shdwList b ∧ a ≠ f ∧ a ≠ r) := by
  have only : ∀ x c d, s.shref x = some c → d ∈ s.objects → d ≠ c → x ∉ s.shdwList d := fun x c d on lived ne mem => by
    have := (sound.shrefs.shadowed d lived x mem).2
    rw [on] at this
    exact ne (Option.some.inj this).symm
  simp only [bypassed]
  by_cases isn : b = n
  · subst isn
    have := only f r b red.hangsf live red.ne_next.symm
    rw [update_self, List.mem_cons, (sound.shrefs.once b live).mem_erase_iff]
    refine ⟨fun h => h.imp (⟨·, rfl⟩) (fun ⟨ne, mem⟩ => ⟨mem, fun same => this (same ▸ mem), ne⟩),
      fun h => h.imp And.left (fun ⟨mem, _, ne⟩ => ⟨ne, mem⟩)⟩
  · by_cases isr : b = r
    · subst isr
      rw [update_of_ne isn, update_self, red.shdw]
      simp only [List.not_mem_nil, List.mem_singleton]
      tauto
    · have := only f r b red.hangsf live isr
      have := only r n b red.hangs live isn
      rw [update_of_ne isn, update_of_ne isr]
      refine ⟨fun mem => .inr ⟨mem, ?_, ?_⟩, fun h => ?_⟩
      · rintro rfl; contradiction
      · rintro rfl; contradiction
      · rcases h with ⟨-, same⟩ | ⟨mem, -, -⟩
        · exact absurd same isn
        · exact mem

/-- Who stands over whom once `r` is taken out. -/
theorem over_bypassed {v : VmaId} {a b : ObjId} :
    Over ((bypassed s r f n w (pre ++ f :: n :: post)).chain v) a b ↔
      (v = w ∧ a = f ∧ b = n) ∨ (Over (s.chain v) a b ∧ a ≠ f ∧ a ≠ r) := by
  simp only [bypassed]
  by_cases here : v = w
  · subst here
    have front : Over (pre ++ [f]) a b → a ≠ f ∧ a ≠ r := fun on =>
      ⟨fun same => red.oncef.1 (same ▸ on.mem_init), fun same => red.once.1 (same ▸ on.mem_init)⟩
    have behind : Over (n :: post) a b → a ≠ f ∧ a ≠ r := fun on =>
      ⟨fun same => red.oncef.2 (same ▸ on.mem_left), fun same => red.once.2 (same ▸ on.mem_left)⟩
    have before : Over (pre ++ f :: r :: n :: post) a b ↔ _ := Stack.over_append
    rw [update_self, red.stack, before, Stack.over_append]
    simp only [Stack.over_cons_cons, true_and]
    tauto
  · rw [update_of_ne here]
    refine ⟨fun on => .inr ⟨on, fun same => red.onlyf v here (same ▸ on.mem_left),
      fun same => red.only v here (same ▸ on.mem_left)⟩, fun h => ?_⟩
    rcases h with ⟨same, -⟩ | ⟨on, -⟩
    · exact absurd same here
    · exact on

theorem bypassed_links (sound : Sound s) : Links (bypassed s r f n w (pre ++ f :: n :: post)) := by
  have cut : s.chain w = (pre ++ [f]) ++ r :: n :: post := by simp [red.stack]
  have links := sound.links.drop cut
  have chain : (vmaDropLink s w (pre ++ [f]).length r).chain = update s.chain w (pre ++ f :: n :: post) := by
    rw [vmaDropLink_chain cut]
    simp
  have linkList : (vmaDropLink s w (pre ++ [f]).length r).linkList = update s.linkList r [] := by
    simp [vmaDropLink, red.links]
  have nlinks : (vmaDropLink s w (pre ++ [f]).length r).nlinks = update s.nlinks r 0 := by
    simp [vmaDropLink, red.nlinks]
  constructor
  · exact fun v o mem => links.alive v o (by rw [chain]; exact mem)
  · intro o live v
    have := links.links o live v
    rwa [chain, linkList] at this
  · intro o live
    have := links.nlinks o live
    rwa [linkList, nlinks] at this

theorem bypassed_shrefs (sound : Sound s) (stack : List ObjId) : Shrefs (bypassed s r f n w stack) := by
  have mem : ∀ {a b}, b ∈ s.objects → (a ∈ (bypassed s r f n w stack).shdwList b ↔
      (a = f ∧ b = n) ∨ (a ∈ s.shdwList b ∧ a ≠ f ∧ a ≠ r)) := fun live => red.mem_bypassed sound live
  have livef := (sound.shrefs.shadowed r red.live f (by simp [red.shdw])).1
  have shref : (bypassed s r f n w stack).shref = update (update s.shref r none) f (some n) := rfl
  constructor
  · intro b live a here
    rcases (mem live).mp here with ⟨rfl, rfl⟩ | ⟨here, nef, ner⟩
    · exact ⟨livef, update_self ..⟩
    · rw [shref, update_of_ne nef, update_of_ne ner]
      exact sound.shrefs.shadowed b live a here
  · intro a live b on
    by_cases isf : a = f
    · subst isf
      rw [shref, update_self] at on
      cases on
      exact ⟨red.liven, (mem red.liven).mpr (.inl ⟨rfl, rfl⟩)⟩
    · rw [shref, update_of_ne isf] at on
      by_cases isr : a = r
      · simp [isr] at on
      · rw [update_of_ne isr] at on
        obtain ⟨liveb, here⟩ := sound.shrefs.hangs a live b on
        exact ⟨liveb, (mem liveb).mpr (.inr ⟨here, isf, isr⟩)⟩
  · intro b live
    have before := sound.shrefs.once b live
    simp only [bypassed]
    by_cases isn : b = n
    · subst isn
      rw [update_self, List.nodup_cons]
      refine ⟨fun here => ?_, before.erase r⟩
      have := (sound.shrefs.shadowed b live f (List.mem_of_mem_erase here)).2
      rw [red.hangsf] at this
      exact red.ne_next (Option.some.inj this)
    · rw [update_of_ne isn]
      by_cases isr : b = r
      · simp [isr]
      · rwa [update_of_ne isr]
  · intro b live
    have before := sound.shrefs.shadows b live
    simp only [bypassed]
    by_cases isr : b = r
    · subst isr
      rw [update_self, update_of_ne red.ne_next, update_self]
      rfl
    · rw [update_of_ne isr]
      by_cases isn : b = n
      · subst isn
        have here := (sound.shrefs.hangs r red.live b red.hangs).2
        have pos := List.length_pos_of_mem here
        rw [update_self, List.length_cons, List.length_erase_of_mem here]
        omega
      · rwa [update_of_ne isn, update_of_ne isr]

theorem bypassed_ordered (sound : Sound s) : Ordered (bypassed s r f n w (pre ++ f :: n :: post)) := by
  have orig : ∀ a, a ≠ f → (bypassed s r f n w (pre ++ f :: n :: post)).origObj a = s.origObj a :=
    fun a ne => update_of_ne ne ..
  constructor
  · intro v a b on shadow
    rcases red.over_bypassed.mp on with ⟨-, rfl, rfl⟩ | ⟨on, nef, -⟩
    · exact update_self ..
    · rw [orig a nef]
      exact sound.ordered.orig v a b on shadow
  · intro v a b on shadow
    rcases red.over_bypassed.mp on with ⟨-, rfl, rfl⟩ | ⟨on, nef, ner⟩
    · exact (red.mem_bypassed sound red.liven).mpr (.inl ⟨rfl, rfl⟩)
    · exact (red.mem_bypassed sound (sound.links.alive v b on.mem_right)).mpr
        (.inr ⟨sound.ordered.listed v a b on shadow, nef, ner⟩)
  · intro v o bottom
    refine sound.ordered.ends v o ?_
    simp only [bypassed] at bottom
    by_cases here : v = w
    · subst here
      rw [update_self] at bottom
      rw [red.stack]
      simpa using bottom
    · rwa [update_of_ne here] at bottom

theorem bypassed_sound (sound : Sound s) : Sound (bypassed s r f n w (pre ++ f :: n :: post)) :=
  { links := red.bypassed_links sound
    shrefs := red.bypassed_shrefs sound _
    ordered := red.bypassed_ordered sound
    globals := (bypassed_relinked _).globals sound.globals
    oneEach := (bypassed_relinked _).oneEach sound.oneEach
    counted := (bypassed_relinked _).counted sound.counted
    standing := fun b live a here => by
      rcases (red.mem_bypassed sound live).mp here with ⟨rfl, rfl⟩ | ⟨here, nef, ner⟩
      · exact ⟨red.front, w, red.over_bypassed.mpr (.inl ⟨rfl, rfl, rfl⟩)⟩
      · obtain ⟨shadow, v, on⟩ := sound.standing b live a here
        exact ⟨shadow, v, red.over_bypassed.mpr (.inr ⟨on, nef, ner⟩)⟩ }

end Redundant

/-! ## The merge -/

/-- New page caches keep the state sound if they are counted and have no offset twice. -/
theorem Sound.repage {s : Mm} (sound : Sound s) {pages : ObjId → List Page} {npages : ObjId → Int}
    (once : ∀ o ∈ s.objects, ((pages o).map Page.offset).Nodup)
    (counted : ∀ o ∈ s.objects, isDevzero s o = false → npages o = (pages o).length)
    (refcnt : ∀ o ∈ s.objects, ∀ p ∈ pages o, p.refcnt = 0) :
    Sound { s with pageCache := pages, npages := npages } :=
  { links := ⟨sound.links.alive, sound.links.links, sound.links.nlinks⟩
    shrefs := ⟨sound.shrefs.shadowed, sound.shrefs.hangs, sound.shrefs.once, sound.shrefs.shadows⟩
    ordered := ⟨sound.ordered.orig, sound.ordered.listed, sound.ordered.ends⟩
    globals := ⟨sound.globals.objects, sound.globals.objectsTotal, sound.globals.files, sound.globals.filesTotal,
      sound.globals.fileObjects⟩
    oneEach := once
    standing := sound.standing
    counted := ⟨counted, refcnt⟩ }

/-- What `vma_merge_object` leaves. -/
structure Merged (s s' : Mm) (r f n : ObjId) (w : VmaId) (pre post : List ObjId) : Prop where
  redundant : Redundant s r f n w pre post
  sound : Sound s'
  reshaped : Reshaped s s'
  chain : s'.chain = update s.chain w (pre ++ f :: n :: post)
  objects : ∀ x, x ∈ s'.objects ↔ x ∈ s.objects ∧ x ≠ r
  nlinks : ∀ x, x ≠ r → s'.nlinks x = s.nlinks x
  others : ∀ o, o ≠ f → o ≠ r → s'.pageCache o = s.pageCache o
  taken : ∃ moved : List Page, moved.Sublist (s.pageCache r) ∧
    (s'.pageCache f).Perm (moved.map (Page.ownedBy f) ++ s.pageCache f)
  find : ∀ off, findPage s' f off = (findPage s f off).or ((findPage s r off).map (Page.ownedBy f))

theorem Sound.merge_ok {s : Mm} {r : ObjId} (sound : Sound s) (live : r ∈ s.objects)
    (shadow : isShadow s r = true) (nlinks : s.nlinks r = 1) (shadows : s.shadows r = 1) :
    ∃ s' f n w pre post, vmaMergeObject s r = .ok s' ∧ Merged s s' r f n w pre post := by
  obtain ⟨f, n, w, pre, post, red⟩ := sound.redundant live shadow nlinks shadows
  have livef := (sound.shrefs.shadowed r live f (by simp [red.shdw])).1
  have ours : ∀ {x}, isShadow s x = true → isDevzero s x = false := fun {x} shadow => by
    cases kind : s.kind x <;> simp_all [isShadow, isDevzero, Kind.isShadow]
  obtain ⟨m, ran, moved⟩ : ∃ m, (s.pageCache r).foldlM (movePage r f) s = .ok m ∧ Moved r f (s.pageCache r) s m :=
    movePages red.ne (sound.oneEach f livef)
  obtain ⟨cache, count, rfl⟩ : ∃ cache count, m = { s with pageCache := cache, npages := count } :=
    ⟨_, _, moved.state⟩
  have redm : Redundant { s with pageCache := cache, npages := count } r f n w pre post := { red with }
  have zero : ∀ p ∈ cache r, p.refcnt = 0 := fun p mem => sound.counted.refcnt r live p (moved.left.subset mem)
  have enough : (cache r).length ≤ count r := by
    have same : count r = s.npages r := moved.counts r red.ne.symm
    have := moved.left.length_le
    have := sound.counted.npages r live (ours shadow)
    simp only [] at *
    omega
  have base := (red.bypassed_sound sound).of_deleted (o := r) live (update_self ..)
    (by simp [bypassed, update_of_ne red.ne.symm])
  have mem : ∀ {x}, x ∈ (deleted (bypassed s r f n w (pre ++ f :: n :: post)) r).objects ↔
      x ∈ s.objects ∧ x ≠ r := mem_deleted (red.bypassed_sound sound).globals
  have others : ∀ o, o ≠ f → o ≠ r → cache o = s.pageCache o := moved.others
  -- The merged state is the sound one with the moved pages in it.
  let merged : Mm := deleted (bypassed { s with pageCache := cache, npages := count } r f n w (pre ++ f :: n :: post)) r
  have sound' : Sound merged := by
    have : Sound { deleted (bypassed s r f n w (pre ++ f :: n :: post)) r with
        pageCache := update cache r []
        npages := update count r (count r - (cache r).length) } := by
      refine base.repage (fun o live' => ?_) (fun o live' notzero => ?_) (fun o live' p here => ?_)
      all_goals obtain ⟨alive, ner⟩ := mem.mp live'
      · rw [update_of_ne ner]
        by_cases isf : o = f
        · subst isf
          exact moved.once
        · rw [others o isf ner]
          exact sound.oneEach o alive
      · rw [update_of_ne ner, update_of_ne ner]
        by_cases isf : o = f
        · subst isf
          have after : count o = s.npages o + (cache o).length - (s.pageCache o).length := moved.counted
          have before := sound.counted.npages o alive notzero
          omega
        · rw [others o isf ner, show count o = s.npages o from moved.counts o isf]
          exact sound.counted.npages o alive notzero
      · rw [update_of_ne ner] at here
        by_cases isf : o = f
        · subst isf
          obtain ⟨taken, sub, perm⟩ := moved.taken
          rcases List.mem_append.mp (perm.mem_iff.mp here) with here | here
          · obtain ⟨q, taken, rfl⟩ := List.mem_map.mp here
            exact sound.counted.refcnt r live q (sub.subset taken)
          · exact sound.counted.refcnt o alive p here
        · rw [others o isf ner] at here
          exact sound.counted.refcnt o alive p here
    exact this
  have executed : vmaMergeObject s r = .ok merged := by
    unfold vmaMergeObject
    rw [if_neg (not_not.mpr nlinks), if_neg (not_not.mpr shadows), red.shdw, red.orig, red.links]
    show ((s.pageCache r).foldlM (movePage r f) s >>= fun s => mergeRelink s r f n w) = _
    rw [ran]
    show mergeRelink _ r f n w = _
    rw [redm.mergeRelink_eq]
    have globals := (red.bypassed_sound sound).globals
    refine vmObjectDelete_eq
      ⟨globals.objects, globals.objectsTotal, globals.files, globals.filesTotal, globals.fileObjects⟩ live zero enough
      (update_self ..) (update_self ..) (update_self ..) ?_ ?_
    · simp [bypassed, update_of_ne red.ne_next]
    · simp [bypassed, update_of_ne red.ne.symm]
  have front : merged.pageCache f = cache f := update_of_ne red.ne ..
  exact ⟨merged, f, n, w, pre, post, executed,
    { redundant := red
      sound := sound'
      reshaped := rfl
      chain := rfl
      objects := fun x => mem
      nlinks := fun x ne => update_of_ne ne ..
      others := fun o nef ner => by
        rw [← others o nef ner]
        exact update_of_ne ner ..
      taken := by
        rw [front]
        exact moved.taken
      find := fun off => by
        rw [findPage, front]
        exact moved.find off }⟩

end Codezero.Mm0
