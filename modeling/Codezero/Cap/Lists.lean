import Codezero.Lib.Machine
import Codezero.Lib.Rings

/-!
# Lists of capabilities

`struct cap_list` is the head of a circular list and a count. A capability stands on a list by its own link, so links and
capabilities are named alike here, and a list by its head.
-/

namespace Codezero.Cap.Lists
open Codezero.Lib
open Function (update update_of_ne update_self)

/-! ## The model -/

structure Linkage where
  links : Links Nat
  ncaps : Nat → Int

/-- `cap_list_init`. -/
def capListInit (clist : Nat) (s : Linkage) : Linkage := { links := s.links.init clist, ncaps := update s.ncaps clist 0 }

/-- `cap_list_insert`. -/
def capListInsert (cap clist : Nat) (s : Linkage) : Linkage :=
  { links := s.links.insert cap clist, ncaps := update s.ncaps clist (s.ncaps clist + 1) }

/-- `cap_list_detach`: the first capability, if there is one. -/
def capListDetach (clist : Nat) (s : Linkage) : Option Nat × Linkage :=
  if s.ncaps clist = 0 then (none, s)
  else
    let detached := s.links.detach clist
    (some detached.2, { links := detached.1, ncaps := update s.ncaps clist 0 })

/-- The loop of `cap_list_attach` that counts the capabilities from `cap` on. -/
def countCaps (l : Links Nat) (clist : Nat) : Nat → Nat → Int → Option Int
  | 0, _, _ => none
  | fuel + 1, cap, ncaps => if cap = clist then some ncaps else countCaps l clist fuel (l.next cap) (ncaps + 1)

/-- `cap_list_attach`: the head is put into the ring of the capability, behind it. -/
def capListAttach (fuel cap clist : Nat) (s : Linkage) : Option Linkage :=
  let links := s.links.insert clist cap
  (countCaps links clist fuel (links.next clist) (s.ncaps clist)).map (fun n => { links, ncaps := update s.ncaps clist n })

/-- `cap_list_move`. -/
def capListMove (fuel target source : Nat) (s : Linkage) : Option Linkage :=
  if s.ncaps source = 0 then some s
  else match capListDetach source s with
    | (none, s) => some s
    | (some cap, s) => capListAttach fuel cap target s

structure Move where
  fuel : Nat
  target : Nat
  source : Nat

/-- Moves between two of the lists with these heads, one of which is empty. It is an error not to come to an end with as many
rounds as there are capabilities to count. -/
def moves (heads : Set Nat) : Machine Linkage Move Unit where
  enabled s m := m.target ∈ heads ∧ m.source ∈ heads ∧ m.target ≠ m.source ∧
    (s.links.isEmpty m.target = true ∨ s.links.isEmpty m.source = true) ∧ s.ncaps m.source < m.fuel
  step s m := (capListMove m.fuel m.target m.source s).elim (.error ()) .ok

/-! ## A move -/

/-- The lists with these heads have these capabilities, and their number. -/
structure Holds (s : Linkage) (heads : Set Nat) (caps : Nat → List Nat) : Prop where
  rings : s.links.Rings heads caps
  ncaps : ∀ h ∈ heads, s.ncaps h = (caps h).length

section Moves
variable {s s' : Linkage} {heads : Set Nat} {caps : Nat → List Nat} {l : Links Nat} {clist fuel target source : Nat} {xs ys : List Nat}

theorem countCaps_eq (ring : l.Ring clist (xs ++ ys)) (enough : ys.length < fuel) (n : Int) :
    countCaps l clist fuel (ys.headD clist) n = some (n + ys.length) := by
  induction ys generalizing xs fuel n with
  | nil =>
    obtain ⟨fuel, rfl⟩ : ∃ k, fuel = k + 1 := ⟨fuel - 1, by simp at enough; omega⟩
    simp [countCaps]
  | cons y ys rest =>
    obtain ⟨fuel, rfl⟩ : ∃ k, fuel = k + 1 := ⟨fuel - 1, by simp at enough; omega⟩
    have ne : y ≠ clist := by
      rintro rfl
      exact (List.nodup_cons.mp ring.nodup).1 (by simp)
    have ring' : l.Ring clist ((xs ++ [y]) ++ ys) := by simpa using ring
    rw [List.headD_cons, countCaps, if_neg ne, ring.next_of, rest ring' (by simpa using enough), List.length_cons]
    congr 1
    omega

/-- `cap_list_move` to an empty list: the first capability becomes the last. -/
theorem capListMove_ring {cap : Nat} (ring : s.links.Ring source (cap :: xs)) (counted : s.ncaps source ≠ 0)
    (apart : target ∉ source :: cap :: xs) (none : s.ncaps target = 0) (enough : xs.length + 1 < fuel) :
    ∃ l, capListMove fuel target source s = some ⟨l, update (update s.ncaps source 0) target (xs.length + 1)⟩ ∧
      l.Ring source [] ∧ l.Ring target (xs ++ [cap]) ∧ s.links.Same l (target :: source :: cap :: xs) := by
  obtain ⟨first, left, chain, same⟩ := ring.detach
  have outside : target ∉ cap :: xs := fun mem => apart (List.mem_cons_of_mem source mem)
  have ne : target ≠ source := fun eq => apart (eq ▸ List.mem_cons_self)
  have notin : source ∉ cap :: xs := (List.nodup_cons.mp ring.nodup).1
  have inserted := chain.insert outside
  have changed : (s.links.detach source).1.Same ((s.links.detach source).1.insert target cap) (target :: cap :: xs) := chain.insert_same
  have turned : ((s.links.detach source).1.insert target cap).Ring target (xs ++ [cap]) :=
    (show Links.Ring _ cap ([] ++ target :: xs) from inserted).rotate
  refine ⟨_, ?_, left.frame changed ?_, turned, fun a out => ?_⟩
  · have next : ((s.links.detach source).1.insert target cap).next target = (xs ++ [cap]).headD target := turned.next_headD
    have count : countCaps ((s.links.detach source).1.insert target cap) target fuel ((xs ++ [cap]).headD target) 0 =
        some (0 + (xs ++ [cap]).length) :=
      countCaps_eq (show Links.Ring _ target ([] ++ (xs ++ [cap])) from turned) (by simpa using enough) 0
    unfold capListMove capListDetach
    rw [if_neg counted, if_neg counted]
    dsimp only
    rw [first]
    unfold capListAttach
    dsimp only
    rw [next, update_of_ne ne, none, count]
    simp
  · intro a mem
    rw [List.mem_singleton.mp mem]
    exact fun inside => (List.mem_cons.mp inside).elim (fun eq => ne eq.symm) notin
  · have out1 : a ∉ source :: cap :: xs := fun mem => out (List.mem_cons_of_mem target mem)
    have out2 : a ∉ target :: cap :: xs := fun mem => out (by
      rcases List.mem_cons.mp mem with rfl | inside
      · exact List.mem_cons_self
      · exact List.mem_cons_of_mem target (List.mem_cons_of_mem source inside))
    exact ⟨(changed a out2).1.trans (same a out1).1, (changed a out2).2.trans (same a out1).2⟩

theorem Holds.move (holds : Holds s heads caps) (memt : target ∈ heads) (mems : source ∈ heads) (other : target ≠ source)
    (free : caps target = [] ∨ caps source = []) (enough : (caps source).length < fuel) :
    ∃ s' caps', capListMove fuel target source s = some s' ∧ Holds s' heads caps' ∧ (caps' target).Perm (caps target ++ caps source) ∧
      caps' source = [] ∧ ∀ h, h ≠ target → h ≠ source → caps' h = caps h := by
  have count := holds.ncaps source mems
  cases listed : caps source with
  | nil =>
    rw [listed] at count
    refine ⟨s, caps, if_pos count, holds, ?_, listed, fun h _ _ => rfl⟩
    rw [List.append_nil]
  | cons cap xs =>
    have empty : caps target = [] := free.resolve_right (listed ▸ List.cons_ne_nil cap xs)
    have ring := listed ▸ holds.rings.ring source mems
    have apart : target ∉ source :: cap :: xs := listed ▸ holds.rings.fresh mems memt other
    have none : s.ncaps target = 0 := by
      rw [holds.ncaps target memt, empty]
      rfl
    rw [listed, List.length_cons] at count enough
    obtain ⟨l, moved, left, taken, same⟩ := capListMove_ring ring (by omega) apart none enough
    have rotated : (xs ++ [cap]).Perm (caps source) := listed ▸ List.perm_append_singleton cap xs
    refine ⟨_, update (update caps source []) target (xs ++ [cap]), moved, ⟨?_, fun h mem => ?_⟩, ?_, ?_, ?_⟩
    · exact holds.rings.transfer mems memt other empty left taken rotated (listed ▸ same)
    · dsimp only
      by_cases att : h = target
      · subst att
        rw [update_self, update_self, List.length_append]
        rfl
      · rw [update_of_ne att, update_of_ne att]
        by_cases ats : h = source
        · subst ats
          rw [update_self, update_self]
          rfl
        · rw [update_of_ne ats, update_of_ne ats]
          exact holds.ncaps h mem
    · rw [update_self, empty, List.nil_append]
      exact listed ▸ rotated
    · rw [update_of_ne other.symm, update_self]
    · intro h nott nots
      rw [update_of_ne nott, update_of_ne nots]

/-- Both families have the same capabilities, on whatever lists. -/
def SameCaps (heads : Set Nat) (caps caps' : Nat → List Nat) : Prop := ∀ c, (∃ h ∈ heads, c ∈ caps' h) ↔ ∃ h ∈ heads, c ∈ caps h

theorem sameCaps_of_move {caps' : Nat → List Nat} (memt : target ∈ heads) (mems : source ∈ heads)
    (taken : (caps' target).Perm (caps target ++ caps source)) (left : caps' source = [])
    (others : ∀ h, h ≠ target → h ≠ source → caps' h = caps h) : SameCaps heads caps caps' := by
  intro c
  constructor
  · rintro ⟨h, mem, inside⟩
    by_cases att : h = target
    · subst att
      rcases List.mem_append.mp (taken.mem_iff.mp inside) with old | came
      · exact ⟨h, mem, old⟩
      · exact ⟨source, mems, came⟩
    · by_cases ats : h = source
      · rw [ats, left] at inside
        cases inside
      · exact ⟨h, mem, others h att ats ▸ inside⟩
  · rintro ⟨h, mem, inside⟩
    by_cases moved : h = target ∨ h = source
    · refine ⟨target, memt, taken.mem_iff.mpr (List.mem_append.mpr ?_)⟩
      exact moved.imp (fun att : h = target => att ▸ inside) (fun ats : h = source => ats ▸ inside)
    · obtain ⟨nott, nots⟩ := not_or.mp moved
      exact ⟨h, mem, (others h nott nots).symm ▸ inside⟩

theorem moves_step {m : Move} (moved : capListMove m.fuel m.target m.source s = some s') : (moves heads).step s m = .ok s' := by
  simp only [moves, moved, Option.elim_some]

theorem Holds.step {m : Move} (holds : Holds s heads caps) (able : (moves heads).enabled s m) :
    ∃ s' caps', (moves heads).step s m = .ok s' ∧ Holds s' heads caps' ∧ SameCaps heads caps caps' := by
  obtain ⟨memt, mems, other, free, enough⟩ := able
  rw [holds.rings.isEmpty_iff memt, holds.rings.isEmpty_iff mems] at free
  rw [holds.ncaps m.source mems] at enough
  obtain ⟨s', caps', moved, holds', taken, left, others⟩ := holds.move memt mems other free (show (caps m.source).length < m.fuel by omega)
  exact ⟨s', caps', moves_step moved, holds', sameCaps_of_move memt mems taken left others⟩

theorem Holds.reaches (holds : Holds s heads caps) (reached : (moves heads).Reaches s s') :
    ∃ caps', Holds s' heads caps' ∧ SameCaps heads caps caps' := by
  refine reached.invariant (I := fun s' => ∃ caps', Holds s' heads caps' ∧ SameCaps heads caps caps') ?_ ⟨caps, holds, fun _ => .rfl⟩
  rintro s1 m s2 ⟨caps1, holds1, same1⟩ able stepped
  obtain ⟨s', caps', ran, holds', same'⟩ := holds1.step able
  cases stepped.symm.trans ran
  exact ⟨caps', holds', fun c => (same' c).trans (same1 c)⟩

/-- The list of a head, read in both directions. -/
def Reads (l : Links Nat) (head : Nat) (xs : List Nat) : Prop :=
  ∀ fuel, xs.length < fuel → l.walk head fuel (l.next head) = xs ∧ l.flip.walk head fuel (l.prev head) = xs.reverse

/-- An attached chain follows the list and is detached with it, and moves keep every capability on one list. -/
theorem lists_conserve_members :
    (∀ (l : Links Nat) (head new : Nat) (xs ys : List Nat) (fuel : Nat), l.Ring head xs → l.Ring new ys →
      (∀ a ∈ head :: xs, a ∉ new :: ys) → ys.length < fuel →
      ∃ l', l.attach fuel new head (xs.getLastD head) = some l' ∧ l'.Ring head (xs ++ new :: ys) ∧ Reads l' head (xs ++ new :: ys) ∧
        ∃ rest, xs ++ new :: ys = (l'.detach head).2 :: rest ∧ (l'.detach head).1.Ring (l'.detach head).2 rest ∧
          (l'.detach head).1.isEmpty head = true) ∧
    (∀ (s : Linkage) (heads : Set Nat) (caps : Nat → List Nat) (target source fuel : Nat), Holds s heads caps → target ∈ heads →
      source ∈ heads → target ≠ source → caps target = [] → (caps source).length < fuel →
      ∃ s' caps', capListMove fuel target source s = some s' ∧ Holds s' heads caps' ∧
        (caps' target).Perm (caps source) ∧ s'.ncaps target = (caps source).length ∧
        Reads s'.links source [] ∧ s'.links.isEmpty source = true ∧ s'.ncaps source = 0 ∧
        ∀ h, h ≠ target → h ≠ source → caps' h = caps h) ∧
    ∀ (s s' : Linkage) (heads : Set Nat) (caps : Nat → List Nat), Holds s heads caps → (moves heads).Reaches s s' →
      (∃ caps', Holds s' heads caps' ∧ SameCaps heads caps caps') ∧ ∀ m, (moves heads).enabled s' m → ∃ s'', (moves heads).step s' m = .ok s'' := by
  refine ⟨fun l head new xs ys fuel ring chain apart enough => ?_,
    fun s heads caps target source fuel holds memt mems other empty enough => ?_, fun s s' heads caps holds reached => ?_⟩
  · obtain ⟨l', attached, ring', -⟩ := ring.attach chain apart enough
    refine ⟨l', attached, ring', fun fuel enough => ring'.read enough, ?_⟩
    obtain ⟨first, rest, listed⟩ := List.exists_cons_of_ne_nil (show xs ++ new :: ys ≠ [] by simp)
    rw [listed] at ring'
    obtain ⟨isFirst, left, detached, -⟩ := ring'.detach
    exact ⟨rest, isFirst ▸ listed, isFirst.symm ▸ detached, left.isEmpty_iff.mpr rfl⟩
  · obtain ⟨s', caps', moved, holds', taken, left, others⟩ := holds.move memt mems other (.inl empty) enough
    rw [empty, List.nil_append] at taken
    have ring := left ▸ holds'.rings.ring source mems
    refine ⟨s', caps', moved, holds', taken, ?_, fun fuel enough => ring.read enough, ring.isEmpty_iff.mpr rfl, ?_, others⟩
    · rw [holds'.ncaps target memt, taken.length_eq]
    · rw [holds'.ncaps source mems, left]
      rfl
  · obtain ⟨caps', holds', same⟩ := holds.reaches reached
    refine ⟨⟨caps', holds', same⟩, fun m able => ?_⟩
    obtain ⟨s'', -, stepped, -⟩ := holds'.step able
    exact ⟨s'', stepped⟩

/-- Three capabilities of a list with head 100, and an empty list with head 200. -/
def threeCaps : Linkage :=
  capListInsert 1 100 (capListInsert 2 100 (capListInsert 3 100 (capListInit 200 (capListInit 100 ⟨⟨fun _ => 0, fun _ => 0⟩, fun _ => 0⟩))))

theorem threeCaps_holds : Holds threeCaps {100, 200} (fun h => if h = 100 then [1, 2, 3] else []) where
  rings :=
    { ring := by
        rintro h (rfl | rfl)
        · exact ⟨⟨rfl, rfl, rfl, rfl, rfl, rfl, rfl, rfl, trivial⟩, by decide⟩
        · exact ⟨⟨rfl, rfl, trivial⟩, by decide⟩
      apart := by
        rintro h (rfl | rfl) k (rfl | rfl) a ina inb
        · rfl
        · revert a
          decide
        · revert a
          decide
        · rfl }
  ncaps := by
    rintro h (rfl | rfl)
    · rfl
    · rfl

/-- They are moved and counted again, and can be moved back. -/
theorem lists_conserve_members_three : ∃ s caps', capListMove 10 200 100 threeCaps = some s ∧ Holds s {100, 200} caps' ∧
    (caps' 200).Perm [1, 2, 3] ∧ s.ncaps 200 = 3 ∧ s.ncaps 100 = 0 ∧
    ∃ caps'', Holds s {100, 200} caps'' ∧ SameCaps {100, 200} (fun h => if h = 100 then [1, 2, 3] else []) caps'' := by
  obtain ⟨-, move, runs⟩ := lists_conserve_members
  obtain ⟨s, caps', moved, holds, taken, count, -, -, none, -⟩ := move threeCaps {100, 200} _ 200 100 10 threeCaps_holds
    (.inr rfl) (.inl rfl) (by decide) rfl (by decide)
  have able : (moves {100, 200}).enabled threeCaps ⟨10, 200, 100⟩ := ⟨.inr rfl, .inl rfl, by decide, .inl rfl, by decide⟩
  have reached : (moves {100, 200}).Reaches threeCaps s := .next .start able trivial (moves_step moved)
  exact ⟨s, caps', moved, holds, taken, count, none, (runs threeCaps s {100, 200} _ threeCaps_holds reached).1⟩

end Moves

end Codezero.Cap.Lists
