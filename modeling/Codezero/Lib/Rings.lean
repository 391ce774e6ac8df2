import Codezero.Lib.Links

/-!
# Families of circular lists

Links that make up several disjoint rings. A link that is on no list is a ring of its own, so taking a link out of a
list and putting it into one are the two directions of one change: a head more and a member less, or the other way.
-/

namespace Codezero.Lib.Links
open Function (update update_of_ne update_self)

variable {α : Type} [DecidableEq α]

/-- A link by itself. -/
def init (l : Links α) (a : α) : Links α := (l.setNext a a).setPrev a a

/-- The new link goes in front of `list`, behind the last one. -/
def insertTail (l : Links α) (new list : α) : Links α :=
  let prev := l.prev list
  (((l.setNext new list).setPrev list new).setPrev new prev).setNext prev new

section
variable {l : Links α} {head new : α} {xs : List α}

theorem Ring.insertTail (ring : Ring l head xs) (fresh : new ∉ head :: xs) :
    Ring (l.insertTail new head) head (xs ++ [new]) ∧ Same l (l.insertTail new head) (new :: head :: xs) := by
  -- behind the last link is in front of the head
  have behind : l.next (l.prev head) = head → l.insertTail new head = l.insert new (l.prev head) := fun back => by
    simp only [Links.insertTail, Links.insert, back]
    rfl
  rcases List.eq_nil_or_concat' xs with rfl | ⟨zs, z, rfl⟩
  · have self := ring_nil_iff.mp ring
    rw [behind (by rw [self.2, self.1]), self.2]
    exact ⟨ring.insert fresh, ring.insert_same⟩
  · obtain ⟨next, prev⟩ := ring.last
    rw [behind (by rw [prev, next]), prev]
    simpa using ring.insert_after fresh

omit [DecidableEq α] in
theorem Ring.next_headD (ring : Ring l head xs) : l.next head = xs.headD head := by
  rw [ring.next_head]
  cases xs <;> rfl

end

omit [DecidableEq α] in
/-- Disjoint rings, one for each head. -/
structure Rings (l : Links α) (heads : Set α) (xs : α → List α) : Prop where
  ring : ∀ h ∈ heads, Ring l h (xs h)
  apart : ∀ h ∈ heads, ∀ k ∈ heads, ∀ a ∈ h :: xs h, a ∈ k :: xs k → h = k

namespace Rings
variable {l l' : Links α} {heads heads' : Set α} {xs xs' : α → List α} {h k x : α} {ys : List α}

/-- What is on none of the rings is on none of them with a link more. -/
theorem outside_init {y : α} (outx : ∀ h ∈ heads, x ∉ h :: xs h) (outy : ∀ h ∈ heads, y ∉ h :: xs h) (other : y ≠ x) :
    ∀ h ∈ Insert.insert x heads, y ∉ h :: update xs x [] h := by
  rintro h (rfl | mem)
  · simpa using other
  · have old : h ≠ x := fun eq => outx h mem (eq ▸ List.mem_cons_self)
    rw [update_of_ne old]
    exact outy h mem

variable (rings : Rings l heads xs)
include rings

omit [DecidableEq α] in
theorem congr (sub : ∀ h ∈ heads', h ∈ heads ∧ xs' h = xs h) : Rings l heads' xs' where
  ring h mem := (sub h mem).2 ▸ rings.ring h (sub h mem).1
  apart h memh k memk a ina inb :=
    rings.apart h (sub h memh).1 k (sub k memk).1 a ((sub h memh).2 ▸ ina) ((sub k memk).2 ▸ inb)

omit [DecidableEq α] in
theorem nodup (mem : h ∈ heads) : (xs h).Nodup := (List.nodup_cons.mp (rings.ring h mem).nodup).2

omit [DecidableEq α] in
/-- A member is no head. -/
theorem notHead (mem : h ∈ heads) (inside : x ∈ xs h) : x ∉ heads := fun head => by
  have same := rings.apart h mem x head x (List.mem_cons_of_mem h inside) List.mem_cons_self
  exact (List.nodup_cons.mp (rings.ring h mem).nodup).1 (same ▸ inside)

theorem isEmpty_iff (mem : h ∈ heads) : l.isEmpty h = true ↔ xs h = [] :=
  (rings.ring h mem).isEmpty_iff

theorem isEmpty_member (mem : h ∈ heads) (inside : x ∈ xs h) : l.isEmpty x = false := by
  obtain ⟨front, back, split⟩ := List.append_of_mem inside
  have turned := (split ▸ rings.ring h mem).rotate
  exact Bool.eq_false_iff.mpr fun empty => by simpa using turned.isEmpty_iff.mp empty

theorem init (outside : ∀ h ∈ heads, x ∉ h :: xs h) : Rings (l.init x) (Insert.insert x heads) (update xs x []) := by
  have same : Same l (l.init x) [x] := fun a other => by
    have : a ≠ x := by simpa using other
    simp [Links.init, this]
  have old : ∀ h ∈ heads, h ≠ x := fun h mem eq => outside h mem (eq ▸ List.mem_cons_self)
  constructor
  · rintro h (rfl | mem)
    · rw [update_self]
      exact ring_nil_iff.mpr ⟨by simp [Links.init], by simp [Links.init]⟩
    · rw [update_of_ne (old h mem)]
      exact (rings.ring h mem).frame same fun a ina eq => outside h mem (List.mem_singleton.mp eq ▸ ina)
  · rintro h (rfl | memh) k (rfl | memk) a ina inb
    · rfl
    · rw [update_self, List.mem_singleton] at ina
      rw [update_of_ne (old k memk)] at inb
      exact absurd (ina ▸ inb) (outside k memk)
    · rw [update_self, List.mem_singleton] at inb
      rw [update_of_ne (old h memh)] at ina
      exact absurd (inb ▸ ina) (outside h memh)
    · rw [update_of_ne (old h memh)] at ina
      rw [update_of_ne (old k memk)] at inb
      exact rings.apart h memh k memk a ina inb

/-- One list takes in the link of a head that has none. -/
theorem join (memh : h ∈ heads) (memx : x ∈ heads) (other : x ≠ h) (alone : xs x = [])
    (ring : Ring l' h ys) (same : Same l l' (x :: h :: xs h)) (members : ∀ a, a ∈ ys ↔ a = x ∨ a ∈ xs h) :
    Rings l' (heads \ {x}) (update xs h ys) := by
  constructor
  · rintro k ⟨memk, notx⟩
    by_cases eq : k = h
    · subst eq
      rw [update_self]
      exact ring
    · rw [update_of_ne eq]
      refine (rings.ring k memk).frame same fun a ina changed => ?_
      rcases List.mem_cons.mp changed with rfl | inh
      · exact notx (rings.apart k memk a memx a ina List.mem_cons_self)
      · exact eq (rings.apart k memk h memh a ina inh)
  · -- each link of the new list comes from the old one or from the head that was alone
    have origin : ∀ k ∈ heads, k ≠ x → ∀ a ∈ k :: update xs h ys k, a ∈ k :: xs k ∨ k = h ∧ a = x := fun k _ _ a ina => by
      by_cases eq : k = h
      · subst eq
        rw [update_self, List.mem_cons, members] at ina
        rcases ina with rfl | rfl | old
        · exact .inl List.mem_cons_self
        · exact .inr ⟨rfl, rfl⟩
        · exact .inl (List.mem_cons_of_mem k old)
      · rw [update_of_ne eq] at ina
        exact .inl ina
    rintro k ⟨memk, notk⟩ m ⟨memm, notm⟩ a ina inb
    rcases origin k memk notk a ina with old | ⟨atk, isx⟩
    · rcases origin m memm notm a inb with old' | ⟨-, rfl⟩
      · exact rings.apart k memk m memm a old old'
      · exact absurd (rings.apart k memk a memx a old List.mem_cons_self) notk
    · rcases origin m memm notm a inb with old' | ⟨atm, -⟩
      · subst isx
        exact absurd (rings.apart m memm a memx a old' List.mem_cons_self) notm
      · exact atk.trans atm.symm

omit [DecidableEq α] in
theorem fresh (memh : h ∈ heads) (memx : x ∈ heads) (other : x ≠ h) : x ∉ h :: xs h := fun inside =>
  other (rings.apart h memh x memx x inside List.mem_cons_self).symm

theorem insertTail (memh : h ∈ heads) (memx : x ∈ heads) (other : x ≠ h) (alone : xs x = []) :
    Rings (l.insertTail x h) (heads \ {x}) (update xs h (xs h ++ [x])) := by
  obtain ⟨ring, same⟩ := (rings.ring h memh).insertTail (rings.fresh memh memx other)
  exact rings.join memh memx other alone ring same fun a => by simp [or_comm]

theorem insert (memh : h ∈ heads) (memx : x ∈ heads) (other : x ≠ h) (alone : xs x = []) :
    Rings (l.insert x h) (heads \ {x}) (update xs h (x :: xs h)) :=
  rings.join memh memx other alone ((rings.ring h memh).insert (rings.fresh memh memx other)) (rings.ring h memh).insert_same
    fun a => by simp

/-- A link is taken out of its list. -/
theorem unlink (memh : h ∈ heads) (inside : x ∈ xs h) :
    Rings (l.unlink x x) (Insert.insert x heads) (update (update xs h ((xs h).erase x)) x []) := by
  have notx := rings.notHead memh inside
  have old : ∀ k ∈ heads, k ≠ x := fun k mem eq => notx (eq ▸ mem)
  have erased := rings.nodup memh
  obtain ⟨front, back, split⟩ := List.append_of_mem inside
  have whole := split ▸ rings.ring h memh
  obtain ⟨ring, same⟩ : Ring (l.unlink x x) h (front ++ back) ∧ Same l (l.unlink x x) (h :: (front ++ x :: back)) := whole.unlink
  have left : (xs h).erase x = front ++ back := by
    rw [split] at erased ⊢
    rw [List.erase_append_right _ fun infront => (List.nodup_append.mp erased).2.2 x infront x List.mem_cons_self rfl]
    simp
  have sub : ∀ k ∈ heads, ∀ a ∈ k :: update xs h ((xs h).erase x) k, a ∈ k :: xs k := fun k _ a ina => by
    by_cases eq : k = h
    · subst eq
      rw [update_self] at ina
      exact List.cons_subset_cons k List.erase_subset ina
    · rwa [update_of_ne eq] at ina
  have gone : ∀ k ∈ heads, x ∉ k :: update xs h ((xs h).erase x) k := fun k memk ina => by
    have eq := rings.apart k memk h memh x (sub k memk x ina) (List.mem_cons_of_mem h inside)
    subst eq
    rw [update_self, List.mem_cons] at ina
    exact ina.elim (fun eq => old k memk eq.symm) fun still => (rings.nodup memk).not_mem_erase still
  constructor
  · rintro k (rfl | memk)
    · rw [update_self]
      exact ring_nil_iff.mpr ⟨by simp [Links.unlink], by simp [Links.unlink]⟩
    · rw [update_of_ne (old k memk)]
      by_cases eq : k = h
      · subst eq
        rw [update_self, left]
        exact ring
      · rw [update_of_ne eq]
        exact (rings.ring k memk).frame same fun a ina inh => eq (rings.apart k memk h memh a ina (split ▸ inh))
  · rintro k (rfl | memk) m (rfl | memm) a ina inb
    · rfl
    · rw [update_self, List.mem_singleton] at ina
      rw [update_of_ne (old m memm)] at inb
      exact absurd (ina ▸ inb) (gone m memm)
    · rw [update_self, List.mem_singleton] at inb
      rw [update_of_ne (old k memk)] at ina
      exact absurd (inb ▸ ina) (gone k memk)
    · rw [update_of_ne (old k memk)] at ina
      rw [update_of_ne (old m memm)] at inb
      exact rings.apart k memk m memm a (sub k memk a ina) (sub m memm a inb)

/-- A link goes from one list to the end of another. -/
theorem move (memh : h ∈ heads) (memk : k ∈ heads) (other : k ≠ h) (inside : x ∈ xs h) :
    Rings ((l.unlink x x).insertTail x k) heads (update (update xs h ((xs h).erase x)) k (xs k ++ [x])) := by
  have notx := rings.notHead memh inside
  refine ((rings.unlink memh inside).insertTail (.inr memk) (.inl rfl) (fun eq => notx (eq ▸ memk)) (by simp)).congr fun m mem => ?_
  have ne : m ≠ x := fun eq => notx (eq ▸ mem)
  refine ⟨⟨.inr mem, ne⟩, ?_⟩
  by_cases eq : m = k
  · subst eq
    simp [ne, other]
  · simp [eq, ne]

/-- All links of a list go to a head that has none, in some order. -/
theorem transfer (memh : h ∈ heads) (memk : k ∈ heads) (other : k ≠ h) (empty : xs k = [])
    (left : Ring l' h []) (ring : Ring l' k ys) (members : ys.Perm (xs h)) (same : Same l l' (k :: h :: xs h)) :
    Rings l' heads (update (update xs h []) k ys) := by
  -- where a link stood before
  have origin : ∀ m ∈ heads, ∀ a ∈ m :: update (update xs h []) k ys m,
      (m = k ∧ a ∈ xs h) ∨ a ∈ m :: xs m ∧ (m = h → a = h) := fun m _ a ina => by
    by_cases atk : m = k
    · subst atk
      rw [update_self] at ina
      rcases List.mem_cons.mp ina with rfl | inside
      · exact .inr ⟨List.mem_cons_self, fun eq => eq⟩
      · exact .inl ⟨rfl, members.mem_iff.mp inside⟩
    · rw [update_of_ne atk] at ina
      by_cases ath : m = h
      · subst ath
        rw [update_self, List.mem_singleton] at ina
        exact .inr ⟨ina ▸ List.mem_cons_self, fun _ => ina⟩
      · rw [update_of_ne ath] at ina
        exact .inr ⟨ina, fun eq => absurd eq ath⟩
  -- a link of the list that moved is on no other
  have moved : ∀ m ∈ heads, ∀ a ∈ xs h, ¬ (a ∈ m :: xs m ∧ (m = h → a = h)) := fun m memm a inside both => by
    have eq := rings.apart m memm h memh a both.1 (List.mem_cons_of_mem h inside)
    exact (List.nodup_cons.mp (rings.ring h memh).nodup).1 (both.2 eq ▸ inside)
  constructor
  · intro m memm
    by_cases atk : m = k
    · subst atk
      rw [update_self]
      exact ring
    · rw [update_of_ne atk]
      by_cases ath : m = h
      · subst ath
        rw [update_self]
        exact left
      · rw [update_of_ne ath]
        refine (rings.ring m memm).frame same fun a ina changed => ?_
        rcases List.mem_cons.mp changed with rfl | inh
        · exact atk (rings.apart m memm a memk a ina List.mem_cons_self)
        · exact ath (rings.apart m memm h memh a ina inh)
  · intro m memm n memn a ina inb
    rcases origin m memm a ina with ⟨atm, inside⟩ | before
    · rcases origin n memn a inb with ⟨atn, -⟩ | before'
      · exact atm.trans atn.symm
      · exact absurd before' (moved n memn a inside)
    · rcases origin n memn a inb with ⟨-, inside⟩ | before'
      · exact absurd before (moved m memm a inside)
      · exact rings.apart m memm n memn a before.1 before'.1

end Rings

end Codezero.Lib.Links
