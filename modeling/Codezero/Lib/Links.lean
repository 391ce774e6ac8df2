import Mathlib

/-!
# Circular doubly linked lists

A list is threaded through the `next` and `prev` words of its members and of its head. The operations are the
assignments that make them up; `Ring` says which list a head stands for, and each operation has one lemma that
says what it does to its ring and one that says which words it leaves alone.
-/

namespace Codezero.Lib

structure Links (α : Type) where
  next : α → α
  prev : α → α

namespace Links
variable {α : Type} [DecidableEq α]

def setNext (l : Links α) (a b : α) : Links α := { l with next := Function.update l.next a b }
def setPrev (l : Links α) (a b : α) : Links α := { l with prev := Function.update l.prev a b }

/-- The new link goes behind `list`. -/
def insert (l : Links α) (new list : α) : Links α :=
  let next := l.next list
  (((l.setNext new next).setPrev next new).setNext list new).setPrev new list

/-- What is in front of a link and what is behind it are linked to each other, and it gets `mark` for both. -/
def unlink (l : Links α) (link mark : α) : Links α :=
  let prev := l.prev link
  let next := l.next link
  (((l.setNext prev next).setPrev next prev).setNext link mark).setPrev link mark

/-- The list is cut from its head, and its first link returned. -/
def detach (l : Links α) (head : α) : Links α × α := (l.unlink head head, l.next head)

/-- From `cur` on, the link whose next one is `stop`. -/
def lastBefore (l : Links α) (stop : α) : Nat → α → Option α
  | 0, _ => none
  | fuel + 1, cur => if l.next cur = stop then some cur else lastBefore l stop fuel (l.next cur)

/-- A detached list is appended at `last`, which is not told its new place. -/
def attach (l : Links α) (fuel : Nat) (new head last : α) : Option (Links α) :=
  let l := (l.setNext last new).setPrev new last
  (l.lastBefore (l.next last) fuel new).map (fun cur => (l.setNext cur head).setPrev head cur)

/-- The links from `cur` to the head. -/
def walk (l : Links α) (head : α) : Nat → α → List α
  | 0, _ => []
  | fuel + 1, cur => if cur = head then [] else cur :: walk l head fuel (l.next cur)

def isEmpty (l : Links α) (head : α) : Bool := decide (l.prev head = head ∧ l.next head = head)

@[simp] theorem next_setNext (l : Links α) (a b : α) : (l.setNext a b).next = Function.update l.next a b := rfl
@[simp] theorem prev_setNext (l : Links α) (a b : α) : (l.setNext a b).prev = l.prev := rfl
@[simp] theorem next_setPrev (l : Links α) (a b : α) : (l.setPrev a b).next = l.next := rfl
@[simp] theorem prev_setPrev (l : Links α) (a b : α) : (l.setPrev a b).prev = Function.update l.prev a b := rfl

/-! ## Chains of links -/

/-- Neighbours are linked both ways. -/
def Linked (l : Links α) : List α → Prop
  | x :: y :: rest => l.next x = y ∧ l.prev y = x ∧ Linked l (y :: rest)
  | _ => True

omit [DecidableEq α]

section Linked
variable {l l' : Links α} {x y a : α} {xs ys : List α}

theorem linked_cons_cons : Linked l (x :: y :: xs) ↔ l.next x = y ∧ l.prev y = x ∧ Linked l (y :: xs) := Iff.rfl

theorem linked_append : Linked l (xs ++ x :: ys) ↔ Linked l (xs ++ [x]) ∧ Linked l (x :: ys) := by
  induction xs with
  | nil => simp [Linked]
  | cons a xs rest =>
    cases xs with
    | nil => simp [Linked, and_assoc]
    | cons b xs =>
      simp only [List.cons_append, linked_cons_cons] at rest ⊢
      rw [rest, and_assoc, and_assoc]

/-- A chain reads the next word of all but its last link and the previous word of all but its first. -/
theorem Linked.congr (linked : Linked l xs) (next : ∀ a ∈ xs.dropLast, l'.next a = l.next a)
    (prev : ∀ a ∈ xs.tail, l'.prev a = l.prev a) : Linked l' xs := by
  induction xs with
  | nil => trivial
  | cons x xs rest =>
    cases xs with
    | nil => trivial
    | cons y xs =>
      obtain ⟨first, back, linked⟩ := linked
      refine ⟨(next x ?_).trans first, (prev y List.mem_cons_self).trans back, rest linked ?_ ?_⟩
      · exact List.mem_cons_self
      · exact fun a mem => next a (List.mem_cons_of_mem x mem)
      · exact fun a mem => prev a (List.mem_cons_of_mem y mem)

end Linked

/-- The list that a head stands for. -/
structure Ring (l : Links α) (head : α) (xs : List α) : Prop where
  linked : Linked l (head :: (xs ++ [head]))
  nodup : (head :: xs).Nodup

/-- Outside some links nothing differs. -/
def Same (l l' : Links α) (xs : List α) : Prop := ∀ a, a ∉ xs → l'.next a = l.next a ∧ l'.prev a = l.prev a

/-- The links with both words swapped: a walk over them goes backwards. -/
def flip (l : Links α) : Links α := ⟨l.prev, l.next⟩

section Ring
variable {l l' : Links α} {head x new mark a : α} {xs ys : List α} {fuel : Nat}

theorem Ring.congr (ring : Ring l head xs) (next : ∀ a ∈ head :: xs, l'.next a = l.next a)
    (prev : ∀ a ∈ head :: xs, l'.prev a = l.prev a) : Ring l' head xs := by
  refine ⟨ring.linked.congr (fun a mem => next a ?_) (fun a mem => prev a ?_), ring.nodup⟩
  · rwa [← List.cons_append, List.dropLast_concat] at mem
  · rw [List.tail_cons] at mem
    rcases List.mem_append.mp mem with inside | last
    · exact List.mem_cons_of_mem head inside
    · exact List.mem_singleton.mp last ▸ List.mem_cons_self

/-- A ring stands where only links outside it differ. -/
theorem Ring.frame (ring : Ring l head xs) (same : Same l l' ys) (apart : ∀ a ∈ head :: xs, a ∉ ys) : Ring l' head xs :=
  ring.congr (fun a mem => (same a (apart a mem)).1) (fun a mem => (same a (apart a mem)).2)

theorem ring_nil_iff : Ring l head [] ↔ l.next head = head ∧ l.prev head = head :=
  ⟨fun ring => ⟨ring.linked.1, ring.linked.2.1⟩, fun self => ⟨⟨self.1, self.2, trivial⟩, List.nodup_singleton head⟩⟩

theorem Ring.next_head (ring : Ring l head xs) : l.next head = (xs ++ [head]).head (by simp) := by
  cases xs with
  | nil => exact ring.linked.1
  | cons x xs => exact ring.linked.1

/-- A ring seen from its last link. -/
theorem Ring.last (ring : Ring l head (xs ++ [x])) : l.next x = head ∧ l.prev head = x := by
  have linked : Linked l ((head :: xs) ++ x :: [head]) := by simpa using ring.linked
  obtain ⟨-, next, prev, -⟩ := linked_append.mp linked
  exact ⟨next, prev⟩

theorem Ring.isEmpty_iff [DecidableEq α] (ring : Ring l head xs) : l.isEmpty head = true ↔ xs = [] := by
  rw [isEmpty, decide_eq_true_eq]
  constructor
  · intro self
    cases xs with
    | nil => rfl
    | cons x xs =>
      have first := ring.linked.1.symm.trans self.2
      exact absurd (first ▸ List.mem_cons_self) (List.nodup_cons.mp ring.nodup).1
  · rintro rfl
    exact (ring_nil_iff.mp ring).symm

end Ring

/-! ## What the operations do -/

section Operations
variable [DecidableEq α] {l l' : Links α} {head x new mark a : α} {xs ys : List α} {fuel : Nat}

theorem Ring.insert (ring : Ring l head xs) (fresh : new ∉ head :: xs) : Ring (l.insert new head) head (new :: xs) := by
  have ⟨ne, notin⟩ : new ≠ head ∧ new ∉ xs := by simpa using fresh
  have nodup : (head :: new :: xs).Nodup := by
    have := ring.nodup
    simp only [List.nodup_cons, List.mem_cons, not_or] at this ⊢
    exact ⟨⟨Ne.symm ne, this.1⟩, notin, this.2⟩
  refine ⟨?_, nodup⟩
  cases xs with
  | nil =>
    have self : l.next head = head := ring.linked.1
    simp [Linked, Links.insert, self, ne, Ne.symm ne]
  | cons x xs =>
    have first : l.next head = x := ring.linked.1
    have linked : Linked l (x :: (xs ++ [head])) := ring.linked.2.2
    have old := ring.nodup
    simp only [List.nodup_cons, List.mem_cons, not_or] at old notin
    obtain ⟨⟨headx, headxs⟩, xxs, -⟩ := old
    obtain ⟨newx, newxs⟩ := notin
    rw [List.cons_append, linked_cons_cons, List.cons_append, linked_cons_cons]
    refine ⟨?_, ?_, ?_, ?_, linked.congr (fun a mem => ?_) (fun a mem => ?_)⟩
    · simp [Links.insert]
    · simp [Links.insert]
    · simp [Links.insert, first, ne]
    · simp [Links.insert, first, Ne.symm newx]
    · rw [← List.cons_append, List.dropLast_concat, List.mem_cons] at mem
      have nothead : a ≠ head := by rintro rfl; exact mem.elim headx headxs
      have notnew : a ≠ new := by rintro rfl; exact mem.elim newx newxs
      simp [Links.insert, nothead, notnew]
    · rw [List.tail_cons, List.mem_append, List.mem_singleton] at mem
      have notx : a ≠ x := by rintro rfl; exact mem.elim xxs (fun eq => headx eq.symm)
      have notnew : a ≠ new := by rintro rfl; exact mem.elim newxs ne
      simp [Links.insert, first, notx, notnew]

theorem Ring.insert_same (ring : Ring l head xs) : Same l (l.insert new head) (new :: head :: xs) := by
  intro a outside
  simp only [List.mem_cons, not_or] at outside
  obtain ⟨notnew, nothead, notin⟩ := outside
  have notnext : a ≠ l.next head := by
    rw [ring.next_head]
    cases xs with
    | nil => exact nothead
    | cons x xs => exact fun eq => notin (eq ▸ List.mem_cons_self)
  simp [Links.insert, notnew, nothead, notnext]

/-- Taking out the first link. -/
theorem Ring.unlink_first (ring : Ring l head (x :: xs)) : Ring (l.unlink x mark) head xs ∧
    Same l (l.unlink x mark) (head :: x :: xs) := by
  have old := ring.nodup
  simp only [List.nodup_cons, List.mem_cons, not_or] at old
  obtain ⟨⟨headx, headxs⟩, xxs, nodup⟩ := old
  obtain ⟨-, back, linked⟩ := ring.linked
  have next : l.next x = (xs ++ [head]).head (by simp) := by
    cases xs with
    | nil => exact linked.1
    | cons y xs => exact linked.1
  refine ⟨⟨?_, List.nodup_cons.mpr ⟨headxs, nodup⟩⟩, fun a outside => ?_⟩
  · cases xs with
    | nil => simp [Linked, unlink, back, next, headx]
    | cons y xs =>
      simp only [List.cons_append, List.head_cons] at next
      have linked : Linked l (y :: (xs ++ [head])) := linked.2.2
      simp only [List.mem_cons, not_or] at headxs xxs
      rw [List.nodup_cons] at nodup
      rw [List.cons_append, linked_cons_cons]
      refine ⟨?_, ?_, linked.congr (fun a mem => ?_) (fun a mem => ?_)⟩
      · simp [unlink, back, next, headx]
      · simp [unlink, back, next, Ne.symm xxs.1]
      · rw [← List.cons_append, List.dropLast_concat, List.mem_cons] at mem
        have nothead : a ≠ head := by rintro rfl; exact mem.elim headxs.1 headxs.2
        have notx : a ≠ x := by rintro rfl; exact mem.elim xxs.1 xxs.2
        simp [unlink, back, nothead, notx]
      · rw [List.tail_cons, List.mem_append, List.mem_singleton] at mem
        have noty : a ≠ y := by rintro rfl; exact mem.elim nodup.1 (fun eq => headxs.1 eq.symm)
        have notx : a ≠ x := by rintro rfl; exact mem.elim xxs.2 (fun eq => headx eq.symm)
        simp [unlink, next, noty, notx]
  · simp only [List.mem_cons, not_or] at outside
    obtain ⟨nothead, notx, notin⟩ := outside
    have notnext : a ≠ l.next x := by
      rw [next]
      cases xs with
      | nil => exact nothead
      | cons y xs => exact fun eq => notin (eq ▸ List.mem_cons_self)
    simp [unlink, back, nothead, notx, notnext]

/-- The list that is cut from its head is a ring of its own. -/
theorem Ring.detach (ring : Ring l head (x :: xs)) : (l.detach head).2 = x ∧ Ring (l.detach head).1 head [] ∧
    Ring (l.detach head).1 x xs ∧ Same l (l.detach head).1 (head :: x :: xs) := by
  have first := ring.linked.1
  obtain ⟨ys, last, concat⟩ : ∃ ys last, x :: xs = ys ++ [last] :=
    (List.eq_nil_or_concat' (x :: xs)).resolve_left (List.cons_ne_nil x xs)
  have nodup := List.nodup_cons.mp ring.nodup
  obtain ⟨next, prev⟩ := (show Ring l head (ys ++ [last]) from concat ▸ ring).last
  have lastmem : last ∈ x :: xs := concat ▸ List.mem_append_right ys List.mem_cons_self
  have nothead : ∀ a ∈ x :: xs, a ≠ head := fun a mem eq => nodup.1 (eq ▸ mem)
  refine ⟨first, ring_nil_iff.mpr ⟨?_, ?_⟩, ⟨?_, nodup.2⟩, fun a outside => ?_⟩
  · simp [Links.detach, unlink]
  · simp [Links.detach, unlink]
  · -- The chain in front of the head is as it was; the last link now leads to the first.
    have chain : Linked l (ys ++ [last]) := by
      have linked : Linked l ((head :: ys) ++ last :: [head]) := by
        have whole : head :: (x :: xs ++ [head]) = (head :: ys) ++ last :: [head] := by rw [concat]; simp
        exact whole ▸ ring.linked
      have := (linked_append.mp linked).1
      cases ys with
      | nil => trivial
      | cons y ys => exact this.2.2
    have closed : x :: (xs ++ [x]) = ys ++ last :: [x] := by
      rw [← List.cons_append, concat]
      simp
    rw [closed, linked_append]
    refine ⟨chain.congr (fun a mem => ?_) (fun a mem => ?_), ?_, ?_, trivial⟩
    · rw [List.dropLast_concat] at mem
      have differ : a ≠ last := by
        rintro rfl
        have := concat ▸ nodup.2
        exact (List.nodup_append.mp this).2.2 a mem a List.mem_cons_self rfl
      have nothead := nothead a (concat ▸ List.mem_append_left [last] mem)
      simp [Links.detach, unlink, prev, first, differ, nothead]
    · have within : a ∈ x :: xs := concat ▸ List.mem_of_mem_tail mem
      have differ : a ≠ x := by
        rintro rfl
        rw [← concat, List.tail_cons] at mem
        exact (List.nodup_cons.mp nodup.2).1 mem
      simp [Links.detach, unlink, prev, first, differ, nothead a within]
    · simp [Links.detach, unlink, prev, first, nothead last lastmem]
    · simp [Links.detach, unlink, prev, first, nothead x List.mem_cons_self]
  · simp only [List.mem_cons, not_or] at outside
    obtain ⟨nothead, notx, notin⟩ := outside
    have notlast : a ≠ last := by
      rintro rfl
      exact (List.mem_cons.mp lastmem).elim notx notin
    simp [Links.detach, unlink, prev, first, nothead, notx, notlast]

/-- Walking a chain that leads to `stop` ends at its last link. Only the next words are read. -/
theorem lastBefore_eq {stop last cur : α} (linked : Linked l (cur :: (xs ++ [stop])))
    (same : ∀ a ∈ cur :: xs, l'.next a = l.next a) (apart : ∀ a ∈ xs, a ≠ stop)
    (enough : xs.length < fuel) (ends : (cur :: xs).getLast (List.cons_ne_nil cur xs) = last) :
    l'.lastBefore stop fuel cur = some last := by
  induction xs generalizing cur fuel with
  | nil =>
    obtain ⟨fuel, rfl⟩ : ∃ n, fuel = n + 1 := ⟨fuel - 1, by simp at enough; omega⟩
    have next : l'.next cur = stop := (same cur List.mem_cons_self).trans linked.1
    rw [lastBefore, if_pos next]
    exact congrArg some ends
  | cons y xs rest =>
    obtain ⟨fuel, rfl⟩ : ∃ n, fuel = n + 1 := ⟨fuel - 1, by simp at enough; omega⟩
    have next : l'.next cur = y := (same cur List.mem_cons_self).trans linked.1
    rw [lastBefore, next, if_neg (apart y List.mem_cons_self)]
    refine rest linked.2.2 (fun a mem => same a (List.mem_cons_of_mem cur mem))
      (fun a mem => apart a (List.mem_cons_of_mem y mem)) (by simpa using enough) ?_
    rwa [List.getLast_cons (List.cons_ne_nil y xs)] at ends

/-! ## Inside a list -/

omit [DecidableEq α] in
/-- A ring can be read from any of its links. -/
theorem Ring.rotate (ring : Ring l head (xs ++ x :: ys)) : Ring l x (ys ++ head :: xs) := by
  have linked : Linked l ((head :: xs) ++ x :: (ys ++ [head])) := by simpa using ring.linked
  obtain ⟨before, behind⟩ := linked_append.mp linked
  have joined : Linked l ((x :: ys) ++ head :: (xs ++ [x])) := linked_append.mpr ⟨by simpa using behind, by simpa using before⟩
  refine ⟨by simpa using joined, ?_⟩
  have perm : (x :: (ys ++ head :: xs)).Perm (head :: (xs ++ x :: ys)) := by
    have swap : ((x :: ys) ++ (head :: xs)).Perm ((head :: xs) ++ (x :: ys)) := List.perm_append_comm
    simpa using swap
  exact perm.nodup_iff.mpr ring.nodup

omit [DecidableEq α] in
theorem Ring.next_of (ring : Ring l head (xs ++ x :: ys)) : l.next x = ys.headD head := by
  have whole : Linked l ((head :: xs) ++ x :: (ys ++ [head])) := by simpa using ring.linked
  have linked := (linked_append.mp whole).2
  cases ys with
  | nil => exact linked.1
  | cons y ys => exact linked.1

theorem Ring.walk_eq (ring : Ring l head (xs ++ ys)) (enough : ys.length < fuel) :
    l.walk head fuel (ys.headD head) = ys := by
  induction ys generalizing xs fuel with
  | nil =>
    obtain ⟨fuel, rfl⟩ : ∃ n, fuel = n + 1 := ⟨fuel - 1, by simp at enough; omega⟩
    simp [walk]
  | cons y ys rest =>
    obtain ⟨fuel, rfl⟩ : ∃ n, fuel = n + 1 := ⟨fuel - 1, by simp at enough; omega⟩
    have ne : y ≠ head := by
      rintro rfl
      exact (List.nodup_cons.mp ring.nodup).1 (by simp)
    rw [List.headD_cons, walk, if_neg ne, ring.next_of]
    have ring' : Ring l head ((xs ++ [y]) ++ ys) := by simpa using ring
    exact congrArg _ (rest ring' (by simpa using enough))

theorem Ring.insert_after (ring : Ring l head (xs ++ x :: ys)) (fresh : new ∉ head :: (xs ++ x :: ys)) :
    Ring (l.insert new x) head (xs ++ x :: new :: ys) ∧ Same l (l.insert new x) (new :: head :: (xs ++ x :: ys)) := by
  have turned := ring.rotate
  have outside : new ∉ x :: (ys ++ head :: xs) := by
    simp only [List.mem_cons, List.mem_append, not_or] at fresh ⊢
    exact ⟨fresh.2.2.1, fresh.2.2.2, fresh.1, fresh.2.1⟩
  have inserted : Ring (l.insert new x) x ((new :: ys) ++ head :: xs) := turned.insert outside
  refine ⟨inserted.rotate, fun a notin => turned.insert_same a ?_⟩
  simp only [List.mem_cons, List.mem_append, not_or] at notin ⊢
  exact ⟨notin.1, notin.2.2.2.1, notin.2.2.2.2, notin.2.1, notin.2.2.1⟩

theorem Ring.unlink (ring : Ring l head (xs ++ x :: ys)) : Ring (l.unlink x mark) head (xs ++ ys) ∧
    Same l (l.unlink x mark) (head :: (xs ++ x :: ys)) := by
  rcases List.eq_nil_or_concat' xs with rfl | ⟨zs, z, rfl⟩
  · exact ring.unlink_first
  · -- Seen from the link in front of it, the link is the first.
    have turned : Ring l z ((x :: ys) ++ head :: zs) := Ring.rotate (by simpa using ring)
    have left : Ring (l.unlink x mark) z (ys ++ head :: zs) := turned.unlink_first.1
    have same : Same l (l.unlink x mark) (z :: x :: (ys ++ head :: zs)) := turned.unlink_first.2
    refine ⟨by simpa using left.rotate, fun a notin => same a ?_⟩
    simp only [List.mem_cons, List.mem_append, not_or] at notin ⊢
    exact ⟨notin.2.1.2.1, notin.2.2.1, notin.2.2.2, notin.1, notin.2.1.1⟩

/-- A list appended at the last link of another follows it. -/
theorem Ring.attach (ring : Ring l head xs) (chain : Ring l x ys) (apart : ∀ a ∈ head :: xs, a ∉ x :: ys) (enough : ys.length < fuel) :
    ∃ l', l.attach fuel x head (xs.getLastD head) = some l' ∧ Ring l' head (xs ++ x :: ys) ∧
      Same l l' ((head :: xs) ++ (x :: ys)) := by
  obtain ⟨front, last, concat⟩ : ∃ front last, head :: xs = front ++ [last] :=
    (List.eq_nil_or_concat' (head :: xs)).resolve_left (List.cons_ne_nil head xs)
  obtain ⟨zs, stop, concat'⟩ : ∃ zs stop, x :: ys = zs ++ [stop] :=
    (List.eq_nil_or_concat' (x :: ys)).resolve_left (List.cons_ne_nil x ys)
  have isLast : xs.getLastD head = last := by
    have := congrArg List.getLast? concat
    rw [List.getLast?_cons, List.getLast?_concat] at this
    exact (List.getLastD_eq_getLast? ..).trans (Option.some.inj this)
  have lastmem : last ∈ head :: xs := concat ▸ List.mem_append_right front List.mem_cons_self
  have stopmem : stop ∈ x :: ys := concat' ▸ List.mem_append_right zs List.mem_cons_self
  have differ : ∀ a ∈ head :: xs, ∀ b ∈ x :: ys, a ≠ b := fun a mema b memb eq => apart a mema (eq ▸ memb)
  have whole : Linked l (front ++ last :: [head]) := by
    have := ring.linked
    rwa [← List.cons_append, concat, List.append_assoc] at this
  have whole' : Linked l (zs ++ stop :: [x]) := by
    have := chain.linked
    rwa [← List.cons_append, concat', List.append_assoc] at this
  generalize started : (l.setNext last x).setPrev x last = l1
  have next1 : ∀ a, a ≠ last → l1.next a = l.next a := fun a ne => by simp [← started, ne]
  have prev1 : ∀ a, a ≠ x → l1.prev a = l.prev a := fun a ne => by simp [← started, ne]
  have found : l1.lastBefore x fuel x = some stop :=
    lastBefore_eq chain.linked (fun a mem => next1 a (differ last lastmem a mem).symm)
      (fun a mem eq => (List.nodup_cons.mp chain.nodup).1 (eq ▸ mem)) enough (by simp [concat'])
  have nodup : (head :: (xs ++ x :: ys)).Nodup := by
    rw [← List.cons_append, List.nodup_append]
    exact ⟨ring.nodup, chain.nodup, differ⟩
  refine ⟨(l1.setNext stop head).setPrev head stop, ?_, ⟨?_, nodup⟩, fun a outside => ?_⟩
  · have here : l1.next last = x := by simp [← started]
    rw [isLast]
    simp only [Links.attach, started, here, found, Option.map_some]
  · have closed : head :: (xs ++ x :: ys ++ [head]) = front ++ last :: (zs ++ stop :: [head]) := by
      rw [← List.cons_append, ← List.cons_append, concat, concat']
      simp
    have begins : zs ++ stop :: [head] = x :: (ys ++ [head]) := by
      rw [← List.cons_append, concat', List.append_assoc]
      rfl
    have seam : Linked ((l1.setNext stop head).setPrev head stop) (zs ++ stop :: [head]) := by
      refine linked_append.mpr ⟨(linked_append.mp whole').1.congr (fun a mem => ?_) (fun a mem => ?_), ?_, ?_, trivial⟩
      · rw [List.dropLast_concat] at mem
        have within : a ∈ x :: ys := concat' ▸ List.mem_append_left [stop] mem
        have notstop : a ≠ stop := by
          rintro rfl
          exact (List.nodup_append.mp (concat' ▸ chain.nodup)).2.2 a mem a List.mem_cons_self rfl
        simp [notstop, next1 a (differ last lastmem a within).symm]
      · have within : a ∈ x :: ys := concat' ▸ List.mem_of_mem_tail mem
        have notfirst : a ≠ x := by
          rintro rfl
          rw [← concat', List.tail_cons] at mem
          exact (List.nodup_cons.mp chain.nodup).1 mem
        simp [(differ head List.mem_cons_self a within).symm, prev1 a notfirst]
      · simp
      · simp
    rw [closed]
    refine linked_append.mpr ⟨(linked_append.mp whole).1.congr (fun a mem => ?_) (fun a mem => ?_), ?_⟩
    · rw [List.dropLast_concat] at mem
      have within : a ∈ head :: xs := concat ▸ List.mem_append_left [last] mem
      have notlast : a ≠ last := by
        rintro rfl
        exact (List.nodup_append.mp (concat ▸ ring.nodup)).2.2 a mem a List.mem_cons_self rfl
      simp [differ a within stop stopmem, next1 a notlast]
    · have within : a ∈ head :: xs := concat ▸ List.mem_of_mem_tail mem
      have nothead : a ≠ head := by
        rintro rfl
        rw [← concat, List.tail_cons] at mem
        exact (List.nodup_cons.mp ring.nodup).1 mem
      simp [nothead, prev1 a (differ a within x List.mem_cons_self)]
    · rw [begins] at seam ⊢
      refine ⟨?_, ?_, seam⟩
      · simp [← started, differ last lastmem stop stopmem]
      · simp [← started, (differ head List.mem_cons_self x List.mem_cons_self).symm]
  · simp only [List.mem_append, not_or] at outside
    have notlast : a ≠ last := fun eq => outside.1 (eq ▸ lastmem)
    have notstop : a ≠ stop := fun eq => outside.2 (eq ▸ stopmem)
    have nothead : a ≠ head := fun eq => outside.1 (eq ▸ List.mem_cons_self)
    have notfirst : a ≠ x := fun eq => outside.2 (eq ▸ List.mem_cons_self)
    simp [← started, notlast, notstop, nothead, notfirst]

/-! ## The other direction -/

omit [DecidableEq α] in
theorem Linked.flip (linked : Linked l xs) : Linked l.flip xs.reverse := by
  induction xs with
  | nil => trivial
  | cons x xs rest =>
    cases xs with
    | nil => trivial
    | cons y xs =>
      obtain ⟨next, prev, linked⟩ := linked
      have before : Linked l.flip (xs.reverse ++ [y]) := by simpa using rest linked
      have whole : Linked l.flip (xs.reverse ++ y :: [x]) := linked_append.mpr ⟨before, prev, next, trivial⟩
      simpa using whole

omit [DecidableEq α] in
theorem Ring.flip (ring : Ring l head xs) : Ring l.flip head xs.reverse where
  linked := by simpa using ring.linked.flip
  nodup := by simpa using ring.nodup

/-- A ring is read off its head in both directions. -/
theorem Ring.read (ring : Ring l head xs) (enough : xs.length < fuel) :
    l.walk head fuel (l.next head) = xs ∧ l.flip.walk head fuel (l.prev head) = xs.reverse := by
  have forward {l : Links α} {xs : List α} (ring : Ring l head xs) (enough : xs.length < fuel) :
      l.walk head fuel (l.next head) = xs := by
    have first : l.next head = xs.headD head := by
      rw [ring.next_head]
      cases xs <;> rfl
    rw [first]
    exact Ring.walk_eq (show Ring l head ([] ++ xs) from ring) enough
  exact ⟨forward ring enough, forward ring.flip (by simpa using enough)⟩

end Operations

end Links

end Codezero.Lib
