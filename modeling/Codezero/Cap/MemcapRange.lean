import Codezero.Cap.Capability
import Codezero.Cap.Lists

/-!
# Taking a range out of a memory capability

`memcap_unmap_range` splits, shrinks or removes one memory capability of a list. The other capabilities of the list, and
their links up to the new neighbours, stay as they are.
-/

namespace Codezero.Cap.MemcapRange
open Codezero.Kernel (Word)
open Codezero.Lib
open Codezero.Cap.Lists
open Function (update update_of_ne update_self)

/-! ## The model -/

/-- Where a `BUG` stands. -/
inductive Stop
  | split
  | shrinkEnd
  | shrinkStart
  | shrink
  | unmapRange
  deriving DecidableEq, Repr

/-- What is left of a range: both its ends, one of them, or nothing. -/
inductive Left
  | both
  | front
  | back
  | nothing

/-- `memcap_split`, of the capability from `s` to `e`. -/
def memcapSplit (s e start stop : Nat) : Except Stop Left :=
  if s ≥ start ∨ e ≤ stop then .error .split else .ok .both

/-- `memcap_shrink`. -/
def memcapShrink (s e start stop : Nat) : Except Stop Left :=
  if s < start then
    if start ≥ e then .error .shrinkEnd else .ok .front
  else if e > stop then
    if stop ≤ s then .error .shrinkStart else .ok .back
  else .error .shrink

/-- The tests of `memcap_unmap_range`. -/
def memcapLeft (s e start stop : Nat) : Except Stop Left :=
  if s < start ∧ e > stop then memcapSplit s e start stop
  else if (s ≥ start ∧ e > stop) ∨ (s < start ∧ e ≤ stop) then memcapShrink s e start stop
  else if s ≥ start ∧ e ≤ stop then .ok .nothing
  else .error .unmapRange

/-- Capabilities by their links, and the lists they are on. -/
structure Memcaps where
  cap : Nat → Capability
  lists : Linkage

def Memcaps.set (s : Memcaps) (cap : Nat) (c : Capability) : Memcaps := { s with cap := update s.cap cap c }

/-- What `list_remove` leaves in a link. -/
def deadword : Nat := 0xDEADCCCC

/-- `memcap_unmap_range`; `new` is what `alloc_bootmem` returns, which is zeroed. A capability that goes is only unlinked: the
count of the list stays. -/
def memcapUnmapRange (cap clist new : Nat) (start stop : Word) (s : Memcaps) : Except Stop Memcaps := do
  match ← memcapLeft (s.cap cap).start.toNat (s.cap cap).end'.toNat start.toNat stop.toNat with
  | .both =>
    let made : Capability := { type := 0, access := (s.cap cap).access, start := stop, end' := (s.cap cap).end' }
    let s := (s.set new made).set cap { s.cap cap with end' := start }
    .ok { s with lists := capListInsert new clist s.lists }
  | .front => .ok (s.set cap { s.cap cap with end' := start })
  | .back => .ok (s.set cap { s.cap cap with start := stop })
  | .nothing => .ok { s with lists := { s.lists with links := s.lists.links.unlink cap deadword } }

/-- Where the range has a page of the capability, no `BUG` is met. -/
theorem memcapLeft_meets {s e start stop : Nat} (meets : ¬ (stop ≤ s ∨ start ≥ e)) :
    memcapLeft s e start stop = .ok (if s < start then if stop < e then .both else .front else if stop < e then .back else .nothing) := by
  unfold memcapLeft memcapSplit memcapShrink
  repeat' split
  all_goals first | rfl | omega

/-! ## Ranges -/

/-- The capability is for the page. -/
def Covers (c : Capability) (page : Nat) : Prop := c.start.toNat ≤ page ∧ page < c.end'.toNat

instance (c : Capability) (page : Nat) : Decidable (Covers c page) := inferInstanceAs (Decidable (_ ∧ _))

/-- Some capability of the list is for the page, with this access. -/
def Grants (s : Memcaps) (caps : List Nat) (page : Nat) (access : Word) : Prop :=
  ∃ c ∈ caps, Covers (s.cap c) page ∧ (s.cap c).access = access

/-- Ranges are not empty, and two of them have no page in common. -/
structure Apart (s : Memcaps) (caps : List Nat) : Prop where
  filled : ∀ c ∈ caps, (s.cap c).start < (s.cap c).end'
  apart : ∀ c ∈ caps, ∀ d ∈ caps, c ≠ d → ∀ page, ¬ (Covers (s.cap c) page ∧ Covers (s.cap d) page)

section Pieces
variable {s s' : Memcaps} {xs ys : List Nat} {cap clist new : Nat} {start stop : Word}

/-- What is left of one capability, as one that is cut, with a second one behind the cut, or without it. -/
structure Pieces (s s' : Memcaps) (xs ys : List Nat) (cap new : Nat) (start stop : Word) : Prop where
  members : ∀ c ∈ ys, c ∈ xs ∨ c = new
  others : ∀ c ∈ xs, c ≠ cap → c ∈ ys ∧ s'.cap c = s.cap c
  filled : ∀ c ∈ ys, c = cap ∨ c = new → (s'.cap c).start < (s'.cap c).end'
  single : cap ∈ ys → new ∈ ys → ∀ page, ¬ (Covers (s'.cap cap) page ∧ Covers (s'.cap new) page)
  rest : ∀ page access, (∃ c ∈ ys, (c = cap ∨ c = new) ∧ Covers (s'.cap c) page ∧ (s'.cap c).access = access) ↔
    Covers (s.cap cap) page ∧ (s.cap cap).access = access ∧ ¬ (start.toNat ≤ page ∧ page < stop.toNat)

/-- The pages of the list are the old ones without the range of the capability. -/
theorem Pieces.grants (pieces : Pieces s s' xs ys cap new start stop) (apart : Apart s xs) (mem : cap ∈ xs)
    (page : Nat) (access : Word) :
    Grants s' ys page access ↔ Grants s xs page access ∧ ¬ (Covers (s.cap cap) page ∧ start.toNat ≤ page ∧ page < stop.toNat) := by
  constructor
  · rintro ⟨c, memc, covers, is⟩
    by_cases piece : c = cap ∨ c = new
    · obtain ⟨old, access, out⟩ := (pieces.rest page access).mp ⟨c, memc, piece, covers, is⟩
      exact ⟨⟨cap, mem, old, access⟩, fun both => out both.2⟩
    · obtain ⟨notcap, notnew⟩ := not_or.mp piece
      have inside := (pieces.members c memc).resolve_right notnew
      rw [(pieces.others c inside notcap).2] at covers is
      exact ⟨⟨c, inside, covers, is⟩, fun both => apart.apart c inside cap mem notcap page ⟨covers, both.1⟩⟩
  · rintro ⟨⟨c, memc, covers, is⟩, out⟩
    by_cases same : c = cap
    · subst same
      obtain ⟨d, memd, -, found⟩ := (pieces.rest page access).mpr ⟨covers, is, fun both => out ⟨covers, both⟩⟩
      exact ⟨d, memd, found⟩
    · obtain ⟨stays, kept⟩ := pieces.others c memc same
      exact ⟨c, stays, kept.symm ▸ covers, kept.symm ▸ is⟩

theorem Pieces.apart (pieces : Pieces s s' xs ys cap new start stop) (apart : Apart s xs) (mem : cap ∈ xs) : Apart s' ys := by
  -- a piece has pages of the old capability only
  have within : ∀ c ∈ ys, c = cap ∨ c = new → ∀ page, Covers (s'.cap c) page → Covers (s.cap cap) page := fun c memc piece page covers =>
    ((pieces.rest page _).mp ⟨c, memc, piece, covers, rfl⟩).1
  have old : ∀ c ∈ ys, ¬ (c = cap ∨ c = new) → c ∈ xs ∧ c ≠ cap ∧ s'.cap c = s.cap c := fun c memc piece => by
    obtain ⟨notcap, notnew⟩ := not_or.mp piece
    have inside := (pieces.members c memc).resolve_right notnew
    exact ⟨inside, notcap, (pieces.others c inside notcap).2⟩
  refine ⟨fun c memc => ?_, fun c memc d memd ne page => ?_⟩
  · by_cases piece : c = cap ∨ c = new
    · exact pieces.filled c memc piece
    · obtain ⟨inside, -, kept⟩ := old c memc piece
      exact kept.symm ▸ apart.filled c inside
  · rintro ⟨coversc, coversd⟩
    by_cases piecec : c = cap ∨ c = new <;> by_cases pieced : d = cap ∨ d = new
    · rcases piecec with rfl | rfl <;> rcases pieced with rfl | rfl
      · exact ne rfl
      · exact pieces.single memc memd page ⟨coversc, coversd⟩
      · exact pieces.single memd memc page ⟨coversd, coversc⟩
      · exact ne rfl
    · obtain ⟨inside, notcap, kept⟩ := old d memd pieced
      exact apart.apart d inside cap mem notcap page ⟨kept ▸ coversd, within c memc piecec page coversc⟩
    · obtain ⟨inside, notcap, kept⟩ := old c memc piecec
      exact apart.apart c inside cap mem notcap page ⟨kept ▸ coversc, within d memd pieced page coversd⟩
    · obtain ⟨inside, -, kept⟩ := old c memc piecec
      obtain ⟨inside', -, kept'⟩ := old d memd pieced
      exact apart.apart c inside d inside' ne page ⟨kept ▸ coversc, kept' ▸ coversd⟩

/-- The capability goes on with one part of its range. -/
theorem pieces_shrink {c : Capability} (mem : cap ∈ xs) (fresh : new ∉ xs) (filled : c.start < c.end') (access : c.access = (s.cap cap).access)
    (rest : ∀ page, Covers c page ↔ Covers (s.cap cap) page ∧ ¬ (start.toNat ≤ page ∧ page < stop.toNat)) :
    Pieces s (s.set cap c) xs xs cap new start stop := by
  have here : (s.set cap c).cap cap = c := update_self ..
  have only : ∀ d ∈ xs, d = cap ∨ d = new → d = cap := fun d memd piece => piece.resolve_right (fun eq => fresh (eq ▸ memd))
  refine ⟨fun d memd => .inl memd, fun d memd ne => ⟨memd, update_of_ne ne ..⟩, fun d memd piece => ?_,
    fun _ memnew => absurd memnew fresh, fun page a => ?_⟩
  · rw [only d memd piece, here]
    exact filled
  · constructor
    · rintro ⟨d, memd, piece, covers, is⟩
      rw [only d memd piece, here] at covers is
      obtain ⟨old, out⟩ := (rest page).mp covers
      exact ⟨old, access ▸ is, out⟩
    · rintro ⟨old, is, out⟩
      exact ⟨cap, mem, .inl rfl, here.symm ▸ (rest page).mpr ⟨old, out⟩, here.symm ▸ access.trans is⟩

/-- The capability goes with its whole range. -/
theorem pieces_remove {lists : Linkage} (fresh : new ∉ xs) (left : ∀ c, c ∈ ys ↔ c ∈ xs ∧ c ≠ cap)
    (whole : ∀ page, Covers (s.cap cap) page → start.toNat ≤ page ∧ page < stop.toNat) :
    Pieces s { s with lists := lists } xs ys cap new start stop := by
  have none : ∀ c ∈ ys, ¬ (c = cap ∨ c = new) := fun c memc piece => by
    obtain ⟨inside, ne⟩ := (left c).mp memc
    exact piece.elim ne (fun eq => fresh (eq ▸ inside))
  refine ⟨fun c memc => .inl ((left c).mp memc).1, fun c memc ne => ⟨(left c).mpr ⟨memc, ne⟩, rfl⟩, fun c memc piece => ?_,
    fun memcap => absurd (.inl rfl) (none cap memcap), fun page a => ?_⟩
  · exact absurd piece (none c memc)
  · constructor
    · rintro ⟨c, memc, piece, -⟩
      exact absurd piece (none c memc)
    · rintro ⟨old, -, out⟩
      exact absurd (whole page old) out

/-- The capability keeps what is in front of the range, and a new one gets what is behind it. -/
theorem pieces_split {c : Capability} (made : Capability) (mem : cap ∈ xs) (fresh : new ∉ xs) (here : s'.cap cap = c) (there : s'.cap new = made)
    (kept : ∀ d, d ≠ cap → d ≠ new → s'.cap d = s.cap d) (filled : c.start < c.end' ∧ made.start < made.end')
    (access : c.access = (s.cap cap).access ∧ made.access = (s.cap cap).access) (behind : c.end' ≤ made.start)
    (rest : ∀ page, Covers c page ∨ Covers made page ↔ Covers (s.cap cap) page ∧ ¬ (start.toNat ≤ page ∧ page < stop.toNat)) :
    Pieces s s' xs (new :: xs) cap new start stop := by
  refine ⟨fun d memd => (List.mem_cons.mp memd).symm, fun d memd ne => ⟨List.mem_cons_of_mem new memd, ?_⟩, fun d memd piece => ?_,
    fun _ _ page both => ?_, fun page a => ?_⟩
  · exact kept d ne (fun eq => fresh (eq ▸ memd))
  · rcases piece with rfl | rfl
    · rw [here]
      exact filled.1
    · rw [there]
      exact filled.2
  · rw [here, there] at both
    have := both.1.2
    have := both.2.1
    have := BitVec.le_def.mp behind
    omega
  · constructor
    · rintro ⟨d, memd, rfl | rfl, covers, is⟩
      · rw [here] at covers is
        obtain ⟨old, out⟩ := (rest page).mp (.inl covers)
        exact ⟨old, access.1.symm.trans is, out⟩
      · rw [there] at covers is
        obtain ⟨old, out⟩ := (rest page).mp (.inr covers)
        exact ⟨old, access.2.symm.trans is, out⟩
    · rintro ⟨old, is, out⟩
      rcases (rest page).mpr ⟨old, out⟩ with front | back
      · exact ⟨cap, List.mem_cons_of_mem new mem, .inl rfl, by rwa [here], by rw [here]; exact access.1.trans is⟩
      · exact ⟨new, List.mem_cons_self, .inr rfl, by rwa [there], by rw [there]; exact access.2.trans is⟩

end Pieces

/-- The ranges have a page in common. -/
def Meets (c : Capability) (start stop : Word) : Prop := ¬ (stop ≤ c.start ∨ start ≥ c.end')

section Unmap
variable {s : Memcaps} {xs : List Nat} {cap clist new : Nat} {start stop : Word}

/-- Every position of the range is that of a split, of one of two ways to shrink, or of a removal. -/
theorem memcapUnmapRange_pieces (ring : s.lists.links.Ring clist xs) (apart : Apart s xs) (mem : cap ∈ xs) (range : start < stop)
    (meets : Meets (s.cap cap) start stop) (fresh : new ∉ clist :: xs) :
    ∃ s' ys, memcapUnmapRange cap clist new start stop s = .ok s' ∧ s'.lists.links.Ring clist ys ∧
      Pieces s s' xs ys cap new start stop := by
  have unlisted : new ∉ xs := fun inside => fresh (List.mem_cons_of_mem clist inside)
  have lt := BitVec.lt_def.mp range
  have pages := BitVec.lt_def.mp (apart.filled cap mem)
  have meet : ¬ (stop.toNat ≤ (s.cap cap).start.toNat ∨ start.toNat ≥ (s.cap cap).end'.toNat) := meets
  rw [memcapUnmapRange, memcapLeft_meets meet, ok_bind]
  by_cases front : (s.cap cap).start.toNat < start.toNat <;> by_cases back : stop.toNat < (s.cap cap).end'.toNat
  · rw [if_pos front, if_pos back]
    have other : new ≠ cap := fun eq => unlisted (eq ▸ mem)
    refine ⟨_, new :: xs, rfl, ring.insert fresh,
      pieces_split ⟨0, 0, (s.cap cap).access, stop, (s.cap cap).end'⟩ mem unlisted (update_self ..) ?_ ?_ ⟨front, back⟩
        ⟨rfl, rfl⟩ (BitVec.le_of_lt range) (fun page => ?_)⟩
    · exact (update_of_ne other ..).trans (update_self ..)
    · exact fun d notcap notnew => (update_of_ne notcap ..).trans (update_of_ne notnew ..)
    · unfold Covers
      dsimp only
      omega
  · rw [if_pos front, if_neg back]
    refine ⟨_, xs, rfl, ring, pieces_shrink mem unlisted front rfl (fun page => ?_)⟩
    unfold Covers
    dsimp only
    omega
  · rw [if_neg front, if_pos back]
    refine ⟨_, xs, rfl, ring, pieces_shrink mem unlisted back rfl (fun page => ?_)⟩
    unfold Covers
    dsimp only
    omega
  · rw [if_neg front, if_neg back]
    obtain ⟨before, behind, split⟩ := List.append_of_mem mem
    have whole := split ▸ ring
    refine ⟨_, before ++ behind, rfl, whole.unlink.1, pieces_remove unlisted (fun c => ?_) (fun page covers => ?_)⟩
    · have nodup := split ▸ (List.nodup_cons.mp ring.nodup).2
      have ne : cap ∉ before ++ behind := (List.nodup_middle.mp nodup) |> List.nodup_cons.mp |>.1
      rw [split]
      simp only [List.mem_append, List.mem_cons] at ne ⊢
      constructor
      · exact fun inside => ⟨inside.imp_right .inr, fun eq => ne (eq ▸ inside)⟩
      · exact fun inside => inside.1.imp_right (fun later => later.resolve_left inside.2)
    · have := covers.1
      have := covers.2
      omega

/-- Taking a range out of a capability is set difference on the pages of the list. -/
theorem memcap_unmap_range_difference (ring : s.lists.links.Ring clist xs) (apart : Apart s xs) (mem : cap ∈ xs) (range : start < stop)
    (meets : Meets (s.cap cap) start stop) (fresh : new ∉ clist :: xs) :
    ∃ s' ys, memcapUnmapRange cap clist new start stop s = .ok s' ∧ s'.lists.links.Ring clist ys ∧ Apart s' ys ∧
      (∀ c ∈ xs, c ≠ cap → c ∈ ys ∧ s'.cap c = s.cap c) ∧ (∀ c ∈ ys, c ∈ xs ∨ c = new) ∧
      ∀ page access, Grants s' ys page access ↔
        Grants s xs page access ∧ ¬ (Covers (s.cap cap) page ∧ start.toNat ≤ page ∧ page < stop.toNat) := by
  obtain ⟨s', ys, ran, ring', pieces⟩ := memcapUnmapRange_pieces ring apart mem range meets fresh
  exact ⟨s', ys, ran, ring', pieces.apart apart mem, pieces.others, pieces.members, pieces.grants apart mem⟩

/-- Two capabilities of a list with head 100. -/
def twoCaps : Memcaps where
  cap c := if c = 1 then { type := 4, access := 7, start := 10, end' := 20 } else { type := 4, access := 5, start := 30, end' := 40 }
  lists := capListInsert 1 100 (capListInsert 2 100 (capListInit 100 ⟨⟨fun _ => 0, fun _ => 0⟩, fun _ => 0⟩))

theorem twoCaps_apart : Apart twoCaps [1, 2] where
  filled := by decide
  apart := by
    have between : ∀ page, ¬ (Covers (twoCaps.cap 1) page ∧ Covers (twoCaps.cap 2) page) := fun page both => by
      have left : page < 20 := both.1.2
      have right : 30 ≤ page := both.2.1
      omega
    intro c memc d memd ne page both
    simp only [List.mem_cons, List.not_mem_nil, or_false] at memc memd
    rcases memc with rfl | rfl <;> rcases memd with rfl | rfl
    · exact ne rfl
    · exact between page both
    · exact between page both.symm
    · exact ne rfl

/-- A range in the middle of the first: the page behind it keeps its access. -/
theorem memcap_unmap_range_difference_split : ∃ s' ys, memcapUnmapRange 1 100 3 12 15 twoCaps = .ok s' ∧ s'.lists.links.Ring 100 ys ∧
    Apart s' ys ∧ Grants s' ys 17 7 ∧ ¬ Grants s' ys 13 7 ∧ Grants s' ys 35 5 := by
  have ring : twoCaps.lists.links.Ring 100 [1, 2] := ⟨⟨rfl, rfl, rfl, rfl, rfl, rfl, trivial⟩, by decide⟩
  obtain ⟨s', ys, ran, ring', apart, -, -, grants⟩ := memcap_unmap_range_difference ring twoCaps_apart
    (show 1 ∈ [1, 2] by decide) (show (12 : Word) < 15 by decide) (by unfold Meets; decide) (show 3 ∉ [100, 1, 2] by decide)
  refine ⟨s', ys, ran, ring', apart, (grants 17 7).mpr ⟨⟨1, by decide, ⟨by decide, by decide⟩, rfl⟩, by decide⟩, fun granted => ?_,
    (grants 35 5).mpr ⟨⟨2, by decide, ⟨by decide, by decide⟩, rfl⟩, by decide⟩⟩
  exact ((grants 13 7).mp granted).2 ⟨⟨by decide, by decide⟩, by decide, by decide⟩

end Unmap

end Codezero.Cap.MemcapRange
