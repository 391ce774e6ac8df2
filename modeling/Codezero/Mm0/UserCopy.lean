import Codezero.Lib.Transfer
import Codezero.Mm0.Integrity

/-!
# Copies between the pager and its users

`mm/user.c`: the pager reaches a user's buffer page by page, through the address at which it has the page itself, and
copies until the next page begins. An error code tells the caller that there are more pages.
-/

namespace Codezero.Mm0.UserCopy
open Codezero.Lib

def einval : Int := -22
def efault : Int := -14

inductive Stop
  /-- `pager_get_user_page` over more than one page. -/
  | pages
  /-- The loop has gone on for the given number of turns. -/
  | turns
  deriving DecidableEq, Repr

/-- A user as the pager sees it. -/
structure User where
  mm : Mm
  vmas : List VmaId
  /-- The page at which the pager has a page of the user, `page_to_virt(task_prefault_page(..))`. -/
  frame : Nat → Nat

/-- The memory of the pager, and the pages of the user that were faulted in. -/
structure Memory where
  byte : Nat → UInt8
  touched : List Nat := []

/-- `TILL_PAGE_ENDS`. -/
def tillPageEnds (x : Nat) : Nat := pageSize - x % pageSize

/-- Some vma has the page, with these flags. -/
def User.allows (u : User) (flags : VmaFlags → Bool) (pfn : Nat) : Bool :=
  match findVma u.mm u.vmas pfn with
  | none => false
  | some v => flags (u.mm.vma v).flags

/-- The page after the range, `__pfn(page_align_up(userptr + size))`. -/
def endPage (userptr size : Nat) : Nat := ((userptr + size) % 2 ^ 32 + (pageSize - 1)) % 2 ^ 32 / pageSize

/-- `pager_validate_user_range`. -/
def User.pagerValidateUserRange (u : User) (userptr size : Nat) (flags : VmaFlags → Bool) : Bool :=
  (List.range' (userptr / pageSize) (endPage userptr size - userptr / pageSize)).all (u.allows flags)

/-- The page of an address, which wraps at the end of the address space. -/
def pageOf (x : Nat) : Nat := x % 2 ^ 32 / pageSize

/-- The address at which the pager has a byte of the user. -/
def User.at (u : User) (userptr : Nat) : Nat := u.frame (pageOf userptr) * pageSize + userptr % pageSize

def writable (flags : VmaFlags) : Bool := flags.read && flags.write

section Page
variable {dst src edge : Nat} {size : Int} {m : Nat → UInt8}

end Page

/-! ## Ranges -/

section Range
variable {u : User} {flags : VmaFlags → Bool} {ok : Nat → Bool} {user size : Nat} {m : Memory}

/-- The pages of the range are all of this kind. -/
def Mapped (ok : Nat → Bool) (user size : Nat) : Prop := ∀ i < size, ok (pageOf (user + i)) = true

/-- Only pages of the range were faulted in. -/
def Within (user size : Nat) (touched : List Nat) : Prop := ∀ p ∈ touched, ∃ i < size, p = pageOf (user + i)

/-- A copy of `size` bytes from `src` to `dst`, one of which is the range of the user. -/
structure Exact (dst src : Nat → Nat) (ok : Nat → Bool) (user size : Nat) (byte : Nat → UInt8) (r : Int × Memory) : Prop where
  whole : Mapped ok user size → r.1 = size ∧ Transfer dst src size byte r.2.byte ∧ Within user size r.2.touched
  refused : ¬ Mapped ok user size → r.1 = einval

/-- What the check of a page comes to: for the last page of the address space its loop has no turn. -/
def User.passes (u : User) (flags : VmaFlags → Bool) (pfn : Nat) : Bool := pfn + 1 == 2 ^ 20 || u.allows flags pfn

theorem samePage {x j : Nat} (inside : j < tillPageEnds x) : pageOf (x + j) = pageOf x := by
  unfold pageOf tillPageEnds pageSize at *
  omega

/-- The first bytes are on a page that is mapped. -/
theorem mapped_skip {x n k : Nat} (allowed : ok (pageOf x) = true) (inside : k ≤ tillPageEnds x) :
    Mapped ok x n ↔ Mapped ok (x + k) (n - k) := by
  constructor
  · intro mapped i lt
    rw [Nat.add_assoc]
    exact mapped (k + i) (by omega)
  · intro mapped i lt
    by_cases first : i < k
    · rw [samePage (by omega)]
      exact allowed
    · have later := mapped (i - k) (by omega)
      rwa [show x + k + (i - k) = x + i by omega] at later

theorem Within.cons {x : Nat} {touched : List Nat} {size : Nat} (within : Within user size touched) (lt : x < size) :
    Within user size (pageOf (user + x) :: touched) := by
  intro p mem
  rcases List.mem_cons.mp mem with rfl | mem
  · exact ⟨x, lt, rfl⟩
  · exact within p mem

end Range

/-! ## The loop of both directions -/

section Loop
variable {u : User} {flags : VmaFlags → Bool} {ok : Nat → Bool} {user size edge : Nat} {dst src : Nat → Nat} {byte : Nat → UInt8}
  {page : PageCopy}

/-- What the loop has to come to when the bytes before `c` are copied. -/
structure CopyEnd (ok : Nat → Bool) (user size : Nat) (dst src : Nat → Nat) (byte : Nat → UInt8) (c : Nat)
    (r : Int × Memory) : Prop where
  whole : Mapped ok (user + c) (size - c) → r.1 = size ∧ Transfer dst src size byte r.2.byte ∧ Within user size r.2.touched
  refused : ¬ Mapped ok (user + c) (size - c) → r.1 = einval

theorem mapped_next {c : Nat} (allowed : ok (pageOf (user + c)) = true) :
    Mapped ok (user + c) (size - c) ↔
      Mapped ok (user + (c + tillPageEnds (user + c))) (size - (c + tillPageEnds (user + c))) := by
  rw [mapped_skip allowed (Nat.le_refl _), Nat.add_assoc, Nat.sub_sub]

theorem CopyEnd.prev {c : Nat} {r : Int × Memory} (allowed : ok (pageOf (user + c)) = true) :
    CopyEnd ok user size dst src byte (c + tillPageEnds (user + c)) r ↔ CopyEnd ok user size dst src byte c r := by
  constructor
  · exact fun done => ⟨fun mapped => done.whole ((mapped_next allowed).mp mapped),
      fun un => done.refused (mt (mapped_next allowed).mpr un)⟩
  · exact fun done => ⟨fun mapped => done.whole ((mapped_next allowed).mpr mapped),
      fun un => done.refused (mt (mapped_next allowed).mp un)⟩

end Loop

/-! ## The two directions -/

section Directions
variable {u : User} {buf user size : Nat} {byte : Nat → UInt8}

end Directions

/-! ## Both directions -/

/-- The range has the last page of the address space only if that is mapped. -/
def Checked (u : User) (flags : VmaFlags → Bool) (user size : Nat) : Prop :=
  ∀ i < size, pageOf (user + i) + 1 = 2 ^ 20 → u.allows flags (pageOf (user + i)) = true

section Checked
variable {u : User} {flags : VmaFlags → Bool} {user size i : Nat} {dst src : Nat → Nat} {byte : Nat → UInt8} {r : Int × Memory}

theorem Checked.passes (checked : Checked u flags user size) (lt : i < size) :
    u.passes flags (pageOf (user + i)) = u.allows flags (pageOf (user + i)) := by
  unfold User.passes
  by_cases last : pageOf (user + i) + 1 = 2 ^ 20
  · rw [checked i lt last, Bool.or_true]
  · rw [beq_eq_false_iff_ne.mpr last, Bool.false_or]

theorem Checked.mapped (checked : Checked u flags user size) : Mapped (u.passes flags) user size ↔ Mapped (u.allows flags) user size :=
  forall₂_congr fun i lt => by rw [checked.passes lt]

theorem Checked.exact (checked : Checked u flags user size) :
    Exact dst src (u.allows flags) user size byte r ↔ Exact dst src (u.passes flags) user size byte r := by
  constructor
  · exact fun ⟨whole, refused⟩ => ⟨fun mapped => whole (checked.mapped.mp mapped), fun un => refused (mt checked.mapped.mpr un)⟩
  · exact fun ⟨whole, refused⟩ => ⟨fun mapped => whole (checked.mapped.mpr mapped), fun un => refused (mt checked.mapped.mp un)⟩

end Checked

end Codezero.Mm0.UserCopy
