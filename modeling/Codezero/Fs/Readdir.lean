import Codezero.Fs.Calls
import Codezero.Fs.DirectoryRuns

/-!
# Reading a directory

`sys_readdir` writes a `struct dirent` for each of "." and "..", without their type, and lets memfs copy its own, shorter
records behind them, as many bytes as there is room for. A caller can take the records to be as long as the structure is, or as
long as they say.
-/

namespace Codezero.Fs.Memfs
open Codezero.Kernel (Word)
open Codezero.Lib

/-! ## The model -/

def ebadf : Int := -9

/-- `sizeof(struct dirent)`. -/
def direntSize : Nat := 267

/-- The bytes of the caller's buffer that were written. -/
abbrev UserBuffer := Nat → Option Byte

/-- The vnode of an open file, and the number of the vnode of its dentry's parent. -/
structure OpenVnode where
  vnode : Nat
  vnum : Word
  isDir : Bool
  parentVnum : Word

/-- What `fill_dirent` stores; it leaves the type alone. -/
def direntByte (vnum offset : Nat) (name : Str) (k : Nat) : Option Byte :=
  if k < 4 then some (le vnum k)
  else if k < 8 then some (le offset (k - 4))
  else if k < 10 then some (le direntSize (k - 8))
  else if k = 10 then none
  else some ((name[k - 11]?).getD nul)

def fillDirent (buf : Nat) (vnum : Word) (offset : Nat) (name : Str) (w : UserBuffer) (o : Nat) : Option Byte :=
  if buf ≤ o ∧ o < buf + direntSize then (direntByte vnum.toNat offset name (o - buf)).or (w o) else w o

/-- `memcpy` of a page's first bytes to the user. -/
def copyOut (buf nbytes : Nat) (page : Page) (w : UserBuffer) (o : Nat) : Option Byte :=
  if buf ≤ o ∧ o < buf + nbytes then some (page (o - buf)) else w o

def memfsVnodeFilldir (dir fsidx : Nat) (k : Kzalloc) (buf count : Nat) (w : UserBuffer) (s : Dir) :
    Except DirStop (Int × UserBuffer × Dir) := do
  let nbytes := if (s.disk.vnode dir).size ≤ count then (s.disk.vnode dir).size else count
  let (err, s) ← memfsVnodeReaddir dir fsidx k s
  if err < 0 then pure (err, w, s)
  else if nbytes ≤ s.npages * 4096 then
    match s.buffer with
    | .null => pure (0, w, s)
    | .block b => pure (nbytes, copyOut buf nbytes (s.disk.page b) w, s)
    | .err _ => if nbytes = 0 then pure (0, w, s) else throw .badPointer
  else pure (0, w, s)

/-- The part of `sys_readdir` behind the checks of the descriptor. -/
def readDirents (fsidx : Nat) (k : Kzalloc) (v : OpenVnode) (count : Int) (s : Dir) : Except DirStop (Int × UserBuffer × Dir) :=
  if count < direntSize then pure (0, fun _ => none, s)
  else
    let w := fillDirent 0 v.vnum 0 vfsStrCurdir fun _ => none
    if count - direntSize < direntSize then pure (0, w, s)
    else do
      let w := fillDirent direntSize v.parentVnum direntSize vfsStrPardir w
      let (total, w, s) ← memfsVnodeFilldir v.vnode fsidx k (direntSize + direntSize) (count - direntSize - direntSize).toNat w s
      if total < 0 then pure (total, w, s) else pure (direntSize + direntSize + total, w, s)

/-- `sys_readdir`. A descriptor that is not open has a null pointer for its file; a file that is not of the vfs has no vnode. -/
def sysReaddir (fsidx : Nat) (k : Kzalloc) (fds : Nat → Option (Option OpenVnode)) (fd count : Int) (s : Dir) :
    Except DirStop (Int × UserBuffer × Dir) :=
  if fd < 0 ∨ fd > taskFilesMax then pure (ebadf, fun _ => none, s)
  else if fd = taskFilesMax then throw .outside
  else
    match fds fd.toNat with
    | none => throw .null
    | some none => pure (ebadf, fun _ => none, s)
    | some (some v) => if v.isDir then readDirents fsidx k v count s else pure (enotdir, fun _ => none, s)

/-! ## What a caller finds -/

def UserBuffer.page (w : UserBuffer) : Page := fun o => (w o).getD nul

/-- A whole record at `o`, apart from its type. -/
structure IsRecord (w : UserBuffer) (o length : Nat) (e : Str × Nat) : Prop where
  least : 11 ≤ length
  written : ∀ k < length, k ≠ 10 → (w (o + k)).isSome
  stated : recordLength w.page o = length
  name : ((List.range (length - 11)).map fun k => w.page (o + 11 + k)).takeWhile (· ≠ nul) = e.1
  inum : recordInum w.page o = e.2

/-- The records of entries one behind the other. -/
def Records (size : Nat → Prop) (w : UserBuffer) : Nat → List (Str × Nat) → Nat → Prop
  | o, [], stop => o = stop
  | o, e :: es, stop => ∃ length, size length ∧ IsRecord w o length e ∧ Records size w (o + length) es stop

/-- How the result is understood: which bytes count as written, which lengths a record may have, and how much room the records
of a number of entries need. -/
structure Reading where
  written : UserBuffer → Nat → Prop
  size : Nat → Prop
  total : Nat → Nat

/-- Each record is a `struct dirent` and each of its bytes is written. -/
def literal : Reading := ⟨fun w r => ∀ o, (w o).isSome ↔ o < r, (· = direntSize), fun n => direntSize * (2 + n)⟩

/-- The same without the types of the first two. -/
def untyped : Reading := { literal with written := fun w r => ∀ o, (w o).isSome ↔ o < r ∧ o ≠ 10 ∧ o ≠ direntSize + 10 }

/-- Each record is as long as it says. -/
def byLength : Reading := { untyped with size := fun _ => True, total := fun n => 2 * direntSize + memfsDentrySize * n }

/-- The records of a directory. -/
def OpenVnode.records (v : OpenVnode) (es : List (Str × Nat)) : List (Str × Nat) :=
  (vfsStrCurdir, v.vnum.toNat) :: (vfsStrPardir, v.parentVnum.toNat) :: es

/-- The result `r` with the bytes `w`: the records are a prefix of the directory's, and all of them if there is room. -/
structure Whole (R : Reading) (v : OpenVnode) (es : List (Str × Nat)) (count : Nat) (r : Int) (w : UserBuffer) : Prop where
  nonneg : 0 ≤ r
  le : r ≤ count
  written : R.written w r.toNat
  records : ∃ front, front <+: v.records es ∧ Records R.size w 0 front r.toNat ∧ (R.total es.length ≤ count → front = v.records es)

section
variable {w w' : UserBuffer} {page : Page} {v : OpenVnode} {buf offset o length m : Nat} {vnum : Word} {name : Str} {e : Str × Nat}

theorem fillDirent_in {k : Nat} {b : Byte} (is : direntByte vnum.toNat offset name k = some b) (less : k < 267) :
    fillDirent buf vnum offset name w (buf + k) = some b := by
  rw [fillDirent, if_pos ⟨Nat.le_add_right .., Nat.add_lt_add_left less buf⟩, Nat.add_sub_cancel_left, is]
  rfl

theorem page_of_some {b : Byte} (is : w o = some b) : w.page o = b := by
  rw [UserBuffer.page, is]
  rfl

/-- A record of `fill_dirent` is whole. -/
theorem fillDirent_record (short : name.length ≤ 256) (text : nul ∉ name) :
    IsRecord (fillDirent buf vnum offset name w) buf direntSize (name, vnum.toNat) := by
  have text' : ∀ k, 11 ≤ k → direntByte vnum.toNat offset name k = some ((name[k - 11]?).getD nul) := fun k least => by
    rw [direntByte, if_neg (by omega), if_neg (by omega), if_neg (by omega), if_neg (by omega)]
  refine ⟨by decide, fun k less typed => ?_, ?_, name_of_bytes short text fun k less => ?_, ?_⟩
  · have some : ∃ b, direntByte vnum.toNat offset name k = some b := by
      unfold direntByte
      split_ifs
      all_goals exact ⟨_, rfl⟩
    obtain ⟨b, is⟩ := some
    rw [fillDirent_in is less]
    rfl
  · exact recordLength_of_bytes (by decide) (page_of_some (fillDirent_in rfl (by omega))) (page_of_some (fillDirent_in rfl (by omega)))
  · have shift : 11 + k - 11 = k := by omega
    rw [Nat.add_assoc]
    exact page_of_some (fillDirent_in (by rw [text' _ (by omega), shift]) (by simp only [direntSize] at less; omega))
  · exact recordInum_of_bytes vnum.isLt fun k less => page_of_some (fillDirent_in (by rw [direntByte, if_pos less]) (by omega))

theorem recordLength_congr {page' : Page} (low : page' (o + 8) = page (o + 8)) (high : page' (o + 9) = page (o + 9)) :
    recordLength page' o = recordLength page o := by
  rw [recordLength, recordLength, low, high]

theorem IsRecord.congr (is : IsRecord w o length e) (same : ∀ k < length, w' (o + k) = w (o + k)) : IsRecord w' o length e := by
  have least := is.least
  have bytes : ∀ k < length, w'.page (o + k) = w.page (o + k) := fun k less => by rw [UserBuffer.page, UserBuffer.page, same k less]
  refine ⟨least, fun k less typed => ?_, ?_, ?_, ?_⟩
  · rw [same k less]
    exact is.written k less typed
  · exact (recordLength_congr (bytes 8 (by omega)) (bytes 9 (by omega))).trans is.stated
  · rw [← is.name]
    congr 1
    refine List.map_congr_left fun k mem => ?_
    rw [List.mem_range] at mem
    rw [Nat.add_assoc, bytes _ (by omega)]
  · have first := bytes 0 (by omega)
    rw [Nat.add_zero] at first
    rw [← is.inum, recordInum, recordInum, first, bytes 1 (by omega), bytes 2 (by omega), bytes 3 (by omega)]

/-- The bytes that `sys_readdir` writes if there is room for "." and "..". -/
def reply (v : OpenVnode) (m : Nat) (page : Page) : UserBuffer :=
  copyOut (direntSize + direntSize) m page
    (fillDirent direntSize v.parentVnum direntSize vfsStrPardir (fillDirent 0 v.vnum 0 vfsStrCurdir fun _ => none))

theorem reply_front (less : o < 534) : reply v m page o =
    fillDirent direntSize v.parentVnum direntSize vfsStrPardir (fillDirent 0 v.vnum 0 vfsStrCurdir fun _ => none) o :=
  if_neg fun inside => by simp only [direntSize] at inside; omega

theorem reply_copied {k : Nat} (less : k < m) : reply v m page (534 + k) = some (page k) := by
  have shift : 534 + k - (direntSize + direntSize) = k := by simp only [direntSize]; omega
  rw [reply, copyOut, if_pos ⟨by simp only [direntSize]; omega, by simp only [direntSize]; omega⟩, shift]

theorem reply_first : IsRecord (reply v m page) 0 direntSize (vfsStrCurdir, v.vnum.toNat) := by
  refine (fillDirent_record (by decide) (by decide)).congr (w := fillDirent 0 v.vnum 0 vfsStrCurdir fun _ => none) fun k less => ?_
  simp only [direntSize] at less
  rw [reply_front (by omega)]
  exact if_neg fun inside => by simp only [direntSize] at inside; omega

theorem reply_second : IsRecord (reply v m page) direntSize direntSize (vfsStrPardir, v.parentVnum.toNat) :=
  (fillDirent_record (by decide) (by decide)).congr fun k less => reply_front (by simp only [direntSize] at less ⊢; omega)

theorem reply_length {i : Nat} (has : HasRecord page (memfsDentrySize * i) e) (copied : 43 * i + 10 ≤ m) :
    recordLength (reply v m page).page (534 + 43 * i) = 43 := by
  have stated : recordLength page (43 * i) = 43 := has.length
  rw [recordLength, Nat.add_assoc 534, Nat.add_assoc 534, page_of_some (reply_copied (by omega)), page_of_some (reply_copied (by omega))]
  exact stated

theorem reply_record {i : Nat} (has : HasRecord page (memfsDentrySize * i) e) (copied : 43 * i + 43 ≤ m) :
    IsRecord (reply v m page) (534 + 43 * i) 43 e := by
  have bytes : ∀ k < 43, reply v m page (534 + 43 * i + k) = some (page (43 * i + k)) := fun k less => by
    rw [Nat.add_assoc]
    exact reply_copied (by omega)
  have pages : ∀ k < 43, (reply v m page).page (534 + 43 * i + k) = page (43 * i + k) := fun k less => page_of_some (bytes k less)
  refine ⟨by omega, fun k less typed => by rw [bytes k less]; rfl, reply_length has (by omega), ?_, ?_⟩
  · rw [← show recordName page (43 * i) = e.1 from has.name, recordName]
    congr 1
    refine List.map_congr_left fun k mem => ?_
    rw [List.mem_range] at mem
    rw [Nat.add_assoc, pages _ (by omega), Nat.add_assoc]
  · have first := pages 0 (by omega)
    rw [Nat.add_zero, Nat.add_zero] at first
    rw [← show recordInum page (43 * i) = e.2 from has.inum, recordInum, recordInum, first, pages 1 (by omega), pages 2 (by omega),
      pages 3 (by omega)]

end

theorem direntByte_isSome {k offset x : Nat} {name : Str} : (direntByte x offset name k).isSome ↔ k ≠ 10 := by
  unfold direntByte
  split_ifs <;> simp <;> omega

theorem fillDirent_isSome {buf offset o : Nat} {vnum : Word} {name : Str} {w : UserBuffer} :
    (fillDirent buf vnum offset name w o).isSome ↔ (buf ≤ o ∧ o < buf + 267 ∧ o ≠ buf + 10) ∨ (w o).isSome := by
  unfold fillDirent
  split
  · next inside =>
    rw [Option.isSome_or, Bool.or_eq_true, direntByte_isSome]
    refine or_congr_left ?_
    simp only [direntSize] at inside
    omega
  · next outside =>
    simp only [direntSize] at outside
    exact ⟨.inr, fun some => some.resolve_left fun inside => outside ⟨inside.1, inside.2.1⟩⟩

/-- All bytes are written but the types of the first two records. -/
theorem reply_written (v : OpenVnode) (m : Nat) (page : Page) (o : Nat) :
    (reply v m page o).isSome ↔ o < 534 + m ∧ o ≠ 10 ∧ o ≠ direntSize + 10 := by
  have entry : direntSize = 267 := rfl
  unfold reply copyOut
  split
  · next copied =>
    simp only [Option.isSome_some, true_iff]
    omega
  · next rest =>
    rw [fillDirent_isSome, fillDirent_isSome]
    simp only [Option.isSome_none, Bool.false_eq_true, or_false]
    omega

/-! ## Counts -/

/-- How many bytes of the records of memfs there is room for. -/
def copied (es : List (Str × Nat)) (count : Nat) : Nat := min (43 * es.length) (count - 534)

section
variable {fsidx count : Nat} {k : Kzalloc} {s s' : Dir} {es : List (Str × Nat)} {blocks inodes : List Nat} {v : OpenVnode} {r : Int}
  {w : UserBuffer}

theorem readDirents_short (short : count < 267) : readDirents fsidx k v count s = .ok (0, fun _ => none, s) :=
  if_pos (by simp only [direntSize]; omega)

theorem readDirents_one (least : 267 ≤ count) (short : count < 534) :
    readDirents fsidx k v count s = .ok (0, fillDirent 0 v.vnum 0 vfsStrCurdir fun _ => none, s) := by
  rw [readDirents, if_neg (by simp only [direntSize]; omega)]
  exact if_pos (by simp only [direntSize]; omega)

theorem readDirents_two (least : 534 ≤ count) : readDirents fsidx k v count s = (do
    let (total, w, s) ← memfsVnodeFilldir v.vnode fsidx k (direntSize + direntSize) (count - 534)
      (fillDirent direntSize v.parentVnum direntSize vfsStrPardir (fillDirent 0 v.vnum 0 vfsStrCurdir fun _ => none)) s
    if total < 0 then pure (total, w, s) else pure (direntSize + direntSize + total, w, s)) := by
  have rest : ((count : Int) - direntSize - direntSize).toNat = count - 534 := by simp only [direntSize]; omega
  rw [readDirents, if_neg (by simp only [direntSize]; omega), if_neg (by simp only [direntSize]; omega), rest]

/-- With a buffer, the records of memfs stand behind the first two as far as there is room. -/
theorem readDirents_full (fsidx : Nat) (k : Kzalloc) (kept : Kept v.vnode s es blocks inodes) (least : 534 ≤ count)
    (room : s.buffer = .null → 0 < s.disk.cache.free) :
    ∃ page s', readDirents fsidx k v count s = .ok (((534 + copied es count : Nat) : Int), reply v (copied es count) page, s') ∧
      ∀ i, (inside : i < es.length) → HasRecord page (memfsDentrySize * i) es[i] := by
  have enough : (if s.buffer = .null then 1 else 0) ≤ s.disk.cache.free := by
    split
    · next null => exact room null
    · exact kept.live.nonneg
  obtain ⟨disk, b, npages, blocks', read, kept', buffered, -⟩ := kept.readdir fsidx k enough
  obtain ⟨-, fits, pages, b', isBlock, records⟩ := buffered
  obtain rfl := BlockPtr.block.inj isBlock
  have size : (s.disk.vnode v.vnode).size = 43 * es.length := kept.size
  have nbytes : (if (s.disk.vnode v.vnode).size ≤ count - 534 then (s.disk.vnode v.vnode).size else count - 534) = copied es count := by
    rw [size, copied]
    split <;> omega
  have small : copied es count ≤ npages * 4096 := Nat.le_trans (Nat.min_le_left _ _) fits
  refine ⟨disk.page b, { s with disk := disk, buffer := .block b, npages := npages }, ?_, records⟩
  rw [readDirents_two least, memfsVnodeFilldir, read]
  simp only [bind, Except.bind, nbytes]
  rw [if_neg (by decide), if_pos small]
  simp only [pure, Except.pure]
  rw [if_neg (by omega)]
  rfl

/-- Without a buffer and a block for it there is an error. -/
theorem readDirents_noBlock (fsidx : Nat) (k : Kzalloc) (v : OpenVnode) (least : 534 ≤ count) (null : s.buffer = .null) (full : s.disk.cache.free = 0) :
    ∃ w s', readDirents fsidx k v count s = .ok (enospc, w, s') := by
  refine ⟨fillDirent direntSize v.parentVnum direntSize vfsStrPardir (fillDirent 0 v.vnum 0 vfsStrCurdir fun _ => none),
    { s with buffer := .err enospc }, ?_⟩
  rw [readDirents_two least, memfsVnodeFilldir, memfsVnodeReaddir, if_neg (by simp [null]), memfsAllocBlock, if_neg (by simpa using full)]
  rfl

theorem memfsVnodeFilldir_writes {dir buf : Nat} {w' : UserBuffer} (ran : memfsVnodeFilldir dir fsidx k buf count w s = .ok (r, w', s')) :
    w' = w ∨ ∃ nbytes page, w' = copyOut buf nbytes page w := by
  unfold memfsVnodeFilldir at ran
  dsimp only at ran
  generalize (if (s.disk.vnode dir).size ≤ count then (s.disk.vnode dir).size else count) = nbytes at ran
  obtain ⟨⟨err, s1⟩, -, ran⟩ := bind_eq_ok.mp ran
  dsimp only at ran
  by_cases failed : err < 0
  · rw [if_pos failed] at ran
    cases ran
    exact .inl rfl
  · rw [if_neg failed] at ran
    split at ran
    · split at ran
      · cases ran
        exact .inl rfl
      · cases ran
        exact .inr ⟨_, _, rfl⟩
      · split at ran
        · cases ran
          exact .inl rfl
        · cases ran
    · cases ran
      exact .inl rfl

/-- Whatever the directory is, the type of the first record is not written. -/
theorem readDirents_untyped (least : 534 ≤ count) (ran : readDirents fsidx k v count s = .ok (r, w, s')) :
    w 10 = none ∧ (0 ≤ r → 534 ≤ r) := by
  have sizes : ((direntSize + direntSize : Nat) : Int) = 534 := rfl
  rw [readDirents_two least] at ran
  obtain ⟨⟨total, w1, s1⟩, filled, ran⟩ := bind_eq_ok.mp ran
  have first : w1 10 = none := by
    rcases memfsVnodeFilldir_writes filled with rfl | ⟨nbytes, page, rfl⟩ <;> rfl
  dsimp only at ran
  split_ifs at ran with negative
  · cases ran
    exact ⟨first, fun nonneg => by omega⟩
  · cases ran
    exact ⟨first, fun _ => by omega⟩

end

/-! ## Which counts give whole records -/

section
variable {v : OpenVnode} {es front : List (Str × Nat)} {page : Page} {m count : Nat} {size : Nat → Prop}

/-- Behind the first two records there are others up to the end. -/
theorem records_rest (recs : Records size (reply v m page) 0 front (534 + m)) :
    ∃ rest, Records size (reply v m page) 534 rest (534 + m) := by
  cases front with
  | nil => exact absurd recs (by simp only [Records]; omega)
  | cons e rest =>
    obtain ⟨length, -, is, recs⟩ := recs
    obtain rfl := is.stated.symm.trans reply_first.stated
    cases rest with
    | nil => exact absurd recs (by simp only [Records, direntSize]; omega)
    | cons e' rest =>
      obtain ⟨length, -, is, recs⟩ := recs
      rw [Nat.zero_add] at is recs
      obtain rfl := is.stated.symm.trans reply_second.stated
      exact ⟨rest, recs⟩

/-- The first record of memfs is too short to be a `struct dirent`. -/
theorem not_struct {e : Str × Nat} {rest : List (Str × Nat)} (has : HasRecord page 0 e) (pos : 0 < m) :
    ¬Records (· = direntSize) (reply v m page) 534 rest (534 + m) := by
  intro recs
  cases rest with
  | nil => exact absurd recs (by simp only [Records]; omega)
  | cons e' rest =>
    obtain ⟨length, rfl, is, -⟩ := recs
    have tenth := ((reply_written v m page _).mp (is.written 9 (by decide) (by decide))).1
    have short : recordLength (reply v m page).page 534 = 43 := reply_length (i := 0) has (by omega)
    exact absurd (is.stated.symm.trans short) (by decide)

/-- Records that are as long as they say end where one of memfs does. -/
theorem multiple_of_records (has : ∀ i, (inside : i < es.length) → HasRecord page (memfsDentrySize * i) es[i]) (bound : m ≤ 43 * es.length)
    (rest : List (Str × Nat)) (i : Nat) (within : 43 * i ≤ m) (recs : Records size (reply v m page) (534 + 43 * i) rest (534 + m)) :
    43 ∣ m := by
  induction rest generalizing i with
  | nil => exact ⟨i, by simp only [Records] at recs; omega⟩
  | cons e rest ih =>
    obtain ⟨length, -, is, recs⟩ := recs
    have least := is.least
    have tenth := ((reply_written v m page _).mp (is.written 9 (by omega) (by decide))).1
    obtain rfl := is.stated.symm.trans (reply_length (has i (by omega)) (by omega))
    have last := ((reply_written v m page _).mp (is.written 42 (by omega) (by decide))).1
    exact ih (i + 1) (by omega) (by rwa [Nat.mul_add, ← Nat.add_assoc])

/-- The records of memfs that were copied whole. -/
theorem records_copied (fits : 43 * front.length ≤ m) (allowed : size 43) (o : Nat) (is : ∀ i, (inside : i < front.length) →
    IsRecord (reply v m page) (o + 43 * i) 43 front[i]) : Records size (reply v m page) o front (o + 43 * front.length) := by
  induction front generalizing o with
  | nil => rfl
  | cons e rest ih =>
    have tail := ih (by simp only [List.length_cons] at fits; omega) (o + 43) fun i inside => by
      have next := is (i + 1) (Nat.succ_lt_succ inside)
      rwa [Nat.mul_add, Nat.add_comm (43 * i), ← Nat.add_assoc] at next
    refine ⟨43, allowed, is 0 (Nat.succ_pos _), ?_⟩
    rwa [List.length_cons, Nat.mul_add, Nat.add_comm (43 * rest.length), ← Nat.add_assoc]

theorem records_cons_two {stop : Nat} (allowed : size direntSize) (recs : Records size (reply v m page) 534 front stop) :
    Records size (reply v m page) 0 (v.records front) stop := by
  refine ⟨direntSize, allowed, reply_first, direntSize, allowed, ?_, ?_⟩
  · rw [Nat.zero_add]
    exact reply_second
  · exact recs

end

section
variable {fsidx count : Nat} {k : Kzalloc} {fds : Nat → Option (Option OpenVnode)} {fd : Int} {s0 s : Dir} {es : List (Str × Nat)}
  {blocks inodes : List Nat} {v : OpenVnode} {R : Reading}

/-- `sys_readdir` returns whole records. -/
def Reads (R : Reading) (fsidx : Nat) (k : Kzalloc) (fds : Nat → Option (Option OpenVnode)) (fd : Int) (v : OpenVnode) (es : List (Str × Nat))
    (count : Nat) (s : Dir) : Prop :=
  ∃ r w s', sysReaddir fsidx k fds fd count s = .ok (r, w, s') ∧ Whole R v es count r w

/-- An open descriptor of a directory. -/
structure OpenDir (fds : Nat → Option (Option OpenVnode)) (fd : Int) (v : OpenVnode) : Prop where
  nonneg : 0 ≤ fd
  below : fd < taskFilesMax
  vnode : fds fd.toNat = some (some v)
  isDir : v.isDir = true

theorem OpenDir.sysReaddir (isOpen : OpenDir fds fd v) (count : Int) : sysReaddir fsidx k fds fd count s = readDirents fsidx k v count s := by
  have below := isOpen.below
  have nonneg := isOpen.nonneg
  rw [Memfs.sysReaddir, if_neg (by omega), if_neg (by omega), isOpen.vnode]
  exact if_pos isOpen.isDir

/-- Nothing is written and there is no room for a record. -/
theorem reads_short (isOpen : OpenDir fds fd v) (short : count < 267) (written : R.written (fun _ => none) 0)
    (total : 267 ≤ R.total es.length) : Reads R fsidx k fds fd v es count s := by
  refine ⟨0, _, s, (isOpen.sysReaddir count).trans (readDirents_short short), Int.le_refl 0, Int.natCast_nonneg count, written, [],
    List.nil_prefix, rfl, fun room => by omega⟩

/-- Bytes are written behind the end. -/
theorem not_reads_one (isOpen : OpenDir fds fd v) (least : 267 ≤ count) (short : count < 534)
    (written : ∀ w, R.written w 0 → w 0 = none) : ¬Reads R fsidx k fds fd v es count s := by
  rintro ⟨r, w, s', ran, whole⟩
  rw [isOpen.sysReaddir, readDirents_one least short] at ran
  cases ran
  cases written _ whole.written

/-- The type of the first record is never written, so that only nothing at all is as it should be. -/
theorem reads_literal_iff (isOpen : OpenDir fds fd v) : Reads literal fsidx k fds fd v es count s ↔ count < 267 := by
  refine ⟨fun reads => ?_, fun short => reads_short isOpen short (fun o => by simp) (by simp only [literal, direntSize]; omega)⟩
  by_contra least
  by_cases short : count < 534
  · refine not_reads_one isOpen (by omega) short (fun w written => ?_) reads
    exact Option.not_isSome_iff_eq_none.mp fun some => absurd ((written 0).mp some) (Nat.lt_irrefl 0)
  · obtain ⟨r, w, s', ran, whole⟩ := reads
    rw [isOpen.sysReaddir] at ran
    obtain ⟨first, more⟩ := readDirents_untyped (by omega) ran
    have bytes := more whole.nonneg
    have some := (whole.written 10).mpr (by omega)
    rw [first] at some
    cases some

/-- There is a buffer or a block for it. -/
def HasBuffer (s : Dir) : Prop := s.buffer = .null → 0 < s.disk.cache.free

/-- Records that a caller is content with. -/
def Fronts (R : Reading) (v : OpenVnode) (es : List (Str × Nat)) (count : Nat) (page : Page) : Prop :=
  ∃ front, front <+: v.records es ∧ Records R.size (reply v (copied es count) page) 0 front (534 + copied es count) ∧
    (R.total es.length ≤ count → front = v.records es)

/-- When the types are left aside, what counts are the lengths of the records behind the first two. -/
theorem reads_iff {P : Prop} (isOpen : OpenDir fds fd v) (kept : Kept v.vnode s es blocks inodes) (written : R.written = untyped.written)
    (total : 267 ≤ R.total es.length) (fronts : ∀ page, (∀ i, (inside : i < es.length) → HasRecord page (memfsDentrySize * i) es[i]) →
      534 ≤ count → (Fronts R v es count page ↔ P)) :
    Reads R fsidx k fds fd v es count s ↔ count < 267 ∨ 534 ≤ count ∧ HasBuffer s ∧ P := by
  rcases Nat.lt_or_ge count 267 with short | least
  · exact ⟨fun _ => .inl short, fun _ => reads_short isOpen short (by rw [written]; exact fun o => by simp) total⟩
  rcases Nat.lt_or_ge count 534 with short | least'
  · refine ⟨fun reads => absurd reads (not_reads_one isOpen least short fun w bytes => ?_), fun cond => by omega⟩
    rw [written] at bytes
    exact Option.not_isSome_iff_eq_none.mp fun some => absurd ((bytes 0).mp some).1 (Nat.lt_irrefl 0)
  by_cases room : HasBuffer s
  · obtain ⟨page, s', ran, has⟩ := readDirents_full fsidx k kept least' room
    rw [← fronts page has least']
    constructor
    · rintro ⟨r, w, s'', ran', whole⟩
      rw [isOpen.sysReaddir, ran] at ran'
      cases ran'
      exact .inr ⟨least', room, whole.records⟩
    · rintro (short | ⟨-, -, found⟩)
      · omega
      · have bytes : copied es count ≤ count - 534 := Nat.min_le_right _ _
        refine ⟨_, _, s', (isOpen.sysReaddir count).trans ran, Int.natCast_nonneg _, by omega, ?_, found⟩
        rw [written]
        exact reply_written v _ page
  · obtain ⟨null, full⟩ := Classical.not_imp.mp room
    have nonneg := kept.live.nonneg
    obtain ⟨w, s', ran⟩ := readDirents_noBlock fsidx k v least' null (by omega)
    refine ⟨fun reads => ?_, fun cond => cond.elim (fun short => absurd least (by omega)) fun cond => absurd cond.2.1 room⟩
    obtain ⟨r, w', s'', ran', whole⟩ := reads
    rw [isOpen.sysReaddir, ran] at ran'
    cases ran'
    exact absurd whole.nonneg (by decide)

theorem fronts_untyped_iff {page : Page} (has : ∀ i, (inside : i < es.length) → HasRecord page (memfsDentrySize * i) es[i]) (least : 534 ≤ count) :
    Fronts untyped v es count page ↔ count = 534 ∨ es = [] := by
  have length : es.length = 0 ↔ es = [] := List.length_eq_zero_iff
  have bytes : copied es count = 0 ↔ count = 534 ∨ es = [] := by
    rw [copied, ← length]
    omega
  rw [← bytes]
  constructor
  · rintro ⟨front, -, recs, -⟩
    by_contra some
    have nonempty : 0 < es.length := by
      unfold copied at some
      omega
    obtain ⟨rest, recs⟩ := records_rest recs
    exact not_struct (has 0 nonempty) (Nat.pos_of_ne_zero some) recs
  · intro none
    have two : Records untyped.size (reply v (copied es count) page) 0 (v.records []) (534 + copied es count) :=
      records_cons_two rfl (by rw [none]; rfl)
    refine ⟨v.records [], ⟨es, rfl⟩, two, fun room => ?_⟩
    have full : direntSize * (2 + es.length) ≤ count := room
    simp only [direntSize] at full
    have empty : es = [] := length.mp (by unfold copied at none; omega)
    rw [empty]

theorem fronts_byLength_iff {page : Page} (has : ∀ i, (inside : i < es.length) → HasRecord page (memfsDentrySize * i) es[i]) (least : 534 ≤ count) :
    Fronts byLength v es count page ↔ 534 + 43 * es.length ≤ count ∨ 43 ∣ count - 534 := by
  have bytes : 43 ∣ copied es count ↔ 534 + 43 * es.length ≤ count ∨ 43 ∣ count - 534 := by
    unfold copied
    omega
  have bound : copied es count ≤ 43 * es.length := Nat.min_le_left _ _
  rw [← bytes]
  constructor
  · rintro ⟨front, -, recs, -⟩
    obtain ⟨rest, recs⟩ := records_rest recs
    exact multiple_of_records has bound rest 0 (Nat.zero_le _) recs
  · rintro ⟨j, isCopied⟩
    have taken : (es.take j).length = j := by rw [List.length_take]; omega
    have recs : Records byLength.size (reply v (copied es count) page) 534 (es.take j) (534 + 43 * (es.take j).length) := by
      refine records_copied (by omega) trivial 534 fun i inside => ?_
      rw [List.getElem_take]
      exact reply_record (has i (by omega)) (by omega)
    rw [taken, ← isCopied] at recs
    refine ⟨v.records (es.take j), ?_, records_cons_two trivial recs, fun room => ?_⟩
    · exact List.cons_prefix_cons.mpr ⟨rfl, List.cons_prefix_cons.mpr ⟨rfl, List.take_prefix j es⟩⟩
    · have full : 2 * direntSize + memfsDentrySize * es.length ≤ count := room
      simp only [direntSize, memfsDentrySize] at full
      have all : es.length ≤ j := by unfold copied at isCopied; omega
      rw [List.take_of_length_le all]

/-- For the directories whose nodes were made while there was room: literally, only the result for a count below one record is as it
should be. When the types are left aside, the records are those of `struct dirent` only if none of memfs is among them; as long as they
say, they are whole if all of them fit or the count ends with one. -/
theorem readdir_whole (isOpen : OpenDir fds fd v) (fresh : Kept v.vnode s0 [] blocks inodes)
    (reached : (directory v.vnode fsidx).ReachesUnder (CarefulDir v.vnode) (s0, []) (s, es)) (k : Kzalloc) (count : Nat) :
    (∀ s es, Reads literal fsidx k fds fd v es count s ↔ count < 267) ∧
    (Reads untyped fsidx k fds fd v es count s ↔ count < 267 ∨ 534 ≤ count ∧ HasBuffer s ∧ (count = 534 ∨ es = [])) ∧
    (Reads byLength fsidx k fds fd v es count s ↔
      count < 267 ∨ 534 ≤ count ∧ HasBuffer s ∧ (534 + 43 * es.length ≤ count ∨ 43 ∣ count - 534)) := by
  obtain ⟨blocks, inodes, kept⟩ := reached_kept fresh reached
  refine ⟨fun s es => reads_literal_iff isOpen, ?_, ?_⟩
  · exact reads_iff isOpen kept rfl (by simp only [untyped, literal, direntSize]; omega) fun page has least => fronts_untyped_iff has least
  · exact reads_iff isOpen kept rfl (by simp only [byLength, direntSize]; omega) fun page has least => fronts_byLength_iff has least

end

/-- The root directory, which is its own parent. -/
def rootVnode : OpenVnode := ⟨0x1024, 0x10000000, true, 0x10000000⟩

theorem rootVnode_open : OpenDir (fun _ => some (some rootVnode)) 0 rootVnode := ⟨Int.le_refl 0, by decide, rfl, rfl⟩

/-- With one entry made, a count of 577 takes all three records by their lengths. -/
theorem readdir_whole_root : ∃ s, (directory rootVnode.vnode 0x10000000).Reaches (rootDir, []) (s, [([0x61], 1)]) ∧
    Reads byLength 0x10000000 (kzallocs 0x9000) (fun _ => some (some rootVnode)) 0 rootVnode [([0x61], 1)] 577 s := by
  obtain ⟨s, one, free⟩ := root_one
  exact ⟨s, one.mono fun _ _ _ => trivial, (readdir_whole rootVnode_open rootDir_kept one (kzallocs 0x9000) 577).2.2.mpr
    (.inr ⟨by decide, fun _ => free, .inl (by decide)⟩)⟩

/-- In a directory with one entry, a count of all three records is no sequence of `struct dirent`, and one that ends within the third
is no sequence of records. -/
theorem readdir_cuts : ∃ s, (directory rootVnode.vnode 0x10000000).Reaches (rootDir, []) (s, [([0x61], 1)]) ∧
    ¬Reads literal 0x10000000 (kzallocs 0x9000) (fun _ => some (some rootVnode)) 0 rootVnode [([0x61], 1)] 801 s ∧
    ¬Reads untyped 0x10000000 (kzallocs 0x9000) (fun _ => some (some rootVnode)) 0 rootVnode [([0x61], 1)] 801 s ∧
    ¬Reads byLength 0x10000000 (kzallocs 0x9000) (fun _ => some (some rootVnode)) 0 rootVnode [([0x61], 1)] 544 s := by
  obtain ⟨s, one, -⟩ := root_one
  obtain ⟨blocks, inodes, kept⟩ := reached_kept rootDir_kept one
  refine ⟨s, one.mono fun _ _ _ => trivial, ?_, ?_, ?_⟩
  · rw [reads_literal_iff rootVnode_open]
    decide
  · rw [reads_iff rootVnode_open kept rfl (by decide) fun page has least => fronts_untyped_iff has least]
    simp
  · rw [reads_iff (R := byLength) rootVnode_open kept rfl (by decide) fun page has least => fronts_byLength_iff has least]
    simp

end Codezero.Fs.Memfs
