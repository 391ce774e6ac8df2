import Mathlib

/-!
# Path names

A path name is copied into a buffer, and `splitpath` cuts the buffer up in place: separators become NUL bytes, and the
components are pointers into it. Reads outside the buffer stop the model, so that a result says there was none.
-/

namespace Codezero.Fs

abbrev Byte := BitVec 8

/-- The bytes of a string in front of its NUL. -/
abbrev Str := List Byte

def enomem : Int := -12

/-- The byte that ends a string. -/
def nul : Byte := 0

def vfsCharSep : Byte := 0x2F
def vfsStrRootdir : Str := [0x2F]
def vfsStrPardir : Str := [0x2E, 0x2E]
def vfsStrCurdir : Str := [0x2E]

/-! ## `splitpath` -/

/-- `while (*cursor == sep)`. -/
def skipSeps (sep : Byte) (buf : List Byte) (cursor : Nat) : Option (List Byte × Nat) :=
  match _h : buf[cursor]? with
  | none => none
  | some c => if c = sep then skipSeps sep (buf.set cursor nul) (cursor + 1) else some (buf, cursor)
termination_by buf.length - cursor
decreasing_by
  have := (List.getElem?_eq_some_iff.mp _h).1
  simp only [List.length_set]
  omega

/-- `while (*end != sep && *end != '\0')`. -/
def findEnd (sep : Byte) (buf : List Byte) (last : Nat) : Option Nat :=
  match _h : buf[last]? with
  | none => none
  | some c => if c ≠ sep ∧ c ≠ nul then findEnd sep buf (last + 1) else some last
termination_by buf.length - last
decreasing_by
  have := (List.getElem?_eq_some_iff.mp _h).1
  omega

/-- The buffer, the new `*str` and the component that is returned. -/
def splitpath (sep : Byte) (buf : List Byte) (str : Nat) : Option (List Byte × Nat × Nat) := do
  let (buf, cursor) ← skipSeps sep buf str
  let last ← findEnd sep buf cursor
  let c ← buf[last]?
  if c = sep then
    let buf := buf.set last nul
    let next ← buf[last + 1]?
    if next ≠ nul then
      return (buf, last + 1, cursor)
    else
      return (buf, last, cursor)
  else
    return (buf, last, cursor)

/-! ## `struct pathdata` -/

/-- What `comp->str` points to: a string elsewhere, or one in the buffer. -/
inductive StrPtr
  | text (s : Str)
  | buffer (p : Nat)
  deriving DecidableEq, Repr

/-- The string at an offset of a buffer. -/
def cstr (buf : List Byte) (p : Nat) : Str := (buf.drop p).takeWhile (· ≠ nul)

def StrPtr.read (buf : List Byte) : StrPtr → Str
  | .text s => s
  | .buffer p => cstr buf p

variable {V : Type}

structure Pathdata (V : Type) where
  list : List StrPtr
  vstart : V

def pathdataNextComponent (pdata : Pathdata V) : Pathdata V × StrPtr :=
  match pdata.list with
  | [] => (pdata, .text [])
  | p :: rest => ({ pdata with list := rest }, p)

/-- Takes `pdata->list.prev`. -/
def pathdataLastComponent (pdata : Pathdata V) : Pathdata V × StrPtr :=
  match pdata.list.getLast? with
  | none => (pdata, .text [])
  | some p => ({ pdata with list := pdata.list.dropLast }, p)

/-- `task->fs_data`. -/
structure FsData (V : Type) where
  curdir : V
  rootdir : V

/-- The loop of `pathdata_parse` from a component `str` on; `alloc` says which calls of `kzalloc` succeed, and `n` counts
them. -/
def parseLoop (alloc : Nat → Bool) : Nat → Nat → List Byte → Nat → Nat → List StrPtr → Option (Except Int (List StrPtr × List Byte))
  | 0, _, _, _, _, _ => none
  | fuel + 1, n, buf, pathbuf, str, list => do
    let c ← buf[str]?
    if c = nul then
      return .ok (list, buf)
    else if cstr buf str = vfsStrCurdir then
      let (buf, pathbuf, str) ← splitpath vfsCharSep buf pathbuf
      parseLoop alloc fuel n buf pathbuf str list
    else if alloc n = false then
      return .error enomem
    else
      let (buf, pathbuf, str') ← splitpath vfsCharSep buf pathbuf
      parseLoop alloc fuel (n + 1) buf pathbuf str' (list ++ [.buffer str])

/-- The first component and the vnode where the lookup starts; `name` is the name of a vnode's first dentry. -/
def pathdataStart (name : V → Str) (fsData : FsData V) (pathname : Str) : Str × V :=
  if pathname.head? = some vfsCharSep then (vfsStrRootdir, fsData.rootdir) else (name fsData.curdir, fsData.curdir)

/-- `pathdata_parse` for a task, with the buffer that it leaves. -/
def pathdataParse (alloc : Nat → Bool) (name : V → Str) (fsData : FsData V) (pathname : Str) :
    Option (Except Int (Pathdata V × List Byte)) :=
  if alloc 0 = false then some (.error enomem)
  else
    let pathbuf := pathname ++ [nul]
    let (first, vstart) := pathdataStart name fsData pathname
    if alloc 1 = false then some (.error enomem)
    else do
      let (buf, pathbuf, str) ← splitpath vfsCharSep pathbuf 0
      match ← parseLoop alloc (pathname.length + 1) 2 buf pathbuf str [.text first] with
      | .error e => return .error e
      | .ok (list, buf) => return .ok ({ list, vstart }, buf)

/-! ## What the splitter does -/

/-- Some separators are overwritten. -/
def Cut (sep : Byte) : List Byte → List Byte → Prop := List.Forall₂ (fun b b' => b' = b ∨ b = sep ∧ b' = nul)

/-- The maximal parts of a path without a separator, but for the empty ones. -/
def pieces (sep : Byte) (path : Str) : List Str := (path.splitOn sep).filter (· ≠ [])

section
variable {sep c : Byte} {buf buf' pre path comp tail : List Byte} {p k : Nat}

theorem Cut.refl (buf : List Byte) : Cut sep buf buf := List.forall₂_same.mpr fun _ _ => .inl rfl

theorem Cut.trans {buf'' : List Byte} (first : Cut sep buf buf') (second : Cut sep buf' buf'') : Cut sep buf buf'' := by
  induction first generalizing buf'' with
  | nil => cases second; exact .nil
  | cons here _ rest =>
    cases second with
    | cons next more =>
      refine .cons ?_ (rest more)
      rcases next with rfl | ⟨rfl, rfl⟩
      · exact here
      · rcases here with same | ⟨was, -⟩
        · exact .inr ⟨same.symm, rfl⟩
        · exact .inr ⟨was, rfl⟩

theorem Cut.append {front front' : List Byte} (first : Cut sep front front') (second : Cut sep buf buf') :
    Cut sep (front ++ buf) (front' ++ buf') := List.rel_append first second

/-- Strings without a separator are not cut. -/
theorem Cut.cstr (cut : Cut sep buf buf') (whole : sep ∉ cstr buf p) : cstr buf' p = cstr buf p := by
  have rest : Cut sep (buf.drop p) (buf'.drop p) := List.forall₂_drop p cut
  simp only [Fs.cstr] at whole ⊢
  generalize buf.drop p = l at rest whole ⊢
  generalize buf'.drop p = l' at rest ⊢
  induction rest with
  | nil => rfl
  | @cons b b' l l' here _ ih =>
    by_cases zero : b = nul
    · have stays : b' = nul := here.elim (fun same => same.trans zero) And.right
      simp [zero, stays]
    · rw [List.takeWhile_cons_of_pos (by simpa using zero), List.mem_cons, not_or] at whole
      obtain rfl : b' = b := here.resolve_right fun overwritten => whole.1 overwritten.1.symm
      rw [List.takeWhile_cons_of_pos (by simpa using zero), List.takeWhile_cons_of_pos (by simpa using zero), ih whole.2]

theorem skipSeps_of_getElem? (here : buf[p]? = some c) :
    skipSeps sep buf p = if c = sep then skipSeps sep (buf.set p nul) (p + 1) else some (buf, p) := by
  rw [skipSeps]
  split
  · next outside => cases outside.symm.trans here
  · next found => cases found.symm.trans here; rfl

theorem findEnd_of_getElem? (here : buf[p]? = some c) :
    findEnd sep buf p = if c ≠ sep ∧ c ≠ nul then findEnd sep buf (p + 1) else some p := by
  rw [findEnd]
  split
  · next outside => cases outside.symm.trans here
  · next found => cases found.symm.trans here; rfl

theorem skipSeps_eq (stop : c ≠ sep) : skipSeps sep (pre ++ (List.replicate k sep ++ c :: tail)) pre.length =
    some (pre ++ (List.replicate k nul ++ c :: tail), pre.length + k) := by
  induction k generalizing pre with
  | zero =>
    rw [skipSeps_of_getElem? (c := c) (by simp), if_neg stop]
    simp
  | succ k ih =>
    have moved := @ih (pre ++ [nul])
    rw [skipSeps_of_getElem? (c := sep) (by simp [List.replicate_succ]), if_pos rfl]
    simpa [List.replicate_succ, Nat.add_right_comm, Nat.add_assoc] using moved

theorem findEnd_eq (pre : List Byte) (inside : ∀ b ∈ comp, b ≠ sep ∧ b ≠ nul) (stop : c = sep ∨ c = nul) :
    findEnd sep (pre ++ (comp ++ c :: tail)) pre.length = some (pre.length + comp.length) := by
  induction comp generalizing pre with
  | nil =>
    rw [findEnd_of_getElem? (c := c) (by simp), if_neg (fun both => stop.elim both.1 both.2)]
    simp
  | cons b comp ih =>
    have moved := @ih (pre ++ [b]) fun x mem => inside x (List.mem_cons_of_mem b mem)
    rw [findEnd_of_getElem? (c := b) (by simp), if_pos (inside b List.mem_cons_self)]
    simpa [Nat.add_assoc, Nat.add_comm 1] using moved

/-! ## Pieces of a path -/

theorem pieces_cons_append (free : sep ∉ comp) (tail : Str) :
    pieces sep (comp ++ sep :: tail) = if comp = [] then pieces sep tail else comp :: pieces sep tail := by
  have first : (comp ++ sep :: tail).splitOn sep = comp :: tail.splitOn sep :=
    List.splitOnP_append_cons_of_forall_mem (fun b mem => beq_false_of_ne fun same : b = sep => free (same ▸ mem)) sep (by simp) tail
  rw [pieces, first]
  split_ifs with empty
  · rw [List.filter_cons_of_neg (by simp [empty])]
    rfl
  · rw [List.filter_cons_of_pos (by simpa using empty)]
    rfl

theorem pieces_single (free : sep ∉ comp) : pieces sep comp = if comp = [] then [] else [comp] := by
  have whole : comp.splitOn sep = [comp] :=
    List.splitOnP_eq_singleton fun b mem => beq_false_of_ne fun same : b = sep => free (same ▸ mem)
  rw [pieces, whole]
  split_ifs with empty
  · simp [empty]
  · simp [empty]

theorem pieces_replicate (tail : Str) : pieces sep (List.replicate k sep ++ tail) = pieces sep tail := by
  induction k with
  | zero => rfl
  | succ k ih =>
    rw [List.replicate_succ, List.cons_append, ← ih]
    simpa using @pieces_cons_append sep [] (by simp) (List.replicate k sep ++ tail)

/-- A path is some separators, a piece and what is behind it. -/
theorem path_cases (sep : Byte) (path : Str) : ∃ k comp rest, path = List.replicate k sep ++ (comp ++ rest) ∧ sep ∉ comp ∧
    (rest = [] ∨ comp ≠ [] ∧ ∃ tail, rest = sep :: tail) := by
  induction path with
  | nil => exact ⟨0, [], [], rfl, by simp, .inl rfl⟩
  | cons b path ih =>
    obtain ⟨k, comp, rest, rfl, free, behind⟩ := ih
    by_cases same : b = sep
    · exact ⟨k + 1, comp, rest, by simp [same, List.replicate_succ], free, behind⟩
    · cases k with
      | zero =>
        refine ⟨0, b :: comp, rest, rfl, ?_, behind.imp_right fun both => ⟨List.cons_ne_nil b comp, both.2⟩⟩
        simpa using ⟨Ne.symm same, free⟩
      | succ k =>
        exact ⟨0, [b], List.replicate (k + 1) sep ++ (comp ++ rest), rfl, by simpa using Ne.symm same,
          .inr ⟨List.cons_ne_nil b [], List.replicate k sep ++ (comp ++ rest), rfl⟩⟩

/-- What `splitpath` has made of a buffer with a path in it: `comp` is a piece of the path, and `path'` is left. -/
structure SplitOff (sep : Byte) (path : Str) (buf buf' : List Byte) (path' comp : Str) (cursor : Nat) : Prop where
  cut : Cut sep buf buf'
  nonul : nul ∉ path'
  piece : cstr buf' cursor = comp
  whole : sep ∉ comp
  shorter : comp.length + path'.length ≤ path.length
  first : buf'[cursor]? = some (comp.headD nul)
  split : pieces sep path = if comp = [] then [] else comp :: pieces sep path'

theorem cut_replicate (k : Nat) : Cut sep (List.replicate k sep) (List.replicate k nul) := by
  induction k with
  | zero => exact .nil
  | succ k ih => exact .cons (.inr ⟨rfl, rfl⟩) ih

theorem cstr_append (pre tail : List Byte) (nonul : nul ∉ comp) : cstr (pre ++ (comp ++ nul :: tail)) pre.length = comp := by
  rw [cstr, List.drop_left]
  induction comp with
  | nil => simp
  | cons b comp ih =>
    obtain ⟨here, rest⟩ := not_or.mp (List.mem_cons.not.mp nonul)
    rw [List.cons_append, List.takeWhile_cons_of_pos (by simpa using Ne.symm here), ih rest]

theorem getElem?_append_headD (pre comp tail : List Byte) : (pre ++ (comp ++ nul :: tail))[pre.length]? = some (comp.headD nul) := by
  cases comp <;> simp

/-- The call on a path that starts with separators and a piece. -/
theorem splitpath_eq (pre : List Byte) (k : Nat) (tail : List Byte) (nonzero : sep ≠ nul) (inside : ∀ b ∈ comp, b ≠ sep ∧ b ≠ nul) (stop : c = sep ∧ comp ≠ [] ∨ c = nul) :
    splitpath sep (pre ++ (List.replicate k sep ++ (comp ++ c :: tail))) pre.length =
      if c = sep then
        tail.head?.map fun next => (pre ++ (List.replicate k nul ++ (comp ++ nul :: tail)),
          if next ≠ nul then pre.length + (k + (comp.length + 1)) else pre.length + (k + comp.length), pre.length + k)
      else some (pre ++ (List.replicate k nul ++ (comp ++ c :: tail)), pre.length + (k + comp.length), pre.length + k) := by
  have skipped : skipSeps sep (pre ++ (List.replicate k sep ++ (comp ++ c :: tail))) pre.length =
      some (pre ++ (List.replicate k nul ++ (comp ++ c :: tail)), pre.length + k) := by
    cases comp with
    | nil => exact skipSeps_eq (stop.elim (fun both => absurd rfl both.2) fun zero => zero ▸ Ne.symm nonzero)
    | cons b comp => exact skipSeps_eq (inside b List.mem_cons_self).1
  have found : findEnd sep (pre ++ (List.replicate k nul ++ (comp ++ c :: tail))) (pre.length + k) =
      some (pre.length + (k + comp.length)) := by
    simpa [Nat.add_assoc] using findEnd_eq (pre ++ List.replicate k nul) inside (stop.imp_left And.left)
  have here : (pre ++ (List.replicate k nul ++ (comp ++ c :: tail)))[pre.length + (k + comp.length)]? = some c := by simp
  have next : (pre ++ (List.replicate k nul ++ (comp ++ nul :: tail)))[pre.length + (k + comp.length) + 1]? = tail.head? := by
    have split : pre ++ (List.replicate k nul ++ (comp ++ nul :: tail)) = pre ++ (List.replicate k nul ++ (comp ++ [nul])) ++ tail := by
      simp
    rw [split, List.head?_eq_getElem?, List.getElem?_append_right (by simp; omega)]
    congr 1
    simp
  simp only [splitpath, skipped, Option.bind_eq_bind, Option.bind_some, found, here]
  split_ifs with separated
  · have set : (pre ++ (List.replicate k nul ++ (comp ++ c :: tail))).set (pre.length + (k + comp.length)) nul =
        pre ++ (List.replicate k nul ++ (comp ++ nul :: tail)) := by simp
    rw [set, next]
    cases tail with
    | nil => rfl
    | cons b tail =>
      simp only [List.head?_cons, Option.bind_some, Option.map_some]
      split_ifs <;> rfl
  · rfl

theorem splitpath_sat {post : List Byte} (nonzero : sep ≠ nul) (nonul : nul ∉ path) : ∃ pre' path' post' comp cursor,
    splitpath sep (pre ++ (path ++ nul :: post)) pre.length = some (pre' ++ (path' ++ nul :: post'), pre'.length, cursor) ∧
    SplitOff sep path (pre ++ (path ++ nul :: post)) (pre' ++ (path' ++ nul :: post')) path' comp cursor := by
  obtain ⟨k, comp, rest, rfl, free, behind⟩ := path_cases sep path
  obtain ⟨-, bare, left⟩ : (k ≠ 0 → nul ≠ sep) ∧ nul ∉ comp ∧ nul ∉ rest := by simpa using nonul
  have inside : ∀ b ∈ comp, b ≠ sep ∧ b ≠ nul := fun b mem => ⟨fun same => free (same ▸ mem), fun same => bare (same ▸ mem)⟩
  let front := pre ++ List.replicate k nul
  have start : pre.length + k = front.length := by simp [front]
  have overwritten : Cut sep (pre ++ List.replicate k sep) front := (Cut.refl pre).append (cut_replicate k)
  rcases behind with rfl | ⟨filled, tail, rfl⟩
  · -- the piece ends with the path
    have ran := splitpath_eq pre k post nonzero inside (.inr rfl)
    refine ⟨front ++ comp, [], post, comp, front.length, ?_, ?_, by simp, ?_, free, by simp, ?_, ?_⟩
    · simpa [front, Ne.symm nonzero, Nat.add_assoc] using ran
    · simpa using overwritten.append (Cut.refl (comp ++ nul :: post))
    · simpa using cstr_append front post bare
    · simpa using getElem?_append_headD front comp post
    · rw [pieces_replicate, List.append_nil, pieces_single free]
      rfl
  · have ran := splitpath_eq pre k (tail ++ nul :: post) nonzero inside (.inl ⟨rfl, filled⟩)
    have ended : Cut sep (pre ++ (List.replicate k sep ++ (comp ++ sep :: tail) ++ nul :: post))
        (front ++ (comp ++ nul :: (tail ++ nul :: post))) := by
      have last : Cut sep (sep :: (tail ++ nul :: post)) (nul :: (tail ++ nul :: post)) := .cons (.inr ⟨rfl, rfl⟩) (Cut.refl _)
      simpa using overwritten.append ((Cut.refl comp).append last)
    have piece : cstr (front ++ (comp ++ nul :: (tail ++ nul :: post))) front.length = comp := cstr_append front _ bare
    have first := getElem?_append_headD front comp (tail ++ nul :: post)
    have split : pieces sep (List.replicate k sep ++ (comp ++ sep :: tail)) = if comp = [] then [] else comp :: pieces sep tail := by
      rw [pieces_replicate, pieces_cons_append free, if_neg filled, if_neg filled]
    cases tail with
    | nil =>
      -- the separator is the last byte, and the string is left at it
      refine ⟨front ++ comp, [], nul :: post, comp, front.length, ?_, ?_, by simp, ?_, free, ?_, ?_, split⟩
      · simpa [front, Nat.add_assoc] using ran
      · simpa using ended
      · simpa using piece
      · simp
        omega
      · simpa using first
    | cons b tail =>
      have more : b ≠ nul := fun same => left (by simp [same])
      refine ⟨front ++ (comp ++ [nul]), b :: tail, post, comp, front.length, ?_, ?_, ?_, ?_, free, ?_, ?_, split⟩
      · simpa [front, more, Nat.add_assoc] using ran
      · simpa using ended
      · exact fun mem => left (List.mem_cons_of_mem sep mem)
      · simpa using piece
      · simp
        omega
      · simpa using first

end

/-! ## `pathdata_parse` -/

/-- The pieces of a path name, but for the names of the directory itself. -/
def pathComponents (path : Str) : List Str := (pieces vfsCharSep path).filter (· ≠ vfsStrCurdir)

section
variable {alloc : Nat → Bool} {fuel n cursor : Nat} {pre path comp post : List Byte} {list : List StrPtr}

theorem nul_notMem_cstr (buf : List Byte) (p : Nat) : nul ∉ cstr buf p :=
  fun mem => by simpa using List.mem_takeWhile_imp mem

/-- The loop runs out of memory or lists the components. -/
theorem parseLoop_cases (alloc : Nat → Bool) (nonul : nul ∉ path)
    (piece : cstr (pre ++ (path ++ nul :: post)) cursor = comp) (free : vfsCharSep ∉ comp)
    (first : (pre ++ (path ++ nul :: post))[cursor]? = some (comp.headD nul)) (enough : comp.length + path.length < fuel) :
    (parseLoop alloc fuel n (pre ++ (path ++ nul :: post)) pre.length cursor list = some (.error enomem) ∧ ∃ m, alloc m = false) ∨
    ∃ list' buf', parseLoop alloc fuel n (pre ++ (path ++ nul :: post)) pre.length cursor list = some (.ok (list ++ list', buf')) ∧
      Cut vfsCharSep (pre ++ (path ++ nul :: post)) buf' ∧
      list'.map (StrPtr.read buf') = if comp = [] then [] else ((comp :: pieces vfsCharSep path).filter (· ≠ vfsStrCurdir)) := by
  induction fuel generalizing n pre path post comp cursor list with
  | zero => exact absurd enough (Nat.not_lt_zero _)
  | succ fuel ih =>
    rw [parseLoop]
    simp only [first, Option.bind_eq_bind, Option.bind_some, piece]
    cases comp with
    | nil => exact .inr ⟨[], _, by simp, Cut.refl _, rfl⟩
    | cons b comp =>
      have more : b ≠ nul := by
        rintro rfl
        exact nul_notMem_cstr _ cursor (piece.symm ▸ List.mem_cons_self)
      obtain ⟨pre', path', post', comp', cursor', ran, off⟩ :=
        @splitpath_sat vfsCharSep pre path post (by decide) nonul
      have shorter : comp'.length + path'.length < fuel := by
        have := off.shorter
        simp only [List.length_cons] at enough
        omega
      rw [List.headD_cons, if_neg more, if_neg (List.cons_ne_nil b comp)]
      -- what is left of the path gives the components behind this one
      have rest : ∀ n list, (parseLoop alloc fuel n (pre' ++ (path' ++ nul :: post')) pre'.length cursor' list = some (.error enomem) ∧
            ∃ m, alloc m = false) ∨ ∃ list' buf',
          parseLoop alloc fuel n (pre' ++ (path' ++ nul :: post')) pre'.length cursor' list = some (.ok (list ++ list', buf')) ∧
          Cut vfsCharSep (pre ++ (path ++ nul :: post)) buf' ∧
          list'.map (StrPtr.read buf') = (pieces vfsCharSep path).filter (· ≠ vfsStrCurdir) := fun n list => by
        rcases @ih n cursor' pre' path' comp' post' list off.nonul off.piece off.whole off.first shorter with failed | listed
        · exact .inl failed
        obtain ⟨list', buf', ok, cut, strings⟩ := listed
        refine .inr ⟨list', buf', ok, off.cut.trans cut, ?_⟩
        rw [strings, off.split]
        split_ifs <;> rfl
      split_ifs with curdir full
      · rcases rest n list with ⟨failed, out⟩ | ⟨list', buf', ok, cut, strings⟩
        · exact .inl ⟨by simpa only [ran, Option.bind_some] using failed, out⟩
        refine .inr ⟨list', buf', by simpa only [ran, Option.bind_some] using ok, cut, ?_⟩
        rw [strings, List.filter_cons_of_neg (by simp [curdir])]
      · exact .inl ⟨rfl, n, full⟩
      · rcases rest (n + 1) (list ++ [.buffer cursor]) with ⟨failed, out⟩ | ⟨list', buf', ok, cut, strings⟩
        · exact .inl ⟨by simpa only [ran, Option.bind_some] using failed, out⟩
        refine .inr ⟨.buffer cursor :: list', buf', by simpa only [ran, Option.bind_some, List.append_assoc, List.singleton_append] using ok, cut, ?_⟩
        have kept : cstr buf' cursor = b :: comp := (cut.cstr (piece.symm ▸ free)).trans piece
        rw [List.map_cons, strings, StrPtr.read, kept, List.filter_cons_of_pos (by simpa using curdir)]

/-! ## Taking components -/

inductive End
  | front
  | back
  deriving DecidableEq, Repr

def takeComponent (pdata : Pathdata V) : End → Pathdata V × StrPtr
  | .front => pathdataNextComponent pdata
  | .back => pathdataLastComponent pdata

/-- What a sequence of `pathdata_next_component` and `pathdata_last_component` returns. -/
def takeComponents (buf : List Byte) : List End → Pathdata V → List Str
  | [], _ => []
  | e :: es, pdata => (takeComponent pdata e).2.read buf :: takeComponents buf es (takeComponent pdata e).1

def End.seen (strs : List Str) : End → List Str
  | .front => strs
  | .back => strs.reverse

theorem End.seen_length (e : End) (strs : List Str) : (e.seen strs).length = strs.length := by
  cases e <;> simp [End.seen]

/-- A call takes the first component that it sees, and the other calls see those that are left. -/
theorem takeComponent_eq (buf : List Byte) (pdata : Pathdata V) (e : End) :
    (takeComponent pdata e).2.read buf = (e.seen (pdata.list.map (StrPtr.read buf))).headD [] ∧
    e.seen ((takeComponent pdata e).1.list.map (StrPtr.read buf)) = (e.seen (pdata.list.map (StrPtr.read buf))).tail ∧
    ∀ e' ≠ e, e'.seen ((takeComponent pdata e).1.list.map (StrPtr.read buf)) =
      (e'.seen (pdata.list.map (StrPtr.read buf))).dropLast := by
  obtain ⟨list, vstart⟩ := pdata
  cases e with
  | front =>
    cases list with
    | nil => exact ⟨rfl, rfl, fun e' other => by cases e' <;> simp_all [End.seen, takeComponent, pathdataNextComponent]⟩
    | cons p list =>
      refine ⟨rfl, rfl, fun e' other => ?_⟩
      cases e' with
      | front => exact absurd rfl other
      | back => simp [End.seen, takeComponent, pathdataNextComponent]
  | back =>
    rcases List.eq_nil_or_concat' list with rfl | ⟨list, p, rfl⟩
    · exact ⟨rfl, rfl, fun e' other => by cases e' <;> simp_all [End.seen, takeComponent, pathdataLastComponent]⟩
    · refine ⟨by simp [End.seen, takeComponent, pathdataLastComponent], by simp [End.seen, takeComponent, pathdataLastComponent],
        fun e' other => ?_⟩
      cases e' with
      | front => simp [End.seen, takeComponent, pathdataLastComponent]
      | back => exact absurd rfl other

/-- Every call of a sequence returns the next component from its end, as long as any is left. -/
theorem takeComponents_getElem? (buf : List Byte) {calls : List End} {i : Nat} {e : End} (pdata : Pathdata V)
    (call : calls[i]? = some e) : (takeComponents buf calls pdata)[i]? =
      some (if i < pdata.list.length then (e.seen (pdata.list.map (StrPtr.read buf))).getD ((calls.take i).count e) [] else []) := by
  induction calls generalizing i pdata with
  | nil => cases call
  | cons e0 calls ih =>
    obtain ⟨taken, same, others⟩ := takeComponent_eq buf pdata e0
    cases i with
    | zero =>
      cases call
      rw [takeComponents, List.getElem?_cons_zero, taken]
      split_ifs with left
      · simp [List.head?_eq_getElem?]
      · have empty : e.seen (pdata.list.map (StrPtr.read buf)) = [] := by
          rw [← List.length_eq_zero_iff, End.seen_length, List.length_map]
          omega
        rw [empty]
        rfl
    | succ i =>
      have later := ih (takeComponent pdata e0).1 (by simpa using call)
      have fewer : (takeComponent pdata e0).1.list.length = pdata.list.length - 1 := by
        have := congrArg List.length same
        simpa only [End.seen_length, List.length_tail, List.length_map] using this
      rw [takeComponents, List.getElem?_cons_succ, later, fewer]
      by_cases left : i + 1 < pdata.list.length
      · rw [if_pos left, if_pos (by omega), List.take_succ_cons]
        by_cases own : e = e0
        · subst own
          rw [same, List.count_cons_self, List.getD_eq_getElem?_getD, List.getD_eq_getElem?_getD, List.getElem?_tail]
        · -- at most `i` calls came before, so the last component this end sees is not reached yet
          have few : (calls.take i).count e ≤ i := List.count_le_length.trans (List.length_take_le i calls)
          rw [others e own, List.count_cons_of_ne (Ne.symm own), List.getD_eq_getElem?_getD, List.getD_eq_getElem?_getD,
            List.getElem?_dropLast, End.seen_length, List.length_map, if_pos (by omega)]
      · rw [if_neg left, if_neg (by omega)]

/-- For every path name and every task: memory runs out, or the components that `pathdata_parse` has listed, read from the buffer as
the call leaves it, are the root's or the current directory's name and the path's components. -/
theorem pathdataParse_cases {V : Type} (alloc : Nat → Bool) (name : V → Str) (fsData : FsData V) {pathname : Str} (nonul : nul ∉ pathname) :
    (pathdataParse alloc name fsData pathname = some (.error enomem) ∧ ∃ m, alloc m = false) ∨
    ∃ pdata buf, pathdataParse alloc name fsData pathname = some (.ok (pdata, buf)) ∧
      pdata.vstart = (pathdataStart name fsData pathname).2 ∧
      pdata.list.map (StrPtr.read buf) = (pathdataStart name fsData pathname).1 :: pathComponents pathname := by
  obtain ⟨pre, path, post, comp, cursor, ran, off⟩ := @splitpath_sat vfsCharSep [] pathname [] (by decide) nonul
  simp only [List.nil_append, List.length_nil] at ran
  unfold pathdataParse
  split_ifs with none one
  · exact .inl ⟨rfl, 0, none⟩
  · exact .inl ⟨rfl, 1, one⟩
  simp only [ran, Option.bind_eq_bind, Option.bind_some]
  rcases @parseLoop_cases (pathname.length + 1) 2 cursor pre path comp post [.text (pathdataStart name fsData pathname).1] alloc off.nonul
    off.piece off.whole off.first (Nat.lt_succ_of_le off.shorter) with ⟨failed, out⟩ | ⟨list, buf, ok, -, strings⟩
  · exact .inl ⟨by rw [failed]; rfl, out⟩
  · refine .inr ⟨⟨.text (pathdataStart name fsData pathname).1 :: list, (pathdataStart name fsData pathname).2⟩, buf, by rw [ok]; rfl, rfl, ?_⟩
    rw [List.map_cons, strings, pathComponents, off.split]
    split_ifs <;> rfl

theorem pathdataParse_ok {V : Type} (name : V → Str) (fsData : FsData V) {pathname : Str} (all : ∀ n, alloc n = true)
    (nonul : nul ∉ pathname) :
    ∃ pdata buf, pathdataParse alloc name fsData pathname = some (.ok (pdata, buf)) ∧
      pdata.vstart = (pathdataStart name fsData pathname).2 ∧
      pdata.list.map (StrPtr.read buf) = (pathdataStart name fsData pathname).1 :: pathComponents pathname :=
  (pathdataParse_cases alloc name fsData nonul).resolve_left fun ⟨_, m, out⟩ => by simp [all m] at out

/-- For every path name and every task, with every allocation succeeding: `pathdata_parse` lists the root's name or that of
the current directory, and then the components of the path; and whatever sequence of calls then takes components from the
two ends, each gets the next one from its end, or the empty string if none is left. -/
theorem pathdata_parse_components {V : Type} (alloc : Nat → Bool) (name : V → Str) (fsData : FsData V) (pathname : Str)
    (all : ∀ n, alloc n = true) (nonul : nul ∉ pathname) :
    ∃ pdata buf, pathdataParse alloc name fsData pathname = some (.ok (pdata, buf)) ∧
      pdata.list.map (StrPtr.read buf) =
        (if pathname.head? = some vfsCharSep then vfsStrRootdir else name fsData.curdir) :: pathComponents pathname ∧
      ∀ (calls : List End) (i : Nat) (e : End), calls[i]? = some e → (takeComponents buf calls pdata)[i]? =
        some (if i < pdata.list.length then (e.seen (pdata.list.map (StrPtr.read buf))).getD ((calls.take i).count e) [] else []) := by
  obtain ⟨pdata, buf, ok, -, strings⟩ := pathdataParse_ok name fsData all nonul
  refine ⟨pdata, buf, ok, ?_, fun calls i e call => takeComponents_getElem? buf pdata call⟩
  rw [strings, pathdataStart]
  split_ifs <;> rfl

/-- `a/./b//` in a directory of no name. -/
theorem pathdata_parse_components_relative :
    (∀ n, (fun _ : Nat => true) n = true) ∧ nul ∉ ([0x61, 0x2F, 0x2E, 0x2F, 0x62, 0x2F, 0x2F] : Str) ∧
    ∃ pdata buf, pathdataParse (fun _ => true) (fun _ : Unit => []) ⟨(), ()⟩ [0x61, 0x2F, 0x2E, 0x2F, 0x62, 0x2F, 0x2F] =
      some (.ok (pdata, buf)) ∧ pdata.list.map (StrPtr.read buf) = [[], [0x61], [0x62]] := by
  refine ⟨fun _ => rfl, by decide, ?_⟩
  obtain ⟨pdata, buf, ok, strings, -⟩ := pathdata_parse_components (fun _ => true) (fun _ : Unit => []) ⟨(), ()⟩
    [0x61, 0x2F, 0x2E, 0x2F, 0x62, 0x2F, 0x2F] (fun _ => rfl) (by decide)
  exact ⟨pdata, buf, ok, strings.trans (by decide)⟩

end

end Codezero.Fs
