import Codezero.Lib.Extent
import Codezero.Mm0.PageMapCalls
import Codezero.Mm0.UserCopy

/-!
# The first stack of a program

`task_map_stack` of `mm/task.c` maps a stack for a new program and writes the arguments and the environment to its top. The
pager writes through pages of its own that are mapped to the pages of the task, and makes the pointers for the task from the
page where the arguments begin and the offsets in its own pages.
-/

namespace Codezero.Mm0.InitialStack
open Codezero.Lib
open Codezero.Mm0.UserCopy (User writable endPage)

/-- `page_align`. -/
def pageAlign (x : Nat) : Nat := x / pageSize * pageSize

/-- The arguments of `do_mmap` for an anonymous private area. -/
def anonArgs (addr npages : Nat) (vma split : VmaId) : MmapArgs :=
  { file := none, fileOffset := 0, addr := addr, npages := npages, vma := vma, split := split, shmAddr := 0
    flags := { read := true, write := true, priv := true, anonymous := true } }

/-- What a list of strings takes up with its pointers. -/
def packedSize (argv : List (List UInt8)) : Nat := 4 * argv.length + (argv.map (fun a => a.length + 1)).sum

/-- `struct args_struct`, with room for its pointers and strings in `size`. -/
structure Args where
  argv : List (List UInt8)
  size : Nat
  plain : ∀ a ∈ argv, 0 ∉ a
  packed : packedSize argv ≤ size

inductive Stop
  | bug (b : Bug)
  /-- `BUG_ON(stack_used > DEFAULT_STACK_SIZE)`. -/
  | stackUsed
  /-- `BUG_ON(!is_aligned(user_stack, 8))`. -/
  | unaligned
  /-- A range that is not mapped gives a null pointer, which is written to. -/
  | null
  deriving DecidableEq, Repr

/-- A little-endian word. -/
def wordBytes (w : Nat) : List UInt8 := [w.toUInt8, (w / 256).toUInt8, (w / 65536).toUInt8, (w / 16777216).toUInt8]

abbrev Memory := Nat → UInt8

/-- A store of an `int`. -/
def storeWord (loc : Nat → Nat) (a w : Nat) (m : Memory) : Memory := storeList loc a (wordBytes w) m

/-- `strcpy`. -/
def strcpy (loc : Nat → Nat) (a : Nat) (s : List UInt8) (m : Memory) : Memory := storeList loc a (s ++ [0]) m

/-- The pointer that is made for the string at `stack`. -/
def pointer (userPtr stack : Nat) : Nat := pageAlign userPtr + stack % pageSize

/-- The loop over the strings of a list, whose pointers go to `slot`; where the stack is after it. -/
def copyStrings (loc : Nat → Nat) (userPtr : Nat) : List (List UInt8) → Nat → Nat → Memory → Nat × Memory
  | [], _, stack, m => (stack, m)
  | a :: rest, slot, stack, m =>
    let m := strcpy loc stack a m
    let m := storeWord loc slot (pointer userPtr stack) m
    copyStrings loc userPtr rest (slot + 4) (stack + (a.length + 1)) m

/-- `task_copy_args_to_user`; the pager's addresses are translated by `loc`. -/
def taskCopyArgsToUser (loc : Nat → Nat) (userStack userPtr : Nat) (args env : List (List UInt8)) (m : Memory) : Except Stop Memory :=
  if userStack % 8 ≠ 0 then throw .unaligned
  else
    let m := storeWord loc userStack args.length m
    let argvStart := userStack + 4
    let m := storeWord loc (argvStart + 4 * args.length) 0 m
    let envpStart := argvStart + 4 * args.length + 4
    let m := storeWord loc (envpStart + 4 * env.length) 0 m
    let copied := copyStrings loc userPtr args argvStart (envpStart + 4 * env.length + 4) m
    pure (copyStrings loc userPtr env envpStart copied.1 copied.2).2

/-- `DEFAULT_STACK_SIZE`. -/
def defaultStackSize : Nat := 0x8000

/-- `stack_used`. -/
def stackUsed (args env : Args) : Nat := (args.size + env.size + 4 * 3 + 8 + 7) / 8 * 8

/-- A page table of the pager, and the pages that `pager_validate_map_user_range2` maps from `virt` on to those of the task. -/
def mapPages (frame : Nat → Nat) (first virt : Nat) : Nat → (Nat → Nat) → Nat → Nat
  | 0, table => table
  | n + 1, table => mapPages frame (first + 1) (virt + 1) n (Function.update table virt (frame first))

/-- The physical address that a page table gives. -/
def translate (table : Nat → Nat) (a : Nat) : Nat := table (a / pageSize) * pageSize + a % pageSize

/-- What the allocators and the page tables provide: the frames of the task's pages once they are faulted in, the pager's
page table, an address for `pager_new_address`, and two vmas. -/
structure Resources where
  frame : Nat → Nat
  table : Nat → Nat
  virt : Nat
  vma : VmaId
  split : VmaId

/-- The task's markers, its memory map and the contents of memory. -/
structure Stack where
  mm : Mm
  argsStart : Nat
  argsEnd : Nat
  byte : Memory

/-- `task_map_stack`, where `regionEnd` is the end of the task region. -/
def taskMapStack (s : Mm) (t : TaskId) (regionEnd : Nat) (args env : Args) (res : Resources) (m : Memory) :
    Except Stop (Except Errno Stack) :=
  let stackEnd := regionEnd * pageSize
  let stackStart := stackEnd - defaultStackSize
  let argsStart := stackEnd - stackUsed args env
  if stackUsed args env > defaultStackSize then throw .stackUsed
  else match doMmap s t (anonArgs stackStart (pfnOf (stackEnd - stackStart)) res.vma res.split) with
    | .error b => throw (.bug b)
    | .ok (_, .error errno) => pure (throw errno)
    | .ok (s, .ok _) =>
      let user : User := { mm := s, vmas := vmasOf s t, frame := res.frame }
      if !user.pagerValidateUserRange argsStart (stackUsed args env) writable then throw .null
      else do
        let first := argsStart / pageSize
        let table := mapPages res.frame first (res.virt / pageSize) (endPage argsStart (stackUsed args env) - first) res.table
        let m ← taskCopyArgsToUser (translate table) (res.virt + argsStart % pageSize) argsStart args.argv env.argv m
        pure (pure { mm := s, argsStart := argsStart, argsEnd := stackEnd, byte := m })

/-! ## The layout -/

/-- Where strings stand that are put one after the other. -/
def places : Nat → List (List UInt8) → List Nat
  | _, [] => []
  | base, a :: rest => base :: places (base + (a.length + 1)) rest

/-- The bytes of a list of words. -/
def wordsBytes (ws : List Nat) : List UInt8 := ws.flatMap wordBytes

/-- The bytes of strings with their terminators. -/
def stringsBytes (l : List (List UInt8)) : List UInt8 := l.flatMap (fun a => a ++ [0])

/-- The number of arguments, the pointers to them, a null, the pointers to the environment and a null. -/
def stackWords (ps qs : List Nat) : List Nat := ps.length :: (ps ++ 0 :: (qs ++ [0]))

theorem length_wordBytes (w : Nat) : (wordBytes w).length = 4 := rfl

theorem length_wordsBytes (ws : List Nat) : (wordsBytes ws).length = 4 * ws.length := by
  induction ws with
  | nil => rfl
  | cons w ws rest =>
    rw [wordsBytes, List.flatMap_cons, List.length_append, length_wordBytes, ← wordsBytes, rest, List.length_cons]
    omega

theorem length_stringsBytes (l : List (List UInt8)) : (stringsBytes l).length = (l.map (fun a => a.length + 1)).sum := by
  simp [stringsBytes, List.length_flatMap]

theorem stringsBytes_append (l l' : List (List UInt8)) : stringsBytes (l ++ l') = stringsBytes l ++ stringsBytes l' :=
  List.flatMap_append

theorem length_places (base : Nat) (l : List (List UInt8)) : (places base l).length = l.length := by
  induction l generalizing base with
  | nil => rfl
  | cons a l rest => rw [places, List.length_cons, rest, List.length_cons]

theorem places_append (base : Nat) (l l' : List (List UInt8)) :
    places base (l ++ l') = places base l ++ places (base + (stringsBytes l).length) l' := by
  induction l generalizing base with
  | nil => rfl
  | cons a l rest =>
    have length : (stringsBytes (a :: l)).length = a.length + 1 + (stringsBytes l).length := by
      simp [length_stringsBytes]
    rw [List.cons_append, places, places, rest, length, List.cons_append]
    simp only [Nat.add_assoc]

/-! ## What is written -/

section Copy
variable {loc : Nat → Nat} {lo hi userPtr slot stack : Nat} {m : Memory}

/-- The strings and their pointers are written, and the rest of the region is left alone. -/
structure Copied (loc : Nat → Nat) (userPtr lo hi : Nat) (l : List (List UInt8)) (slot stack : Nat) (m : Memory) (r : Nat × Memory) :
    Prop where
  ends : r.1 = stack + (stringsBytes l).length
  pointers : ListAt loc r.2 slot (wordsBytes ((places stack l).map (pointer userPtr)))
  strings : ListAt loc r.2 stack (stringsBytes l)
  frame : ∀ b, lo ≤ b → b < hi → (b < slot ∨ slot + 4 * l.length ≤ b) → (b < stack ∨ stack + (stringsBytes l).length ≤ b) →
    r.2 (loc b) = m (loc b)

theorem copyStrings_copied (userPtr slot stack : Nat) (m : Memory) (apart : Separates loc lo hi) (l : List (List UInt8)) (low : lo ≤ slot)
    (room : slot + 4 * l.length ≤ stack) (high : stack + (stringsBytes l).length ≤ hi) :
    Copied loc userPtr lo hi l slot stack m (copyStrings loc userPtr l slot stack m) := by
  induction l generalizing slot stack m with
  | nil => exact ⟨rfl, listAt_nil, listAt_nil, fun _ _ _ _ _ => rfl⟩
  | cons a l rest =>
    have length : (stringsBytes (a :: l)).length = a.length + 1 + (stringsBytes l).length := by
      simp [length_stringsBytes]
    rw [length] at high
    rw [List.length_cons] at room
    rw [copyStrings]
    generalize first : strcpy loc stack a m = m1
    generalize second : storeWord loc slot (pointer userPtr stack) m1 = m2
    have done : Copied loc userPtr lo hi l (slot + 4) (stack + (a.length + 1)) m2
        (copyStrings loc userPtr l (slot + 4) (stack + (a.length + 1)) m2) := rest _ _ _ (by omega) (by omega) (by omega)
    generalize copyStrings loc userPtr l (slot + 4) (stack + (a.length + 1)) m2 = r at done
    have own : (a ++ [0] : List UInt8).length = a.length + 1 := by simp
    have four := length_wordBytes (pointer userPtr stack)
    have string : ListAt loc m1 stack (a ++ [0]) := first ▸ storeList_listAt apart (by omega) (by omega)
    have string2 : ListAt loc m2 stack (a ++ [0]) :=
      second ▸ string.store apart low (by omega) (by omega) (by omega) (.inr (by omega))
    have word : ListAt loc m2 slot (wordBytes (pointer userPtr stack)) := second ▸ storeList_listAt apart low (by omega)
    refine ⟨?_, ?_, ?_, fun b low' high' out out' => ?_⟩
    · rw [done.ends, length]
      omega
    · rw [places, List.map_cons, wordsBytes, List.flatMap_cons, listAt_append, four]
      exact ⟨word.congr (fun i lt => done.frame _ (by omega) (by omega) (by omega) (by omega)), done.pointers⟩
    · rw [stringsBytes, List.flatMap_cons, listAt_append, own]
      exact ⟨string2.congr (fun i lt => done.frame _ (by omega) (by omega) (by omega) (by omega)), done.strings⟩
    · rw [List.length_cons] at out
      rw [length] at out'
      rw [done.frame b low' high' (by omega) (by omega), ← second, storeWord,
        storeList_outside apart low (by omega) low' high' (by omega), ← first, strcpy,
        storeList_outside apart (by omega) (by omega) low' high' (by omega)]

/-- A list that is neither among the pointers nor among the strings stays. -/
theorem Copied.keeps {l : List (List UInt8)} {r : Nat × Memory} {b : Nat} {l' : List UInt8}
    (copied : Copied loc userPtr lo hi l slot stack m r) (here : ListAt loc m b l') (low : lo ≤ b) (high : b + l'.length ≤ hi)
    (out : b + l'.length ≤ slot ∨ slot + 4 * l.length ≤ b) (out' : b + l'.length ≤ stack ∨ stack + (stringsBytes l).length ≤ b) :
    ListAt loc r.2 b l' :=
  here.congr (fun i lt => copied.frame _ (by omega) (by omega) (by omega) (by omega))

/-- The words and strings of the stack, with pointers made by `ptr`. -/
def image (ptr : Nat → Nat) (base : Nat) (args env : List (List UInt8)) : List UInt8 :=
  wordsBytes (stackWords ((places base args).map ptr) ((places (base + (stringsBytes args).length) env).map ptr)) ++
    stringsBytes (args ++ env)

theorem length_image (ptr : Nat → Nat) (base : Nat) (args env : List (List UInt8)) :
    (image ptr base args env).length = 4 * (args.length + env.length + 3) + (stringsBytes (args ++ env)).length := by
  rw [image, List.length_append, length_wordsBytes]
  simp [stackWords, length_places]
  omega

/-- The whole of the arguments is written. -/
theorem taskCopyArgsToUser_image {m' : Memory} {args env : List (List UInt8)} (apart : Separates loc stack hi)
    (room : stack + 4 * (args.length + env.length + 3) + (stringsBytes (args ++ env)).length ≤ hi)
    (ran : taskCopyArgsToUser loc stack userPtr args env m = .ok m') :
    ListAt loc m' stack (image (pointer userPtr) (stack + 4 * (args.length + env.length + 3)) args env) := by
  rw [stringsBytes_append, List.length_append] at room
  unfold taskCopyArgsToUser at ran
  split at ran
  · cases ran
  · have same := Except.ok.inj ran
    generalize one : storeWord loc stack args.length m = m1 at same
    generalize two : storeWord loc (stack + 4 + 4 * args.length) 0 m1 = m2 at same
    generalize three : storeWord loc (stack + 4 + 4 * args.length + 4 + 4 * env.length) 0 m2 = m3 at same
    have at_ : stack + 4 + 4 * args.length + 4 + 4 * env.length + 4 = stack + 4 * (args.length + env.length + 3) := by omega
    rw [at_] at same
    generalize is : stack + 4 * (args.length + env.length + 3) = base at *
    have first := copyStrings_copied userPtr (stack + 4) base m3 apart args (by omega) (by omega) (by omega)
    generalize copyStrings loc userPtr args (stack + 4) base m3 = r1 at first same
    rw [first.ends] at same
    have second := copyStrings_copied userPtr (stack + 4 + 4 * args.length + 4) (base + (stringsBytes args).length) r1.2 apart env
      (by omega) (by omega) (by omega)
    rw [same.symm]
    generalize copyStrings loc userPtr env (stack + 4 + 4 * args.length + 4) (base + (stringsBytes args).length) r1.2 = r2 at second
    have four := length_wordBytes args.length
    have four' := length_wordBytes 0
    have argc : ListAt loc r2.2 stack (wordBytes args.length) := by
      have stored : ListAt loc m1 stack (wordBytes args.length) := one ▸ storeList_listAt apart (by omega) (by omega)
      have null : ListAt loc m2 stack (wordBytes args.length) :=
        two ▸ stored.store apart (by omega) (by omega) (by omega) (by omega) (.inl (by omega))
      have null' : ListAt loc m3 stack (wordBytes args.length) :=
        three ▸ null.store apart (by omega) (by omega) (by omega) (by omega) (.inl (by omega))
      exact second.keeps (first.keeps null' (by omega) (by omega) (by omega) (by omega)) (by omega)
        (by omega) (by omega) (by omega)
    have argNull : ListAt loc r2.2 (stack + 4 + 4 * args.length) (wordBytes 0) := by
      have stored : ListAt loc m2 (stack + 4 + 4 * args.length) (wordBytes 0) :=
        two ▸ storeList_listAt apart (by omega) (by omega)
      have null : ListAt loc m3 (stack + 4 + 4 * args.length) (wordBytes 0) :=
        three ▸ stored.store apart (by omega) (by omega) (by omega) (by omega) (.inl (by omega))
      exact second.keeps (first.keeps null (by omega) (by omega) (by omega) (by omega)) (by omega)
        (by omega) (by omega) (by omega)
    have envNull : ListAt loc r2.2 (stack + 4 + 4 * args.length + 4 + 4 * env.length) (wordBytes 0) := by
      have stored : ListAt loc m3 (stack + 4 + 4 * args.length + 4 + 4 * env.length) (wordBytes 0) :=
        three ▸ storeList_listAt apart (by omega) (by omega)
      exact second.keeps (first.keeps stored (by omega) (by omega) (by omega) (by omega)) (by omega)
        (by omega) (by omega) (by omega)
    have pointers : ListAt loc r2.2 (stack + 4) (wordsBytes ((places base args).map (pointer userPtr))) := by
      have words : (wordsBytes ((places base args).map (pointer userPtr))).length = 4 * args.length := by
        rw [length_wordsBytes, List.length_map, length_places]
      exact second.keeps first.pointers (by omega) (by omega) (by omega) (by omega)
    have strings : ListAt loc r2.2 base (stringsBytes args) :=
      second.keeps first.strings (by omega) (by omega) (by omega) (by omega)
    have words : wordsBytes (stackWords ((places base args).map (pointer userPtr))
        ((places (base + (stringsBytes args).length) env).map (pointer userPtr))) =
        wordBytes args.length ++ (wordsBytes ((places base args).map (pointer userPtr)) ++ (wordBytes 0 ++
          (wordsBytes ((places (base + (stringsBytes args).length) env).map (pointer userPtr)) ++ wordBytes 0))) := by
      simp [stackWords, wordsBytes, length_places]
    have parts : (wordsBytes ((places base args).map (pointer userPtr))).length = 4 * args.length ∧
        (wordsBytes ((places (base + (stringsBytes args).length) env).map (pointer userPtr))).length = 4 * env.length := by
      simp [length_wordsBytes, length_places]
    rw [image, words, stringsBytes_append]
    simp only [listAt_append, List.length_append, parts.1, parts.2, four, four']
    refine ⟨⟨argc, pointers, argNull, second.pointers, envNull⟩, ?_, ?_⟩
    · rw [show stack + (4 + (4 * args.length + (4 + (4 * env.length + 4)))) = base by omega]
      exact strings
    · rw [show stack + (4 + (4 * args.length + (4 + (4 * env.length + 4)))) = base by omega]
      exact second.strings

end Copy

/-! ## What the task finds -/

/-- A string with the address at which it stands. -/
abbrev Span := Nat × List UInt8

/-- The address behind a string and its terminator. -/
def Span.stop (e : Span) : Nat := e.1 + (e.2.length + 1)

def Span.Apart (e f : Span) : Prop := e.stop ≤ f.1 ∨ f.stop ≤ e.1

/-- The stack of a program: words from `start` on, with a pointer to each string, and the strings behind them, each in a place of
its own. -/
structure WellFormed (read : Nat → UInt8) (start stop : Nat) (args env : List (List UInt8)) : Prop where
  fits : start + 4 * (args.length + env.length + 3) ≤ stop
  pointers : ∃ ps qs, ps.length = args.length ∧ qs.length = env.length ∧ ListAt id read start (wordsBytes (stackWords ps qs)) ∧
    (∀ e ∈ (ps ++ qs).zip (args ++ env), ListAt id read e.1 (e.2 ++ [0]) ∧
      start + 4 * (args.length + env.length + 3) ≤ e.1 ∧ Span.stop e ≤ stop) ∧
    ((ps ++ qs).zip (args ++ env)).Pairwise Span.Apart

section Spans
variable {base x : Nat} {l : List (List UInt8)} {e : Span} {read : Nat → UInt8}

/-- Strings one after the other. -/
def spans (base : Nat) (l : List (List UInt8)) : List Span := (places base l).zip l

theorem length_stringsBytes_cons (a : List UInt8) : (stringsBytes (a :: l)).length = a.length + 1 + (stringsBytes l).length := by
  simp [length_stringsBytes]

theorem spans_bounds (mem : e ∈ spans base l) : base ≤ e.1 ∧ e.stop ≤ base + (stringsBytes l).length := by
  induction l generalizing base with
  | nil => cases mem
  | cons a l rest =>
    rw [length_stringsBytes_cons]
    rcases List.mem_cons.mp mem with rfl | mem
    · refine ⟨Nat.le_refl _, ?_⟩
      show base + (a.length + 1) ≤ _
      omega
    · have := rest mem
      omega

theorem spans_apart : (spans base l).Pairwise Span.Apart := by
  induction l generalizing base with
  | nil => exact .nil
  | cons a l rest =>
    exact List.pairwise_cons.mpr ⟨fun f mem => .inl (spans_bounds mem).1, rest⟩

/-- Every address of the strings is in one of them. -/
theorem spans_cover (low : base ≤ x) (high : x < base + (stringsBytes l).length) : ∃ e ∈ spans base l, e.1 ≤ x ∧ x < e.stop := by
  induction l generalizing base with
  | nil => exact absurd high (Nat.not_lt.mpr low)
  | cons a l rest =>
    rw [length_stringsBytes_cons] at high
    by_cases here : x < base + (a.length + 1)
    · exact ⟨(base, a), List.mem_cons_self, low, here⟩
    · obtain ⟨e, mem, inside⟩ := rest (show base + (a.length + 1) ≤ x by omega) (by omega)
      exact ⟨e, List.mem_cons_of_mem _ mem, inside⟩

theorem spans_listAt (holds : ListAt id read base (stringsBytes l)) (mem : e ∈ spans base l) : ListAt id read e.1 (e.2 ++ [0]) := by
  induction l generalizing base with
  | nil => cases mem
  | cons a l rest =>
    rw [stringsBytes, List.flatMap_cons, listAt_append] at holds
    rcases List.mem_cons.mp mem with rfl | mem
    · exact holds.1
    · refine rest ?_ mem
      have length : (a ++ [0] : List UInt8).length = a.length + 1 := by simp
      exact length ▸ holds.2

theorem mem_places_iff {p : Nat} : p ∈ places base l ↔ ∃ e ∈ spans base l, e.1 = p := by
  have fst : (spans base l).map Prod.fst = places base l := List.map_fst_zip (by rw [length_places])
  rw [← fst, List.mem_map]

end Spans

theorem wordBytes_inj {w w' : Nat} (small : w < 2 ^ 32) (small' : w' < 2 ^ 32) (same : wordBytes w = wordBytes w') : w = w' := by
  simp only [wordBytes, List.cons.injEq, and_true] at same
  obtain ⟨one, two, three, four⟩ := same
  have one := congrArg UInt8.toNat one
  have two := congrArg UInt8.toNat two
  have three := congrArg UInt8.toNat three
  have four := congrArg UInt8.toNat four
  simp only [Nat.toUInt8, UInt8.toNat_ofNat'] at one two three four
  omega

theorem wordsBytes_inj {ws ws' : List Nat} (small : ∀ w ∈ ws, w < 2 ^ 32) (small' : ∀ w ∈ ws', w < 2 ^ 32)
    (length : ws.length = ws'.length) (same : wordsBytes ws = wordsBytes ws') : ws = ws' := by
  induction ws generalizing ws' with
  | nil => exact (List.length_eq_zero_iff.mp length.symm).symm
  | cons w ws rest =>
    cases ws' with
    | nil => cases length
    | cons w' ws' =>
      rw [wordsBytes, List.flatMap_cons, wordsBytes, List.flatMap_cons] at same
      obtain ⟨first, others⟩ := List.append_inj same rfl
      rw [wordBytes_inj (small w (by simp)) (small' w' (by simp)) first,
        rest (fun v mem => small v (by simp [mem])) (fun v mem => small' v (by simp [mem])) (Nat.succ.inj length) others]

section Pointers
variable {read : Nat → UInt8} {start stop base : Nat} {args env : List (List UInt8)}

theorem pointer_eq {p : Nat} (page : p / pageSize = start / pageSize) : pointer start p = p := by
  unfold pointer pageAlign
  rw [← page, Nat.div_add_mod']

theorem pointer_le {p : Nat} (le : start ≤ p) : pointer start p ≤ p := by
  unfold pointer pageAlign pageSize
  omega

theorem pointer_page (start p : Nat) : pointer start p / pageSize = start / pageSize := by
  unfold pointer pageAlign pageSize
  omega

theorem stackWords_inj {ps qs ps' qs' : List Nat} (length : ps'.length = ps.length) (length' : qs'.length = qs.length)
    (same : stackWords ps' qs' = stackWords ps qs) : ps' = ps ∧ qs' = qs := by
  obtain ⟨first, rest⟩ := List.append_inj (List.cons.inj same).2 length
  exact ⟨first, (List.append_inj (List.cons.inj rest).2 length').1⟩

theorem stackWords_small {ps qs : List Nat} (few : ps.length < 2 ^ 32) (small : ∀ p ∈ ps ++ qs, p < 2 ^ 32) :
    ∀ w ∈ stackWords ps qs, w < 2 ^ 32 := by
  intro w mem
  simp only [stackWords, List.mem_cons, List.mem_append, List.not_mem_nil, or_false] at mem
  rcases mem with rfl | mem | rfl | mem | rfl
  · exact few
  · exact small w (List.mem_append_left _ mem)
  · decide
  · exact small w (List.mem_append_right _ mem)
  · decide

/-- The pointers that were written are right if and only if all strings begin on the page where the stack begins. -/
theorem wellFormed_iff (is : base = start + 4 * (args.length + env.length + 3)) (room : base + (stringsBytes (args ++ env)).length ≤ stop)
    (small : stop ≤ 2 ^ 32) (holds : ListAt id read start (image (pointer start) base args env)) :
    WellFormed read start stop args env ↔ ∀ p ∈ places base (args ++ env), p / pageSize = start / pageSize := by
  rw [image, listAt_append] at holds
  obtain ⟨words, strings⟩ := holds
  generalize made : (places base args).map (pointer start) = ps at words strings
  generalize made' : (places (base + (stringsBytes args).length) env).map (pointer start) = qs at words strings
  have lengths : ps.length = args.length ∧ qs.length = env.length := by
    simp [← made, ← made', length_places]
  have all : ps ++ qs = (places base (args ++ env)).map (pointer start) := by
    rw [places_append, List.map_append, made, made']
  have zipped : (ps ++ qs).zip (args ++ env) = (spans base (args ++ env)).map (fun e => (pointer start e.1, e.2)) := by
    rw [all, spans, List.zip_map_left]
    rfl
  have text : ListAt id read base (stringsBytes (args ++ env)) := by
    rw [length_wordsBytes] at strings
    have length : start + 4 * (stackWords ps qs).length = base := by
      simp [stackWords, lengths.1, lengths.2, is]
      omega
    rwa [length] at strings
  have below : ∀ e ∈ spans base (args ++ env), start ≤ e.1 ∧ e.1 < stop := fun e mem => by
    have bounds := spans_bounds mem
    unfold Span.stop at bounds
    omega
  constructor
  · rintro ⟨fits, ps', qs', length, length', words', there, apart⟩
    obtain ⟨rfl, rfl⟩ : ps' = ps ∧ qs' = qs := by
      refine stackWords_inj (length.trans lengths.1.symm) (length'.trans lengths.2.symm) (wordsBytes_inj ?_ ?_ ?_ ?_)
      · refine stackWords_small (by omega) (fun p mem => ?_)
        have fst : ((ps' ++ qs').zip (args ++ env)).map Prod.fst = ps' ++ qs' := List.map_fst_zip (by simp [length, length'])
        rw [← fst] at mem
        obtain ⟨e, zip, rfl⟩ := List.mem_map.mp mem
        have bound := (there e zip).2.2
        unfold Span.stop at bound
        omega
      · refine stackWords_small (by omega) (fun p mem => ?_)
        rw [all] at mem
        obtain ⟨q, place, rfl⟩ := List.mem_map.mp mem
        obtain ⟨e, span, rfl⟩ := mem_places_iff.mp place
        have := pointer_le (below e span).1
        have := (below e span).2
        omega
      · simp [stackWords, length, length', lengths.1, lengths.2]
      · exact words'.unique words (by simp [length_wordsBytes, stackWords, length, length', lengths.1, lengths.2])
    rw [zipped] at there apart
    rw [List.pairwise_map] at apart
    intro p place
    obtain ⟨e, mem, rfl⟩ := mem_places_iff.mp place
    by_contra other
    -- The pointer is into the first page, and what is there belongs to a string that begins on this page.
    have page := pointer_page start e.1
    have le := pointer_le (below e mem).1
    have low := (there _ (List.mem_map_of_mem mem)).2.1
    have bounds := spans_bounds mem
    unfold Span.stop at bounds
    obtain ⟨f, memf, first, last⟩ := spans_cover (l := args ++ env) (x := pointer start e.1) (is ▸ low) (by omega)
    have pagef : f.1 / pageSize = start / pageSize := by
      have := (below f memf).1
      unfold pageSize at *
      omega
    have ne : e ≠ f := fun same => other (same ▸ pagef)
    have : Std.Symm (fun e f : Span => Span.Apart (pointer start e.1, e.2) (pointer start f.1, f.2)) := ⟨fun _ _ => Or.symm⟩
    rcases apart.forall mem memf ne with before | behind
    · have : pointer start e.1 + (e.2.length + 1) ≤ pointer start f.1 := before
      rw [pointer_eq pagef] at this
      omega
    · have : pointer start f.1 + (f.2.length + 1) ≤ pointer start e.1 := behind
      rw [pointer_eq pagef] at this
      unfold Span.stop at last
      omega
  · intro one
    have same : (spans base (args ++ env)).map (fun e => (pointer start e.1, e.2)) = spans base (args ++ env) := by
      refine (List.map_congr_left (fun e mem => ?_)).trans (List.map_id _)
      rw [pointer_eq (one e.1 (mem_places_iff.mpr ⟨e, mem, rfl⟩))]
      rfl
    rw [same] at zipped
    refine ⟨by omega, ps, qs, lengths.1, lengths.2, words, fun e mem => ?_, zipped ▸ spans_apart⟩
    rw [zipped] at mem
    have bounds := spans_bounds mem
    exact ⟨spans_listAt text mem, by omega, by omega⟩

end Pointers

/-! ## The pages of the task in the pager -/

section Alias
variable {frame table : Nat → Nat} {first virt n k : Nat}

theorem mapPages_below {a : Nat} (below : a < virt) : mapPages frame first virt n table a = table a := by
  induction n generalizing first virt table with
  | zero => rfl
  | succ n rest =>
    rw [mapPages, rest (by omega)]
    exact Function.update_of_ne (by omega) ..

theorem mapPages_at (lt : k < n) : mapPages frame first virt n table (virt + k) = frame (first + k) := by
  induction n generalizing first virt table k with
  | zero => omega
  | succ n rest =>
    rw [mapPages]
    cases k with
    | zero =>
      rw [mapPages_below (by omega)]
      exact Function.update_self ..
    | succ k =>
      rw [show virt + (k + 1) = virt + 1 + k by omega, rest (by omega), show first + 1 + k = first + (k + 1) by omega]

/-- The pager's address of a byte is translated as the task's. -/
theorem translate_alias {start i : Nat} (aligned : virt % pageSize = 0) (inside : start + i < (start / pageSize + n) * pageSize) :
    translate (mapPages frame (start / pageSize) (virt / pageSize) n table) (virt + start % pageSize + i) = translate frame (start + i) := by
  have page : (virt + start % pageSize + i) / pageSize = virt / pageSize + ((start + i) / pageSize - start / pageSize) := by
    unfold pageSize at *
    omega
  have offset : (virt + start % pageSize + i) % pageSize = (start + i) % pageSize := by
    unfold pageSize at *
    omega
  have lt : (start + i) / pageSize - start / pageSize < n := by
    unfold pageSize at *
    omega
  have back : start / pageSize + ((start + i) / pageSize - start / pageSize) = (start + i) / pageSize := by
    unfold pageSize
    omega
  rw [translate, page, mapPages_at lt, offset, back, translate]

theorem translate_inj {a b : Nat} (same : translate frame a = translate frame b) :
    frame (a / pageSize) = frame (b / pageSize) ∧ a % pageSize = b % pageSize := by
  unfold translate pageSize at *
  omega

end Alias

theorem pointer_mod {userPtr a b : Nat} (same : a % pageSize = b % pageSize) : pointer userPtr a = pointer userPtr b := by
  rw [pointer, same, pointer]

theorem places_pointer {userPtr a b : Nat} (same : a % pageSize = b % pageSize) (l : List (List UInt8)) :
    (places a l).map (pointer userPtr) = (places b l).map (pointer userPtr) := by
  induction l generalizing a b with
  | nil => rfl
  | cons x l rest =>
    rw [places, places, List.map_cons, List.map_cons, pointer_mod same, rest (Nat.ModEq.add_right (x.length + 1) same)]

theorem image_pointer {userPtr a b : Nat} (same : a % pageSize = b % pageSize) (args env : List (List UInt8)) :
    image (pointer userPtr) a args env = image (pointer userPtr) b args env := by
  rw [image, image, places_pointer same args, places_pointer (Nat.ModEq.add_right (stringsBytes args).length same) env]

/-! ## The whole call -/

section Whole
variable {s : Mm} {t : TaskId} {regionEnd : Nat} {args env : Args} {res : Resources} {m : Memory} {r : Stack}

/-- The task has different frames on its stack. -/
def Distinct (frame : Nat → Nat) (first stop : Nat) : Prop := ∀ p q, first ≤ p → p < stop → first ≤ q → q < stop → frame p = frame q → p = q

theorem stackUsed_room (args env : Args) :
    4 * (args.argv.length + env.argv.length + 3) + (stringsBytes (args.argv ++ env.argv)).length ≤ stackUsed args env := by
  have packed := args.packed
  have packed' := env.packed
  unfold packedSize at packed packed'
  rw [stringsBytes_append, List.length_append, length_stringsBytes, length_stringsBytes, stackUsed]
  omega

/-- What `task_map_stack` leaves in the memory of the task. -/
theorem taskMapStack_image (aligned : res.virt % pageSize = 0) (room : regionEnd * pageSize + pageSize ≤ 2 ^ 32)
    (high : defaultStackSize ≤ regionEnd * pageSize)
    (distinct : Distinct res.frame (r.argsStart / pageSize) regionEnd)
    (ran : taskMapStack s t regionEnd args env res m = .ok (.ok r)) :
    r.argsEnd = regionEnd * pageSize ∧ r.argsStart + stackUsed args env = r.argsEnd ∧
    ListAt id (fun x => r.byte (translate res.frame x)) r.argsStart
      (image (pointer r.argsStart) (r.argsStart + 4 * (args.argv.length + env.argv.length + 3)) args.argv env.argv) := by
  unfold taskMapStack at ran
  dsimp only at ran
  split at ran
  · cases ran
  · next fits =>
    split at ran
    · cases ran
    · cases ran
    · split at ran
      · cases ran
      · obtain ⟨m', copied, same⟩ := bind_eq_ok.mp ran
        cases same
        dsimp only at *
        have space := stackUsed_room args env
        generalize used : stackUsed args env = n at *
        generalize starts : regionEnd * pageSize - n = start at *
        have sum : start + n = regionEnd * pageSize := by omega
        have last : endPage start n = regionEnd := by
          rw [endPage, sum]
          unfold pageSize at *
          omega
        rw [last] at copied
        have pages : start / pageSize + (regionEnd - start / pageSize) = regionEnd := by
          unfold pageSize at *
          omega
        have both : ∀ i, i < n → translate (mapPages res.frame (start / pageSize) (res.virt / pageSize)
            (regionEnd - start / pageSize) res.table) (res.virt + start % pageSize + i) = translate res.frame (start + i) := fun i lt =>
          translate_alias aligned (by rw [pages]; omega)
        generalize translate (mapPages res.frame (start / pageSize) (res.virt / pageSize) (regionEnd - start / pageSize) res.table) = loc
          at copied both
        have apart : Separates loc (res.virt + start % pageSize) (res.virt + start % pageSize + n) := by
          intro a b low high low' high' same
          obtain ⟨i, rfl⟩ := Nat.exists_eq_add_of_le low
          obtain ⟨j, rfl⟩ := Nat.exists_eq_add_of_le low'
          rw [both i (by omega), both j (by omega)] at same
          obtain ⟨frames, offset⟩ := translate_inj same
          have page := distinct ((start + i) / pageSize) ((start + j) / pageSize) (by unfold pageSize; omega)
            (by unfold pageSize at *; omega) (by unfold pageSize; omega) (by unfold pageSize at *; omega) frames
          unfold pageSize at *
          omega
        refine ⟨rfl, sum, fun i x is => ?_⟩
        have written := taskCopyArgsToUser_image apart (by omega) copied
        have mod : (res.virt + start % pageSize + 4 * (args.argv.length + env.argv.length + 3)) % pageSize =
            (start + 4 * (args.argv.length + env.argv.length + 3)) % pageSize := by
          unfold pageSize at *
          omega
        rw [image_pointer mod] at written
        have lt : i < n := by
          have inside := (List.getElem?_eq_some_iff.mp is).1
          rw [length_image] at inside
          omega
        show m' (translate res.frame (start + i)) = x
        rw [← both i lt]
        exact written i x is

/-- The stack is well formed if and only if every string begins on the page where the arguments begin. -/
theorem initial_stack_iff (aligned : res.virt % pageSize = 0) (room : regionEnd * pageSize + pageSize ≤ 2 ^ 32)
    (high : defaultStackSize ≤ regionEnd * pageSize)
    (distinct : Distinct res.frame (r.argsStart / pageSize) regionEnd)
    (ran : taskMapStack s t regionEnd args env res m = .ok (.ok r)) :
    WellFormed (fun x => r.byte (translate res.frame x)) r.argsStart r.argsEnd args.argv env.argv ↔
      ∀ p ∈ places (r.argsStart + 4 * (args.argv.length + env.argv.length + 3)) (args.argv ++ env.argv),
        p / pageSize = r.argsStart / pageSize := by
  obtain ⟨ends, used, holds⟩ := taskMapStack_image aligned room high distinct ran
  have space := stackUsed_room args env
  exact wellFormed_iff rfl (by omega) (by omega) holds

end Whole

/-! ## Programs with one argument and one variable -/

def oneString (a : List UInt8) (plain : 0 ∉ a) : Args :=
  { argv := [a], size := 8 + (a.length + 1), plain := by simpa using plain, packed := by simp [packedSize] }

def spareFrames : Resources := { frame := fun p => p + 0x1000, table := fun p => p, virt := 0x5000, vma := 10, split := 11 }

theorem spareFrames_distinct (first stop : Nat) : Distinct spareFrames.frame first stop := fun _ _ _ _ _ _ same => Nat.add_right_cancel same

theorem initial_stack_short : ∃ r, taskMapStack bootState 1 0x200 (oneString [97, 98] (by decide)) (oneString [99] (by decide)) spareFrames
      (fun _ => 0) = .ok (.ok r) ∧ r.argsStart = 0x1fffd0 ∧
    WellFormed (fun x => r.byte (translate spareFrames.frame x)) r.argsStart r.argsEnd [[97, 98]] [[99]] := by
  have ran : (taskMapStack bootState 1 0x200 (oneString [97, 98] (by decide)) (oneString [99] (by decide)) spareFrames
      (fun _ => 0)).toOption.map (fun r => r.toOption.map Stack.argsStart) = some (some 0x1fffd0) := rfl
  obtain ⟨r, ran, ok⟩ := Option.map_eq_some_iff.mp ran
  obtain ⟨r, ok, start⟩ := Option.map_eq_some_iff.mp ok
  cases toOption_eq_some.mp ok
  have called := toOption_eq_some.mp ran
  refine ⟨r, called, start, (initial_stack_iff rfl (by decide) (by decide) (spareFrames_distinct _ _) called).mpr ?_⟩
  rw [start]
  decide

/-- An argument of `n` letters. -/
def letters (n : Nat) : List UInt8 := List.replicate n 97

theorem letters_length (n : Nat) : (letters n).length = n := List.length_replicate

theorem letters_plain (n : Nat) : 0 ∉ letters n := fun mem => absurd (List.eq_of_mem_replicate mem) (by decide)

theorem second_place (base : Nat) (a b : List UInt8) : base + (a.length + 1) ∈ places base ([a] ++ [b]) :=
  List.mem_cons_of_mem _ List.mem_cons_self

/-- The variable stands on the page behind the one where the arguments begin, and its pointer is to the same offset of the first
page: to the pointer itself, where an empty string is read. -/
theorem initial_stack_crossing : ∃ r, taskMapStack bootState 1 0x200 (oneString (letters 4090) (letters_plain _)) (oneString [98] (by decide))
      spareFrames (fun _ => 0) = .ok (.ok r) ∧
    ListAt id (fun x => r.byte (translate spareFrames.frame x)) (0x1fefd8 + 12) (wordBytes 0x1fefe7) ∧
    r.byte (translate spareFrames.frame 0x1fefe7) = 0 ∧
    ¬ WellFormed (fun x => r.byte (translate spareFrames.frame x)) r.argsStart r.argsEnd [letters 4090] [[98]] := by
  have ran : (taskMapStack bootState 1 0x200 (oneString (letters 4090) (letters_plain _)) (oneString [98] (by decide)) spareFrames
      (fun _ => 0)).toOption.map (fun r => r.toOption.map Stack.argsStart) = some (some 0x1fefd8) := by
    have used : stackUsed (oneString (letters 4090) (letters_plain _)) (oneString [98] (by decide)) = 4136 := by
      rw [stackUsed, show (oneString (letters 4090) (letters_plain _)).size = 8 + ((letters 4090).length + 1) from rfl, letters_length]
      rfl
    unfold taskMapStack
    rw [used]
    rfl
  obtain ⟨r, ran, ok⟩ := Option.map_eq_some_iff.mp ran
  obtain ⟨r, ok, start⟩ := Option.map_eq_some_iff.mp ok
  cases toOption_eq_some.mp ok
  have called := toOption_eq_some.mp ran
  obtain ⟨ends, used, holds⟩ := taskMapStack_image rfl (by decide) (by decide) (spareFrames_distinct _ _) called
  have bytes : (stringsBytes [letters 4090]).length = 4091 := by
    rw [length_stringsBytes, List.map_singleton, letters_length, List.sum_singleton]
  have space : 4 * ([letters 4090].length + [[98]].length + 3) + (stringsBytes ([letters 4090] ++ [[98]])).length ≤ _ :=
    stackUsed_room (oneString (letters 4090) (letters_plain _)) (oneString [98] (by decide))
  have ends : r.argsEnd = 0x200000 := ends
  have formed : WellFormed (fun x => r.byte (translate spareFrames.frame x)) r.argsStart r.argsEnd [letters 4090] [[98]] ↔ _ :=
    wellFormed_iff rfl (by omega) (by omega) holds
  rw [start] at holds formed
  have image : image (pointer 0x1fefd8) (0x1fefd8 + 20) [letters 4090] [[98]] =
      (wordBytes 1 ++ wordBytes 0x1fefec ++ wordBytes 0) ++ (wordBytes 0x1fefe7 ++ (wordBytes 0 ++ stringsBytes [letters 4090, [98]])) := by
    rw [InitialStack.image, bytes]
    rfl
  have pointer : ListAt id (fun x => r.byte (translate spareFrames.frame x)) (0x1fefd8 + 12) (wordBytes 0x1fefe7) := by
    have whole := listAt_append.mp (image ▸ holds)
    exact (listAt_append.mp whole.2).1
  refine ⟨r, called, pointer, pointer 3 0 rfl, fun well => ?_⟩
  rw [start] at well
  have page := formed.mp well _ (second_place _ _ _)
  rw [letters_length] at page
  exact absurd page (by decide)

end Codezero.Mm0.InitialStack
