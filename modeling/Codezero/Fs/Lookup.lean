import Codezero.Fs.Path

/-!
# Looking a path up

The lookup descends by a mutual recursion that takes the components off one list, and goes on to the next sibling with
what is left of the list when a descent has failed. It reads the vnodes and dentries through `Vfs`, which also gives it
`readdir`, so that the same lookup stands over a tree and over the caches of a file system.
-/

namespace Codezero.Fs

def enoent : Int := -2
def enotdir : Int := -20

/-- What the lookup reads, and the operation that it calls. -/
structure Vfs (σ V D β : Type) where
  dentries : σ → V → List D
  isDir : σ → V → Bool
  name : σ → D → Str
  children : σ → D → List D
  vnode : σ → D → V
  readdir : σ → V → Except β (σ × Int)

/-- Where a lookup stops: at a check, or because the depth it may use is up. -/
inductive Halt (β : Type)
  | bug (b : β)
  | unfinished
  deriving DecidableEq, Repr

def Halt.lift {α β : Type} : Except β α → Except (Halt β) α
  | .ok a => .ok a
  | .error b => .error (.bug b)

section
variable {σ V D β : Type} (fs : Vfs σ V D β)

def genericDentryCompare (s : σ) (d : D) (component : Str) : Bool :=
  decide (fs.name s d = component) || decide (component = vfsStrCurdir)

/-- The loop of `lookup_dentry_children`; `lookup` is the operation of the child's vnode. The components that are left
come back with the result. -/
def lookupChildren (lookup : σ → V → List Str → Str → Except (Halt β) (σ × List Str × Except Int V)) (component : Str) :
    σ → List D → List Str → Except (Halt β) (σ × List Str × Except Int V)
  | s, [], pdata => pure (s, pdata, .error enoent)
  | s, childdir :: rest, pdata => do
    let (s, pdata, v) ← lookup s (fs.vnode s childdir) pdata component
    match v with
    | .ok v => pure (s, pdata, .ok v)
    | .error e => if e = enoent then lookupChildren lookup component s rest pdata else pure (s, pdata, .error e)

/-- `generic_vnode_lookup`, for a depth of recursion. Its loop over the dentries returns at the first that matches. -/
def genericVnodeLookup : Nat → σ → V → List Str → Str → Except (Halt β) (σ × List Str × Except Int V)
  | 0, _, _, _, _ => .error .unfinished
  | depth + 1, s, thisnode, pdata, component =>
    match (fs.dentries s thisnode).find? (fun d => genericDentryCompare fs s d component) with
    | none => pure (s, pdata, .error enoent)
    | some d =>
      if fs.isDir s thisnode then
        match pdata with
        | [] => pure (s, [], .ok thisnode)
        | next :: pdata => do
          let (s, err) ← Halt.lift (fs.readdir s (fs.vnode s d))
          if err < 0 then
            pure (s, next :: pdata, .error err)
          else
            -- `lookup_dentry_children` takes the component and returns a vnode or an error, so it ends the search
            lookupChildren fs (genericVnodeLookup depth) next s (fs.children s d) pdata
      else if pdata ≠ [] then
        pure (s, pdata, .error enotdir)
      else
        pure (s, [], .ok thisnode)

/-- `vfs_vnode_lookup_bypath`; `none` for its check that the list is not empty. -/
def vfsVnodeLookupBypath (s : σ) (vstart : V) : List Str → Option (Except (Halt β) (σ × List Str × Except Int V))
  | [] => none
  | firstcomp :: pdata => some (genericVnodeLookup fs (pdata.length + 1) s vstart pdata firstcomp)

end

/-! ## Trees -/

section
variable {σ V D β : Type} (fs : Vfs σ V D β) (s : σ)

/-- The dentries of a directory tree. -/
structure DirTree (tree : Set D) : Prop where
  /-- Each vnode has one dentry. -/
  single : ∀ d ∈ tree, fs.dentries s (fs.vnode s d) = [d]
  closed : ∀ d ∈ tree, ∀ c ∈ fs.children s d, c ∈ tree
  distinct : ∀ d ∈ tree, ((fs.children s d).map (fs.name s)).Nodup
  leaf : ∀ d ∈ tree, fs.isDir s (fs.vnode s d) = false → fs.children s d = []
  readdir : ∀ d ∈ tree, fs.isDir s (fs.vnode s d) = true → ∃ r, 0 ≤ r ∧ fs.readdir s (fs.vnode s d) = .ok (s, r)

/-- Following names from child to child. -/
inductive Leads : D → List Str → D → Prop
  | here (d : D) : Leads d [] d
  | down {d c e : D} {names : List Str} : c ∈ fs.children s d → Leads c names e → Leads d (fs.name s c :: names) e

/-- A part of the names, but not all of them, leads to something that is not a directory. -/
def Obstructed (d : D) (names : List Str) : Prop :=
  ∃ front rest e, names = front ++ rest ∧ rest ≠ [] ∧ Leads fs s d front e ∧ fs.isDir s (fs.vnode s e) = false

/-- The result of a walk. -/
structure Answers (d : D) (names : List Str) (r : Except Int V) : Prop where
  found : ∀ e, Leads fs s d names e → r = .ok (fs.vnode s e)
  obstructed : Obstructed fs s d names → r = .error enotdir
  missing : ¬ Obstructed fs s d names → (¬ ∃ e, Leads fs s d names e) → r = .error enoent

end

section
variable {σ V D β : Type} {fs : Vfs σ V D β} {s : σ} {tree : Set D} {c d e : D} {n : Str} {names pdata : List Str}
  {depth : Nat} {r : Except Int V}

theorem leads_nil : Leads fs s d [] e ↔ d = e := by
  constructor
  · intro leads
    cases leads
    rfl
  · rintro rfl
    exact .here d

theorem leads_cons : Leads fs s d (n :: names) e ↔ ∃ c ∈ fs.children s d, fs.name s c = n ∧ Leads fs s c names e := by
  constructor
  · intro leads
    cases leads with
    | down mem rest => exact ⟨_, mem, rfl, rest⟩
  · rintro ⟨c, mem, rfl, rest⟩
    exact .down mem rest

theorem not_obstructed_nil : ¬ Obstructed fs s d [] := by
  rintro ⟨front, rest, e, split, left, -⟩
  exact left (List.append_eq_nil_iff.mp split.symm).2

theorem obstructed_cons (dir : fs.isDir s (fs.vnode s d) = true) :
    Obstructed fs s d (n :: names) ↔ ∃ c ∈ fs.children s d, fs.name s c = n ∧ Obstructed fs s c names := by
  constructor
  · rintro ⟨front, rest, e, split, left, leads, file⟩
    cases front with
    | nil =>
      rw [leads_nil.mp leads] at dir
      exact nomatch dir.symm.trans file
    | cons n' front =>
      obtain ⟨rfl, rfl⟩ := List.cons.inj split
      obtain ⟨c, mem, name, leads⟩ := leads_cons.mp leads
      exact ⟨c, mem, name, front, rest, e, rfl, left, leads, file⟩
  · rintro ⟨c, mem, rfl, front, rest, e, rfl, left, leads, file⟩
    exact ⟨fs.name s c :: front, rest, e, rfl, left, .down mem leads, file⟩

/-- A name that only one child has decides the rest of the walk. -/
theorem Answers.down (answers : Answers fs s c names r) (dir : fs.isDir s (fs.vnode s d) = true) (mem : c ∈ fs.children s d)
    (only : ∀ c' ∈ fs.children s d, fs.name s c' = fs.name s c → c' = c) : Answers fs s d (fs.name s c :: names) r where
  found e leads := by
    obtain ⟨c', mem', name, leads⟩ := leads_cons.mp leads
    exact answers.found e (only c' mem' name ▸ leads)
  obstructed obstructed := by
    obtain ⟨c', mem', name, obstructed⟩ := (obstructed_cons dir).mp obstructed
    exact answers.obstructed (only c' mem' name ▸ obstructed)
  missing clear none := by
    refine answers.missing (fun obstructed => clear ?_) fun ⟨e, leads⟩ => none ⟨e, .down mem leads⟩
    exact (obstructed_cons dir).mpr ⟨c, mem, rfl, obstructed⟩

theorem genericVnodeLookup_miss (single : fs.dentries s (fs.vnode s d) = [d]) (other : fs.name s d ≠ n) (real : n ≠ vfsStrCurdir) :
    genericVnodeLookup fs (depth + 1) s (fs.vnode s d) pdata n = .ok (s, pdata, .error enoent) := by
  simp [genericVnodeLookup, single, genericDentryCompare, other, real, pure, Except.pure]

theorem lookupChildren_miss {children : List D} (single : ∀ c ∈ children, fs.dentries s (fs.vnode s c) = [c])
    (others : ∀ c ∈ children, fs.name s c ≠ n) (real : n ≠ vfsStrCurdir) :
    lookupChildren fs (genericVnodeLookup fs (depth + 1)) n s children pdata = .ok (s, pdata, .error enoent) := by
  induction children with
  | nil => rfl
  | cons c children ih =>
    rw [lookupChildren, genericVnodeLookup_miss (single c List.mem_cons_self) (others c List.mem_cons_self) real]
    exact ih (fun c mem => single c (List.mem_cons_of_mem _ mem)) fun c mem => others c (List.mem_cons_of_mem _ mem)

/-- The loop over the children returns what the one of that name gives: after a failed descent none of the others match. -/
theorem lookupChildren_hit {front back : List D} {rest : List Str}
    (single : ∀ c' ∈ front ++ c :: back, fs.dentries s (fs.vnode s c') = [c'])
    (distinct : ((front ++ c :: back).map (fs.name s)).Nodup) (real : fs.name s c ≠ vfsStrCurdir)
    (below : genericVnodeLookup fs (depth + 1) s (fs.vnode s c) pdata (fs.name s c) = .ok (s, rest, r)) :
    lookupChildren fs (genericVnodeLookup fs (depth + 1)) (fs.name s c) s (front ++ c :: back) pdata = .ok (s, rest, r) := by
  simp only [List.map_append, List.map_cons, List.nodup_append, List.nodup_cons] at distinct
  induction front with
  | nil =>
    rw [List.nil_append, lookupChildren, below]
    cases r with
    | ok v => rfl
    | error e =>
      by_cases absent : e = enoent
      · subst absent
        have others : ∀ c' ∈ back, fs.name s c' ≠ fs.name s c := fun c' mem same => distinct.2.1.1 (same ▸ List.mem_map_of_mem mem)
        simp only [bind, Except.bind, if_true]
        exact lookupChildren_miss (fun c' mem => single c' (List.mem_cons_of_mem c mem)) others real
      · exact if_neg absent
  | cons c' front ih =>
    have other : fs.name s c' ≠ fs.name s c := distinct.2.2 _ (by simp) _ (by simp)
    rw [List.cons_append, lookupChildren, genericVnodeLookup_miss (single c' (by simp)) other real]
    refine ih (fun d mem => single d (List.mem_cons_of_mem c' mem)) ⟨?_, distinct.2.1, fun a mem => distinct.2.2 a ?_⟩
    · exact (List.nodup_cons.mp distinct.1).2
    · exact List.mem_cons_of_mem _ mem

theorem genericVnodeLookup_answers (dirs : DirTree fs s tree) (mem : d ∈ tree) (real : ∀ n ∈ names, n ≠ vfsStrCurdir)
    (deep : names.length < depth) :
    ∃ rest r, genericVnodeLookup fs depth s (fs.vnode s d) names (fs.name s d) = .ok (s, rest, r) ∧ Answers fs s d names r := by
  obtain ⟨depth, rfl⟩ : ∃ m, depth = m + 1 := ⟨depth - 1, by omega⟩
  -- by induction on the names: each descent takes one
  induction names generalizing d depth with
  | nil =>
    refine ⟨[], .ok (fs.vnode s d), ?_, fun e leads => leads_nil.mp leads ▸ rfl, fun obstructed => ?_, fun _ none => ?_⟩
    · simp [genericVnodeLookup, dirs.single d mem, genericDentryCompare, pure, Except.pure]
    · exact absurd obstructed not_obstructed_nil
    · exact absurd ⟨d, .here d⟩ none
  | cons n names ih =>
    have enter : ∀ m, genericVnodeLookup fs (m + 1) s (fs.vnode s d) (n :: names) (fs.name s d) =
        if fs.isDir s (fs.vnode s d) then do
          let (s, err) ← Halt.lift (fs.readdir s (fs.vnode s d))
          if err < 0 then pure (s, n :: names, .error err)
          else lookupChildren fs (genericVnodeLookup fs m) n s (fs.children s d) names
        else pure (s, n :: names, .error enotdir) := fun m => by
      simp [genericVnodeLookup, dirs.single d mem, genericDentryCompare]
    rw [enter]
    by_cases dir : fs.isDir s (fs.vnode s d) = true
    · obtain ⟨code, success, read⟩ := dirs.readdir d mem dir
      obtain ⟨depth, rfl⟩ : ∃ m, depth = m + 1 := ⟨depth - 1, by simp at deep; omega⟩
      have single : ∀ c ∈ fs.children s d, fs.dentries s (fs.vnode s c) = [c] := fun c child =>
        dirs.single c (dirs.closed d mem c child)
      rw [if_pos dir, read]
      simp only [Halt.lift, bind, Except.bind, if_neg (not_lt.mpr success)]
      by_cases known : ∃ c ∈ fs.children s d, fs.name s c = n
      · obtain ⟨c, child, rfl⟩ := known
        obtain ⟨rest, r, below, answers⟩ := ih (dirs.closed d mem c child) (fun n later => real n (List.mem_cons_of_mem _ later))
          depth (by simpa using deep)
        have only : ∀ c' ∈ fs.children s d, fs.name s c' = fs.name s c → c' = c := fun c' child' same =>
          List.inj_on_of_nodup_map (dirs.distinct d mem) child' child same
        refine ⟨rest, r, ?_, answers.down dir child only⟩
        obtain ⟨front, back, split⟩ := List.append_of_mem child
        rw [split] at single ⊢
        exact lookupChildren_hit single (split ▸ dirs.distinct d mem) (real _ List.mem_cons_self) below
      · refine ⟨names, .error enoent, lookupChildren_miss single (fun c child same => known ⟨c, child, same⟩)
          (real n List.mem_cons_self), fun e leads => ?_, fun obstructed => ?_, fun _ _ => rfl⟩
        · obtain ⟨c, child, name, -⟩ := leads_cons.mp leads
          exact absurd ⟨c, child, name⟩ known
        · obtain ⟨c, child, name, -⟩ := (obstructed_cons dir).mp obstructed
          exact absurd ⟨c, child, name⟩ known
    · have file : fs.isDir s (fs.vnode s d) = false := Bool.eq_false_iff.mpr dir
      have blocked : Obstructed fs s d (n :: names) := ⟨[], n :: names, d, rfl, List.cons_ne_nil n names, .here d, file⟩
      refine ⟨n :: names, .error enotdir, if_neg dir, fun e leads => ?_, fun _ => rfl, fun clear => absurd blocked clear⟩
      obtain ⟨c, child, -⟩ := leads_cons.mp leads
      rw [dirs.leaf d mem file] at child
      cases child

end

/-- For every tree of dentries, every start in it and all further components: the lookup by the start's name and the
components ends, leaves the tree as it is and returns the vnode that the components lead to; `-ENOTDIR` if some of them, but
not all, lead to something that is not a directory; and `-ENOENT` if otherwise they lead nowhere. -/
theorem generic_vnode_lookup_walks {σ V D β : Type} (fs : Vfs σ V D β) (s : σ) (tree : Set D) (dirs : DirTree fs s tree) (d : D)
    (mem : d ∈ tree) (names : List Str) (real : ∀ n ∈ names, n ≠ vfsStrCurdir) (depth : Nat) (deep : names.length < depth) :
    ∃ rest r, genericVnodeLookup fs depth s (fs.vnode s d) names (fs.name s d) = .ok (s, rest, r) ∧
      (∀ e, Leads fs s d names e → r = .ok (fs.vnode s e)) ∧
      ((∃ front rest e, names = front ++ rest ∧ rest ≠ [] ∧ Leads fs s d front e ∧ fs.isDir s (fs.vnode s e) = false) →
        r = .error enotdir) ∧
      ((¬ ∃ front rest e, names = front ++ rest ∧ rest ≠ [] ∧ Leads fs s d front e ∧ fs.isDir s (fs.vnode s e) = false) →
        (¬ ∃ e, Leads fs s d names e) → r = .error enoent) := by
  obtain ⟨rest, r, ok, answers⟩ := genericVnodeLookup_answers dirs mem real deep
  exact ⟨rest, r, ok, answers.found, answers.obstructed, answers.missing⟩

/-- A root with the file `a` in it; `true` is the root. -/
def rootAndFile : Vfs Unit Bool Bool Empty where
  dentries _ v := [v]
  isDir _ v := v
  name _ d := if d then vfsStrRootdir else [0x61]
  children _ d := if d then [false] else []
  vnode _ d := d
  readdir s _ := .ok (s, 0)

theorem rootAndFile_tree : DirTree rootAndFile () Set.univ where
  single _ _ := rfl
  closed _ _ _ _ := trivial
  distinct d _ := by cases d <;> decide
  leaf d _ file := by cases d with
    | false => rfl
    | true => cases file
  readdir _ _ _ := ⟨0, le_rfl, rfl⟩

theorem generic_vnode_lookup_walks_file :
    ∃ rest r, genericVnodeLookup rootAndFile 2 () true [[0x61]] vfsStrRootdir = .ok ((), rest, r) ∧ r = .ok false := by
  obtain ⟨rest, r, ok, found, -⟩ := generic_vnode_lookup_walks rootAndFile () Set.univ rootAndFile_tree true trivial [[0x61]]
    (by decide) 2 (by decide)
  exact ⟨rest, r, ok, found false (leads_cons.mpr ⟨false, List.mem_cons_self, rfl, .here false⟩)⟩

end Codezero.Fs
