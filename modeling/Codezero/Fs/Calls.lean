import Codezero.Fs.Lookup
import Codezero.Kernel.State
import Codezero.Mm0.IdPool

/-!
# Calls with a path name

`sys_open`, `sys_mkdir`, `sys_chdir` and `sys_stat` over the operations of a file system. A call that creates takes the last
component off the list before it looks the rest up, and a check stops the pager if nothing is left; another one stops it if a task
opens more files than it has descriptors for.
-/

namespace Codezero.Fs
open Codezero.Kernel (Word)
open Codezero.Lib
open Codezero.Mm0 (IdPool idNew idNew_cases)

/-! ## The model -/

def sIfdir : Word := 0x4000
def taskFilesMax : Nat := 32

/-- The operations of a file system that the calls use. -/
structure VfsOps (σ V D β : Type) extends Vfs σ V D β where
  mknod : σ → V → Str → Word → Except β (σ × Except Int V)

/-- Where a call stops: at the check for an empty path, at the one for a descriptor, outside of the path's buffer, or in the
file system. -/
inductive CallStop (β : Type)
  | noPath
  | noFd
  | outside
  | fs (halt : Halt β)
  deriving DecidableEq, Repr

/-- The file system, what the calling task has of it, and the files that are open, each with its vnode if it is of the vfs. -/
structure Pager (σ V F : Type) where
  fs : σ
  fsData : FsData V
  fdpool : IdPool
  fd : Nat → Option F
  files : List (F × Option V)
  openers : F → Nat

section
variable {σ V D β F : Type} (fs : VfsOps σ V D β) (alloc : Nat → Bool)

/-- `vfs_vnode_lookup_bypath` of strings. -/
def lookupFrom (vstart : V) (strs : List Str) (s : σ) : Except (CallStop β) (σ × Except Int V) :=
  match vfsVnodeLookupBypath fs.toVfs s vstart strs with
  | none => throw .noPath
  | some (.error halt) => throw (.fs halt)
  | some (.ok (s, _, v)) => pure (s, v)

/-- The name of a vnode's first dentry. -/
def firstName (s : σ) (v : V) : Str := (((fs.dentries s v).head?).map (fs.name s)).getD []

/-- The end of `sys_chdir`. -/
def enter (p : Pager σ V F) (sv : σ × Except Int V) : Except (CallStop β) (Int × Pager σ V F) :=
  match sv.2 with
  | .error e => pure (e, { p with fs := sv.1 })
  | .ok v =>
    if fs.isDir sv.1 v then pure (0, { p with fs := sv.1, fsData := { p.fsData with curdir := v } })
    else pure (enotdir, { p with fs := sv.1 })

variable [DecidableEq V] [DecidableEq F] (newFile : Option F)

end

/-! ## What the calls rely on -/

section
variable {σ V D β F : Type} (fs : VfsOps σ V D β)

/-- The same tree in two states. -/
structure SameTree (s s' : σ) : Prop where
  dentries : fs.dentries s' = fs.dentries s
  isDir : fs.isDir s' = fs.isDir s
  name : fs.name s' = fs.name s
  children : fs.children s' = fs.children s
  vnode : fs.vnode s' = fs.vnode s

/-- In the states `I`, reading a directory comes to an end and changes no more than what is cached of it; and errors are
negative. -/
structure ReadsWell (I : σ → Prop) : Prop where
  own : ∀ s v d, I s → d ∈ fs.dentries s v → fs.vnode s d = v
  readdir : ∀ s v, I s → fs.isDir s v = true → ∃ s' r, fs.readdir s v = .ok (s', r) ∧ I s' ∧ SameTree fs s s'
  errors : ∀ s v name mode s' e, fs.mknod s v name mode = .ok (s', .error e) → e < 0

/-- What a call that fails leaves as it was. -/
structure Untouched (p p' : Pager σ V F) : Prop where
  tree : SameTree fs p.fs p'.fs
  fdpool : p'.fdpool = p.fdpool
  fd : p'.fd = p.fd
  curdir : p'.fsData.curdir = p.fsData.curdir

/-- A call returns an error and leaves everything as it was, or a value that is `valid`. -/
def Safe (p : Pager σ V F) (valid : Int → Pager σ V F → Prop) (m : Except (CallStop β) (Int × Pager σ V F)) : Prop :=
  ∃ r p', m = .ok (r, p') ∧ (r < 0 ∧ Untouched fs p p' ∨ valid r p')

end

/-! ## Lookups come to an end -/

section
variable {σ V D β : Type} {fs : VfsOps σ V D β} {I : σ → Prop} {s s' s'' : σ}

theorem SameTree.refl (s : σ) : SameTree fs s s := ⟨rfl, rfl, rfl, rfl, rfl⟩

theorem SameTree.trans (first : SameTree fs s s') (second : SameTree fs s' s'') : SameTree fs s s'' :=
  ⟨second.dentries.trans first.dentries, second.isDir.trans first.isDir, second.name.trans first.name,
    second.children.trans first.children, second.vnode.trans first.vnode⟩

theorem SameTree.symm (same : SameTree fs s s') : SameTree fs s' s :=
  ⟨same.dentries.symm, same.isDir.symm, same.name.symm, same.children.symm, same.vnode.symm⟩

/-- What a lookup leaves. -/
structure Looked (fs : VfsOps σ V D β) (I : σ → Prop) (s s' : σ) (pdata rest : List Str) (r : Except Int V) : Prop where
  inv : I s'
  tree : SameTree fs s s'
  left : rest.length ≤ pdata.length
  negative : ∀ e, r = .error e → e < 0

theorem lookupChildren_total {n : Nat} {lookup : σ → V → List Str → Str → Except (Halt β) (σ × List Str × Except Int V)}
    (total : ∀ s v pdata component, I s → pdata.length ≤ n →
      ∃ s' rest r, lookup s v pdata component = .ok (s', rest, r) ∧ Looked fs I s s' pdata rest r)
    (component : Str) (children : List D) (s : σ) (pdata : List Str) (sane : I s) (few : pdata.length ≤ n) :
    ∃ s' rest r, lookupChildren fs.toVfs lookup component s children pdata = .ok (s', rest, r) ∧ Looked fs I s s' pdata rest r := by
  induction children generalizing s pdata with
  | nil => exact ⟨s, pdata, .error enoent, rfl, sane, .refl s, le_rfl, fun e eq => Except.error.inj eq ▸ by decide⟩
  | cons child children ih =>
    obtain ⟨s1, rest, r, ran, looked⟩ := total s (fs.vnode s child) pdata component sane few
    rw [lookupChildren, ran]
    cases r with
    | ok v => exact ⟨s1, rest, .ok v, rfl, looked⟩
    | error e =>
      by_cases absent : e = enoent
      · obtain ⟨s2, rest', r, ran', looked'⟩ := ih s1 rest looked.inv (looked.left.trans few)
        refine ⟨s2, rest', r, (if_pos absent).trans ran', looked'.inv, looked.tree.trans looked'.tree, looked'.left.trans looked.left,
          looked'.negative⟩
      · exact ⟨s1, rest, .error e, if_neg absent, looked⟩

/-- A lookup ends, because each descent takes a component off the list, and leaves the tree as it is. -/
theorem genericVnodeLookup_total (well : ReadsWell fs I) (depth : Nat) (s : σ) (v : V) (pdata : List Str) (component : Str) (sane : I s)
    (deep : pdata.length < depth) : ∃ s' rest r, genericVnodeLookup fs.toVfs depth s v pdata component = .ok (s', rest, r) ∧
      Looked fs I s s' pdata rest r := by
  induction depth generalizing s v pdata component with
  | zero => exact absurd deep (Nat.not_lt_zero _)
  | succ depth ih =>
    rw [genericVnodeLookup]
    cases found : (fs.dentries s v).find? (fun d => genericDentryCompare fs.toVfs s d component) with
    | none => exact ⟨s, pdata, .error enoent, rfl, sane, .refl s, le_rfl, fun e eq => Except.error.inj eq ▸ by decide⟩
    | some d =>
      dsimp only
      split_ifs with isDir more
      · cases pdata with
        | nil => exact ⟨s, [], .ok v, rfl, sane, .refl s, le_rfl, fun e eq => by cases eq⟩
        | cons next pdata =>
          rw [List.length_cons] at deep
          obtain ⟨s1, err, read, sane1, tree1⟩ := well.readdir s v sane isDir
          dsimp only
          rw [well.own s v d sane (List.mem_of_find?_eq_some found), read]
          simp only [Halt.lift, bind, Except.bind]
          by_cases failed : err < 0
          · rw [if_pos failed]
            exact ⟨s1, next :: pdata, .error err, rfl, sane1, tree1, le_rfl, fun e eq => Except.error.inj eq ▸ failed⟩
          · rw [if_neg failed]
            obtain ⟨s2, rest, r, ran, looked⟩ := lookupChildren_total (n := pdata.length)
              (fun s v pdata component sane few => ih s v pdata component sane (by omega)) next (fs.children s1 d) s1 pdata sane1 le_rfl
            exact ⟨s2, rest, r, ran, looked.inv, tree1.trans looked.tree, looked.left.trans (Nat.le_succ _), looked.negative⟩
      · exact ⟨s, pdata, .error enotdir, rfl, sane, .refl s, le_rfl, fun e eq => Except.error.inj eq ▸ by decide⟩
      · exact ⟨s, [], .ok v, rfl, sane, .refl s, Nat.zero_le _, fun e eq => by cases eq⟩

end

/-! ## The calls -/

section
variable {σ V D β F : Type} (fs : VfsOps σ V D β)

/-- Where the lookup of a path starts, and the name of that. -/
def startOf (p : Pager σ V F) (pathname : Str) : Str × V := pathdataStart (firstName fs p.fs) p.fsData pathname

/-- The vnode of all components but the last. -/
def parentOf (p : Pager σ V F) (pathname : Str) : Except (CallStop β) (σ × Except Int V) :=
  lookupFrom fs (startOf fs p pathname).2 ((startOf fs p pathname).1 :: (pathComponents pathname).dropLast) p.fs

/-- There is a component to create, and it is `good` in its directory, if that is there. -/
def Creates (p : Pager σ V F) (pathname : Str) (good : σ → V → Str → Prop) : Prop :=
  pathComponents pathname ≠ [] ∧ ∀ s v, parentOf fs p pathname = .ok (s, .ok v) → fs.isDir s v = true →
    good s v ((pathComponents pathname).getLastD [])

end

section
variable {σ V D β F : Type} {fs : VfsOps σ V D β} {I : σ → Prop} {alloc : Nat → Bool} {p : Pager σ V F} {pathname : Str} {mode : Word}

variable {rest : Pathdata V → List Byte → Except (CallStop β) (Int × Pager σ V F)}

theorem lookupFrom_total (well : ReadsWell fs I) (sane : I p.fs) (vstart : V) (first : Str) (rest : List Str) :
    ∃ s r, lookupFrom fs vstart (first :: rest) p.fs = .ok (s, r) ∧ I s ∧ SameTree fs p.fs s ∧ ∀ e, r = .error e → e < 0 := by
  obtain ⟨s, left, r, ran, looked⟩ := genericVnodeLookup_total well (rest.length + 1) p.fs vstart rest first sane (Nat.lt_succ_self _)
  refine ⟨s, r, ?_, looked.inv, looked.tree, looked.negative⟩
  rw [lookupFrom, vfsVnodeLookupBypath, ran]
  rfl

theorem Creates.congr {good good' : σ → V → Str → Prop} (well : ReadsWell fs I) (sane : I p.fs)
    (same : ∀ s v name, I s → SameTree fs p.fs s → fs.isDir s v = true → (good s v name ↔ good' s v name)) :
    Creates fs p pathname good ↔ Creates fs p pathname good' := by
  refine and_congr_right fun some => forall_congr' fun s => forall_congr' fun v => imp_congr_right fun found => imp_congr_right fun isDir => ?_
  obtain ⟨s', r, ran, sane', tree, -⟩ := lookupFrom_total well sane (startOf fs p pathname).2 (startOf fs p pathname).1
    (pathComponents pathname).dropLast
  obtain ⟨rfl, -⟩ := Prod.mk.inj (Except.ok.inj (ran.symm.trans found))
  exact same s' v _ sane' tree isDir

end

section
variable {σ V D β F : Type} [DecidableEq V] [DecidableEq F] {fs : VfsOps σ V D β} {I : σ → Prop} {alloc : Nat → Bool} {newFile : Option F}
  {p : Pager σ V F} {pathname : Str} {flags mode : Word}

end

end Codezero.Fs
