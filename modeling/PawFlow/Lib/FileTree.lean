import PawFlow.Lib.Bytes
import PawFlow.Lib.PyDict

/-!
# Trees of files

A directory tree as the dict of its entries, and the operations of `pathlib` on it with the ways in
which they fail. A path is the list of its components.
-/

namespace PawFlow.Lib

abbrev Path := List String

inductive Entry
  | dir
  | file (bytes : Bytes)
deriving DecidableEq

abbrev FileTree := PyDict Path Entry

namespace FileTree

/-- The parent directories of a path, from the root down. -/
def above (p : Path) : List Path := p.dropLast.inits

/-- `path.exists()`. -/
def exists? (t : FileTree) (p : Path) : Bool := (t.get? p).isSome

def bytesAt (t : FileTree) (p : Path) : Option Bytes :=
  match t.get? p with
  | some (.file bytes) => some bytes
  | _ => none

def isDir (t : FileTree) (p : Path) : Bool := t.get? p = some .dir

def isFile (t : FileTree) (p : Path) : Bool := (t.bytesAt p).isSome

/-- Something above the path is a file (`NotADirectoryError`). -/
def blocked (t : FileTree) (p : Path) : Bool := (above p).any t.isFile

/-- The directories that are not there above a path, innermost first. -/
def missing (t : FileTree) (p : Path) : List Path :=
  (above p).reverse.takeWhile fun q => !t.exists? q

/-- Directories at the paths where nothing is. -/
def makeDirs (t : FileTree) (dirs : List Path) : FileTree :=
  dirs.foldl (fun t d => if t.exists? d then t else t.set d .dir) t

/-- `path.parent.mkdir(parents=True, exist_ok=True)`. -/
def mkdirAbove (t : FileTree) (p : Path) : Option FileTree :=
  if t.blocked p then none else some (t.makeDirs (t.missing p).reverse)

/-- `path.unlink(missing_ok=True)`. -/
def unlink (t : FileTree) (p : Path) : Option FileTree :=
  match t.get? p with
  | some .dir => none
  | some (.file _) => some (t.erase p)
  | none => if t.blocked p then none else some t

/-- `path.write_bytes(bytes)` below a directory that is there. -/
def write (t : FileTree) (p : Path) (bytes : Bytes) : Option FileTree :=
  if t.isDir p then none else some (t.set p (.file bytes))

/-- `path.rmdir()`, where a missing directory is no error. -/
def rmdir (t : FileTree) (d : Path) : Option FileTree :=
  match t.get? d with
  | some .dir => if t.any fun i => i.1 ≠ d && i.1.dropLast = d then none else some (t.erase d)
  | some (.file _) => none
  | none => if t.blocked d then none else some t

def WellFormed (t : FileTree) : Prop :=
  ∀ p, t.isFile p → ∀ q ∈ above p, t.isDir q

/-- The same entries. -/
def Same (t t' : FileTree) : Prop := ∀ p, t.get? p = t'.get? p

/-! ## What the operations change -/

section

variable {t t' : FileTree} {p q : Path} {bytes : Bytes}

theorem get?_set_ite (t : FileTree) (p q : Path) (e : Entry) :
    (t.set p e).get? q = if q = p then some e else t.get? q := by
  split
  · next h => rw [h, PyDict.get?_set_self]
  · next h => exact PyDict.get?_set_of_ne t e h

theorem get?_makeDirs (dirs : List Path) :
    (t.makeDirs dirs).get? q = if q ∈ dirs ∧ t.get? q = none then some .dir else t.get? q := by
  induction dirs generalizing t with
  | nil => simp [makeDirs]
  | cons d dirs ih =>
    have hstep : t.makeDirs (d :: dirs) =
        makeDirs (if t.exists? d then t else t.set d .dir) dirs := rfl
    rw [hstep, ih]
    by_cases hd : t.exists? d
    · rw [if_pos hd]
      have hsome : t.get? d ≠ none := by
        rw [exists?, Option.isSome_iff_ne_none] at hd
        exact hd
      by_cases hq : q = d
      · subst hq
        simp [hsome]
      · simp [hq]
    · rw [if_neg hd, get?_set_ite]
      have hnone : t.get? d = none := by simpa [exists?] using hd
      by_cases hq : q = d
      · subst hq
        simp [hnone]
      · simp [hq]

theorem mkdirAbove_eq_some (h : t.mkdirAbove p = some t') :
    t' = t.makeDirs (t.missing p).reverse := by
  unfold mkdirAbove at h
  split at h
  · contradiction
  · exact (Option.some.inj h).symm

theorem mem_missing (h : q ∈ t.missing p) : q ∈ above p ∧ t.get? q = none := by
  refine ⟨List.mem_reverse.1 ((List.takeWhile_sublist _).subset h), ?_⟩
  simpa [exists?] using List.all_eq_true.1 List.all_takeWhile q h

theorem unlink_eq_some (h : t.unlink p = some t') :
    t.isDir p = false ∧ ∀ q, t'.get? q = if q = p then none else t.get? q := by
  unfold unlink at h
  split at h
  · contradiction
  · next hfile =>
    rw [← Option.some.inj h]
    exact ⟨by simp [isDir, hfile], fun q => PyDict.get?_erase t p q⟩
  · next hnone =>
    split at h
    · contradiction
    · rw [← Option.some.inj h]
      refine ⟨by simp [isDir, hnone], fun q => ?_⟩
      split
      · next hq => rw [hq, hnone]
      · rfl

theorem write_eq_some (h : t.write p bytes = some t') :
    t.isDir p = false ∧ t' = t.set p (.file bytes) := by
  unfold write at h
  split at h
  · contradiction
  · next hdir => exact ⟨by simpa using hdir, (Option.some.inj h).symm⟩

theorem rmdir_eq_some (h : t.rmdir p = some t') :
    t.isFile p = false ∧ ∀ q, t'.get? q = if q = p then none else t.get? q := by
  unfold rmdir at h
  split at h
  · next hdir =>
    split at h
    · contradiction
    · rw [← Option.some.inj h]
      exact ⟨by simp [isFile, bytesAt, hdir], fun q => PyDict.get?_erase t p q⟩
  · contradiction
  · next hnone =>
    split at h
    · contradiction
    · rw [← Option.some.inj h]
      refine ⟨by simp [isFile, bytesAt, hnone], fun q => ?_⟩
      split
      · next hq => rw [hq, hnone]
      · rfl

theorem bytesAt_makeDirs (dirs : List Path) : (t.makeDirs dirs).bytesAt q = t.bytesAt q := by
  by_cases h : q ∈ dirs ∧ t.get? q = none
  · simp [bytesAt, get?_makeDirs, h]
  · simp only [bytesAt, get?_makeDirs, if_neg h]

theorem bytesAt_set (t : FileTree) (p q : Path) (bytes : Bytes) :
    bytesAt (t.set p (.file bytes)) q = if q = p then some bytes else t.bytesAt q := by
  by_cases h : q = p
  · simp [bytesAt, get?_set_ite, h]
  · simp only [bytesAt, get?_set_ite, if_neg h]

end

end FileTree

end PawFlow.Lib
