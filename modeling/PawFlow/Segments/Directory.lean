import PawFlow.Lib.Chunks
import PawFlow.Segments.Row

/-!
# Segment files

The files of one segment directory, by number. File `n` is called `f"{n:06d}.jsonl"`, and a
directory listing is sorted by name, which is the order of the numbers only up to the millionth
file. What an append handle still buffers is part of the file here: every reader flushes the
handles first.
-/

namespace PawFlow.Segments

open PawFlow.Lib

structure SegmentFile where
  rows : List Row
  /-- The file's number among all files ever created for the log. -/
  created : Nat

/-- A directory of segment files: none has a number from `span` on. -/
structure Directory where
  file : Nat → Option SegmentFile
  span : Nat
  absent : ∀ n, span ≤ n → file n = none
  /-- How many files were created so far. -/
  created : Nat

/-- `f"{n:06d}.jsonl"`. -/
def segmentName (n : Nat) : List Char := formatDecimal 6 n ++ ".jsonl".toList

def nameLe (m n : Nat) : Bool := !decide (segmentName n < segmentName m)

theorem nameLe_of_lt {m n : Nat} (hmn : m < n) (hn : n < 10 ^ 6) : nameLe m n := by
  have hlt : segmentName m < segmentName n := by
    refine lt_append_of_length_eq _ _ ?_ (formatDecimal_lt (by decide) hmn hn)
    rw [length_formatDecimal (by decide) hn, length_formatDecimal (by decide) (by omega)]
  have hnot : ¬ segmentName n < segmentName m := List.lt_asymm hlt
  simp [nameLe, hnot]

namespace Directory

variable (d : Directory)

/-- A directory without files. -/
def empty (created : Nat) : Directory :=
  ⟨fun _ => none, 0, fun _ _ => rfl, created⟩

/-- `path.is_file()`. -/
def has (n : Nat) : Bool := (d.file n).isSome

/-- What `_iter_file` yields. -/
def rows (n : Nat) : List Row := (d.file n).elim [] SegmentFile.rows

/-- `path.stat().st_size if path.exists() else 0`. -/
def size (n : Nat) : Nat := textSize (d.rows n)

/-- Write a new file under number `n`, in place of one that may be there. -/
def create (n : Nat) (rows : List Row) : Directory where
  file := Function.update d.file n (some ⟨rows, d.created⟩)
  span := max d.span (n + 1)
  absent m hm := by
    rw [Function.update_of_ne (by omega)]
    exact d.absent m (by omega)
  created := d.created + 1

/-- Append to file `n`, which `open(path, "ab")` creates when it is missing. -/
def append (n : Nat) (rows : List Row) : Directory :=
  match d.file n with
  | none => d.create n rows
  | some f =>
    { d with
      file := Function.update d.file n (some { f with rows := f.rows ++ rows })
      span := max d.span (n + 1)
      absent := fun m hm => by
        rw [Function.update_of_ne (by omega)]
        exact d.absent m (by omega) }

/-- `path.unlink(missing_ok=True)`. -/
def unlink (n : Nat) : Directory where
  file := Function.update d.file n none
  span := d.span
  absent m hm := by
    by_cases h : m = n
    · rw [h, Function.update_self]
    · rw [Function.update_of_ne h, d.absent m hm]
  created := d.created

/-- `sorted(segment_dir.glob("*.jsonl"))`. -/
def glob : List Nat :=
  ((List.range d.span).filter d.has).insertionSort fun m n => nameLe m n

/-- All rows, in the order of the file numbers. -/
def content : List Row := Chunks.join d.rows d.span

/-! ## Reads after writes -/

variable {d} {m n : Nat}

@[simp] theorem rows_empty (created : Nat) : (empty created).rows n = [] := rfl

@[simp] theorem has_empty (created : Nat) : (empty created).has n = false := rfl

@[simp] theorem rows_create (rows : List Row) :
    (d.create n rows).rows = Function.update d.rows n rows := by
  ext1 m
  by_cases h : m = n
  · subst h
    simp [create, Directory.rows]
  · simp [create, Directory.rows, Function.update_of_ne h]

@[simp] theorem has_create (rows : List Row) :
    (d.create n rows).has m = (decide (m = n) || d.has m) := by
  by_cases h : m = n
  · subst h
    simp [create, has]
  · simp [create, has, h]

@[simp] theorem rows_append (rows : List Row) :
    (d.append n rows).rows = Function.update d.rows n (d.rows n ++ rows) := by
  unfold append
  split
  · next hfile =>
    have hempty : d.rows n = [] := by simp [Directory.rows, hfile]
    rw [rows_create, hempty, List.nil_append]
  · next f hfile =>
    ext1 m
    by_cases h : m = n
    · subst h
      simp [Directory.rows, hfile]
    · simp [Directory.rows, Function.update_of_ne h]

@[simp] theorem has_append (rows : List Row) :
    (d.append n rows).has m = (decide (m = n) || d.has m) := by
  unfold append
  split
  · exact has_create rows
  · by_cases h : m = n
    · subst h
      simp [has]
    · simp [has, h]

@[simp] theorem rows_unlink : (d.unlink n).rows = Function.update d.rows n [] := by
  ext1 m
  by_cases h : m = n
  · subst h
    simp [unlink, Directory.rows]
  · simp [unlink, Directory.rows, Function.update_of_ne h]

@[simp] theorem has_unlink : (d.unlink n).has m = (!decide (m = n) && d.has m) := by
  by_cases h : m = n
  · subst h
    simp [unlink, has]
  · simp [unlink, has, h]

theorem lt_span_of_has (h : d.has n) : n < d.span := by
  by_contra hspan
  simp [has, d.absent n (by omega)] at h

theorem has_of_mem_rows {row : Row} (h : row ∈ d.rows n) : d.has n := by
  cases hfile : d.file n with
  | none => simp [Directory.rows, hfile] at h
  | some f => simp [has, hfile]

theorem rows_eq_nil_of_span (h : d.span ≤ n) : d.rows n = [] := by
  simp [Directory.rows, d.absent n h]

/-! ## Listing -/

theorem mem_glob : n ∈ d.glob ↔ d.has n := by
  rw [glob, List.mem_insertionSort, List.mem_filter, List.mem_range]
  exact ⟨fun h => h.2, fun h => ⟨lt_span_of_has h, h⟩⟩

theorem glob_nodup : d.glob.Nodup :=
  (List.perm_insertionSort _ _).nodup_iff.mpr (List.nodup_range.filter _)

theorem glob_eq_filter (h : ∀ n, d.has n → n < 10 ^ 6) :
    d.glob = (List.range d.span).filter d.has := by
  refine List.Pairwise.insertionSort_eq ?_
  refine (List.pairwise_lt_range.filter d.has).imp_of_mem ?_
  intro a b _ hb hab
  exact nameLe_of_lt hab (h b (List.mem_filter.mp hb).2)

theorem glob_before {before after : List Nat} {t : Nat} (h : ∀ n, d.has n → n < 10 ^ 6)
    (hsplit : d.glob = before ++ t :: after) (hall : ∀ n < t, d.has n) :
    before = List.range t ∧ ∀ n ∈ after, t < n := by
  have hsorted : (before ++ t :: after).Pairwise (· < ·) := by
    rw [← hsplit, glob_eq_filter h]
    exact List.pairwise_lt_range.filter d.has
  obtain ⟨hbefore, hrest, hcross⟩ := List.pairwise_append.mp hsorted
  refine ⟨?_, (List.pairwise_cons.mp hrest).1⟩
  refine List.Perm.eq_of_pairwise' (r := (· < ·)) hbefore List.pairwise_lt_range ?_
  rw [List.perm_ext_iff_of_nodup (hbefore.imp ne_of_lt) List.nodup_range]
  intro n
  rw [List.mem_range]
  refine ⟨fun hn => hcross n hn t (by simp), fun hn => ?_⟩
  have hmem : n ∈ before ++ t :: after := hsplit ▸ mem_glob.mpr (hall n hn)
  rcases List.mem_append.mp hmem with hmem | hmem
  · exact hmem
  · rcases List.mem_cons.mp hmem with rfl | hafter
    · omega
    · have := (List.pairwise_cons.mp hrest).1 n hafter
      omega

theorem content_eq_join {k : Nat} (h : ∀ n, k ≤ n → d.rows n = []) :
    d.content = Chunks.join d.rows k := by
  rcases Nat.le_total k d.span with hk | hk
  · exact Chunks.join_of_empty hk fun n hn _ => h n hn
  · exact (Chunks.join_of_empty hk fun n hn _ => rows_eq_nil_of_span hn).symm

end Directory

end PawFlow.Segments
