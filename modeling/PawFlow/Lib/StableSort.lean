import Mathlib.Data.List.Sort
import Mathlib.Tactic

/-!
# Stable sorting

Two items are tied if each may stand before the other. A list in order is determined by its items of
every tie in their order, so what a stable sort makes of a list depends only on these.
-/

namespace PawFlow.Lib

variable {α : Type*} (r : α → α → Prop) [DecidableRel r]

/-- Neither has to stand before the other. -/
def tied (a b : α) : Bool := decide (r a b) && decide (r b a)

/-- The same items of every tie in the same order. -/
def SameTies (xs ys : List α) : Prop := ∀ a, xs.filter (tied r a) = ys.filter (tied r a)

variable {r}

theorem tied_iff {a b : α} : tied r a b = true ↔ r a b ∧ r b a := by
  simp [tied]

variable {xs ys : List α}

theorem SameTies.symm (h : SameTies r xs ys) : SameTies r ys xs :=
  fun a => (h a).symm

theorem SameTies.trans {zs : List α} (h : SameTies r xs ys) (h' : SameTies r ys zs) :
    SameTies r xs zs := fun a => (h a).trans (h' a)

theorem SameTies.append (h : SameTies r xs ys) (zs : List α) :
    SameTies r (xs ++ zs) (ys ++ zs) := fun a => by
  rw [List.filter_append, List.filter_append, h a]

theorem SameTies.erase [DecidableEq α] (h : SameTies r xs ys) (x : α) :
    SameTies r (xs.erase x) (ys.erase x) := fun a => by
  rw [← List.erase_filter, ← List.erase_filter, h a]

section Total

variable [Std.Total r]

theorem SameTies.mem {xs ys : List α} (h : SameTies r xs ys) {x : α} (hx : x ∈ xs) : x ∈ ys := by
  have hself : tied r x x = true := tied_iff.mpr ⟨refl_of r x, refl_of r x⟩
  have hmem : x ∈ xs.filter (tied r x) := List.mem_filter.mpr ⟨hx, hself⟩
  rw [h x] at hmem
  exact List.mem_of_mem_filter hmem

theorem SameTies.eq_of_pairwise {xs ys : List α} (h : SameTies r xs ys) (hx : xs.Pairwise r)
    (hy : ys.Pairwise r) : xs = ys := by
  induction xs generalizing ys with
  | nil =>
    cases ys with
    | nil => rfl
    | cons y ys => exact absurd (h.symm.mem List.mem_cons_self) List.not_mem_nil
  | cons x xs ih =>
    cases ys with
    | nil => exact absurd (h.mem List.mem_cons_self) List.not_mem_nil
    | cons y ys =>
      rw [List.pairwise_cons] at hx hy
      have hxy : r x y := by
        rcases List.mem_cons.mp (h.symm.mem List.mem_cons_self) with heq | hmem
        · exact heq ▸ refl_of r _
        · exact hx.1 y hmem
      have hyx : r y x := by
        rcases List.mem_cons.mp (h.mem List.mem_cons_self) with heq | hmem
        · exact heq ▸ refl_of r _
        · exact hy.1 x hmem
      have hheads := h x
      rw [List.filter_cons_of_pos (tied_iff.mpr ⟨refl_of r x, refl_of r x⟩),
        List.filter_cons_of_pos (tied_iff.mpr ⟨hxy, hyx⟩)] at hheads
      obtain rfl := (List.cons.inj hheads).1
      refine congrArg _ (ih (fun a => ?_) hx.2 hy.2)
      have hclass := h a
      rw [List.filter_cons, List.filter_cons] at hclass
      split at hclass
      · exact (List.cons.inj hclass).2
      · exact hclass

end Total

variable [IsTrans α r]

theorem sameTies_insertionSort (xs : List α) : SameTies r (xs.insertionSort r) xs := by
  intro a
  have hclass : (xs.filter (tied r a)).Pairwise r := by
    refine List.pairwise_of_forall_mem_list fun b hb c hc => ?_
    have hab := tied_iff.mp (List.mem_filter.mp hb).2
    have hac := tied_iff.mp (List.mem_filter.mp hc).2
    exact trans_of r hab.2 hac.1
  have hsub := (List.sublist_insertionSort hclass List.filter_sublist).filter (tied r a)
  simp only [List.filter_filter, Bool.and_self] at hsub
  exact (hsub.eq_of_length ((List.perm_insertionSort r xs).filter _).length_eq.symm).symm

variable [Std.Total r]

theorem insertionSort_eq (h : SameTies r xs ys) (hy : ys.Pairwise r) : xs.insertionSort r = ys :=
  ((sameTies_insertionSort xs).trans h).eq_of_pairwise (List.pairwise_insertionSort r xs) hy

theorem insertionSort_congr (h : SameTies r xs ys) : xs.insertionSort r = ys.insertionSort r :=
  insertionSort_eq (h.trans (sameTies_insertionSort ys).symm) (List.pairwise_insertionSort r ys)

theorem sameTies_of_insertionSort
    (h : xs.insertionSort r = ys.insertionSort r) : SameTies r xs ys :=
  (sameTies_insertionSort xs).symm.trans (h ▸ sameTies_insertionSort ys)

theorem insertionSort_erase [DecidableEq α] (xs : List α) (x : α) :
    (xs.erase x).insertionSort r = (xs.insertionSort r).erase x :=
  insertionSort_eq ((sameTies_insertionSort xs).symm.erase x)
    ((List.pairwise_insertionSort r xs).sublist List.erase_sublist)

end PawFlow.Lib
