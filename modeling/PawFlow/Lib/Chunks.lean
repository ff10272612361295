import Mathlib.Tactic
import Mathlib.Data.List.DropRight

/-!
# Lists spread over numbered chunks

A long list kept as chunks `f 0, f 1, …, f (k - 1)`. The lemmas say what the usual edits of
one chunk do to the whole list: growing or opening the last chunk appends, filtering
every chunk filters, cutting the last chunk with a hit cuts the list after its last hit.
-/

namespace PawFlow.Lib.Chunks

variable {α : Type*}

/-- The list the first `k` chunks hold. -/
def join (f : ℕ → List α) (k : ℕ) : List α := (List.range k).flatMap f

variable {f g : ℕ → List α} {k m t : ℕ}

@[simp] theorem join_zero : join f 0 = [] := rfl

theorem join_succ : join f (k + 1) = join f k ++ f k := by
  simp [join, List.range_succ]

theorem join_congr (h : ∀ n < k, f n = g n) : join f k = join g k :=
  List.flatMap_congr fun n hn => h n (List.mem_range.mp hn)

theorem join_length : (join f k).length = ((List.range k).map fun n => (f n).length).sum := by
  simp [join, List.length_flatMap]

theorem mem_join {x : α} : x ∈ join f k ↔ ∃ n < k, x ∈ f n := by
  simp [join]

theorem join_of_empty (hkm : k ≤ m) (h : ∀ n, k ≤ n → n < m → f n = []) : join f m = join f k := by
  induction m, hkm using Nat.le_induction with
  | base => rfl
  | succ m hkm ih =>
    rw [join_succ, h m hkm (by omega), List.append_nil]
    exact ih fun n hn hnm => h n hn (by omega)

theorem join_eq_nil (h : ∀ n < k, f n = []) : join f k = [] := by
  rw [join_of_empty (Nat.zero_le k) fun n _ hn => h n hn, join_zero]

theorem join_update_last (l : List α) : join (Function.update f k l) (k + 1) = join f k ++ l := by
  rw [join_succ, Function.update_self]
  congr 1
  exact join_congr fun n hn => Function.update_of_ne (by omega) _ _

theorem filter_join (p : α → Bool) : (join f k).filter p = join (fun n => (f n).filter p) k := by
  simp [join, List.filter_flatMap]

/-! ## Cutting after the last hit -/

variable {p : α → Bool}

theorem rdropWhile_append_of_all {l l' : List α} (h : ∀ x ∈ l', p x = true) :
    (l ++ l').rdropWhile p = l.rdropWhile p := by
  induction l' using List.reverseRecOn with
  | nil => simp
  | append_singleton l' x ih =>
    have hx : p x = true := h x (by simp)
    rw [← List.append_assoc, List.rdropWhile_concat_pos _ _ _ hx]
    exact ih fun y hy => h y (by simp [hy])

theorem rdropWhile_append_of_ne_nil {l l' : List α}
    (h : l'.rdropWhile p ≠ []) : (l ++ l').rdropWhile p = l ++ l'.rdropWhile p := by
  induction l' using List.reverseRecOn with
  | nil => exact absurd rfl h
  | append_singleton l' x ih =>
    rw [← List.append_assoc]
    by_cases hx : p x = true
    · rw [List.rdropWhile_concat_pos _ _ _ hx] at h ⊢
      rw [List.rdropWhile_concat_pos _ _ _ hx]
      exact ih h
    · rw [List.rdropWhile_concat_neg _ _ _ hx, List.rdropWhile_concat_neg _ _ _ hx,
        List.append_assoc]

theorem rdropWhile_join (ht : t < k) (hhit : (f t).rdropWhile p ≠ [])
    (hlater : ∀ n, t < n → n < k → ∀ x ∈ f n, p x = true) :
    (join f k).rdropWhile p = join f t ++ (f t).rdropWhile p := by
  induction k, (show t + 1 ≤ k from ht) using Nat.le_induction with
  | base => rw [join_succ, rdropWhile_append_of_ne_nil hhit]
  | succ k htk ih =>
    rw [join_succ, rdropWhile_append_of_all (hlater k (by omega) (by omega))]
    exact ih (by omega) fun n hn hnk => hlater n hn (by omega)

theorem rdropWhile_join_eq_nil (h : ∀ n < k, ∀ x ∈ f n, p x = true) :
    (join f k).rdropWhile p = [] := by
  rw [List.rdropWhile_eq_nil_iff]
  intro x hx
  obtain ⟨n, hn, hmem⟩ := mem_join.mp hx
  exact h n hn x hmem

end PawFlow.Lib.Chunks
