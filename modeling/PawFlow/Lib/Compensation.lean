import Mathlib.Data.List.Basic

/-!
# Steps with compensations

Steps are taken in turn up to the first that fails, and what was done is undone in reverse. When
the step in front of a state can be taken there, and the other steps do not change that, the state
is the one from before.
-/

namespace PawFlow.Lib

variable {σ α : Type*} (act undo : α → σ → σ) (fails : α → Bool)

/-- The steps up to the first that fails, with those taken, the latest first. -/
def perform : List α → List α → σ → Bool × List α × σ
  | done, [], s => (true, done, s)
  | done, a :: rest, s => if fails a then (false, done, s) else perform (a :: done) rest (act a s)

example : perform (· + ·) (· == 3) [] [1, 2, 3, 4] 0 = (false, [2, 1], 3) := by simp [perform]

/-- The steps taken are undone, the latest first. -/
def compensate (done : List α) (s : σ) : σ := done.foldl (fun s a => undo a s) s

variable {act undo fails} {can : α → σ → Prop}

theorem compensate_perform (hundo : ∀ a s, can a s → undo a (act a s) = s)
    (hother : ∀ a b s, a ≠ b → can a s → can a (act b s)) :
    ∀ {rest done : List α} {s : σ}, rest.Nodup → (∀ a ∈ rest, can a s) →
      compensate undo (perform act fails done rest s).2.1 (perform act fails done rest s).2.2 =
        compensate undo done s
  | [], _, _, _, _ => rfl
  | a :: rest, done, s, hnodup, hcan => by
    obtain ⟨hnot, hnodup⟩ := List.nodup_cons.mp hnodup
    rw [perform]
    split
    · rfl
    · rw [compensate_perform hundo hother hnodup fun b hb => ?_]
      · rw [compensate, List.foldl_cons, hundo a s (hcan a List.mem_cons_self)]
        rfl
      · have hne : b ≠ a := ne_of_mem_of_not_mem hb hnot
        exact hother b a s hne (hcan b (List.mem_cons_of_mem _ hb))

variable {rest : List α}

theorem perform_eq (hfails : ∀ a ∈ rest, fails a = false) (done : List α) (s : σ) :
    perform act fails done rest s =
      (true, rest.reverse ++ done, rest.foldl (fun s a => act a s) s) := by
  induction rest generalizing done s with
  | nil => rfl
  | cons a rest ih =>
    rw [perform, hfails a List.mem_cons_self, if_neg Bool.false_ne_true,
      ih fun b hb => hfails b (List.mem_cons_of_mem _ hb)]
    simp

theorem perform_done {done : List α} {s : σ} (h : (perform act fails done rest s).1) :
    ∀ a ∈ rest, fails a = false := by
  induction rest generalizing done s with
  | nil => simp
  | cons a rest ih =>
    rw [perform] at h
    split at h
    · cases h
    · next hfails =>
      intro b hb
      rcases List.mem_cons.mp hb with rfl | hb
      · exact Bool.eq_false_iff.mpr hfails
      · exact ih h b hb

end PawFlow.Lib
