import Mathlib.Tactic

/-!
# Refinement of machines that answer their calls

A machine takes a call in a state, answers it and moves on: `step : σ → α → ρ × σ`. One machine
refines another when a relation between their states survives every call and makes
the answers equal. Calls may be restricted by a guard on the concrete state.
-/

namespace PawFlow.Lib

variable {σ τ α ρ : Type*}

/-- The answers to a list of calls, and the state after them. -/
def runCalls (step : σ → α → ρ × σ) : σ → List α → List ρ × σ
  | s, [] => ([], s)
  | s, a :: as =>
    let answer := step s a
    let rest := runCalls step answer.2 as
    (answer.1 :: rest.1, rest.2)

/-- Every call of the list meets the guard in the state it is made in. -/
def GuardedCalls (step : σ → α → ρ × σ) (ok : σ → α → Prop) : σ → List α → Prop
  | _, [] => True
  | s, a :: as => ok s a ∧ GuardedCalls step ok (step s a).2 as

instance decidableGuardedCalls (step : σ → α → ρ × σ) (ok : σ → α → Prop)
    [∀ s a, Decidable (ok s a)] : ∀ s as, Decidable (GuardedCalls step ok s as)
  | _, [] => inferInstanceAs (Decidable True)
  | s, a :: as =>
    have := decidableGuardedCalls step ok (step s a).2 as
    inferInstanceAs (Decidable (ok s a ∧ GuardedCalls step ok (step s a).2 as))

/-- **Refinement rule.** A relation that every guarded call keeps, with equal answers, gives equal
answers along every guarded list of calls, and related states at its end. -/
theorem refines_of_simulation {step : σ → α → ρ × σ} {spec : τ → α → ρ × τ}
    {ok : σ → α → Prop} (R : σ → τ → Prop)
    (hsim : ∀ s t a, R s t → ok s a →
      (step s a).1 = (spec t a).1 ∧ R (step s a).2 (spec t a).2)
    {s : σ} {t : τ} {as : List α} (hR : R s t) (hok : GuardedCalls step ok s as) :
    (runCalls step s as).1 = (runCalls spec t as).1 ∧
      R (runCalls step s as).2 (runCalls spec t as).2 := by
  induction as generalizing s t with
  | nil => exact ⟨rfl, hR⟩
  | cons a as ih =>
    obtain ⟨hanswer, hnext⟩ := hsim s t a hR hok.1
    obtain ⟨hanswers, hend⟩ := ih hnext hok.2
    refine ⟨?_, hend⟩
    show _ :: _ = _ :: _
    rw [hanswer, hanswers]

end PawFlow.Lib
