import Mathlib.Tactic
import PawFlow.Lib.Runs

/-!
# Interleaved calls

A call is a stack of tasks, each of them one atomic step on a shared state; running a
task may push further tasks of the same call. A pool interleaves any number of calls
in any order: a label either starts a call or runs the next task of one of them, in an
environment (clock readings, answers from outside) given with the label.

Proofs do not look at the stacks: `pending` is the multiset of tasks that calls in
progress still have to run, and `step_cases` describes every step by what it does to the
shared state and to that multiset.
-/

namespace PawFlow.Lib

structure Pool (σ τ : Type*) where
  state : σ
  calls : List (List τ) := []

inductive PoolLabel (τ ε : Type*)
  | start (t : τ)
  | advance (i : Nat) (env : ε)

namespace Pool

variable {σ τ ε : Type*}

/-- The tasks that calls in progress still have to run. -/
def pending (p : Pool σ τ) : Multiset τ := p.calls.flatten

/-- The task a label is about to run. -/
def next (p : Pool σ τ) (i : Nat) : Option τ := p.calls[i]?.bind List.head?

variable (exec : σ → τ → ε → σ × List τ) (entry : τ → Bool)

def step (p : Pool σ τ) : PoolLabel τ ε → Option (Pool σ τ)
  | .start t => if entry t then some { p with calls := p.calls ++ [[t]] } else none
  | .advance i env =>
    match p.calls[i]? with
    | some (t :: ts) =>
      let (state, new) := exec p.state t env
      some { state, calls := p.calls.set i (new ++ ts) }
    | _ => none

/-- A guard on the task a label runs, the state and the pending tasks before it. -/
def guarded (ok : σ → Multiset τ → τ → ε → Bool) (p : Pool σ τ) : PoolLabel τ ε → Bool
  | .start _ => true
  | .advance i env => (p.next i).all fun t => ok p.state p.pending t env

theorem pending_set {calls : List (List τ)} {i : Nat} {t : τ} {ts : List τ} (new : List τ)
    (h : calls[i]? = some (t :: ts)) :
    ∃ rest : Multiset τ, (calls.flatten : Multiset τ) = t ::ₘ rest ∧
      ((calls.set i (new ++ ts)).flatten : Multiset τ) = new + rest := by
  obtain ⟨hi, hget⟩ := List.getElem?_eq_some_iff.mp h
  have hsplit : calls = calls.take i ++ (t :: ts) :: calls.drop (i + 1) := by
    rw [← hget, List.getElem_cons_drop, List.take_append_drop]
  refine ⟨(calls.take i).flatten + (ts + (calls.drop (i + 1)).flatten), ?_, ?_⟩
  · conv_lhs => rw [hsplit]
    simp only [List.flatten_append, List.flatten_cons, ← Multiset.coe_add,
      ← Multiset.cons_coe, Multiset.cons_add, Multiset.add_cons]
  · rw [List.set_eq_take_cons_drop _ hi]
    simp only [List.flatten_append, List.flatten_cons, ← Multiset.coe_add]
    abel

variable {exec entry}

variable {p : Pool σ τ}

theorem step_cases {p' : Pool σ τ} {a : PoolLabel τ ε} (h : step exec entry p a = some p') :
    (∃ t, entry t = true ∧ p'.state = p.state ∧ p'.pending = t ::ₘ p.pending) ∨
    (∃ i t env rest, a = .advance i env ∧ p.next i = some t ∧
      p'.state = (exec p.state t env).1 ∧ p.pending = t ::ₘ rest ∧
      p'.pending = (exec p.state t env).2 + rest) := by
  cases a with
  | start t =>
    simp only [step] at h
    split at h
    · next hentry =>
      obtain rfl := Option.some.inj h
      refine Or.inl ⟨t, hentry, rfl, ?_⟩
      simp only [pending, List.flatten_append, List.flatten_singleton]
      rw [← Multiset.coe_add, ← Multiset.singleton_add, Multiset.coe_singleton, add_comm]
    · exact absurd h (by simp)
  | advance i env =>
    simp only [step] at h
    split at h
    · next t ts hget =>
      obtain rfl := Option.some.inj h
      obtain ⟨rest, hbefore, hafter⟩ := pending_set (exec p.state t env).2 hget
      exact Or.inr ⟨i, t, env, rest, rfl, by simp [next, hget], rfl, hbefore, hafter⟩
    · exact absurd h (by simp)

/-- **Invariant rule for pools.** A property of the shared state and the pending tasks
that starting a call keeps, and that running a task keeps when the guard allows it. -/
theorem invariant {ok : σ → Multiset τ → τ → ε → Bool} (Inv : σ → Multiset τ → Prop)
    (hstart : ∀ s m t, entry t = true → Inv s m → Inv s (t ::ₘ m))
    (hexec : ∀ s m t env, Inv s (t ::ₘ m) → ok s (t ::ₘ m) t env = true →
      Inv (exec s t env).1 ((exec s t env).2 + m))
    {q : Pool σ τ} (hrun : Runs (step exec entry) (fun p a => guarded ok p a = true) p q)
    (h0 : Inv p.state p.pending) : Inv q.state q.pending := by
  refine hrun.invariant (fun p => Inv p.state p.pending) (fun p a p' hp hok hstep => ?_) h0
  rcases step_cases hstep with ⟨t, hentry, hstate, hpending⟩ |
    ⟨i, t, env, rest, rfl, hnext, hstate, hbefore, hafter⟩
  · rw [hstate, hpending]
    exact hstart _ _ t hentry hp
  · rw [hbefore] at hp
    have hallowed : ok p.state (t ::ₘ rest) t env = true := by
      simpa [guarded, hnext, hbefore] using hok
    rw [hstate, hafter]
    exact hexec _ _ t env hp hallowed

end Pool

end PawFlow.Lib
