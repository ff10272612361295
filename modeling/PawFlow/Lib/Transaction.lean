import Mathlib.Tactic

/-!
# Transactions

A transaction computes its result together with the state to commit, or raises;
`settle` is the state it leaves, the old one when it raised.
-/

namespace PawFlow.Lib

variable {ε σ β δ : Type*}

/-- The state after a transaction: a raised exception rolls it back. -/
def settle (s : σ) : Except ε (β × σ) → σ
  | .ok (_, s') => s'
  | .error _ => s

variable {s : σ}

variable {R : σ → σ → Prop}

theorem settle_rel {x : Except ε (β × σ)} (hrefl : R s s)
    (h : ∀ b s', x = .ok (b, s') → R s s') : R s (settle s x) := by
  cases x with
  | error e => exact hrefl
  | ok r => exact h r.1 r.2 rfl

theorem bind_ok {x : Except ε β} {g : β → Except ε δ} {d : δ} (h : x.bind g = .ok d) :
    ∃ b, x = .ok b ∧ g b = .ok d := by
  cases x with
  | error e => exact absurd h (by simp [Except.bind])
  | ok b => exact ⟨b, rfl, h⟩

theorem ok_pair_inj {b b' : β} {s' : σ}
    (h : (.ok (b, s) : Except ε (β × σ)) = .ok (b', s')) : b = b' ∧ s = s' :=
  Prod.mk.inj (Except.ok.inj h)

/-! ## Blocks that keep working on the state after an exception

A block over an open connection writes as it goes and may raise half way; only the
end of the `with` block decides between commit and rollback. -/

/-- `with connection: body`. -/
def closing (body : σ → Except ε β × σ) (s : σ) : Except ε β × σ :=
  match body s with
  | (.ok b, s') => (.ok b, s')
  | (.error e, _) => (.error e, s)

/-- The outcome `x` of a call made in `s`: if it raised, it left `s`. -/
def RollsBack (s : σ) (x : Except ε β × σ) : Prop := ∀ e, x.1 = .error e → x.2 = s

theorem rollsBack_same (s : σ) (r : Except ε β) : RollsBack s (r, s) := fun _ _ => rfl

theorem rollsBack_closing (body : σ → Except ε β × σ) (s : σ) : RollsBack s (closing body s) := by
  intro e h
  unfold closing at h ⊢
  split
  · next heq => simp [heq] at h
  · rfl

theorem RollsBack.map {x : Except ε β × σ} (h : RollsBack s x) (f : β → δ) :
    RollsBack s (x.1.map f, x.2) := by
  intro e he
  cases hx : x.1 with
  | error e' => exact h e' hx
  | ok b => simp [hx, Except.map] at he

theorem closing_rel {body : σ → Except ε β × σ} (hrefl : R s s)
    (h : ∀ b s', body s = (.ok b, s') → R s s') : R s (closing body s).2 := by
  unfold closing
  split
  · next b s' heq => exact h b s' heq
  · exact hrefl

end PawFlow.Lib
