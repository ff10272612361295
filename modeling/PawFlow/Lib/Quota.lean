import Mathlib.Tactic

/-!
# Reserve, then charge

The abstract shape of a call budget. An account has a limit and an amount spent;
a step first *holds* one call of the account and is later *charged*, or its hold is
released. `Sound` says that what is spent is the sum of the charges and that spent
and held calls together stay within the limit. The moves are the only ways a store
may change these tables, and each keeps `Sound`.
-/

namespace PawFlow.Lib

structure Account (υ : Type*) where
  limit : Int
  spent : υ

structure Quota (ι κ υ : Type*) where
  accounts : ι → Option (Account υ)
  holds : List (ι × κ)
  charges : List ((ι × κ) × υ)

namespace Quota

variable {ι κ υ : Type*} [DecidableEq ι]

/-- Number of calls an account holds. -/
def held (Q : Quota ι κ υ) (i : ι) : Nat := Q.holds.countP fun h => h.1 = i

variable (zero : υ) (add : υ → υ → υ)

/-- The charges of an account, added up in the order they were made. -/
def charged (Q : Quota ι κ υ) (i : ι) : υ :=
  ((Q.charges.filter fun c => c.1.1 = i).map Prod.snd).foldl add zero

variable (calls : υ → Int)

structure Sound (Q : Quota ι κ υ) : Prop where
  spent_eq : ∀ {i a}, Q.accounts i = some a → a.spent = Q.charged zero add i
  within : ∀ {i a}, Q.accounts i = some a → 0 < a.limit →
    calls a.spent + Q.held i ≤ a.limit
  hold_account : ∀ {h}, h ∈ Q.holds → (Q.accounts h.1).isSome
  charge_account : ∀ {c}, c ∈ Q.charges → (Q.accounts c.1.1).isSome

variable {zero add calls} {Q Q' : Quota ι κ υ}

theorem held_le_of_sublist (hh : Q'.holds.Sublist Q.holds) (i : ι) : Q'.held i ≤ Q.held i :=
  hh.countP_le

variable {i : ι}

theorem Sound.held_eq_zero (h : Sound zero add calls Q)
    (hi : Q.accounts i = none) : Q.held i = 0 := by
  rw [held, List.countP_eq_zero]
  intro x hx hxi
  have hsome := h.hold_account hx
  rw [of_decide_eq_true hxi, hi] at hsome
  exact absurd hsome (by simp)

theorem Sound.charged_eq_zero (h : Sound zero add calls Q)
    (hi : Q.accounts i = none) : Q.charged zero add i = zero := by
  have hnil : (Q.charges.filter fun c => c.1.1 = i) = [] := by
    rw [List.filter_eq_nil_iff]
    intro c hc hci
    have hsome := h.charge_account hc
    rw [of_decide_eq_true hci, hi] at hsome
    exact absurd hsome (by simp)
  rw [charged, hnil]
  rfl

variable {closed : ι → Bool} {a : Account υ}

theorem charged_filter (hi : closed i = false)
    (hc : Q'.charges = Q.charges.filter fun c => !closed c.1.1) :
    Q'.charged zero add i = Q.charged zero add i := by
  rw [charged, charged, hc, List.filter_filter]
  congr 2
  apply List.filter_congr
  intro c _
  by_cases hci : c.1.1 = i
  · simp [hci, hi]
  · simp [hci]

theorem Sound.release (h : Sound zero add calls Q)
    (ha : ∀ i, Q'.accounts i = Q.accounts i) (hh : Q'.holds.Sublist Q.holds)
    (hc : Q'.charges = Q.charges) : Sound zero add calls Q' where
  spent_eq hi := by
    rw [ha] at hi
    rw [charged, hc]
    exact h.spent_eq hi
  within {i a} hi hpos := by
    rw [ha] at hi
    have hle := held_le_of_sublist hh i
    have hwithin := h.within hi hpos
    omega
  hold_account hx := by
    rw [ha]
    exact h.hold_account (hh.subset hx)
  charge_account hx := by
    rw [ha]
    exact h.charge_account (hc ▸ hx)

theorem Sound.openAccount (h : Sound zero add calls Q) (hzero : calls zero = 0)
    {limit : Int} (hfresh : Q.accounts i = none)
    (ha : ∀ j, Q'.accounts j = if j = i then some ⟨limit, zero⟩ else Q.accounts j)
    (hh : Q'.holds = Q.holds) (hc : Q'.charges = Q.charges) : Sound zero add calls Q' where
  spent_eq {j a} hj := by
    rw [charged, hc]
    rw [ha] at hj
    split at hj
    · next hji =>
      obtain rfl := Option.some.inj hj
      rw [hji]
      exact (h.charged_eq_zero hfresh).symm
    · exact h.spent_eq hj
  within {j a} hj hpos := by
    rw [held, hh]
    rw [ha] at hj
    split at hj
    · next hji =>
      obtain rfl := Option.some.inj hj
      have hnone := h.held_eq_zero hfresh
      rw [held] at hnone
      rw [hji, hnone, hzero]
      simpa using hpos.le
    · exact h.within hj hpos
  hold_account {x} hx := by
    rw [ha]
    split
    · rfl
    · exact h.hold_account (hh ▸ hx)
  charge_account {x} hx := by
    rw [ha]
    split
    · rfl
    · exact h.charge_account (hc ▸ hx)

variable {k : κ}

theorem Sound.hold (h : Sound zero add calls Q) (hi : Q.accounts i = some a)
    (hroom : 0 < a.limit → calls a.spent + Q.held i < a.limit)
    (ha : ∀ j, Q'.accounts j = Q.accounts j)
    (hh : Q'.holds = Q.holds ++ [(i, k)]) (hc : Q'.charges = Q.charges) :
    Sound zero add calls Q' where
  spent_eq hj := by
    rw [ha] at hj
    rw [charged, hc]
    exact h.spent_eq hj
  within {j b} hj hpos := by
    rw [ha] at hj
    have hheld : Q'.held j = Q.held j + if i = j then 1 else 0 := by
      rw [held, held, hh, List.countP_append, List.countP_singleton]
      simp
    rw [hheld]
    split
    · next hij =>
      subst hij
      obtain rfl := Option.some.inj (hi.symm.trans hj)
      have := hroom hpos
      push_cast
      omega
    · simpa using h.within hj hpos
  hold_account {x} hx := by
    rw [ha]
    rw [hh, List.mem_append] at hx
    rcases hx with hx | hx
    · exact h.hold_account hx
    · obtain rfl := List.mem_singleton.mp hx
      rw [hi]
      rfl
  charge_account hx := by
    rw [ha]
    exact h.charge_account (hc ▸ hx)

theorem Sound.close (h : Sound zero add calls Q)
    (ha : ∀ j, Q'.accounts j = if closed j then none else Q.accounts j)
    (hh : Q'.holds = Q.holds.filter fun h => !closed h.1)
    (hc : Q'.charges = Q.charges.filter fun c => !closed c.1.1) : Sound zero add calls Q' where
  spent_eq {j b} hj := by
    rw [ha] at hj
    split at hj
    · exact absurd hj (by simp)
    · next hopen =>
      rw [charged_filter (by simpa using hopen) hc]
      exact h.spent_eq hj
  within {j b} hj hpos := by
    rw [ha] at hj
    split at hj
    · exact absurd hj (by simp)
    · have hle := held_le_of_sublist (hh ▸ List.filter_sublist) j
      have hwithin := h.within hj hpos
      omega
  hold_account {x} hx := by
    rw [hh, List.mem_filter] at hx
    rw [ha, if_neg (by simpa using hx.2)]
    exact h.hold_account hx.1
  charge_account {x} hx := by
    rw [hc, List.mem_filter] at hx
    rw [ha, if_neg (by simpa using hx.2)]
    exact h.charge_account hx.1

variable [DecidableEq κ]

theorem held_filter_lt (hmem : (i, k) ∈ Q.holds)
    (hh : Q'.holds = Q.holds.filter (· ≠ (i, k))) : Q'.held i + 1 ≤ Q.held i := by
  have hsplit := Q.holds.countP_eq_countP_filter_add (fun h => decide (h.1 = i))
    (fun h => decide (h ≠ (i, k)))
  have hpos : 0 < (Q.holds.filter fun h => !decide (h ≠ (i, k))).countP
      fun h => decide (h.1 = i) := by
    rw [List.countP_pos_iff]
    exact ⟨(i, k), List.mem_filter.mpr ⟨hmem, by simp⟩, by simp⟩
  rw [held, held, hh]
  omega

theorem Sound.charge (h : Sound zero add calls Q) {u : υ}
    (hi : Q.accounts i = some a) (hheld : (i, k) ∈ Q.holds)
    (hcalls : calls (add a.spent u) ≤ calls a.spent + 1)
    (ha : ∀ j, Q'.accounts j =
      if j = i then some { a with spent := add a.spent u } else Q.accounts j)
    (hh : Q'.holds = Q.holds.filter (· ≠ (i, k)))
    (hc : Q'.charges = Q.charges ++ [((i, k), u)]) : Sound zero add calls Q' where
  spent_eq {j b} hj := by
    rw [charged, hc, List.filter_append, List.map_append, List.foldl_append]
    rw [ha] at hj
    split at hj
    · next hji =>
      obtain rfl := Option.some.inj hj
      have hspent := h.spent_eq hi
      rw [charged] at hspent
      rw [hji, ← hspent]
      simp
    · next hji =>
      have hne : ¬ i = j := fun e => hji e.symm
      simpa [hne, charged] using h.spent_eq hj
  within {j b} hj hpos := by
    rw [ha] at hj
    split at hj
    · next hji =>
      obtain rfl := Option.some.inj hj
      have hless := held_filter_lt hheld hh
      have hwithin := h.within hi hpos
      rw [hji]
      dsimp only
      omega
    · have hle := held_le_of_sublist (hh ▸ List.filter_sublist) j
      have hwithin := h.within hj hpos
      omega
  hold_account {x} hx := by
    rw [ha]
    split
    · rfl
    · rw [hh] at hx
      exact h.hold_account (List.mem_of_mem_filter hx)
  charge_account {x} hx := by
    rw [ha]
    split
    · rfl
    · next hxi =>
      rw [hc, List.mem_append] at hx
      rcases hx with hx | hx
      · exact h.charge_account hx
      · obtain rfl := List.mem_singleton.mp hx
        exact absurd rfl hxi

/-- The ways the tables may change. -/
inductive Move (zero : υ) (add : υ → υ → υ) (calls : υ → Int) (Q : Quota ι κ υ) :
    Quota ι κ υ → Prop
  | release {Q' : Quota ι κ υ} (ha : ∀ i, Q'.accounts i = Q.accounts i)
      (hh : Q'.holds.Sublist Q.holds) (hc : Q'.charges = Q.charges) : Move zero add calls Q Q'
  | openAccount {Q' : Quota ι κ υ} (i : ι) (limit : Int) (hfresh : Q.accounts i = none)
      (ha : ∀ j, Q'.accounts j = if j = i then some ⟨limit, zero⟩ else Q.accounts j)
      (hh : Q'.holds = Q.holds) (hc : Q'.charges = Q.charges) : Move zero add calls Q Q'
  | hold {Q' : Quota ι κ υ} (i : ι) (k : κ) (a : Account υ) (hi : Q.accounts i = some a)
      (hroom : 0 < a.limit → calls a.spent + Q.held i < a.limit)
      (ha : ∀ j, Q'.accounts j = Q.accounts j)
      (hh : Q'.holds = Q.holds ++ [(i, k)]) (hc : Q'.charges = Q.charges) :
      Move zero add calls Q Q'
  | charge {Q' : Quota ι κ υ} (i : ι) (k : κ) (u : υ) (a : Account υ) (hi : Q.accounts i = some a)
      (hheld : (i, k) ∈ Q.holds) (hcalls : calls (add a.spent u) ≤ calls a.spent + 1)
      (ha : ∀ j, Q'.accounts j =
        if j = i then some { a with spent := add a.spent u } else Q.accounts j)
      (hh : Q'.holds = Q.holds.filter (· ≠ (i, k)))
      (hc : Q'.charges = Q.charges ++ [((i, k), u)]) : Move zero add calls Q Q'
  | close {Q' : Quota ι κ υ} (closed : ι → Bool)
      (ha : ∀ j, Q'.accounts j = if closed j then none else Q.accounts j)
      (hh : Q'.holds = Q.holds.filter fun h => !closed h.1)
      (hc : Q'.charges = Q.charges.filter fun c => !closed c.1.1) : Move zero add calls Q Q'

theorem Move.sound (hzero : calls zero = 0) (hm : Move zero add calls Q Q')
    (h : Sound zero add calls Q) : Sound zero add calls Q' := by
  cases hm with
  | release ha hh hc => exact h.release ha hh hc
  | openAccount i limit hfresh ha hh hc => exact h.openAccount hzero hfresh ha hh hc
  | hold i k a hi hroom ha hh hc => exact h.hold hi hroom ha hh hc
  | charge i k u a hi hheld hcalls ha hh hc => exact h.charge hi hheld hcalls ha hh hc
  | close closed ha hh hc => exact h.close ha hh hc

end Quota

end PawFlow.Lib
