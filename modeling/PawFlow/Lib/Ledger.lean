import Mathlib.Tactic

/-!
# Claims and their owners

The abstract shape of "one live run per key": every id may hold a *claim* on a
key, a claim is in some phase, and a separate owner table says which id owns each
key under which generation. `Exclusive` ties the two tables together; the moves
are the only ways a store may change them, and each keeps `Exclusive`.
-/

namespace PawFlow.Lib

structure LedgerClaim (κ γ φ : Type*) where
  key : κ
  generation : γ
  phase : φ

structure Ledger (ι κ γ φ : Type*) where
  claims : ι → Option (LedgerClaim κ γ φ)
  owners : κ → Option (ι × γ)

namespace Ledger

variable {ι κ γ φ : Type*} (live : φ → Bool)

/-- The owner table lists exactly the live claims, each under its own key and
generation. -/
structure Exclusive (L : Ledger ι κ γ φ) : Prop where
  owner_claim : ∀ {k i g}, L.owners k = some (i, g) →
    ∃ c, L.claims i = some c ∧ c.key = k ∧ c.generation = g ∧ live c.phase = true
  claim_owner : ∀ {i c}, L.claims i = some c → live c.phase = true →
    L.owners c.key = some (i, c.generation)

variable [DecidableEq ι] [DecidableEq κ]

/-- The ways a ledger may change. -/
inductive Move (L : Ledger ι κ γ φ) : Ledger ι κ γ φ → Prop
  | keep {L'} (hc : ∀ i, L'.claims i = L.claims i)
      (ho : ∀ k, L'.owners k = L.owners k) : Move L L'
  | start {L'} (i : ι) (c : LedgerClaim κ γ φ) (hfresh : L.claims i = none)
      (hfree : L.owners c.key = none) (hlive : live c.phase = true)
      (hc : ∀ j, L'.claims j = if j = i then some c else L.claims j)
      (ho : ∀ k, L'.owners k =
        if k = c.key then some (i, c.generation) else L.owners k) : Move L L'
  | advance {L'} (i : ι) (c : LedgerClaim κ γ φ) (p : φ) (hi : L.claims i = some c)
      (hlive : live c.phase = true) (hlive' : live p = true)
      (hc : ∀ j, L'.claims j = if j = i then some { c with phase := p } else L.claims j)
      (ho : ∀ k, L'.owners k = L.owners k) : Move L L'
  | settle {L'} (i : ι) (c : LedgerClaim κ γ φ) (p : φ) (hi : L.claims i = some c)
      (hlive : live c.phase = true) (hdead : live p = false)
      (hc : ∀ j, L'.claims j = if j = i then some { c with phase := p } else L.claims j)
      (ho : ∀ k, L'.owners k = (L.owners k).filter fun o => o.1 ≠ i) : Move L L'
  | drop {L'} (dropped : ι → Bool)
      (hc : ∀ j, L'.claims j = if dropped j then none else L.claims j)
      (ho : ∀ k, L'.owners k = (L.owners k).filter fun o => !dropped o.1) : Move L L'

variable {live} {L L' : Ledger ι κ γ φ}

/-- **A move keeps ownership exclusive.** -/
theorem Move.exclusive (hm : Move live L L') (h : Exclusive live L) : Exclusive live L' := by
  cases hm with
  | keep hc ho =>
    constructor
    · intro k i g hk
      rw [ho] at hk
      obtain ⟨c, hi, hrest⟩ := h.owner_claim hk
      exact ⟨c, (hc i).trans hi, hrest⟩
    · intro i c hi hl
      rw [hc] at hi
      rw [ho]
      exact h.claim_owner hi hl
  | start i c hfresh hfree hlive hc ho =>
    constructor
    · intro k j g hk
      rw [ho] at hk
      split at hk
      · next hkey =>
        obtain ⟨rfl, rfl⟩ := Prod.mk.inj (Option.some.inj hk)
        exact ⟨c, by rw [hc, if_pos rfl], hkey.symm, rfl, hlive⟩
      · obtain ⟨d, hd, hrest⟩ := h.owner_claim hk
        have hji : j ≠ i := by
          rintro rfl
          simp [hfresh] at hd
        exact ⟨d, by rw [hc, if_neg hji, hd], hrest⟩
    · intro j d hd hl
      rw [hc] at hd
      split at hd
      · next hji =>
        obtain rfl := Option.some.inj hd
        rw [ho, if_pos rfl, hji]
      · have howner := h.claim_owner hd hl
        have hne : d.key ≠ c.key := by
          intro hkey
          simp [hkey, hfree] at howner
        rw [ho, if_neg hne]
        exact howner
  | advance i c p hi hlive hlive' hc ho =>
    constructor
    · intro k j g hk
      rw [ho] at hk
      obtain ⟨d, hd, hkey, hgen, hl⟩ := h.owner_claim hk
      by_cases hji : j = i
      · subst hji
        obtain rfl := Option.some.inj (hi.symm.trans hd)
        exact ⟨{ c with phase := p }, by rw [hc, if_pos rfl], hkey, hgen, hlive'⟩
      · exact ⟨d, by rw [hc, if_neg hji, hd], hkey, hgen, hl⟩
    · intro j d hd hl
      rw [ho]
      rw [hc] at hd
      split at hd
      · next hji =>
        obtain rfl := Option.some.inj hd
        rw [hji]
        exact h.claim_owner (c := c) hi hlive
      · exact h.claim_owner hd hl
  | settle i c p hi hlive hdead hc ho =>
    constructor
    · intro k j g hk
      rw [ho, Option.filter_eq_some_iff] at hk
      obtain ⟨hk, hji⟩ := hk
      obtain ⟨d, hd, hrest⟩ := h.owner_claim hk
      exact ⟨d, by rw [hc, if_neg (by simpa using hji), hd], hrest⟩
    · intro j d hd hl
      rw [hc] at hd
      split at hd
      · obtain rfl := Option.some.inj hd
        simp [hdead] at hl
      · next hji =>
        rw [ho, h.claim_owner hd hl]
        simp [Option.filter, hji]
  | drop dropped hc ho =>
    constructor
    · intro k j g hk
      rw [ho, Option.filter_eq_some_iff] at hk
      obtain ⟨hk, hj⟩ := hk
      obtain ⟨d, hd, hrest⟩ := h.owner_claim hk
      exact ⟨d, by rw [hc, if_neg (by simpa using hj), hd], hrest⟩
    · intro j d hd hl
      rw [hc] at hd
      split at hd
      · simp at hd
      · next hj =>
        rw [ho, h.claim_owner hd hl]
        simp [Option.filter, hj]

variable {c : LedgerClaim κ γ φ}

theorem Move.settled_final (hm : Move live L L') {i : ι}
    (hi : L.claims i = some c) (hdead : live c.phase = false) :
    L'.claims i = some c ∨ L'.claims i = none := by
  cases hm with
  | keep hc ho => exact Or.inl ((hc i).trans hi)
  | start j d hfresh hfree hlive hc ho =>
    have hij : i ≠ j := by
      rintro rfl
      simp [hi] at hfresh
    exact Or.inl (by rw [hc, if_neg hij, hi])
  | advance j d p hj hlive hlive' hc ho =>
    have hij : i ≠ j := by
      rintro rfl
      obtain rfl := Option.some.inj (hi.symm.trans hj)
      rw [hdead] at hlive
      exact Bool.noConfusion hlive
    exact Or.inl (by rw [hc, if_neg hij, hi])
  | settle j d p hj hlive hdead' hc ho =>
    have hij : i ≠ j := by
      rintro rfl
      obtain rfl := Option.some.inj (hi.symm.trans hj)
      rw [hdead] at hlive
      exact Bool.noConfusion hlive
    exact Or.inl (by rw [hc, if_neg hij, hi])
  | drop dropped hc ho =>
    rw [hc]
    split
    · exact Or.inr rfl
    · exact Or.inl hi

omit [DecidableEq ι] [DecidableEq κ] in
theorem Exclusive.live_unique (h : Exclusive live L) {i j : ι}
    {d : LedgerClaim κ γ φ} (hi : L.claims i = some c) (hj : L.claims j = some d)
    (hc : live c.phase = true) (hd : live d.phase = true) (hkey : c.key = d.key) : i = j := by
  have howner := h.claim_owner hi hc
  rw [hkey, h.claim_owner hj hd] at howner
  exact (Prod.mk.inj (Option.some.inj howner)).1.symm

end Ledger

end PawFlow.Lib
