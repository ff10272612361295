import Mathlib.Tactic

/-!
# Guarded runs of a labelled step function

A system is a partial step function `step : σ → α → Option σ` (`none`: the label
is not enabled). `Runs step ok s t` says that `t` is reached from `s` by enabled
steps, each of which meets the guard `ok` in the state *before* it. With the
trivial guard this is plain reachability.

Every safety result of the development is an instance of `Runs.invariant`
(a property of states) or `Runs.preserves` (a property of two states of one run).
-/

namespace PawFlow.Lib

variable {σ : Type*} {α : Type*}

/-- Reachability by enabled steps that all meet the guard. -/
inductive Runs (step : σ → α → Option σ) (ok : σ → α → Prop) : σ → σ → Prop
  | refl (s : σ) : Runs step ok s s
  | snoc {s t u : σ} {a : α} :
      Runs step ok s t → ok t a → step t a = some u → Runs step ok s u

/-- Runs without a guard. -/
abbrev Reach (step : σ → α → Option σ) : σ → σ → Prop :=
  Runs step fun _ _ => True

namespace Runs

variable {step : σ → α → Option σ} {ok ok' : σ → α → Prop} {s t u : σ}

theorem trans (hst : Runs step ok s t) (htu : Runs step ok t u) : Runs step ok s u := by
  induction htu with
  | refl => exact hst
  | snoc _ hok hstep ih => exact ih.snoc hok hstep

theorem mono (h : ∀ s a, ok s a → ok' s a) (hst : Runs step ok s t) : Runs step ok' s t := by
  induction hst with
  | refl => exact .refl _
  | snoc _ hok hstep ih => exact ih.snoc (h _ _ hok) hstep

/-- **Invariant rule.** What holds initially and is kept by every guarded step
holds in every state of a guarded run. -/
theorem invariant (Inv : σ → Prop) (hstep : ∀ t a u, Inv t → ok t a → step t a = some u → Inv u)
    (hst : Runs step ok s t) (h0 : Inv s) : Inv t := by
  induction hst with
  | refl => exact h0
  | snoc _ hok hs ih => exact hstep _ _ _ ih hok hs

/-- **Two-state rule.** A preorder that every guarded step from an invariant
state respects holds between the ends of every guarded run. -/
theorem preserves (Inv : σ → Prop) (R : σ → σ → Prop)
    (hrefl : ∀ s, R s s) (htrans : ∀ s t u, R s t → R t u → R s u)
    (hinv : ∀ t a u, Inv t → ok t a → step t a = some u → Inv u)
    (hrel : ∀ t a u, Inv t → ok t a → step t a = some u → R t u)
    (hst : Runs step ok s t) (h0 : Inv s) : R s t := by
  induction hst with
  | refl => exact hrefl _
  | snoc hrun hok hs ih =>
    exact htrans _ _ _ ih (hrel _ _ _ (hrun.invariant Inv hinv h0) hok hs)

/-! ### Steps made of smaller changes -/

variable {C : σ → σ → Prop}

theorem changes (hstep : ∀ t a u, ok t a → step t a = some u → Relation.ReflTransGen C t u)
    (hst : Runs step ok s t) : Relation.ReflTransGen C s t := by
  induction hst with
  | refl => exact .refl
  | snoc _ hok hs ih => exact ih.trans (hstep _ _ _ hok hs)

end Runs

theorem changes_invariant {C : σ → σ → Prop} {s t : σ} (Inv : σ → Prop)
    (hchange : ∀ t u, Inv t → C t u → Inv u) (hst : Relation.ReflTransGen C s t)
    (h0 : Inv s) : Inv t := by
  induction hst with
  | refl => exact h0
  | tail _ hc ih => exact hchange _ _ ih hc

/-- A preorder that every change from an invariant state respects holds between the ends
of a sequence of changes. -/
theorem changes_preserves {C : σ → σ → Prop} {s t : σ} (Inv : σ → Prop) (R : σ → σ → Prop)
    (hrefl : ∀ s, R s s) (htrans : ∀ s t u, R s t → R t u → R s u)
    (hinv : ∀ t u, Inv t → C t u → Inv u) (hrel : ∀ t u, Inv t → C t u → R t u)
    (hst : Relation.ReflTransGen C s t) (h0 : Inv s) : R s t := by
  induction hst with
  | refl => exact hrefl _
  | tail hrun hc ih =>
    exact htrans _ _ _ ih (hrel _ _ (changes_invariant Inv hinv hrun h0) hc)

/-- Follow a list of labels, checking the guard before each step. -/
def follow (step : σ → α → Option σ) (ok : σ → α → Prop)
    [∀ s a, Decidable (ok s a)] : σ → List α → Option σ
  | s, [] => some s
  | s, a :: as =>
    if ok s a then (step s a).bind (follow step ok · as) else none

theorem runs_of_follow {step : σ → α → Option σ} {ok : σ → α → Prop}
    [∀ s a, Decidable (ok s a)] : ∀ {as : List α} {s t : σ},
    follow step ok s as = some t → Runs step ok s t
  | [], s, t, h => by
    obtain rfl := Option.some.inj h
    exact .refl s
  | a :: as, s, t, h => by
    unfold follow at h
    split at h
    · next hok =>
      obtain ⟨u, hu, hrest⟩ := Option.bind_eq_some_iff.mp h
      exact (Runs.snoc (.refl s) hok hu).trans (runs_of_follow hrest)
    · exact absurd h (by simp)

/-- Every label meets the guard in the state it is used in. -/
def guarded (f : σ → α → σ) (ok : σ → α → Prop) [∀ s a, Decidable (ok s a)] : σ → List α → Bool
  | _, [] => true
  | s, a :: as => decide (ok s a) && guarded f ok (f s a) as

variable {f : σ → α → σ}

theorem runs_of_guarded {step : σ → α → Option σ} {ok : σ → α → Prop}
    [∀ s a, Decidable (ok s a)] (hstep : ∀ s a, step s a = some (f s a)) :
    ∀ {as : List α} {s : σ}, guarded f ok s as = true → Runs step ok s (as.foldl f s)
  | [], s, _ => .refl s
  | a :: as, s, h => by
    simp only [guarded, Bool.and_eq_true, decide_eq_true_eq] at h
    exact ((Runs.refl s).snoc h.1 (hstep s a)).trans (runs_of_guarded hstep h.2)

theorem reach_foldl {step : σ → α → Option σ}
    (hstep : ∀ s a, step s a = some (f s a)) (as : List α) (s : σ) :
    Reach step s (as.foldl f s) := by
  induction as generalizing s with
  | nil => exact .refl s
  | cons a as ih => exact ((Runs.refl s).snoc trivial (hstep s a)).trans (ih (f s a))

/-! ### Every state and every step of one run -/

/-- Every state that the labels lead through, up to the first one that is not enabled. -/
def AllStates (step : σ → α → Option σ) (good : σ → Prop) : σ → List α → Prop
  | s, [] => good s
  | s, a :: as => good s ∧ ∀ t ∈ step s a, AllStates step good t as

variable {good : σ → Prop}

theorem AllStates.here {step : σ → α → Option σ} {s : σ} :
    ∀ {as : List α}, AllStates step good s as → good s
  | [], h => h
  | _ :: _, h => h.1

theorem AllStates.last {step : σ → α → Option σ} :
    ∀ {as : List α} {s t : σ}, AllStates step good s as → as.foldlM step s = some t → good t
  | [], s, t, h, ht => by
    obtain rfl := Option.some.inj ht
    exact h
  | a :: as, s, t, h, ht => by
    obtain ⟨u, hu, hrest⟩ := Option.bind_eq_some_iff.mp ht
    exact (h.2 u hu).last hrest

/-- Every step the labels take meets the guard in the state before it. -/
def AllSteps (step : σ → α → Option σ) (ok : σ → α → Prop) : σ → List α → Prop
  | _, [] => True
  | s, a :: as => ∀ t ∈ step s a, ok s a ∧ AllSteps step ok t as

theorem allSteps_of_forall {step : σ → α → Option σ} {ok : σ → α → Prop} (h : ∀ s a, ok s a) :
    ∀ {as : List α} {s : σ}, AllSteps step ok s as
  | [], _ => trivial
  | _ :: _, s => fun _ _ => ⟨h s _, allSteps_of_forall h⟩

instance decidableAllSteps {step : σ → α → Option σ} {ok : σ → α → Prop}
    [∀ s a, Decidable (ok s a)] : ∀ s as, Decidable (AllSteps step ok s as)
  | _, [] => .isTrue trivial
  | s, a :: as =>
    have : ∀ t, Decidable (AllSteps step ok t as) := fun t => decidableAllSteps t as
    inferInstanceAs (Decidable (∀ t ∈ step s a, ok s a ∧ AllSteps step ok t as))

theorem allSteps_congr {step : σ → α → Option σ} {ok ok' : σ → α → Prop} (Inv : σ → Prop)
    (hkeep : ∀ s a t, Inv s → step s a = some t → Inv t ∧ (ok s a ↔ ok' s a)) :
    ∀ {as : List α} {s : σ}, Inv s → (AllSteps step ok s as ↔ AllSteps step ok' s as)
  | [], _, _ => Iff.rfl
  | a :: _, s, hs => forall₂_congr fun t ht =>
    have hstep := hkeep s a t hs ht
    and_congr hstep.2 (allSteps_congr Inv hkeep hstep.1)

theorem AllSteps.allStates {step : σ → α → Option σ} {ok : σ → α → Prop}
    (Inv : σ → Prop) (hgood : ∀ s, Inv s → good s)
    (hkeep : ∀ s a t, Inv s → ok s a → step s a = some t → Inv t) :
    ∀ {as : List α} {s : σ}, AllSteps step ok s as → Inv s → AllStates step good s as
  | [], s, _, hs => hgood s hs
  | a :: _, s, h, hs => ⟨hgood s hs, fun t ht =>
    (h t ht).2.allStates Inv hgood hkeep (hkeep s a t hs (h t ht).1 ht)⟩

theorem AllSteps.of_inv {step : σ → α → Option σ} {ok ok' : σ → α → Prop} (Inv : σ → Prop)
    (hkeep : ∀ s a t, Inv s → ok s a → step s a = some t → Inv t ∧ ok' s a) :
    ∀ {as : List α} {s : σ}, AllSteps step ok s as → Inv s → AllSteps step ok' s as
  | [], _, _, _ => trivial
  | a :: _, s, h, hs => fun t ht =>
    have hstep := hkeep s a t hs (h t ht).1 ht
    ⟨hstep.2, (h t ht).2.of_inv Inv hkeep hstep.1⟩

theorem AllSteps.and_mem {step : σ → α → Option σ} {ok : σ → α → Prop} {q : α → Prop} :
    ∀ {as : List α} {s : σ}, AllSteps step ok s as → (∀ a ∈ as, q a) →
      AllSteps step (fun s a => ok s a ∧ q a) s as
  | [], _, _, _ => trivial
  | a :: _, _, h, hq => fun t ht =>
    ⟨⟨(h t ht).1, hq a List.mem_cons_self⟩,
      (h t ht).2.and_mem fun b hb => hq b (List.mem_cons_of_mem _ hb)⟩

theorem AllSteps.at_last {step : σ → α → Option σ} {ok : σ → α → Prop} {a : α} {t u : σ} :
    ∀ {as : List α} {s : σ}, AllSteps step ok s (as ++ [a]) → as.foldlM step s = some t →
      step t a = some u → ok t a
  | [], s, h, ht, hu => by
    obtain rfl := Option.some.inj ht
    exact (h u hu).1
  | b :: as, s, h, ht, hu => by
    obtain ⟨v, hv, hrest⟩ := Option.bind_eq_some_iff.mp ht
    exact (h v hv).2.at_last hrest hu

/-- **Exact guard.** Where a guarded step keeps the invariant, the invariant gives the property and
a step that misses the guard loses it, a run has the property throughout exactly if all its steps
meet the guard. -/
theorem allStates_iff_allSteps {step : σ → α → Option σ} {lim ok : σ → α → Prop}
    (Inv : σ → Prop) (hgood : ∀ s, Inv s → good s)
    (hkeep : ∀ s a t, Inv s → lim s a → ok s a → step s a = some t → Inv t)
    (hbreak : ∀ s a t, Inv s → lim s a → ¬ ok s a → step s a = some t → ¬ good t) :
    ∀ {as : List α} {s : σ}, Inv s → AllSteps step lim s as →
      (AllStates step good s as ↔ AllSteps step ok s as)
  | [], s, hs, _ => iff_of_true (hgood s hs) trivial
  | a :: as, s, hs, hlim => by
    have ih : ∀ t ∈ step s a, ok s a →
        (AllStates step good t as ↔ AllSteps step ok t as) := fun t ht hok =>
      allStates_iff_allSteps Inv hgood hkeep hbreak (hkeep s a t hs (hlim t ht).1 hok ht)
        (hlim t ht).2
    constructor
    · rintro ⟨-, hrest⟩ t ht
      have hok : ok s a := by
        by_contra hnot
        exact hbreak s a t hs (hlim t ht).1 hnot ht (hrest t ht).here
      exact ⟨hok, (ih t ht hok).mp (hrest t ht)⟩
    · intro hrest
      exact ⟨hgood s hs, fun t ht => (ih t ht (hrest t ht).1).mpr (hrest t ht).2⟩

end PawFlow.Lib
