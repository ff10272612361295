import PawFlow.Lib.PyDict

/-!
# Dictionaries that shadow one another

A stack of dictionaries is read by asking each in turn, or by merging them with the first
value of a key kept. Both give the same values, and what is filtered by a key and its value
is filtered in the merged dictionary as it is in a lookup.
-/

namespace PawFlow.Lib.PyDict

variable {κ ν μ : Type*} [DecidableEq κ]

/-- `d.setdefault(k, v)`. -/
def setdefault (d : PyDict κ ν) (k : κ) (v : ν) : PyDict κ ν :=
  match d.get? k with
  | some _ => d
  | none => d.set k v

/-- `for k, v in items: d.setdefault(k, v)`. -/
def underlay (d items : PyDict κ ν) : PyDict κ ν :=
  items.foldl (fun d i => d.setdefault i.1 i.2) d

theorem get?_cons (i : κ × ν) (d : PyDict κ ν) (k : κ) :
    get? (i :: d) k = if i.1 = k then some i.2 else d.get? k := by
  by_cases h : i.1 = k
  · simp [get?, h]
  · simp [get?, h]

theorem get?_setdefault (d : PyDict κ ν) (k k' : κ) (v : ν) :
    (d.setdefault k v).get? k' = (d.get? k').or (if k = k' then some v else none) := by
  unfold setdefault
  split
  · next u hu =>
    by_cases hk : k = k'
    · subst hk
      simp [hu]
    · simp [hk]
  · next hnone =>
    by_cases hk : k = k'
    · subst hk
      simp [get?_set_self, hnone]
    · simp [get?_set_of_ne d v (Ne.symm hk), hk]

variable {d : PyDict κ ν}

theorem nodup_keys_setdefault (k : κ) (v : ν) (h : (d.map Prod.fst).Nodup) :
    ((d.setdefault k v).map Prod.fst).Nodup := by
  unfold setdefault
  split
  · exact h
  · exact nodup_keys_set v h

theorem get?_underlay (d items : PyDict κ ν) (k : κ) :
    (d.underlay items).get? k = (d.get? k).or (items.get? k) := by
  induction items generalizing d with
  | nil => simp [underlay, get?]
  | cons i items ih =>
    have hstep : d.underlay (i :: items) = (d.setdefault i.1 i.2).underlay items := rfl
    rw [hstep, ih, get?_setdefault, get?_cons]
    split <;> simp

theorem nodup_keys_underlay (items : PyDict κ ν) (h : (d.map Prod.fst).Nodup) :
    ((d.underlay items).map Prod.fst).Nodup := by
  induction items generalizing d with
  | nil => exact h
  | cons i items ih => exact ih (nodup_keys_setdefault i.1 i.2 h)

theorem get?_foldl_underlay (d : PyDict κ ν) (layers : List (PyDict κ ν)) (k : κ) :
    (layers.foldl underlay d).get? k = (d.get? k).or (layers.findSome? fun l => l.get? k) := by
  induction layers generalizing d with
  | nil => simp
  | cons l layers ih =>
    rw [List.foldl_cons, ih, get?_underlay, List.findSome?_cons, Option.or_assoc]
    cases l.get? k <;> simp

theorem nodup_keys_foldl_underlay (layers : List (PyDict κ ν))
    (h : (d.map Prod.fst).Nodup) : ((layers.foldl underlay d).map Prod.fst).Nodup := by
  induction layers generalizing d with
  | nil => exact h
  | cons l layers ih => exact ih (nodup_keys_underlay l h)

/-! ## Keeping some of the values -/

/-- The items whose value passes, with the value it passes as. -/
def filterMapValues (g : κ → ν → Option μ) (d : PyDict κ ν) : PyDict κ μ :=
  d.filterMap fun i => (g i.1 i.2).map (i.1, ·)

omit [DecidableEq κ] in
theorem keys_filterMapValues_sublist (g : κ → ν → Option μ) (d : PyDict κ ν) :
    ((filterMapValues g d).map Prod.fst).Sublist (d.map Prod.fst) := by
  induction d with
  | nil => exact .refl _
  | cons i d ih =>
    unfold filterMapValues at ih ⊢
    rw [List.filterMap_cons]
    cases g i.1 i.2 with
    | none => exact ih.cons _
    | some v => exact ih.cons_cons _

theorem get?_filterMapValues (g : κ → ν → Option μ) (h : (d.map Prod.fst).Nodup) (k : κ) :
    (filterMapValues g d).get? k = (d.get? k).bind (g k) := by
  induction d with
  | nil => rfl
  | cons i d ih =>
    obtain ⟨hnot, hrest⟩ := List.nodup_cons.mp h
    have hsplit : filterMapValues g (i :: d) =
        ((g i.1 i.2).map (i.1, ·)).toList ++ filterMapValues g d := by
      unfold filterMapValues
      rw [List.filterMap_cons]
      cases g i.1 i.2 <;> rfl
    rw [hsplit, get?_cons]
    by_cases hk : i.1 = k
    · subst hk
      -- The key is not met again.
      have hgone : (filterMapValues g d).get? i.1 = none := by
        refine get?_eq_none_iff.mpr fun hmem => hnot ?_
        exact (keys_filterMapValues_sublist g d).subset hmem
      cases hg : g i.1 i.2 with
      | none => simpa [hg] using hgone
      | some v => simp [get?, hg]
    · rw [if_neg hk, ← ih hrest]
      cases g i.1 i.2 with
      | none => rfl
      | some v => simp [get?, hk]

end PyDict

/-! ## The first layer of an ordered stack -/

/-- In a stack in order of rank, the first layer that answers is the one of least rank. -/
theorem findSome?_eq_some_iff_of_rank {α β : Type*} {f : α → Option β} {rank : α → Nat}
    {stack : List α} (h : stack.Pairwise fun a b => rank a < rank b) {b : β} :
    stack.findSome? f = some b ↔
      ∃ a ∈ stack, f a = some b ∧ ∀ a' ∈ stack, (f a').isSome → rank a ≤ rank a' := by
  induction stack with
  | nil => simp
  | cons top stack ih =>
    obtain ⟨htop, hstack⟩ := List.pairwise_cons.mp h
    rw [List.findSome?_cons]
    cases hf : f top with
    | some c =>
      constructor
      · intro hb
        refine ⟨top, List.mem_cons_self .., hf.trans hb, fun a' ha' _ => ?_⟩
        rcases List.mem_cons.mp ha' with rfl | ha'
        · exact le_rfl
        · exact (htop a' ha').le
      · rintro ⟨a, ha, hab, hleast⟩
        rcases List.mem_cons.mp ha with rfl | ha
        · rw [← hf, hab]
        · -- A lower layer would be of less rank than the top, which answers.
          have := hleast top (List.mem_cons_self ..) (by simp [hf])
          exact absurd (htop a ha) (by omega)
    | none =>
      rw [ih hstack]
      constructor
      · rintro ⟨a, ha, hab, hleast⟩
        refine ⟨a, List.mem_cons_of_mem _ ha, hab, fun a' ha' hsome => ?_⟩
        rcases List.mem_cons.mp ha' with rfl | ha'
        · simp [hf] at hsome
        · exact hleast a' ha' hsome
      · rintro ⟨a, ha, hab, hleast⟩
        rcases List.mem_cons.mp ha with rfl | ha
        · simp [hf] at hab
        · exact ⟨a, ha, hab, fun a' ha' => hleast a' (List.mem_cons_of_mem _ ha')⟩

end PawFlow.Lib
