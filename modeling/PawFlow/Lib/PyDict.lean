import Mathlib.Tactic

/-!
# Insertion-ordered dictionaries

A Python `dict` as the list of its items in insertion order: writing a key that is
present keeps its place, writing a new key appends it.
-/

namespace PawFlow.Lib

abbrev PyDict (κ ν : Type*) := List (κ × ν)

namespace PyDict

variable {κ ν : Type*} [DecidableEq κ]

/-- `d.get(k)`. -/
def get? (d : PyDict κ ν) (k : κ) : Option ν := (d.find? fun i => i.1 = k).map Prod.snd

example : get? [(1, "a"), (2, "b"), (1, "c")] 1 = some "a" := by simp [get?]

/-- `d[k] = v`. -/
def set (d : PyDict κ ν) (k : κ) (v : ν) : PyDict κ ν :=
  match d with
  | [] => [(k, v)]
  | (k', v') :: rest => if k' = k then (k, v) :: rest else (k', v') :: set rest k v

example : set [(1, "a"), (2, "b")] 2 "c" = [(1, "a"), (2, "c")] := by simp [set]

/-- `del d[k]`. -/
def erase (d : PyDict κ ν) (k : κ) : PyDict κ ν := d.filter fun i => i.1 ≠ k

/-- `d.update(items)`. -/
def update (d items : PyDict κ ν) : PyDict κ ν :=
  items.foldl (fun d i => d.set i.1 i.2) d

/-- `if k in d: d[k] = f(d[k])`. -/
def adjust (d : PyDict κ ν) (k : κ) (f : ν → ν) : PyDict κ ν :=
  match d.get? k with
  | some v => d.set k (f v)
  | none => d

/-- `if k in d: d[k] = f(d[k])` with an `f` that may raise. -/
def adjustM {ε : Type*} (d : PyDict κ ν) (k : κ) (f : ν → Except ε ν) : Except ε (PyDict κ ν) :=
  match d.get? k with
  | some v => (f v).map fun w => d.set k w
  | none => .ok d

variable {d : PyDict κ ν} {k : κ}

variable {v : ν} {items : PyDict κ ν}

theorem mem_of_get? (h : d.get? k = some v) : (k, v) ∈ d := by
  obtain ⟨⟨k', v'⟩, hfind, rfl⟩ := Option.map_eq_some_iff.mp h
  have hkey : k' = k := by simpa using List.find?_some hfind
  subst hkey
  exact List.mem_of_find?_eq_some hfind

variable {k' : κ}

theorem get?_set_of_ne (d : PyDict κ ν) (v : ν) (h : k' ≠ k) : (d.set k v).get? k' = d.get? k' := by
  induction d with
  | nil => simp [set, get?, h.symm]
  | cons i rest ih =>
    obtain ⟨j, u⟩ := i
    by_cases hj : j = k
    · subst hj
      simp [set, get?, h.symm]
    · by_cases hj' : j = k'
      · simp [set, get?, hj', h]
      · simpa [set, get?, hj, hj'] using ih

theorem get?_set_self (d : PyDict κ ν) (k : κ) (v : ν) : (d.set k v).get? k = some v := by
  induction d with
  | nil => simp [set, get?]
  | cons i rest ih =>
    by_cases hi : i.1 = k
    · simp [set, get?, hi]
    · simpa [set, get?, hi] using ih

theorem mem_keys_of_get? (h : d.get? k = some v) : k ∈ d.map Prod.fst :=
  List.mem_map.mpr ⟨_, mem_of_get? h, rfl⟩

theorem keys_set (v : ν) (h : k ∈ d.map Prod.fst) : (d.set k v).map Prod.fst = d.map Prod.fst := by
  induction d with
  | nil => simp at h
  | cons i rest ih =>
    by_cases hi : i.1 = k
    · simp [set, hi]
    · have hrest : k ∈ rest.map Prod.fst := by
        rcases List.mem_cons.mp h with hk | hk
        · exact absurd hk.symm hi
        · exact hk
      simp only [set, hi, if_false, List.map_cons, ih hrest]

theorem keys_adjust (d : PyDict κ ν) (k : κ) (f : ν → ν) :
    (d.adjust k f).map Prod.fst = d.map Prod.fst := by
  unfold adjust
  split
  · next h => exact keys_set _ (mem_keys_of_get? h)
  · rfl

theorem get?_adjust_self (d : PyDict κ ν) (k : κ) (f : ν → ν) :
    (d.adjust k f).get? k = (d.get? k).map f := by
  unfold adjust
  split
  · next h => rw [get?_set_self, h, Option.map_some]
  · next h => rw [h, Option.map_none]

theorem get?_adjust_of_ne (d : PyDict κ ν) (f : ν → ν) (h : k' ≠ k) :
    (d.adjust k f).get? k' = d.get? k' := by
  unfold adjust
  split
  · exact get?_set_of_ne d _ h
  · rfl

theorem adjustM_eq_ok {ε : Type*} {d' : PyDict κ ν} {f : ν → Except ε ν}
    (h : d.adjustM k f = .ok d') :
    d'.map Prod.fst = d.map Prod.fst ∧ (∀ k' ≠ k, d'.get? k' = d.get? k') ∧
      ∀ v, d.get? k = some v → ∃ w, f v = .ok w ∧ d'.get? k = some w := by
  unfold adjustM at h
  split at h
  · next v hv =>
    cases hf : f v with
    | error e => simp [hf, Except.map] at h
    | ok w =>
      obtain rfl : d.set k w = d' := by simpa [hf, Except.map] using h
      refine ⟨keys_set w (mem_keys_of_get? hv), fun k' hk => get?_set_of_ne d w hk, ?_⟩
      intro u hu
      obtain rfl : v = u := Option.some.inj (hv.symm.trans hu)
      exact ⟨w, hf, get?_set_self d k w⟩
  · next hnone =>
    obtain rfl := Except.ok.inj h
    exact ⟨rfl, fun _ _ => rfl, by simp [hnone]⟩

theorem exists_adjustM {ε : Type*} {f : ν → Except ε ν}
    (h : ∀ v, d.get? k = some v → ∃ w, f v = .ok w) : ∃ d', d.adjustM k f = .ok d' := by
  unfold adjustM
  split
  · next v hv =>
    obtain ⟨w, hw⟩ := h v hv
    exact ⟨d.set k w, by rw [hw]; rfl⟩
  · exact ⟨d, rfl⟩

/-! ## Adjusting several keys in turn -/

section

variable {ε : Type*} {keys : List κ}

theorem keys_foldl_adjust (d : PyDict κ ν) (f : κ → ν → ν) :
    (keys.foldl (fun d k => d.adjust k (f k)) d).map Prod.fst = d.map Prod.fst := by
  induction keys generalizing d with
  | nil => rfl
  | cons k keys ih => rw [List.foldl_cons, ih, keys_adjust]

theorem get?_foldl_adjust_of_not_mem (d : PyDict κ ν) (f : κ → ν → ν) {k : κ} (h : k ∉ keys) :
    (keys.foldl (fun d k => d.adjust k (f k)) d).get? k = d.get? k := by
  induction keys generalizing d with
  | nil => rfl
  | cons j keys ih =>
    rw [List.mem_cons, not_or] at h
    rw [List.foldl_cons, ih _ h.2, get?_adjust_of_ne d _ h.1]

theorem get?_foldl_adjust (d : PyDict κ ν) (f : κ → ν → ν) (hnodup : keys.Nodup) {k : κ}
    (h : k ∈ keys) :
    (keys.foldl (fun d k => d.adjust k (f k)) d).get? k = (d.get? k).map (f k) := by
  induction keys generalizing d with
  | nil => simp at h
  | cons j keys ih =>
    obtain ⟨hj, hnodup⟩ := List.nodup_cons.mp hnodup
    rw [List.foldl_cons]
    rcases List.mem_cons.mp h with rfl | h
    · rw [get?_foldl_adjust_of_not_mem _ f hj, get?_adjust_self]
    · rw [ih _ hnodup h, get?_adjust_of_ne d _ (ne_of_mem_of_not_mem h hj)]

variable {f : κ → ν → Except ε ν}

theorem foldlM_adjustM_eq_ok {d d' : PyDict κ ν} (hnodup : keys.Nodup)
    (h : keys.foldlM (fun d k => d.adjustM k (f k)) d = .ok d') :
    d'.map Prod.fst = d.map Prod.fst ∧ (∀ k ∉ keys, d'.get? k = d.get? k) ∧
      ∀ k ∈ keys, ∀ v, d.get? k = some v → ∃ w, f k v = .ok w ∧ d'.get? k = some w := by
  induction keys generalizing d with
  | nil =>
    obtain rfl : d = d' := Except.ok.inj h
    simp
  | cons j keys ih =>
    obtain ⟨hj, hnodup⟩ := List.nodup_cons.mp hnodup
    rw [List.foldlM_cons] at h
    cases hstep : d.adjustM j (f j) with
    | error e => simp [hstep, bind, Except.bind] at h
    | ok mid =>
      obtain ⟨hkeys, hother, hself⟩ := adjustM_eq_ok hstep
      obtain ⟨hkeys', hother', hself'⟩ := ih hnodup (by simpa [hstep, bind, Except.bind] using h)
      refine ⟨hkeys'.trans hkeys, fun k hk => ?_, fun k hk v hv => ?_⟩
      · rw [List.mem_cons, not_or] at hk
        rw [hother' k hk.2, hother k hk.1]
      · rcases List.mem_cons.mp hk with rfl | hk
        · obtain ⟨w, hw, hget⟩ := hself v hv
          exact ⟨w, hw, (hother' k hj).trans hget⟩
        · have hne := ne_of_mem_of_not_mem hk hj
          exact hself' k hk v ((hother k hne).trans hv)

theorem exists_foldlM_adjustM {d : PyDict κ ν} (hnodup : keys.Nodup)
    (h : ∀ k ∈ keys, ∀ v, d.get? k = some v → ∃ w, f k v = .ok w) :
    ∃ d', keys.foldlM (fun d k => d.adjustM k (f k)) d = .ok d' := by
  induction keys generalizing d with
  | nil => exact ⟨d, rfl⟩
  | cons j keys ih =>
    obtain ⟨hj, hnodup⟩ := List.nodup_cons.mp hnodup
    obtain ⟨mid, hmid⟩ := exists_adjustM (h j (by simp))
    obtain ⟨-, hother, -⟩ := adjustM_eq_ok hmid
    obtain ⟨d', hd'⟩ := ih (d := mid) hnodup fun k hk v hv => by
      have hne := ne_of_mem_of_not_mem hk hj
      exact h k (List.mem_cons_of_mem _ hk) v ((hother k hne).symm.trans hv)
    exact ⟨d', by simp [List.foldlM_cons, hmid, bind, Except.bind, hd']⟩

end

theorem set_of_not_mem (v : ν) (h : k ∉ d.map Prod.fst) : d.set k v = d ++ [(k, v)] := by
  induction d with
  | nil => rfl
  | cons i rest ih =>
    rw [List.map_cons, List.mem_cons, not_or] at h
    rw [set, if_neg (Ne.symm h.1), ih h.2, List.cons_append]

theorem get?_of_mem (hnodup : (d.map Prod.fst).Nodup) (h : (k, v) ∈ d) : d.get? k = some v := by
  induction d with
  | nil => simp at h
  | cons i rest ih =>
    rw [List.map_cons, List.nodup_cons] at hnodup
    rcases List.mem_cons.mp h with rfl | h
    · simp [get?]
    · have hne : i.1 ≠ k := by
        rintro rfl
        exact hnodup.1 (List.mem_map.mpr ⟨_, h, rfl⟩)
      have := ih hnodup.2 h
      simpa [get?, hne] using this

theorem get?_eq_none_iff : d.get? k = none ↔ k ∉ d.map Prod.fst := by
  rw [get?, Option.map_eq_none_iff, List.find?_eq_none, List.mem_map, not_exists]
  simp only [decide_eq_true_eq, not_and]

theorem get?_erase (d : PyDict κ ν) (k k' : κ) :
    (d.erase k).get? k' = if k' = k then none else d.get? k' := by
  unfold erase get?
  rw [List.find?_filter]
  split
  · next h =>
    subst h
    rw [List.find?_eq_none.2 fun i _ => by simp, Option.map_none]
  · next h =>
    congr 2
    funext i
    by_cases hi : i.1 = k'
    · simp [hi, h]
    · simp [hi]

theorem mem_keys_set : k' ∈ (d.set k v).map Prod.fst ↔ k' ∈ d.map Prod.fst ∨ k' = k := by
  by_cases hk : k ∈ d.map Prod.fst
  · rw [keys_set v hk]
    constructor
    · exact .inl
    · rintro (hk' | rfl)
      · exact hk'
      · exact hk
  · rw [set_of_not_mem v hk]
    simp

theorem nodup_keys_set (v : ν) (h : (d.map Prod.fst).Nodup) : ((d.set k v).map Prod.fst).Nodup := by
  by_cases hk : k ∈ d.map Prod.fst
  · rwa [keys_set v hk]
  · rw [set_of_not_mem v hk, List.map_append, List.nodup_append]
    exact ⟨h, by simp, by simpa using fun a ha => ne_of_mem_of_not_mem ha hk⟩

theorem update_of_disjoint
    (h : ((d ++ items).map Prod.fst).Nodup) : d.update items = d ++ items := by
  induction items generalizing d with
  | nil => simp [update]
  | cons i items ih =>
    have hi : i.1 ∉ d.map Prod.fst := by
      rw [List.map_append, List.nodup_append] at h
      exact fun hmem => h.2.2 i.1 hmem i.1 (by simp) rfl
    have hstep : d.update (i :: items) = (d.set i.1 i.2).update items := rfl
    rw [hstep, set_of_not_mem i.2 hi, ih (by simpa using h), List.append_assoc]
    rfl

theorem update_nil_of_nodup (h : (items.map Prod.fst).Nodup) :
    update [] items = items := update_of_disjoint (by simpa using h)

variable {i : κ × ν}

theorem mem_of_mem_set (h : i ∈ d.set k v) : i ∈ d ∨ i = (k, v) := by
  induction d with
  | nil => simpa [set] using h
  | cons j rest ih =>
    rw [set] at h
    split at h
    · rcases List.mem_cons.mp h with rfl | h
      · exact .inr rfl
      · exact .inl (List.mem_cons_of_mem _ h)
    · rcases List.mem_cons.mp h with rfl | h
      · exact .inl (List.mem_cons_self ..)
      · exact (ih h).imp_left (List.mem_cons_of_mem _)

theorem mem_of_mem_update (h : i ∈ d.update items) : i ∈ d ∨ i ∈ items := by
  induction items generalizing d with
  | nil => exact .inl h
  | cons j items ih =>
    have hstep : d.update (j :: items) = (d.set j.1 j.2).update items := rfl
    rcases ih (hstep ▸ h) with h | h
    · rcases mem_of_mem_set h with h | rfl
      · exact .inl h
      · exact .inr (List.mem_cons_self ..)
    · exact .inr (List.mem_cons_of_mem _ h)

theorem perm_flatMap_set_append {α : Type*} (d : PyDict κ (List α)) (k : κ) (x : α) :
    ((d.set k ((d.get? k).getD [] ++ [x])).flatMap Prod.snd).Perm (d.flatMap Prod.snd ++ [x]) := by
  induction d with
  | nil => simp [set, get?]
  | cons i rest ih =>
    obtain ⟨k', v⟩ := i
    by_cases hk : k' = k
    · subst hk
      simp only [set, get?, List.find?_cons, decide_true, Option.map_some, Option.getD_some,
        if_true, List.flatMap_cons, List.append_assoc]
      exact List.perm_append_comm.append_left v
    · have hget : get? ((k', v) :: rest) k = get? rest k := by
        simp [get?, hk]
      rw [hget]
      simp only [set, if_neg hk, List.flatMap_cons, List.append_assoc]
      exact ih.append_left v

/-! ### Order does not matter -/

theorem erase_of_get?_none (h : d.get? k = none) : d.erase k = d := by
  refine List.filter_eq_self.mpr fun i hi => ?_
  have hk := get?_eq_none_iff.mp h
  simpa using fun heq : i.1 = k => hk (heq ▸ List.mem_map_of_mem hi)

theorem mem_erase : i ∈ d.erase k ↔ i ∈ d ∧ i.1 ≠ k := by
  simp [erase]

theorem perm_cons_erase (hnodup : (d.map Prod.fst).Nodup)
    (h : d.get? k = some v) : d.Perm ((k, v) :: d.erase k) := by
  induction d with
  | nil => cases h
  | cons i rest ih =>
    obtain ⟨k', v'⟩ := i
    obtain ⟨hnot, hrest⟩ := List.nodup_cons.mp hnodup
    by_cases hk : k' = k
    · subst hk
      have hv : v' = v := by simpa [get?] using h
      have herase : erase ((k', v') :: rest) k' = rest := by
        simp only [erase, List.filter_cons, ne_eq, not_true_eq_false, decide_false,
          Bool.false_eq_true, if_false]
        exact erase_of_get?_none (get?_eq_none_iff.mpr hnot)
      rw [herase, hv]
    · have herase : erase ((k', v') :: rest) k = (k', v') :: erase rest k := by
        simp [erase, hk]
      rw [herase]
      have hget : get? rest k = some v := by simpa [get?, hk] using h
      exact ((ih hrest hget).cons (k', v')).trans (List.Perm.swap _ _ _)

theorem erase_set (d : PyDict κ ν) (k : κ) (v : ν) : (d.set k v).erase k = d.erase k := by
  induction d with
  | nil => simp [set, erase]
  | cons i rest ih =>
    obtain ⟨k', v'⟩ := i
    by_cases hk : k' = k
    · subst hk
      simp [set, erase]
    · have hset : set ((k', v') :: rest) k v = (k', v') :: set rest k v := by simp [set, hk]
      have hkeep : ∀ d : PyDict κ ν, erase ((k', v') :: d) k = (k', v') :: erase d k := by
        simp [erase, hk]
      rw [hset, hkeep, hkeep, ih]

theorem set_perm (v : ν) (hnodup : (d.map Prod.fst).Nodup) :
    (d.set k v).Perm ((k, v) :: d.erase k) := by
  rw [← erase_set d k v]
  exact perm_cons_erase (nodup_keys_set v hnodup) (get?_set_self d k v)

/-! ### The same keys with other values -/

section

variable {μ : Type*} (g : ν → μ)

def mapValues (d : PyDict κ ν) : PyDict κ μ := d.map fun i => (i.1, g i.2)

omit [DecidableEq κ] in
@[simp] theorem keys_mapValues (d : PyDict κ ν) :
    (mapValues g d).map Prod.fst = d.map Prod.fst := by
  simp [mapValues]

theorem get?_mapValues (d : PyDict κ ν) (k : κ) : (mapValues g d).get? k = (d.get? k).map g := by
  simp [mapValues, get?, List.find?_map, Function.comp_def]

theorem set_mapValues (d : PyDict κ ν) (k : κ) (v : ν) :
    (mapValues g d).set k (g v) = mapValues g (d.set k v) := by
  induction d with
  | nil => rfl
  | cons i rest ih =>
    obtain ⟨k', v'⟩ := i
    by_cases hk : k' = k
    · simp [mapValues, set, hk]
    · have ih' : set (List.map (fun i => (i.1, g i.2)) rest) k (g v) =
          List.map (fun i => (i.1, g i.2)) (set rest k v) := ih
      simp [mapValues, set, hk, ih']

theorem erase_mapValues (d : PyDict κ ν) (k : κ) :
    (mapValues g d).erase k = mapValues g (d.erase k) := by
  simp [mapValues, erase, List.filter_map, Function.comp_def]

end

end PyDict

end PawFlow.Lib
