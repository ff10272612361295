import Mathlib.Tactic

/-!
# Tables with a primary key

A table is a list of rows whose keys are pairwise distinct, the way a SQL table
with a primary key holds them. The key discipline is a field of the structure, so
no operation can build a table with two rows of one key. Reads go through `get?`;
the `get?_*` lemmas describe every write by what it does to the partial function
`key ↦ row`, and later proofs use only those.
-/

namespace PawFlow.Lib

structure Table (κ : Type*) (ρ : Type*) (key : ρ → κ) where
  rows : List ρ
  unique : (rows.map key).Nodup

namespace Table

variable {κ ρ : Type*} {key : ρ → κ}

def empty : Table κ ρ key := ⟨[], List.nodup_nil⟩

instance : Inhabited (Table κ ρ key) := ⟨empty⟩

instance : Membership ρ (Table κ ρ key) := ⟨fun t r => r ∈ t.rows⟩

variable {r : ρ} {t t' : Table κ ρ key} {f : ρ → ρ} {p : ρ → Bool}

theorem mem_def : r ∈ t ↔ r ∈ t.rows := Iff.rfl

@[simp] theorem not_mem_empty (r : ρ) : r ∉ (empty : Table κ ρ key) := by
  simp [mem_def, empty]

theorem eq_of_key {r' : ρ} (hr : r ∈ t) (hr' : r' ∈ t) (h : key r = key r') : r = r' :=
  List.inj_on_of_nodup_map t.unique hr hr' h

/-- `UPDATE … SET … WHERE p`; the assignment may not touch the key. -/
def update (t : Table κ ρ key) (p : ρ → Bool) (f : ρ → ρ)
    (hf : ∀ r, key (f r) = key r) : Table κ ρ key where
  rows := t.rows.map fun r => if p r then f r else r
  unique := by
    have hkeys : (t.rows.map fun r => if p r then f r else r).map key =
        t.rows.map key := by
      rw [List.map_map]
      apply List.map_congr_left
      intro r _
      simp only [Function.comp_apply]
      split
      · exact hf r
      · rfl
    rw [hkeys]
    exact t.unique

variable {q : ρ → Bool}

theorem update_congr (hf : ∀ r, key (f r) = key r) (h : ∀ r ∈ t.rows, p r = q r) :
    t.update p f hf = t.update q f hf := by
  unfold update
  congr 1
  apply List.map_congr_left
  intro r hr
  rw [h r hr]

theorem update_eq_self
    (hf : ∀ r, key (f r) = key r) (h : ∀ r ∈ t.rows, p r = false) : t.update p f hf = t := by
  obtain ⟨rows, hunique⟩ := t
  unfold update
  congr 1
  refine (List.map_congr_left ?_).trans (List.map_id rows)
  intro r hr
  rw [h r hr]
  rfl

/-- `DELETE … WHERE p`. -/
def delete (t : Table κ ρ key) (p : ρ → Bool) : Table κ ρ key where
  rows := t.rows.filter (fun r => !p r)
  unique := t.unique.sublist (List.filter_sublist.map key)

/-- `SELECT COUNT(*) … WHERE p`. -/
def count (t : Table κ ρ key) (p : ρ → Bool) : Nat := t.rows.countP p

theorem count_le_of_sublist_map
    (hsub : t'.rows.Sublist (t.rows.map f)) (h : ∀ r ∈ t, q (f r) = true → p r = true) :
    t'.count q ≤ t.count p := by
  calc t'.rows.countP q
      ≤ (t.rows.map f).countP q := hsub.countP_le
    _ = t.rows.countP (q ∘ f) := List.countP_map
    _ ≤ t.rows.countP p := List.countP_mono_left h

variable {k : κ}

theorem count_update_le [DecidableEq κ] (t : Table κ ρ key)
    (hf : ∀ r, key (f r) = key r) (hp : ∀ r, p r = true → key r = k) (q : ρ → Bool) :
    (t.update p f hf).count q ≤ t.count q + 1 := by
  have hone : t.rows.countP (fun r => key r = k) ≤ 1 := by
    have hcount := List.nodup_iff_count_le_one.mp t.unique k
    rw [List.count, List.countP_map] at hcount
    exact hcount
  have hsum : ∀ rows : List ρ, rows.countP (q ∘ fun r => if p r then f r else r) ≤
      rows.countP q + rows.countP (fun r => key r = k) := by
    intro rows
    induction rows with
    | nil => simp
    | cons r rows ih =>
      simp only [List.countP_cons, Function.comp_apply]
      by_cases hr : p r = true
      · have hkey := hp r hr
        simp only [hr, hkey, if_true, decide_true]
        split <;> split <;> omega
      · simp only [hr]
        split <;> split <;> simp_all <;> omega
  calc (t.rows.map fun r => if p r then f r else r).countP q
      = t.rows.countP (q ∘ fun r => if p r then f r else r) := List.countP_map
    _ ≤ t.rows.countP q + t.rows.countP (fun r => key r = k) := hsum t.rows
    _ ≤ t.rows.countP q + 1 := Nat.add_le_add_left hone _

theorem mem_update (hf : ∀ r, key (f r) = key r) :
    r ∈ t.update p f hf ↔ ∃ x ∈ t, r = if p x then f x else x := by
  simp only [mem_def, update, List.mem_map]
  constructor
  · rintro ⟨x, hx, rfl⟩
    exact ⟨x, hx, rfl⟩
  · rintro ⟨x, hx, rfl⟩
    exact ⟨x, hx, rfl⟩

variable {x : ρ}

theorem mem_update_of_mem (hf : ∀ r, key (f r) = key r) (hx : x ∈ t) :
    (if p x then f x else x) ∈ t.update p f hf :=
  (mem_update hf).mpr ⟨x, hx, rfl⟩

theorem mem_delete : r ∈ t.delete p ↔ r ∈ t ∧ p r = false := by
  simp [mem_def, delete]

variable [DecidableEq κ]

/-- `SELECT * … WHERE key = k`. -/
def get? (t : Table κ ρ key) (k : κ) : Option ρ :=
  t.rows.find? fun r => key r = k

theorem get?_eq_some : t.get? k = some r ↔ r ∈ t ∧ key r = k := by
  constructor
  · intro h
    exact ⟨List.mem_of_find?_eq_some h, by simpa using List.find?_some h⟩
  · rintro ⟨hmem, rfl⟩
    cases hf : t.get? (key r) with
    | none =>
      have := List.find?_eq_none.mp hf r hmem
      simp at this
    | some r' =>
      have hk : key r' = key r := by simpa using List.find?_some hf
      rw [eq_of_key (List.mem_of_find?_eq_some hf) hmem hk]

theorem get?_key (h : t.get? k = some r) : key r = k := (get?_eq_some.mp h).2

theorem get?_mem (h : t.get? k = some r) : r ∈ t := (get?_eq_some.mp h).1

theorem get?_of_mem (h : r ∈ t) : t.get? (key r) = some r := get?_eq_some.mpr ⟨h, rfl⟩

theorem get?_eq_none : t.get? k = none ↔ k ∉ t.rows.map key := by
  simp [get?, List.find?_eq_none]

@[simp] theorem get?_empty (k : κ) : (empty : Table κ ρ key).get? k = none := rfl

theorem get?_update (t : Table κ ρ key) (p : ρ → Bool) (f : ρ → ρ)
    (hf : ∀ r, key (f r) = key r) (k : κ) :
    (t.update p f hf).get? k = (t.get? k).map fun r => if p r then f r else r := by
  have hkey : ∀ r, key (if p r then f r else r) = key r := by
    intro r
    split
    · exact hf r
    · rfl
  simp only [get?, update, List.find?_map, Function.comp_def, hkey]

theorem get?_update_at (t : Table κ ρ key) (f : ρ → ρ) (hf : ∀ r, key (f r) = key r) (k k' : κ) :
    (t.update (fun r => key r = k) f hf).get? k' =
      if k' = k then (t.get? k').map f else t.get? k' := by
  rw [get?_update]
  cases h : t.get? k' with
  | none => simp
  | some r =>
    have hr := get?_key h
    by_cases hk : k' = k
    · simp [hk, hr.trans hk]
    · simp [hk, hr]

theorem get?_delete (t : Table κ ρ key) (p : ρ → Bool) (k : κ) :
    (t.delete p).get? k = (t.get? k).filter fun r => !p r := by
  ext r
  simp only [get?_eq_some, Option.filter_eq_some_iff, mem_def, delete, List.mem_filter]
  tauto

theorem get?_delete_keys (t : Table κ ρ key) (q : κ → Prop) [DecidablePred q] (k : κ) :
    (t.delete fun r => q (key r)).get? k = if q k then none else t.get? k := by
  rw [get?_delete]
  cases h : t.get? k with
  | none => simp
  | some r =>
    have hr := get?_key h
    by_cases hk : q k
    · simp [hk, Option.filter, hr]
    · simp [hk, Option.filter, hr]

def insertNew (t : Table κ ρ key) (r : ρ) (h : t.get? (key r) = none) :
    Table κ ρ key where
  rows := t.rows ++ [r]
  unique := by
    rw [List.map_append, List.nodup_append]
    refine ⟨t.unique, by simp, ?_⟩
    intro a ha b hb hab
    simp only [List.map_cons, List.map_nil, List.mem_singleton] at hb
    subst hb
    exact get?_eq_none.mp h (hab ▸ ha)

/-- `INSERT`: `none` when the primary key is taken. -/
def insert? (t : Table κ ρ key) (r : ρ) : Option (Table κ ρ key) :=
  if h : t.get? (key r) = none then some (t.insertNew r h) else none

theorem get?_insertNew (t : Table κ ρ key) (r : ρ) (h : t.get? (key r) = none)
    (k : κ) : (t.insertNew r h).get? k = if k = key r then some r else t.get? k := by
  by_cases hk : k = key r
  · subst hk
    rw [if_pos rfl, get?_eq_some]
    exact ⟨by simp [mem_def, insertNew], rfl⟩
  · rw [if_neg hk]
    have hr : ¬ key r = k := fun e => hk e.symm
    simp [get?, insertNew, List.find?_append, hr]

theorem insert?_eq_some (h : t.insert? r = some t') :
    t.get? (key r) = none ∧
      (∀ k, t'.get? k = if k = key r then some r else t.get? k) := by
  unfold insert? at h
  split at h
  · next hnone =>
    obtain rfl := Option.some.inj h
    exact ⟨hnone, get?_insertNew t r hnone⟩
  · exact absurd h (by simp)

theorem insert?_rows (h : t.insert? r = some t') : t'.rows = t.rows ++ [r] := by
  unfold insert? at h
  split at h
  · obtain rfl := Option.some.inj h
    rfl
  · exact absurd h (by simp)

theorem mem_insert? (h : t.insert? r = some t') : x ∈ t' ↔ x ∈ t ∨ x = r := by
  simp [mem_def, insert?_rows h]

theorem insert?_eq_none (h : t.insert? r = none) : t.get? (key r) ≠ none := by
  intro hfree
  rw [insert?, dif_pos hfree] at h
  exact absurd h (by simp)

theorem mem_foldlM_insert? {rows : List ρ} (h : rows.foldlM (fun t r => t.insert? r) t = some t') :
    x ∈ t' ↔ x ∈ t ∨ x ∈ rows := by
  induction rows generalizing t with
  | nil =>
    obtain rfl := Option.some.inj h
    simp
  | cons r rows ih =>
    rw [List.foldlM_cons] at h
    obtain ⟨u, hu, hrest⟩ := Option.bind_eq_some_iff.mp h
    rw [ih hrest, mem_insert? hu, List.mem_cons, or_assoc]

/-- `INSERT OR IGNORE`. -/
def insertIgnore (t : Table κ ρ key) (r : ρ) : Table κ ρ key := (t.insert? r).getD t

theorem mem_insertIgnore : x ∈ t.insertIgnore r ↔ x ∈ t ∨ x = r ∧ t.get? (key r) = none := by
  unfold insertIgnore
  cases h : t.insert? r with
  | none => simp [insert?_eq_none h]
  | some t' => simp [mem_insert? h, (insert?_eq_some h).1]

theorem get?_insertIgnore (t : Table κ ρ key) (r : ρ) (k : κ) :
    (t.insertIgnore r).get? k = (t.get? k).or (if k = key r then some r else none) := by
  unfold insertIgnore
  cases h : t.insert? r with
  | none =>
    obtain ⟨x, hx⟩ := Option.ne_none_iff_exists'.mp (insert?_eq_none h)
    by_cases hk : k = key r
    · subst hk
      simp [hx]
    · simp [hk]
  | some t' =>
    obtain ⟨hnone, hget⟩ := insert?_eq_some h
    rw [Option.getD_some, hget]
    by_cases hk : k = key r
    · subst hk
      simp [hnone]
    · simp [hk]

theorem isSome_get?_insertIgnore (t : Table κ ρ key) (r : ρ) :
    ((t.insertIgnore r).get? (key r)).isSome := by
  simp [get?_insertIgnore]

theorem isSome_insertIgnore (r : ρ) (h : (t.get? k).isSome) :
    ((t.insertIgnore r).get? k).isSome := by
  rw [get?_insertIgnore, Option.isSome_or, h]
  rfl

/-- `INSERT … ON CONFLICT DO UPDATE SET` every column. -/
def upsert (t : Table κ ρ key) (r : ρ) : Table κ ρ key :=
  if h : t.get? (key r) = none then t.insertNew r h
  else
    { rows := t.rows.map fun x => if key x = key r then r else x
      unique := by
        have hkeys : (t.rows.map fun x => if key x = key r then r else x).map key =
            t.rows.map key := by
          rw [List.map_map]
          apply List.map_congr_left
          intro x _
          simp only [Function.comp_apply]
          split
          · next hx => exact hx.symm
          · rfl
        rw [hkeys]
        exact t.unique }

theorem get?_upsert (t : Table κ ρ key) (r : ρ) (k : κ) :
    (t.upsert r).get? k = if k = key r then some r else t.get? k := by
  unfold upsert
  split
  · next h => exact get?_insertNew t r h k
  · next h =>
    obtain ⟨old, hold⟩ := Option.ne_none_iff_exists'.mp h
    have hkey : ∀ x, key (if key x = key r then r else x) = key x := by
      intro x
      split
      · next hx => exact hx.symm
      · rfl
    simp only [get?, List.find?_map, Function.comp_def, hkey]
    by_cases hk : k = key r
    · subst hk
      simp only [get?] at hold
      rw [hold, if_pos rfl]
      have := get?_key (t := t) hold
      simp [this]
    · rw [if_neg hk]
      cases hf : t.rows.find? (fun x => decide (key x = k)) with
      | none => rfl
      | some x =>
        have hx : key x = k := by simpa using List.find?_some hf
        have hne : ¬ key x = key r := fun e => hk (hx.symm.trans e)
        simp [hne]

end Table

theorem foldl_at {σ α κ ρ : Type*} [DecidableEq κ] (key : α → κ) (get : σ → κ → Option ρ)
    {step : σ → α → σ} {f : Option ρ → Option ρ} (hf : ∀ o, f (f o) = f o)
    (hstep : ∀ s a k, get (step s a) k = if k = key a then f (get s k) else get s k)
    (as : List α) (s : σ) (k : κ) :
    get (as.foldl step s) k = if k ∈ as.map key then f (get s k) else get s k := by
  induction as generalizing s with
  | nil => simp
  | cons a as ih =>
    rw [List.foldl_cons, ih, hstep]
    by_cases hk : k = key a
    · by_cases hmem : k ∈ as.map key <;> simp [hk, hf]
    · simp [hk]

theorem foldl_frame {σ α β : Type*} {step : σ → α → σ} {g : σ → β}
    (h : ∀ s a, g (step s a) = g s) (as : List α) (s : σ) : g (as.foldl step s) = g s := by
  induction as generalizing s with
  | nil => rfl
  | cons a as ih => exact (ih _).trans (h s a)

end PawFlow.Lib
