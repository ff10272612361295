import Mathlib.Data.List.Sort
import PawFlow.Lib.JsonText

/-!
# Sorted keys

`json.dumps(…, sort_keys=True)` writes a dict in another order than it was built in. The value
that is read back is another one, but Python's `==` does not see the difference.
-/

namespace PawFlow.Lib

namespace Json

theorem sortKeysItems_eq_map (items : List Json) : sortKeysItems items = items.map sortKeys := by
  induction items with
  | nil => rfl
  | cons v rest ih => rw [sortKeysItems, ih, List.map_cons]

theorem sortKeysFields_eq_map (items : List (String × Json)) :
    sortKeysFields items = items.map fun i => (i.1, sortKeys i.2) := by
  induction items with
  | nil => rfl
  | cons i rest ih => rw [sortKeysFields, ih, List.map_cons]

theorem sortKeys_obj (items : List (String × Json)) :
    ∃ sorted, sortKeys (.obj items) = .obj sorted ∧
      sorted.Perm (items.map fun i => (i.1, sortKeys i.2)) := by
  refine ⟨_, by rw [sortKeys], ?_⟩
  rw [sortKeysFields_eq_map]
  exact List.perm_insertionSort _ _

theorem pyEqFields_iff {xs ys : List (String × Json)} :
    pyEqFields xs ys ↔ ∀ i ∈ xs, ∃ w, PyDict.get? ys i.1 = some w ∧ pyEq i.2 w := by
  induction xs with
  | nil => simp [pyEqFields]
  | cons i rest ih =>
    obtain ⟨k, v⟩ := i
    rw [pyEqFields, Bool.and_eq_true, ih, List.forall_mem_cons]
    refine and_congr_left fun _ => ?_
    cases PyDict.get? ys k <;> simp

section

variable {readFloat : List Char → Option (FloatText × Int × Nat)}

theorem wellFormedItems_iff {items : List Json} :
    WellFormedItems readFloat items ↔ ∀ v ∈ items, WellFormed readFloat v := by
  induction items with
  | nil => simp [WellFormedItems]
  | cons v rest ih => rw [WellFormedItems, ih, List.forall_mem_cons]

variable {items : List (String × Json)}

theorem wellFormedFields_iff :
    WellFormedFields readFloat items ↔ ∀ i ∈ items, WellFormed readFloat i.2 := by
  induction items with
  | nil => simp [WellFormedFields]
  | cons i rest ih => rw [WellFormedFields, ih, List.forall_mem_cons]

mutual

theorem wellFormed_sortKeys (v : Json) (hv : WellFormed readFloat v) :
    WellFormed readFloat (sortKeys v) := by
  match v, hv with
  | .null, hv => exact hv
  | .bool _, hv => exact hv
  | .int _, hv => exact hv
  | .float _ _ _, hv => exact hv
  | .str _, hv => exact hv
  | .arr items, hv =>
    rw [sortKeys, WellFormed, sortKeysItems_eq_map, wellFormedItems_iff, List.forall_mem_map]
    exact wellFormed_sortKeys_items items hv
  | .obj items, hv =>
    obtain ⟨sorted, heq, hperm⟩ := sortKeys_obj items
    have hkeys : (sorted.map Prod.fst).Perm (items.map Prod.fst) := by
      simpa [Function.comp_def] using hperm.map Prod.fst
    rw [heq, WellFormed, wellFormedFields_iff]
    refine ⟨hkeys.nodup_iff.mpr hv.1, fun i hi => ?_⟩
    obtain ⟨j, hj, rfl⟩ := List.mem_map.mp (hperm.mem_iff.mp hi)
    exact wellFormed_sortKeys_fields items hv.2 j hj

theorem wellFormed_sortKeys_items (items : List Json) (h : WellFormedItems readFloat items) :
    ∀ v ∈ items, WellFormed readFloat (sortKeys v) := by
  match items, h with
  | [], _ => simp
  | v :: rest, h =>
    exact List.forall_mem_cons.mpr
      ⟨wellFormed_sortKeys v h.1, wellFormed_sortKeys_items rest h.2⟩

theorem wellFormed_sortKeys_fields (items : List (String × Json))
    (h : WellFormedFields readFloat items) :
    ∀ i ∈ items, WellFormed readFloat (sortKeys i.2) := by
  match items, h with
  | [], _ => simp
  | i :: rest, h =>
    exact List.forall_mem_cons.mpr
      ⟨wellFormed_sortKeys i.2 h.1, wellFormed_sortKeys_fields rest h.2⟩

end

theorem get?_sortKeys_obj (hnodup : (items.map Prod.fst).Nodup)
    {k : String} {v : Json} (h : (k, v) ∈ items) :
    (sortKeys (.obj items)).get? k = some (sortKeys v) := by
  obtain ⟨sorted, heq, hperm⟩ := sortKeys_obj items
  have hkeys : (sorted.map Prod.fst).Perm (items.map Prod.fst) := by
    simpa [Function.comp_def] using hperm.map Prod.fst
  rw [heq]
  refine PyDict.get?_of_mem (hkeys.nodup_iff.mpr hnodup) (hperm.mem_iff.mpr ?_)
  exact List.mem_map.mpr ⟨(k, v), h, rfl⟩

mutual

theorem pyEq_sortKeys (v : Json) (hv : WellFormed readFloat v) : pyEq (sortKeys v) v := by
  match v, hv with
  | .null, _ => rfl
  | .bool b, _ => cases b <;> rfl
  | .int n, _ => simp [sortKeys, pyEq, numberEq, number?]
  | .float r num exp, _ => simp [sortKeys, pyEq, numberEq, number?]
  | .str s, _ => simp [sortKeys, pyEq]
  | .arr items, hv =>
    rw [sortKeys, pyEq]
    exact pyEqItems_sortKeys items hv
  | .obj items, hv =>
    obtain ⟨sorted, heq, hperm⟩ := sortKeys_obj items
    have hlength : sorted.length = items.length := by simpa using hperm.length_eq
    rw [heq, pyEq, Bool.and_eq_true, pyEqFields_iff]
    refine ⟨by simp [hlength], fun i hi => ?_⟩
    obtain ⟨j, hj, rfl⟩ := List.mem_map.mp (hperm.mem_iff.mp hi)
    exact ⟨j.2, PyDict.get?_of_mem hv.1 hj, pyEq_sortKeys_fields items hv.2 j hj⟩

theorem pyEqItems_sortKeys (items : List Json) (h : WellFormedItems readFloat items) :
    pyEqItems (sortKeysItems items) items := by
  match items, h with
  | [], _ => rfl
  | v :: rest, h =>
    rw [sortKeysItems, pyEqItems, Bool.and_eq_true]
    exact ⟨pyEq_sortKeys v h.1, pyEqItems_sortKeys rest h.2⟩

theorem pyEq_sortKeys_fields (items : List (String × Json))
    (h : WellFormedFields readFloat items) : ∀ i ∈ items, pyEq (sortKeys i.2) i.2 := by
  match items, h with
  | [], _ => simp
  | i :: rest, h =>
    exact List.forall_mem_cons.mpr
      ⟨pyEq_sortKeys i.2 h.1, pyEq_sortKeys_fields rest h.2⟩

end

mutual

theorem pyEq_refl (v : Json) (hv : WellFormed readFloat v) : pyEq v v := by
  match v, hv with
  | .null, _ => rfl
  | .bool b, _ => cases b <;> rfl
  | .int n, _ => simp [pyEq, numberEq, number?]
  | .float r num exp, _ => simp [pyEq, numberEq, number?]
  | .str s, _ => simp [pyEq]
  | .arr items, hv =>
    rw [pyEq]
    exact pyEqItems_refl items hv
  | .obj items, hv =>
    rw [pyEq, Bool.and_eq_true, pyEqFields_iff]
    refine ⟨by simp, fun i hi => ?_⟩
    exact ⟨i.2, PyDict.get?_of_mem hv.1 hi, pyEq_refl_fields items hv.2 i hi⟩

theorem pyEqItems_refl (items : List Json) (h : WellFormedItems readFloat items) :
    pyEqItems items items := by
  match items, h with
  | [], _ => rfl
  | v :: rest, h =>
    rw [pyEqItems, Bool.and_eq_true]
    exact ⟨pyEq_refl v h.1, pyEqItems_refl rest h.2⟩

theorem pyEq_refl_fields (items : List (String × Json))
    (h : WellFormedFields readFloat items) : ∀ i ∈ items, pyEq i.2 i.2 := by
  match items, h with
  | [], _ => simp
  | i :: rest, h =>
    exact List.forall_mem_cons.mpr ⟨pyEq_refl i.2 h.1, pyEq_refl_fields rest h.2⟩

end

theorem loads_canonical {v : Json} (hv : WellFormed readFloat v) :
    loads readFloat (canonical v).toList = some (sortKeys v) := by
  have hwrite : compactChars escape (sortKeys v) = Layout.canonical.write (sortKeys v) :=
    compactChars_eq_write (L := Layout.canonical) rfl rfl _
  rw [canonical, String.toList_ofList, hwrite, loads_write _ (wellFormed_sortKeys v hv)]

/-! ## Sorting keys does not matter to `==` -/

mutual

theorem pyEq_sortKeys_left (v w : Json) : pyEq (sortKeys v) w = pyEq v w := by
  match v with
  | .null => rfl
  | .bool _ => rfl
  | .int _ => rfl
  | .float _ _ _ => rfl
  | .str _ => rfl
  | .arr items =>
    cases w with
    | arr others => rw [sortKeys, pyEq, pyEq, pyEqItems_sortKeys_left items others]
    | _ => rfl
  | .obj items =>
    cases w with
    | obj others =>
      obtain ⟨sorted, heq, hperm⟩ := sortKeys_obj items
      have hlength : sorted.length = items.length := by simpa using hperm.length_eq
      have hfields : pyEqFields sorted others = pyEqFields items others := by
        rw [Bool.eq_iff_iff, pyEqFields_iff, pyEqFields_iff]
        constructor
        · intro h i hi
          obtain ⟨u, hu, heq⟩ := h (i.1, sortKeys i.2)
            (hperm.mem_iff.mpr (List.mem_map.mpr ⟨i, hi, rfl⟩))
          exact ⟨u, hu, (pyEq_sortKeys_left_fields items i hi u) ▸ heq⟩
        · intro h j hj
          obtain ⟨i, hi, rfl⟩ := List.mem_map.mp (hperm.mem_iff.mp hj)
          obtain ⟨u, hu, heq⟩ := h i hi
          exact ⟨u, hu, (pyEq_sortKeys_left_fields items i hi u).symm ▸ heq⟩
      rw [heq, pyEq, pyEq, hlength, hfields]
    | _ =>
      obtain ⟨sorted, heq, -⟩ := sortKeys_obj items
      rw [heq]
      rfl

theorem pyEqItems_sortKeys_left (items others : List Json) :
    pyEqItems (sortKeysItems items) others = pyEqItems items others := by
  match items, others with
  | [], _ => rfl
  | v :: rest, [] => rfl
  | v :: rest, w :: others =>
    rw [sortKeysItems, pyEqItems, pyEqItems, pyEq_sortKeys_left v w,
      pyEqItems_sortKeys_left rest others]

theorem pyEq_sortKeys_left_fields (items : List (String × Json)) :
    ∀ i ∈ items, ∀ w, pyEq (sortKeys i.2) w = pyEq i.2 w := by
  match items with
  | [] => simp
  | i :: rest =>
    exact List.forall_mem_cons.mpr
      ⟨pyEq_sortKeys_left i.2, pyEq_sortKeys_left_fields rest⟩

end

end

end Json

end PawFlow.Lib
