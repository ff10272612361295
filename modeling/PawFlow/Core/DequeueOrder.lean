import PawFlow.Core.Prioritizer
import PawFlow.Lib.StableSort
import PawFlow.Lib.Runs

/-!
# Dequeue order

What a queue is for: it holds FlowFiles in the order they came, and gives them out in the order of
its type, the earlier one of a tie first. The levels of a priority queue always stand in this order.
The list of a queue by timestamp is brought into it by `get` only, so the views of such a queue may
show another order than the one in which its FlowFiles leave.
-/

namespace PawFlow.Core

open PawFlow.Lib

variable {α : Type*}

/-! ## The order of a type -/

/-- `_get_ff_priority` for the attribute `key`. -/
def priorityOf (key : String) (f : FlowFile) : Int :=
  match f.getAttribute key with
  | none => 0
  | some val => if val = "" then 0 else (int? val).getD 0

def timestampOf (f : FlowFile) : String := (f.getAttribute "timestamp").getD ""

/-- One FlowFile may leave before another. -/
def PrioritizerType.Before (key : String) (f g : FlowFile) : PrioritizerType → Prop
  | .fifo => True
  | .newestFirst => ¬ timestampOf f < timestampOf g
  | .oldestFirst => ¬ timestampOf g < timestampOf f
  | .priorityAttribute => priorityOf key g ≤ priorityOf key f

instance (key : String) (f g : FlowFile) :
    ∀ type : PrioritizerType, Decidable (type.Before key f g)
  | .fifo => .isTrue trivial
  | .newestFirst => inferInstanceAs (Decidable (¬ timestampOf f < timestampOf g))
  | .oldestFirst => inferInstanceAs (Decidable (¬ timestampOf g < timestampOf f))
  | .priorityAttribute => inferInstanceAs (Decidable (priorityOf key g ≤ priorityOf key f))

namespace PrioritizedQueue

variable (view : α → FlowFile) (q : PrioritizedQueue α)

abbrev Before (x y : α) : Prop := q.type.Before q.priorityAttribute (view x) (view y)

instance : Std.Total (q.Before view) where
  total x y := by
    unfold Before PrioritizerType.Before
    cases q.type with
    | fifo => exact .inl trivial
    | newestFirst => exact String.le_total _ _
    | oldestFirst => exact String.le_total _ _
    | priorityAttribute => exact le_total _ _

instance : IsTrans α (q.Before view) where
  trans x y z := by
    unfold Before PrioritizerType.Before
    cases q.type with
    | fifo => exact fun _ _ => trivial
    | newestFirst => exact fun h h' => String.le_trans h' h
    | oldestFirst => exact fun h h' => String.le_trans h h'
    | priorityAttribute => exact fun h h' => h'.trans h

def inOrder (waiting : List α) : List α := waiting.insertionSort (q.Before view)

/-- The queue holds what came in this order. -/
structure Holds (waiting : List α) : Prop where
  keys : (q.priorityQueues.map Prod.fst).Nodup
  total : q.type = .priorityAttribute → q.total = waiting.length
  levels : q.type = .priorityAttribute →
    ∀ prio, q.level prio = waiting.filter fun x => q.ffPriority view x = prio
  items : q.type ≠ .priorityAttribute → SameTies (q.Before view) q.items waiting

/-- The FlowFiles in the order in which the queue would give them out. -/
def listing : List α :=
  match q.type with
  | .priorityAttribute => q.levels.flatMap q.level
  | _ => q.inOrder view q.items

/-- The list stands in the order in which the queue gives it out. -/
def Tidy : Prop := q.type = .priorityAttribute ∨ q.items.Pairwise (q.Before view)

/-- `get` until nothing comes, `n` times at most. -/
def gets : Nat → PrioritizedQueue α → List α
  | 0, _ => []
  | n + 1, q =>
    match q.get view with
    | (none, _) => []
    | (some x, q) => x :: gets n q

variable {view q}

theorem ffPriority_eq (x : α) : q.ffPriority view x = priorityOf q.priorityAttribute (view x) := rfl

variable {x : α} {xs : List α}

theorem before_of_priority (h : q.type = .priorityAttribute) {y : α} :
    q.Before view x y ↔ q.ffPriority view y ≤ q.ffPriority view x := by
  unfold Before
  rw [h]
  rfl

theorem inOrder_of_pairwise (h : xs.Pairwise (q.Before view)) :
    q.inOrder view xs = xs := h.insertionSort_eq

theorem inOrder_fifo (h : q.type = .fifo) (xs : List α) : q.inOrder view xs = xs := by
  refine inOrder_of_pairwise (List.pairwise_of_forall_mem_list fun x _ y _ => ?_)
  unfold Before
  rw [h]
  trivial

variable {view' : α → FlowFile}

theorem inOrder_congr (h : ∀ x ∈ xs, view' x = view x) :
    q.inOrder view' xs = q.inOrder view xs := by
  have hid := List.map_insertionSort (q.Before view') (q.Before view) id xs fun x hx y hy => by
    show q.type.Before _ (view' x) (view' y) ↔ q.type.Before _ (view x) (view y)
    rw [h x hx, h y hy]
  rw [List.map_id, List.map_id] at hid
  exact hid

/-! ## Levels -/

variable {prio : Int}

theorem mem_levels : prio ∈ q.levels ↔ prio ∈ q.priorityQueues.map Prod.fst :=
  List.mem_insertionSort _

theorem level_of_not_mem (h : prio ∉ q.levels) : q.level prio = [] := by
  rw [level, PyDict.get?_eq_none_iff.mpr (mt mem_levels.mpr h)]
  rfl

theorem level_setLevel (prio : Int) (rest : List α) (prio' : Int) :
    (q.setLevel prio rest).level prio' = if prio' = prio then rest else q.level prio' := by
  unfold setLevel level
  dsimp only
  split_ifs with hempty heq heq
  · rw [PyDict.get?_erase, if_pos heq]
    exact (List.isEmpty_iff.mp hempty).symm
  · rw [PyDict.get?_erase, if_neg heq]
  · rw [heq, PyDict.get?_set_self]
    rfl
  · rw [PyDict.get?_set_of_ne _ _ heq]

theorem keys_setLevel (h : (q.priorityQueues.map Prod.fst).Nodup) (prio : Int) (rest : List α) :
    ((q.setLevel prio rest).priorityQueues.map Prod.fst).Nodup := by
  unfold setLevel
  dsimp only
  split
  · exact h.sublist (List.filter_sublist.map _)
  · exact PyDict.nodup_keys_set rest h

theorem flatMap_of_nodup {β γ : Type*} {ks : List β} {f : β → List γ} {k : β} (hnodup : ks.Nodup)
    (hne : ∀ k' ∈ ks, k' ≠ k → f k' = []) (hnot : k ∉ ks → f k = []) : ks.flatMap f = f k := by
  induction ks with
  | nil => exact (hnot List.not_mem_nil).symm
  | cons k' ks ih =>
    obtain ⟨hk', hks⟩ := List.nodup_cons.mp hnodup
    rw [List.flatMap_cons]
    by_cases heq : k' = k
    · subst heq
      have hrest : ks.flatMap f = [] := List.flatMap_eq_nil_iff.mpr fun j hj =>
        hne j (List.mem_cons_of_mem _ hj) (ne_of_mem_of_not_mem hj hk')
      rw [hrest, List.append_nil]
    · rw [hne k' List.mem_cons_self heq, List.nil_append]
      refine ih hks (fun j hj => hne j (List.mem_cons_of_mem _ hj)) fun h => hnot ?_
      rw [List.mem_cons, not_or]
      exact ⟨Ne.symm heq, h⟩

variable {waiting : List α}

theorem Holds.mem_level (h : q.Holds view waiting) (ht : q.type = .priorityAttribute)
    : x ∈ q.level prio ↔ x ∈ waiting ∧ q.ffPriority view x = prio := by
  rw [h.levels ht, List.mem_filter, decide_eq_true_eq]

theorem Holds.flatMap_levels (h : q.Holds view waiting) (ht : q.type = .priorityAttribute) :
    q.inOrder view waiting = q.levels.flatMap q.level := by
  refine insertionSort_eq (fun a => ?_) ?_
  · have htied : ∀ x, tied (q.Before view) a x =
        decide (q.ffPriority view x = q.ffPriority view a) := by
      intro x
      rw [Bool.eq_iff_iff, tied_iff, before_of_priority ht, before_of_priority ht,
        decide_eq_true_eq]
      omega
    have hlevel : ∀ prio, (q.level prio).filter (tied (q.Before view) a) =
        if prio = q.ffPriority view a then q.level prio else [] := by
      intro prio
      split_ifs with heq
      · refine List.filter_eq_self.mpr fun x hx => ?_
        rw [htied, decide_eq_true_eq, ((h.mem_level ht).mp hx).2, heq]
      · refine List.filter_eq_nil_iff.mpr fun x hx => ?_
        rw [htied, decide_eq_true_eq, ((h.mem_level ht).mp hx).2]
        exact heq
    rw [List.filter_flatMap, flatMap_of_nodup (f := fun prio => (q.level prio).filter _)
      (k := q.ffPriority view a), hlevel, if_pos rfl, h.levels ht]
    · exact List.filter_congr fun x _ => htied x
    · exact (List.perm_insertionSort _ _).nodup_iff.mpr h.keys
    · intro prio _ hne
      rw [hlevel, if_neg hne]
    · intro hnot
      rw [level_of_not_mem hnot, List.filter_nil]
  · refine List.pairwise_flatMap.mpr ⟨fun prio _ => ?_, ?_⟩
    · refine List.pairwise_of_forall_mem_list fun x hx y hy => (before_of_priority ht).mpr ?_
      rw [((h.mem_level ht).mp hx).2, ((h.mem_level ht).mp hy).2]
    · refine (List.pairwise_insertionSort (· ≥ ·) _).imp fun hge x hx y hy => ?_
      rw [before_of_priority ht, ((h.mem_level ht).mp hx).2, ((h.mem_level ht).mp hy).2]
      exact hge

theorem listing_of_ne (ht : q.type ≠ .priorityAttribute) : q.listing view = q.inOrder view q.items := by
  unfold listing
  cases h : q.type with
  | priorityAttribute => exact absurd h ht
  | fifo | newestFirst | oldestFirst => rfl

theorem Holds.listing_eq (h : q.Holds view waiting) : q.listing view = q.inOrder view waiting := by
  by_cases ht : q.type = .priorityAttribute
  · rw [h.flatMap_levels ht, listing, ht]
  · rw [listing_of_ne ht]
    exact insertionSort_congr (h.items ht)

/-! ## Operations -/

/-- What an operation keeps. -/
structure SameKind (q q' : PrioritizedQueue α) : Prop where
  type : q'.type = q.type
  key : q'.priorityAttribute = q.priorityAttribute
  maxSize : q'.maxSize = q.maxSize

variable {q' : PrioritizedQueue α}

theorem SameKind.sameTies (h : SameKind q q') {ys : List α}
    (hties : SameTies (q.Before view) xs ys) : SameTies (q'.Before view) xs ys := by
  unfold Before at hties ⊢
  rwa [h.type, h.key]

theorem SameKind.inOrder (h : SameKind q q') (waiting : List α) :
    q'.inOrder view waiting = q.inOrder view waiting := by
  unfold PrioritizedQueue.inOrder Before
  rw [h.type, h.key]

theorem sameKind_push (view : α → FlowFile) (q : PrioritizedQueue α) (x : α) :
    SameKind q (q.push view x) := by
  constructor
  · unfold push
    cases q.type <;> rfl
  · unfold push
    cases q.type <;> rfl
  · exact maxSize_push x

theorem level_push (ht : q.type = .priorityAttribute) (x : α) (prio : Int) :
    (q.push view x).level prio =
      if prio = q.ffPriority view x then q.level prio ++ [x] else q.level prio := by
  unfold push level
  rw [ht]
  dsimp only
  split_ifs with heq
  · rw [heq, PyDict.get?_set_self]
    rfl
  · rw [PyDict.get?_set_of_ne _ _ heq]

theorem Holds.push (h : q.Holds view waiting) (x : α) :
    (q.push view x).Holds view (waiting ++ [x]) := by
  have hkind := sameKind_push view q x
  constructor
  · unfold PrioritizedQueue.push
    cases q.type with
    | priorityAttribute => exact PyDict.nodup_keys_set _ h.keys
    | fifo | newestFirst | oldestFirst => exact h.keys
  · intro ht
    have ht : q.type = .priorityAttribute := hkind.type ▸ ht
    have htotal : (q.push view x).total = q.total + 1 := by
      unfold PrioritizedQueue.push
      rw [ht]
    rw [htotal, h.total ht, List.length_append]
    rfl
  · intro ht prio
    have ht : q.type = .priorityAttribute := hkind.type ▸ ht
    have hprio : ∀ y, (q.push view x).ffPriority view y = q.ffPriority view y := fun y => by
      rw [ffPriority_eq, hkind.key, ffPriority_eq]
    simp only [hprio]
    rw [level_push ht, List.filter_append, ← h.levels ht]
    by_cases heq : prio = q.ffPriority view x
    · rw [if_pos heq, List.filter_cons_of_pos (by simpa using heq.symm)]
      rfl
    · rw [if_neg heq, List.filter_cons_of_neg (by simpa [eq_comm] using heq), List.filter_nil,
        List.append_nil]
  · intro ht
    have ht : q.type ≠ .priorityAttribute := hkind.type ▸ ht
    have hitems : (q.push view x).items = q.items ++ [x] := by
      unfold PrioritizedQueue.push
      cases hq : q.type with
      | priorityAttribute => exact absurd hq ht
      | fifo | newestFirst | oldestFirst => rfl
    rw [hitems]
    exact hkind.sameTies ((h.items ht).append [x])

theorem Holds.setLevel [DecidableEq α] (h : q.Holds view waiting)
    (ht : q.type = .priorityAttribute) (hx : x ∈ q.level prio) :
    (q.setLevel prio ((q.level prio).erase x)).Holds view (waiting.erase x) := by
  obtain ⟨hwaits, hprio⟩ := (h.mem_level ht).mp hx
  constructor
  · exact keys_setLevel h.keys prio _
  · intro _
    show q.total - 1 = ((waiting.erase x).length : Int)
    have hpos := List.length_pos_of_mem hwaits
    rw [h.total ht, List.length_erase_of_mem hwaits]
    omega
  · intro _ prio'
    show _ = (waiting.erase x).filter fun y => q.ffPriority view y = prio'
    rw [level_setLevel, ← List.erase_filter, ← h.levels ht]
    split_ifs with heq
    · rw [heq]
    · refine (List.erase_of_not_mem fun hmem => heq ?_).symm
      exact ((h.mem_level ht).mp hmem).2.symm.trans hprio
  · exact fun hne => absurd ht hne

theorem get_of_priority (ht : q.type = .priorityAttribute) :
    q.get view = if q.total = 0 then (none, q) else
      match q.levels.findSome? fun prio =>
        match q.level prio with
        | [] => none
        | x :: rest => some (prio, x, rest) with
      | none => (none, q)
      | some (prio, x, rest) => (some x, q.setLevel prio rest) := by
  unfold get
  rw [ht]
  rfl

theorem get_of_ne (ht : q.type ≠ .priorityAttribute) :
    q.get view = popFirst { q with items := q.inOrder view q.items } := by
  obtain ⟨type, maxSize, key, queues, total, items⟩ := q
  cases type with
  | priorityAttribute => exact absurd rfl ht
  | fifo =>
    rw [inOrder_fifo rfl]
    rfl
  | newestFirst | oldestFirst => rfl

theorem remove_of_ne [DecidableEq α] (ht : q.type ≠ .priorityAttribute) (x : α) :
    q.remove x = if x ∈ q.items then (true, { q with items := q.items.erase x })
      else (false, q) := by
  unfold PrioritizedQueue.remove
  cases hq : q.type with
  | priorityAttribute => exact absurd hq ht
  | fifo | newestFirst | oldestFirst => rfl

theorem Holds.listing_nil (h : q.Holds view waiting) (ht : q.type = .priorityAttribute)
    (hzero : q.total = 0) : q.listing view = [] := by
  have hlen := h.total ht
  rw [h.listing_eq, List.eq_nil_of_length_eq_zero (by omega : waiting.length = 0)]
  rfl

theorem Holds.get_priority (h : q.Holds view waiting) (ht : q.type = .priorityAttribute) :
    (q.listing view = [] ∧ q.get view = (none, q)) ∨
      ∃ prio x rest, q.level prio = x :: rest ∧ (q.listing view).head? = some x ∧
        q.get view = (some x, q.setLevel prio rest) := by
  have hlisting : q.listing view = q.levels.flatMap q.level := by
    rw [listing, ht]
  have hhead : (q.listing view).head? = (q.levels.findSome? fun prio =>
      match q.level prio with
      | [] => none
      | x :: rest => some (prio, x, rest)).map fun i => i.2.1 := by
    rw [hlisting, List.head?_flatMap, List.map_findSome?]
    congr 1
    funext prio
    rcases hprio : q.level prio with _ | ⟨x, rest⟩ <;> simp [hprio]
  rw [get_of_priority ht]
  split_ifs with hzero
  · exact .inl ⟨h.listing_nil ht hzero, rfl⟩
  · split
    · next hnone =>
      rw [hnone] at hhead
      exact .inl ⟨List.head?_eq_none_iff.mp hhead, rfl⟩
    · next prio x rest hsome =>
      rw [hsome] at hhead
      obtain ⟨prio', -, hlevel⟩ := List.exists_of_findSome?_eq_some hsome
      rcases hprio : q.level prio' with _ | ⟨x', rest'⟩
      · rw [hprio] at hlevel
        cases hlevel
      · rw [hprio] at hlevel
        cases hlevel
        exact .inr ⟨prio, x, rest, hprio, hhead, rfl⟩

theorem Holds.get_fst (h : q.Holds view waiting) : (q.get view).1 = (q.listing view).head? := by
  by_cases ht : q.type = .priorityAttribute
  · rcases h.get_priority ht with ⟨hnil, hget⟩ | ⟨prio, x, rest, -, hhead, hget⟩
    · rw [hget, hnil]
      rfl
    · rw [hget, hhead]
  · rw [get_of_ne ht, listing_of_ne ht, popFirst]
    dsimp only
    cases q.inOrder view q.items with
    | nil | cons => rfl

theorem Holds.get_none (h : q.Holds view waiting) (hget : q.get view = (none, q')) : q' = q := by
  by_cases ht : q.type = .priorityAttribute
  · rcases h.get_priority ht with ⟨-, hnone⟩ | ⟨prio, y, rest, -, -, hsome⟩
    · exact (Prod.mk.inj (hnone.symm.trans hget)).2.symm
    · rw [hsome] at hget
      cases hget
  · rw [get_of_ne ht, popFirst] at hget
    dsimp only at hget
    cases hitems : q.inOrder view q.items with
    | cons y rest =>
      rw [hitems] at hget
      cases hget
    | nil =>
      rw [hitems] at hget
      cases hget
      have hperm : q.items.Perm [] := hitems ▸ (List.perm_insertionSort _ q.items).symm
      rw [← hperm.eq_nil]

theorem Holds.get_snd [DecidableEq α] (h : q.Holds view waiting)
    (hget : q.get view = (some x, q')) : SameKind q q' ∧ q'.Holds view (waiting.erase x) := by
  by_cases ht : q.type = .priorityAttribute
  · rcases h.get_priority ht with ⟨-, hnone⟩ | ⟨prio, y, rest, hlevel, -, hsome⟩
    · rw [hnone] at hget
      cases hget
    · rw [hsome] at hget
      cases hget
      refine ⟨⟨rfl, rfl, rfl⟩, ?_⟩
      have hx : x ∈ q.level prio := hlevel ▸ List.mem_cons_self
      have hset := h.setLevel ht hx
      rwa [hlevel, List.erase_cons_head] at hset
  · rw [get_of_ne ht, popFirst] at hget
    dsimp only at hget
    cases hitems : q.inOrder view q.items with
    | nil =>
      rw [hitems] at hget
      cases hget
    | cons y rest =>
      rw [hitems] at hget
      cases hget
      refine ⟨⟨rfl, rfl, rfl⟩, h.keys, fun h => absurd h ht, fun h => absurd h ht, fun _ => ?_⟩
      have hsorted : rest = (q.items.erase x).insertionSort (q.Before view) := by
        have hrest : (q.inOrder view q.items).erase x = rest := by
          rw [hitems, List.erase_cons_head]
        rw [insertionSort_erase, ← hrest]
        rfl
      show SameTies (q.Before view) rest (waiting.erase x)
      rw [hsorted]
      exact (sameTies_insertionSort _).trans ((h.items ht).erase x)

theorem Holds.remove [DecidableEq α] (h : q.Holds view waiting) (x : α) :
    (q.remove x).1 = decide (x ∈ waiting) ∧ SameKind q (q.remove x).2 ∧
      (q.remove x).2.Holds view (waiting.erase x) := by
  have hself : SameKind q q := ⟨rfl, rfl, rfl⟩
  by_cases ht : q.type = .priorityAttribute
  · unfold PrioritizedQueue.remove
    rw [ht]
    dsimp only
    split
    · next hnone =>
      have hnot : x ∉ waiting := by
        intro hmem
        have hx : x ∈ q.level (q.ffPriority view x) := (h.mem_level ht).mpr ⟨hmem, rfl⟩
        obtain ⟨rest, hget⟩ : ∃ items, q.priorityQueues.get? (q.ffPriority view x) = some items := by
          cases hget : q.priorityQueues.get? (q.ffPriority view x) with
          | none =>
            rw [level, hget] at hx
            exact absurd hx List.not_mem_nil
          | some items => exact ⟨items, rfl⟩
        rw [level, hget] at hx
        have hfound := List.find?_eq_none.mp hnone _ (PyDict.mem_of_get? hget)
        exact hfound (by simpa using hx)
      rw [List.erase_of_not_mem hnot, decide_eq_false hnot]
      exact ⟨rfl, hself, h⟩
    · next prio items hsome =>
      have hlevel : q.level prio = items := by
        rw [level, PyDict.get?_of_mem h.keys (List.mem_of_find?_eq_some hsome)]
        rfl
      have hx : x ∈ q.level prio := by
        rw [hlevel]
        simpa using List.find?_some hsome
      rw [decide_eq_true ((h.mem_level ht).mp hx).1, ← hlevel]
      exact ⟨rfl, ⟨rfl, rfl, rfl⟩, h.setLevel ht hx⟩
  · have hmem : x ∈ q.items ↔ x ∈ waiting := ⟨(h.items ht).mem, (h.items ht).symm.mem⟩
    rw [remove_of_ne ht]
    split_ifs with hx
    · rw [decide_eq_true (hmem.mp hx)]
      exact ⟨rfl, ⟨rfl, rfl, rfl⟩, h.keys, fun h => absurd h ht, fun h => absurd h ht,
        fun _ => (h.items ht).erase x⟩
    · rw [decide_eq_false (mt hmem.mpr hx), List.erase_of_not_mem (mt hmem.mpr hx)]
      exact ⟨rfl, hself, h⟩

theorem Holds.congr (h : q.Holds view waiting)
    (hview : ∀ x ∈ waiting, view' x = view x) : q.Holds view' waiting where
  keys := h.keys
  total := h.total
  levels ht prio := by
    rw [h.levels ht]
    refine List.filter_congr fun x hx => ?_
    rw [ffPriority_eq, ffPriority_eq, hview x hx]
  items ht := by
    have hsame := h.items ht
    have hitems : ∀ x ∈ q.items, view' x = view x := fun x hx => hview x (hsame.mem hx)
    have hsort : q.inOrder view' q.items = q.inOrder view' waiting := by
      rw [inOrder_congr hitems, inOrder_congr hview]
      exact insertionSort_congr hsame
    exact sameTies_of_insertionSort hsort

theorem Holds.gets [DecidableEq α] (h : q.Holds view waiting) (n : Nat) :
    q.gets view n = (q.listing view).take n := by
  induction n generalizing q waiting with
  | zero => rfl
  | succ n ih =>
    have hfst := h.get_fst
    unfold PrioritizedQueue.gets
    rcases hget : q.get view with ⟨_ | x, q'⟩
    · rw [hget] at hfst
      rw [List.head?_eq_none_iff.mp hfst.symm]
      rfl
    · rw [hget] at hfst
      obtain ⟨hkind, hrest⟩ := h.get_snd hget
      have hlisting : q.listing view = x :: q'.listing view := by
        obtain ⟨rest, hcons⟩ := List.head?_eq_some_iff.mp hfst.symm
        rw [hrest.listing_eq, hkind.inOrder, hcons]
        congr 1
        show rest = (waiting.erase x).insertionSort (q.Before view)
        rw [insertionSort_erase]
        have hsame : waiting.insertionSort (q.Before view) = x :: rest := h.listing_eq.symm.trans hcons
        rw [hsame, List.erase_cons_head]
      rw [hlisting, List.take_succ_cons]
      exact congrArg _ (ih hrest)

/-! ## Views -/

/-- The views show what the next calls of `get` will return. -/
def ViewsAgree (view : α → FlowFile) (q : PrioritizedQueue α) : Prop :=
  q.peek = (q.get view).1 ∧ ∀ limit : Nat, 1 ≤ limit → q.peekAll limit = q.gets view limit

theorem sliceTo_natCast (items : List α) (limit : Nat) : sliceTo items limit = items.take limit := by
  unfold sliceTo
  rw [if_pos (Int.natCast_nonneg _)]
  rfl

theorem peek_of_ne (ht : q.type ≠ .priorityAttribute) : q.peek = q.items.head? := by
  unfold peek
  cases h : q.type with
  | priorityAttribute => exact absurd h ht
  | fifo | newestFirst | oldestFirst => rfl

theorem peekAll_of_ne (ht : q.type ≠ .priorityAttribute) (limit : Int) :
    q.peekAll limit = sliceTo q.items limit := by
  unfold peekAll
  cases h : q.type with
  | priorityAttribute => exact absurd h ht
  | fifo | newestFirst | oldestFirst => rfl

theorem Holds.viewsAgree_iff [DecidableEq α] (h : q.Holds view waiting) :
    q.ViewsAgree view ↔ q.Tidy view := by
  unfold ViewsAgree
  rw [h.get_fst]
  by_cases ht : q.type = .priorityAttribute
  · have hlisting : q.listing view = q.levels.flatMap q.level := by
      rw [listing, ht]
    refine iff_of_true ⟨?_, fun limit hlimit => ?_⟩ (.inl ht)
    · rw [hlisting, List.head?_flatMap, peek, ht]
    · have hmax : (max (limit : Int) 1).toNat = limit := by omega
      rw [h.gets, hlisting, peekAll, ht]
      dsimp only
      rw [hmax]
  · rw [peek_of_ne ht, listing_of_ne ht]
    constructor
    · rintro ⟨-, hall⟩
      refine .inr ?_
      -- The view of all items is what the sort makes of them.
      have hsorted : q.items = q.inOrder view q.items := by
        rcases Nat.eq_zero_or_pos q.items.length with hzero | hpos
        · rw [List.eq_nil_of_length_eq_zero hzero]
          rfl
        · have hview := hall q.items.length hpos
          rw [h.gets, peekAll_of_ne ht, sliceTo_natCast, listing_of_ne ht, List.take_length,
            List.take_of_length_le (by simp [inOrder])] at hview
          exact hview
      rw [hsorted]
      exact List.pairwise_insertionSort _ _
    · rintro (htype | hpairwise)
      · exact absurd htype ht
      · rw [inOrder_of_pairwise hpairwise]
        refine ⟨rfl, fun limit _ => ?_⟩
        rw [h.gets, peekAll_of_ne ht, sliceTo_natCast, listing_of_ne ht,
          inOrder_of_pairwise hpairwise]

/-! ## Runs -/

/-- A queue with what waits in it, in the order in which it came. -/
structure Watched (α : Type*) where
  view : α → FlowFile
  queue : PrioritizedQueue α
  waiting : List α := []

inductive Watched.Act (α : Type*)
  | put (x : α)
  | get
  | remove (x : α)
  /-- FlowFiles outside of the queue change. -/
  | edit (view : α → FlowFile)

namespace Watched

def empty (view : α → FlowFile) (type : PrioritizerType) (maxSize : Int) (key : String) :
    Watched α where
  view
  queue := { type, maxSize, priorityAttribute := key }

theorem empty_holds (view : α → FlowFile) (type : PrioritizerType) (maxSize : Int) (key : String) :
    (empty view type maxSize key).queue.Holds view [] where
  keys := List.nodup_nil
  total _ := rfl
  levels _ _ := rfl
  items _ _ := rfl

variable [DecidableEq α]

def step (s : Watched α) : Act α → Option (Watched α)
  | .put x =>
    let (placed, queue) := s.queue.put s.view x
    some { s with queue, waiting := if placed then s.waiting ++ [x] else s.waiting }
  | .get =>
    match s.queue.get s.view with
    | (none, queue) => some { s with queue }
    | (some x, queue) => some { s with queue, waiting := s.waiting.erase x }
  | .remove x =>
    let (removed, queue) := s.queue.remove x
    some { s with queue, waiting := if removed then s.waiting.erase x else s.waiting }
  | .edit view => if ∀ x ∈ s.waiting, view x = s.view x then some { s with view } else none

variable {s s' : Watched α}

theorem step_holds {a : Act α} (h : s.queue.Holds s.view s.waiting)
    (hs : s.step a = some s') : s'.queue.Holds s'.view s'.waiting := by
  cases a with
  | put x =>
    obtain rfl := Option.some.inj hs
    show (s.queue.put s.view x).2.Holds s.view (if (s.queue.put s.view x).1 then _ else _)
    unfold PrioritizedQueue.put
    cases hfull : s.queue.isFull with
    | true => exact h
    | false => exact h.push x
  | get =>
    simp only [step] at hs
    rcases hget : s.queue.get s.view with ⟨_ | x, q'⟩
    · rw [hget] at hs
      obtain rfl := Option.some.inj hs
      exact h.get_none hget ▸ h
    · rw [hget] at hs
      obtain rfl := Option.some.inj hs
      exact (h.get_snd hget).2
  | remove x =>
    obtain rfl := Option.some.inj hs
    obtain ⟨hfst, -, hrest⟩ := h.remove x
    show (s.queue.remove x).2.Holds s.view (if (s.queue.remove x).1 then _ else _)
    rw [hfst]
    by_cases hx : x ∈ s.waiting
    · rwa [decide_eq_true hx, if_pos rfl]
    · rw [decide_eq_false hx, if_neg Bool.false_ne_true]
      rwa [List.erase_of_not_mem hx] at hrest
  | edit view =>
    simp only [step] at hs
    split_ifs at hs with hview
    obtain rfl := Option.some.inj hs
    exact h.congr hview

theorem holds_of_foldlM {acts : List (Act α)}
    (h : s.queue.Holds s.view s.waiting) (hs : acts.foldlM step s = some s') :
    s'.queue.Holds s'.view s'.waiting := by
  induction acts generalizing s with
  | nil => exact Option.some.inj hs ▸ h
  | cons a acts ih =>
    obtain ⟨u, hu, hrest⟩ := Option.bind_eq_some_iff.mp hs
    exact ih (step_holds h hu) hrest

/-- `get` always returns the first FlowFile in the order of the type. The views show the order in
which the FlowFiles leave exactly if the items are in order already. -/
theorem in_order_iff_tidy (view : α → FlowFile) (type : PrioritizerType) (maxSize : Int)
    (key : String) (acts : List (Act α)) {s : Watched α}
    (hs : acts.foldlM step (empty view type maxSize key) = some s) :
    (s.queue.get s.view).1 = (s.queue.inOrder s.view s.waiting).head? ∧
      (s.queue.ViewsAgree s.view ↔ s.queue.Tidy s.view) := by
  have h := holds_of_foldlM (empty_holds view type maxSize key) hs
  constructor
  · rw [h.get_fst, h.listing_eq]
  · exact h.viewsAgree_iff

def twoFiles : Nat → FlowFile
  | 0 => { processId := "a", attributes := [("timestamp", "1")] }
  | _ => { processId := "b", attributes := [("timestamp", "2")] }

theorem in_order_iff_tidy_oldestFirst :
    (∃ s, [.put 0, .put 1].foldlM step (empty twoFiles .oldestFirst 10 "priority") = some s ∧
      (s.queue.get s.view).1 = (s.queue.inOrder s.view s.waiting).head? ∧
      (s.queue.ViewsAgree s.view ↔ s.queue.Tidy s.view)) :=
  ⟨_, rfl, in_order_iff_tidy twoFiles .oldestFirst 10 "priority" [.put 0, .put 1] rfl⟩

theorem not_viewsAgree_newestFirst :
    ∃ s, [.put 0, .put 1].foldlM step (empty twoFiles .newestFirst 10 "priority") = some s ∧
      s.queue.peek = some 0 ∧ (s.queue.get s.view).1 = some 1 ∧ ¬ s.queue.ViewsAgree s.view := by
  refine ⟨_, rfl, rfl, by decide +kernel, fun h => ?_⟩
  have hpeek : some 0 = some 1 := h.1.trans (by decide +kernel)
  exact absurd hpeek (by decide)

end Watched

end PrioritizedQueue

end PawFlow.Core
