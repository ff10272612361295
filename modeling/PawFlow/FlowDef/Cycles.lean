import PawFlow.FlowDef.Parser
import PawFlow.Lib.CycleSearch

/-!
# Cycles among relations

`find_cycle` (`core/declarative_flow/validation.py`) looks for a cycle among the relations of a flow,
as `normalize_relation` reads them (`core/flow_definition_validator.py`). Both keep to the parser's
reading of a relation; `str` is that of the values a relation may hold.
-/

namespace PawFlow.FlowDef

open PawFlow.Lib

/-- What `normalize_relation` returns. -/
structure Normalized where
  source : String
  target : String
  type : String

section

variable (str : Json → String)

/-- `normalize_relation`. -/
def relationOf (rel : PyDict String Json) : Normalized :=
  ⟨str (endOf rel "from" "source"), str (endOf rel "to" "target"), str (relationType rel)⟩

/-- The successors of each node. -/
abbrev Graph := PyDict String (List String)

/-- `set.add`. -/
def addTarget (target : String) (targets : List String) : List String :=
  if target ∈ targets then targets else targets ++ [target]

/-- One relation, if both of its ends are nodes. -/
def addRelation (graph : Graph) (rel : PyDict String Json) : Graph :=
  let normalized := relationOf str rel
  if (graph.get? normalized.source).isSome ∧ (graph.get? normalized.target).isSome then
    graph.adjust normalized.source (addTarget normalized.target)
  else graph

def graphOf (nodeIds : List String) (relations : List Json) : Graph :=
  (dictRelations relations).foldl (addRelation str)
    (nodeIds.foldl (fun graph nodeId => graph.set nodeId []) [])

def sorted (ids : List String) : List String := ids.insertionSort (· ≤ ·)

/-- `graph[node_id]`, sorted. -/
def successors (graph : Graph) (nodeId : String) : List String :=
  sorted ((graph.get? nodeId).getD [])

def findCycle (nodeIds : List String) (relations : List Json) : Option (List String) :=
  let graph := graphOf str nodeIds relations
  CycleSearch.findCycle (successors graph) (sorted (graph.map Prod.fst))

/-- A relation between two nodes, from the first to the second. -/
def Related (nodeIds : List String) (relations : List Json) (a b : String) : Prop :=
  a ∈ nodeIds ∧ b ∈ nodeIds ∧
    ∃ rel ∈ dictRelations relations, (relationOf str rel).source = a ∧ (relationOf str rel).target = b

end

/-! ## The graph -/

section

variable {str : Json → String} {graph : Graph} {rels : List (PyDict String Json)}

theorem mem_sorted {ids : List String} {id : String} : id ∈ sorted ids ↔ id ∈ ids :=
  (List.perm_insertionSort _ ids).mem_iff

variable {a : String}

variable {b : String}

theorem mem_addTarget {targets : List String} : a ∈ addTarget b targets ↔ a ∈ targets ∨ a = b := by
  unfold addTarget
  split_ifs with h
  · exact ⟨.inl, fun ha => ha.elim id fun heq => heq ▸ h⟩
  · rw [List.mem_append, List.mem_singleton]

theorem keys_addRelation (rel : PyDict String Json) :
    (addRelation str graph rel).map Prod.fst = graph.map Prod.fst := by
  unfold addRelation
  dsimp only
  split_ifs
  · exact PyDict.keys_adjust _ _ _
  · rfl

theorem isSome_iff_mem_keys : (graph.get? a).isSome ↔ a ∈ graph.map Prod.fst := by
  rw [← not_iff_not, Option.not_isSome_iff_eq_none, PyDict.get?_eq_none_iff]

theorem mem_addRelation {rel : PyDict String Json} :
    b ∈ ((addRelation str graph rel).get? a).getD [] ↔ b ∈ (graph.get? a).getD [] ∨
      (relationOf str rel).source = a ∧ (relationOf str rel).target = b ∧
        a ∈ graph.map Prod.fst ∧ b ∈ graph.map Prod.fst := by
  unfold addRelation
  dsimp only
  split_ifs with h
  · by_cases ha : (relationOf str rel).source = a
    · subst ha
      obtain ⟨targets, htargets⟩ := Option.isSome_iff_exists.mp h.1
      rw [PyDict.get?_adjust_self, htargets, Option.map_some, Option.getD_some, mem_addTarget,
        Option.getD_some]
      refine or_congr_right ⟨fun hb => ?_, fun hb => hb.2.1.symm⟩
      rw [isSome_iff_mem_keys, isSome_iff_mem_keys] at h
      exact ⟨rfl, hb.symm, h.1, hb ▸ h.2⟩
    · rw [PyDict.get?_adjust_of_ne _ _ (Ne.symm ha)]
      exact ⟨.inl, fun hb => hb.resolve_right fun hb => ha hb.1⟩
  · rw [isSome_iff_mem_keys, isSome_iff_mem_keys] at h
    refine ⟨.inl, fun hb => hb.resolve_right ?_⟩
    rintro ⟨rfl, rfl, hmem⟩
    exact h hmem

theorem mem_foldl_addRelation :
    b ∈ ((rels.foldl (addRelation str) graph).get? a).getD [] ↔ b ∈ (graph.get? a).getD [] ∨
      a ∈ graph.map Prod.fst ∧ b ∈ graph.map Prod.fst ∧
        ∃ rel ∈ rels, (relationOf str rel).source = a ∧ (relationOf str rel).target = b := by
  induction rels generalizing graph with
  | nil => simp
  | cons rel rels ih =>
    rw [List.foldl_cons, ih, keys_addRelation, mem_addRelation]
    simp only [List.mem_cons, exists_eq_or_imp]
    tauto

theorem keys_foldl_addRelation :
    (rels.foldl (addRelation str) graph).map Prod.fst = graph.map Prod.fst := by
  induction rels generalizing graph with
  | nil => rfl
  | cons rel rels ih => rw [List.foldl_cons, ih, keys_addRelation]

variable {nodeIds : List String}

theorem mem_nodes :
    a ∈ (nodeIds.foldl (fun graph nodeId => graph.set nodeId []) graph).map Prod.fst ↔
      a ∈ nodeIds ∨ a ∈ graph.map Prod.fst := by
  induction nodeIds generalizing graph with
  | nil => simp
  | cons nodeId nodeIds ih =>
    rw [List.foldl_cons, ih, PyDict.mem_keys_set, List.mem_cons]
    tauto

theorem targets_nodes (h : (graph.get? a).getD [] = []) :
    ((nodeIds.foldl (fun graph nodeId => graph.set nodeId []) graph).get? a).getD [] = [] := by
  induction nodeIds generalizing graph with
  | nil => exact h
  | cons nodeId nodeIds ih =>
    refine ih ?_
    by_cases ha : a = nodeId
    · rw [ha, PyDict.get?_set_self]
      rfl
    · rw [PyDict.get?_set_of_ne _ _ ha]
      exact h

theorem mem_keys_graphOf {relations : List Json} :
    a ∈ (graphOf str nodeIds relations).map Prod.fst ↔ a ∈ nodeIds := by
  rw [graphOf, keys_foldl_addRelation, mem_nodes]
  exact or_iff_left (List.not_mem_nil)

theorem edge_successors {nodeIds : List String} {relations : List Json} :
    CycleSearch.Edge (successors (graphOf str nodeIds relations)) =
      Related str nodeIds relations := by
  ext a b
  rw [CycleSearch.Edge, successors, mem_sorted, graphOf, mem_foldl_addRelation,
    targets_nodes rfl, mem_nodes, mem_nodes]
  simp [Related]

end

/-- `find_cycle` decides whether the relations between known nodes have a cycle. -/
theorem findCycle_decides (str : Json → String) (nodeIds : List String) (relations : List Json) :
    ∃ cycle, findCycle str nodeIds relations = some cycle ∧
      (cycle = [] ↔ ∀ a, ¬ Relation.TransGen (Related str nodeIds relations) a a) ∧
      (cycle ≠ [] → (∀ a ∈ cycle, a ∈ nodeIds) ∧
        cycle.IsChain (Related str nodeIds relations) ∧ 2 ≤ cycle.length ∧
        cycle.head? = cycle.getLast?) := by
  have hedges := @edge_successors str nodeIds relations
  have hnode : ∀ a, a ∈ sorted ((graphOf str nodeIds relations).map Prod.fst) ↔ a ∈ nodeIds :=
    fun a => mem_sorted.trans mem_keys_graphOf
  have hedge : ∀ a b, b ∈ successors (graphOf str nodeIds relations) a →
      Related str nodeIds relations a b := fun a b h => hedges ▸ h
  obtain ⟨cycle, hcycle, hnil, hfound⟩ := CycleSearch.findCycle_spec
    (fun a _ b hb => (hnode b).mpr (hedge a b hb).2.1)
    (fun a b hb => (hnode a).mpr (hedge a b hb).1)
  rw [hedges] at hnil
  refine ⟨cycle, hcycle, hnil, fun hne => ?_⟩
  have h := hfound hne
  refine ⟨fun a ha => (hnode a).mp (h.nodes a ha), ?_, h.length, h.closed⟩
  rw [← hedges]
  exact h.chain

end PawFlow.FlowDef
