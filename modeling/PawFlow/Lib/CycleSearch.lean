import Mathlib.Tactic
import Mathlib.Logic.Relation
import Mathlib.Data.List.Chain

/-!
# Depth-first search for a cycle

The search keeps the nodes it is in, its path, and the nodes it is done with. From the latter no path
is infinite: `Acc` says it of one node at a time, and is all that completeness needs.
-/

namespace PawFlow.Lib.CycleSearch

variable {α : Type} (next : α → List α)

/-! ## Walks -/

def Edge (a b : α) : Prop := b ∈ next a

/-- A closed walk, its first node repeated at the end. -/
structure IsCycle (nodes cycle : List α) : Prop where
  nodes : ∀ a ∈ cycle, a ∈ nodes
  chain : cycle.IsChain (Edge next)
  length : 2 ≤ cycle.length
  closed : cycle.head? = cycle.getLast?

/-- No walk from the nodes that are done goes on forever. -/
def Done (visited : List α) : Prop := ∀ a ∈ visited, Acc (fun b a => Edge next a b) a

/-- A walk through different nodes. -/
structure IsPath (nodes path : List α) : Prop where
  nodes : ∀ a ∈ path, a ∈ nodes
  chain : path.IsChain (Edge next)
  nodup : path.Nodup

section

variable {next} {nodes path : List α}

theorem IsPath.concat (h : IsPath next nodes path) {a : α} (hmem : a ∈ nodes) (hnew : a ∉ path)
    (hedge : ∀ b ∈ path.getLast?, Edge next b a) : IsPath next nodes (path ++ [a]) where
  nodes b hb := (List.mem_append.mp hb).elim (h.nodes b) fun hb => List.mem_singleton.mp hb ▸ hmem
  chain := h.chain.append (List.isChain_singleton a) fun b hb c hc => by
    obtain rfl : a = c := by simpa using hc
    exact hedge b hb
  nodup := by
    rw [List.nodup_append]
    refine ⟨h.nodup, List.nodup_singleton a, fun b hb c hc heq => hnew ?_⟩
    rw [← List.mem_singleton.mp hc, ← heq]
    exact hb

theorem not_transGen_of_acc {a : α} (h : Acc (fun b a => Edge next a b) a) :
    ¬ Relation.TransGen (Edge next) a a := by
  induction h with
  | intro a _ ih =>
    intro hcycle
    obtain ⟨b, hab, hba⟩ := Relation.TransGen.head'_iff.mp hcycle
    exact ih b hab (Relation.TransGen.tail' hba hab)

theorem IsCycle.transGen {cycle : List α} (h : IsCycle next nodes cycle) :
    ∃ a, Relation.TransGen (Edge next) a a := by
  obtain ⟨a, rest, rfl⟩ := List.exists_cons_of_ne_nil
    (List.ne_nil_of_length_pos (Nat.lt_of_lt_of_le Nat.zero_lt_two h.length))
  cases rest with
  | nil => exact absurd h.length (by simp)
  | cons b rest =>
    obtain ⟨hab, hchain⟩ := List.isChain_cons_cons.mp h.chain
    have hlast : (b :: rest).getLast (List.cons_ne_nil b rest) = a := by
      have hclosed := h.closed
      rw [List.head?_cons, List.getLast?_eq_some_getLast (by simp)] at hclosed
      simpa using (Option.some.inj hclosed).symm
    exact ⟨a, .head' hab (List.relationReflTransGen_of_exists_isChain_cons rest hchain hlast)⟩

end

/-! ## The search -/

variable [DecidableEq α]

/-- Look at nodes in turn, the first on the path or the first with a cycle behind it ends the search.
What comes back is the cycle, empty if there is none, and the nodes that are done. -/
def search (visit : α → List α → Option (List α × List α)) (path : List α) :
    List α → List α → Option (List α × List α)
  | [], visited => some ([], visited)
  | target :: targets, visited =>
    if target ∈ path then some (path.dropWhile (· ≠ target) ++ [target], visited)
    else if target ∈ visited then search visit path targets visited
    else
      match visit target visited with
      | some ([], visited') => search visit path targets visited'
      | found => found

/-- Visit a node; `none` without fuel. -/
def visit : Nat → List α → α → List α → Option (List α × List α)
  | 0, _, _, _ => none
  | fuel + 1, path, node, visited =>
    match search (visit fuel (path ++ [node])) (path ++ [node]) (next node) visited with
    | some ([], visited') => some ([], node :: visited')
    | found => found

/-- The search from all nodes: nothing is on the path yet. -/
def findCycle (nodes : List α) : Option (List α) :=
  (search (visit next nodes.length []) [] nodes []).map Prod.fst

/-- How a search of `targets` may end. -/
def Found (nodes targets visited : List α) (r : Option (List α × List α)) : Prop :=
  ∃ cycle visited', r = some (cycle, visited') ∧
    (cycle = [] → Done next visited' ∧ visited ⊆ visited' ∧ targets ⊆ visited') ∧
    (cycle ≠ [] → IsCycle next nodes cycle)

variable {next} {nodes path visited : List α}

theorem dropWhile_ne_of_mem {a : α} (h : a ∈ path) :
    ∃ rest, path.dropWhile (· ≠ a) = a :: rest := by
  induction path with
  | nil => simp at h
  | cons b path ih =>
    by_cases hb : b = a
    · exact ⟨path, by simp [hb]⟩
    · obtain ⟨rest, hrest⟩ := ih ((List.mem_cons.mp h).resolve_left (Ne.symm hb))
      exact ⟨rest, by simpa [hb] using hrest⟩

theorem IsPath.isCycle (h : IsPath next nodes path) {a : α} (hmem : a ∈ path)
    (hedge : ∀ b ∈ path.getLast?, Edge next b a) :
    IsCycle next nodes (path.dropWhile (· ≠ a) ++ [a]) := by
  obtain ⟨rest, hrest⟩ := dropWhile_ne_of_mem hmem
  have hsuffix : path.dropWhile (· ≠ a) <:+ path := List.dropWhile_suffix _
  have hlast : (path.dropWhile (· ≠ a)).getLast? = path.getLast? := by
    obtain ⟨before, hbefore⟩ := hsuffix
    rw [← congrArg List.getLast? hbefore, List.getLast?_append, hrest, List.getLast?_cons,
      Option.some_or]
  refine ⟨?_, ?_, ?_, ?_⟩
  · intro b hb
    rcases List.mem_append.mp hb with hb | hb
    · exact h.nodes b (hsuffix.subset hb)
    · exact h.nodes b (List.mem_singleton.mp hb ▸ hmem)
  · refine (h.chain.suffix hsuffix).append (List.isChain_singleton a) fun b hb c hc => ?_
    obtain rfl : a = c := by simpa using hc
    exact hedge b (hlast ▸ hb)
  · rw [hrest]
    simp
  · rw [hrest, List.getLast?_concat]
    rfl

/-- One loop, from what is known of a visit. -/
theorem found_search {go : α → List α → Option (List α × List α)} {targets : List α}
    (hpath : IsPath next nodes path)
    (htargets : ∀ a ∈ targets, a ∈ nodes ∧ ∀ b ∈ path.getLast?, Edge next b a)
    (hgo : ∀ a ∈ targets, a ∉ path → ∀ visited, Done next visited →
      Found next nodes [a] visited (go a visited))
    (hdone : Done next visited) :
    Found next nodes targets visited (search go path targets visited) := by
  induction targets generalizing visited with
  | nil => exact ⟨[], visited, rfl, fun _ => ⟨hdone, List.Subset.refl _, List.nil_subset _⟩,
      fun hne => absurd rfl hne⟩
  | cons a targets ih =>
    have hrest := fun visited => @ih visited (fun b hb => htargets b (List.mem_cons_of_mem a hb))
      fun b hb => hgo b (List.mem_cons_of_mem a hb)
    rw [search]
    split_ifs with hmem hvisited
    · refine ⟨_, visited, rfl, fun hnil => ?_, fun _ => hpath.isCycle hmem (htargets a (by simp)).2⟩
      exact absurd hnil (by simp)
    · obtain ⟨cycle, visited', hsearch, hnil, hcycle⟩ := hrest visited hdone
      refine ⟨cycle, visited', hsearch, fun h => ?_, hcycle⟩
      obtain ⟨hdone', hsub, htail⟩ := hnil h
      exact ⟨hdone', hsub, List.cons_subset.mpr ⟨hsub hvisited, htail⟩⟩
    · obtain ⟨cycle, visited', hvisit, hnil, hcycle⟩ := hgo a (by simp) hmem visited hdone
      rw [hvisit]
      cases cycle with
      | cons b cycle =>
        exact ⟨b :: cycle, visited', rfl, fun h => absurd h (by simp), hcycle⟩
      | nil =>
        obtain ⟨hdone', hsub, ha⟩ := hnil rfl
        obtain ⟨cycle, visited'', hsearch, hnil', hcycle'⟩ := hrest visited' hdone'
        refine ⟨cycle, visited'', hsearch, fun h => ?_, hcycle'⟩
        obtain ⟨hdone'', hsub', htail⟩ := hnil' h
        exact ⟨hdone'', fun b hb => hsub' (hsub hb),
          List.cons_subset.mpr ⟨hsub' (ha (by simp)), htail⟩⟩

/-- A visit; every node on the path but the one it starts from has cost one unit of fuel. -/
theorem found_visit (hclosed : ∀ a ∈ nodes, ∀ b ∈ next a, b ∈ nodes) {fuel : Nat} {node : α}
    (hpath : IsPath next nodes path) (hfuel : nodes.length ≤ fuel + path.length)
    (hnode : node ∈ nodes) (hnew : node ∉ path) (hedge : ∀ b ∈ path.getLast?, Edge next b node)
    (hdone : Done next visited) :
    Found next nodes [node] visited (visit next fuel path node visited) := by
  induction fuel generalizing path node visited with
  | zero =>
    -- the path cannot be longer than there are nodes
    have hconcat := hpath.concat hnode hnew hedge
    have hle := (hconcat.nodup.subperm fun a ha => hconcat.nodes a ha).length_le
    rw [List.length_append, List.length_singleton] at hle
    omega
  | succ fuel ih =>
    have hconcat := hpath.concat hnode hnew hedge
    have hlast : ∀ a ∈ next node, ∀ b ∈ (path ++ [node]).getLast?, Edge next b a := by
      intro a ha b hb
      obtain rfl : node = b := by simpa using hb
      exact ha
    obtain ⟨cycle, visited', hsearch, hnil, hcycle⟩ := found_search hconcat
      (fun a ha => ⟨hclosed node hnode a ha, hlast a ha⟩)
      (fun a ha hout visited hdone => ih hconcat
        (by rw [List.length_append, List.length_singleton]; omega)
        (hclosed node hnode a ha) hout (hlast a ha) hdone) hdone
    rw [visit, hsearch]
    cases cycle with
    | cons b cycle => exact ⟨b :: cycle, visited', rfl, fun h => absurd h (by simp), hcycle⟩
    | nil =>
      obtain ⟨hdone', hsub, htargets⟩ := hnil rfl
      refine ⟨[], node :: visited', rfl, fun _ => ⟨?_, ?_, by simp⟩, fun h => absurd rfl h⟩
      · intro a ha
        rcases List.mem_cons.mp ha with rfl | ha
        · exact ⟨_, fun b hb => hdone' b (htargets hb)⟩
        · exact hdone' a ha
      · exact fun a ha => List.mem_cons_of_mem node (hsub ha)

theorem findCycle_spec (hclosed : ∀ a ∈ nodes, ∀ b ∈ next a, b ∈ nodes)
    (hedges : ∀ a b, b ∈ next a → a ∈ nodes) :
    ∃ cycle, findCycle next nodes = some cycle ∧
      (cycle = [] ↔ ∀ a, ¬ Relation.TransGen (Edge next) a a) ∧
      (cycle ≠ [] → IsCycle next nodes cycle) := by
  have hempty : IsPath next nodes [] := ⟨by simp, List.isChain_nil, List.nodup_nil⟩
  have hlast : ∀ a : α, ∀ b ∈ ([] : List α).getLast?, Edge next b a := by simp
  have hdone : Done next [] := by simp [Done]
  obtain ⟨cycle, visited, hsearch, hnil, hcycle⟩ := found_search hempty
    (fun a ha => ⟨ha, hlast a⟩)
    (fun a ha hout visited hdone => found_visit hclosed hempty le_rfl ha hout (hlast a) hdone)
    hdone
  refine ⟨cycle, by rw [findCycle, hsearch]; rfl, ⟨fun h a htrans => ?_, fun h => ?_⟩, hcycle⟩
  · obtain ⟨hdone, -, hall⟩ := hnil h
    obtain ⟨b, hab, -⟩ := Relation.TransGen.head'_iff.mp htrans
    exact not_transGen_of_acc (hdone a (hall (hedges a b hab))) htrans
  · by_contra hne
    obtain ⟨a, ha⟩ := (hcycle hne).transGen
    exact h a ha

end PawFlow.Lib.CycleSearch
