import PawFlow.FlowDef.Parser

/-!
# Flattening loses nothing

What a definition declares, level by level, against the tasks and the connections of the flow that
`FlowParser` makes of it. They are the same just when no id is declared at two levels of one group
or again by a later `flow_ref` group, no nested group has a `flow_ref` of its own, and every
relation without a `type` has one relationship at most.
-/

namespace PawFlow.FlowDef

open PawFlow.Lib

/-! ## What is declared -/

namespace ProcessGroup

mutual

/-- The tasks a group declares, under its key: a group with a `flow_ref` is one task. -/
def declared (key : String) (inherited : Vars) : ProcessGroup → List (String × TaskSource)
  | mk id flowRef tasks _ vars childGroups =>
    match flowRef with
    | some _ => [(key, .subflow key)]
    | none =>
      let vars := PyDict.update inherited vars
      (tasks.items.map fun i => (i.1, .inline (annotate id vars i.2))) ++
        declaredChildren vars childGroups

def declaredChildren (vars : Vars) : List (String × ProcessGroup) → List (String × TaskSource)
  | [] => []
  | (key, child) :: rest => child.declared key vars ++ declaredChildren vars rest

end

mutual

def declaredRelations : ProcessGroup → List Json
  | mk _ flowRef _ relations _ childGroups =>
    match flowRef with
    | some _ => []
    | none => relations ++ declaredChildRelations childGroups

def declaredChildRelations : List (String × ProcessGroup) → List Json
  | [] => []
  | (_, child) :: rest => child.declaredRelations ++ declaredChildRelations rest

end

mutual

/-- No group nested in this one has a `flow_ref`. -/
def inlineBelow : ProcessGroup → Bool
  | mk _ _ _ _ _ childGroups => inlineChildren childGroups

def inlineChildren : List (String × ProcessGroup) → Bool
  | [] => true
  | (_, child) :: rest => child.flowRef.isNone && (child.inlineBelow && inlineChildren rest)

end

end ProcessGroup

/-- The tasks an entry of `groups` declares. -/
def declaredBy (entry : String × Option GroupConfig) : List (String × TaskSource) :=
  match entry.2 with
  | some config => config.group.declared entry.1 []
  | none => []

def relationsBy (entry : String × Option GroupConfig) : List Json :=
  match entry.2 with
  | some config => config.group.declaredRelations
  | none => []

/-- The entry is a group with a `flow_ref`. -/
def isSubflow (entry : String × Option GroupConfig) : Bool :=
  match entry.2 with
  | some config => config.group.flowRef.isSome
  | none => false

def TaskDict.declared (tasks : TaskDict) : List (String × TaskSource) :=
  tasks.items.map fun i => (i.1, .inline i.2)

namespace FlowConfig

variable (config : FlowConfig)

/-- The tasks of all levels. -/
def declared : List (String × TaskSource) :=
  config.tasks.declared ++ config.groups.flatMap declaredBy

def declaredIds : List String := config.declared.map Prod.fst

def declaredRelations : List Json := config.relations ++ config.groups.flatMap relationsBy

end FlowConfig

/-- The relationships a relation declares, in either spelling. -/
def relationships (rel : PyDict String Json) : List Json :=
  match (rel.get? "type").getD .null with
  | .null =>
    match rel.get? "relationships" with
    | some (.arr (first :: more)) =>
      (first :: more).map fun value => orElse (some value) (.str "success")
    | _ => [.str "success"]
  | relType => [orElse (some relType) (.str "success")]

def declaredEdges (relations : List Json) : List Edge :=
  (dictRelations relations).flatMap fun rel =>
    (relationships rel).map fun relationship =>
      ⟨endOf rel "from" "source", endOf rel "to" "target", relationship⟩

section

variable {τ σ : Type}

def sources (tasks : PyDict String (FlowTask τ)) : List (String × TaskSource) :=
  tasks.map fun i => (i.1, i.2.source)

/-- The flow has one task for each declared one, and the declared edges. -/
structure Lossless (config : FlowConfig) (flow : Flow τ σ) : Prop where
  tasks : (sources flow.tasks).Perm config.declared
  edges : flow.edges.Perm (declaredEdges config.declaredRelations)

end

/-! ## When nothing is lost -/

/-- No `flow_ref` group has the id of something declared before it. -/
def Fresh : List String → List (String × Option GroupConfig) → Prop
  | _, [] => True
  | seen, entry :: rest =>
    (isSubflow entry → entry.1 ∉ seen) ∧ Fresh (seen ++ (declaredBy entry).map Prod.fst) rest

/-- A relation without a `type` lists one relationship at most. -/
def SingleRelationship (rel : PyDict String Json) : Prop :=
  ((rel.get? "type").getD .null).isNull →
    ∀ items, rel.get? "relationships" = some (.arr items) → items.length ≤ 1

/-- The definitions the parser keeps whole. -/
structure Plain (config : FlowConfig) : Prop where
  /-- The levels of one group have different ids, and no nested group has a `flow_ref`. -/
  groups : ∀ entry ∈ config.groups, ∀ g, entry.2 = some g → g.group.flowRef = none →
    ((declaredBy entry).map Prod.fst).Nodup ∧ g.group.inlineBelow
  fresh : Fresh (config.tasks.declared.map Prod.fst) config.groups
  relations : ∀ rel ∈ dictRelations config.declaredRelations, SingleRelationship rel

/-! ## Groups -/

namespace ProcessGroup

def Flat.declared (flat : Flat) : List (String × TaskSource) :=
  flat.tasks.map fun i => (i.1, .inline i.2)

theorem Flat.declared_keys (flat : Flat) :
    flat.declared.map Prod.fst = flat.tasks.map Prod.fst := by
  simp [Flat.declared, Function.comp_def]

mutual

theorem flatten_declared {key : String} {inherited : Vars} :
    ∀ {g : ProcessGroup}, g.flowRef = none → g.inlineBelow →
      ((g.declared key inherited).map Prod.fst).Nodup →
      (g.flatten inherited).declared = g.declared key inherited
  | mk id flowRef tasks relations vars childGroups, href, hinline, hnodup => by
    obtain rfl : flowRef = none := href
    have hstart : (⟨tasks.items.map fun i => (i.1, annotate id (PyDict.update inherited vars) i.2),
        relations⟩ : Flat).declared = tasks.items.map fun i =>
          (i.1, TaskSource.inline (annotate id (PyDict.update inherited vars) i.2)) := by
      simp [Flat.declared, Function.comp_def]
    rw [declared, ← hstart] at hnodup
    rw [flatten, declared, flattenChildren_declared hinline hnodup, hstart]

theorem flattenChildren_declared {vars : Vars} {flat : Flat} :
    ∀ {children : List (String × ProcessGroup)}, inlineChildren children →
      ((flat.declared ++ declaredChildren vars children).map Prod.fst).Nodup →
      (flattenChildren vars flat children).declared =
        flat.declared ++ declaredChildren vars children
  | [], _, _ => by rw [flattenChildren, declaredChildren, List.append_nil]
  | (key, child) :: rest, hinline, hnodup => by
    rw [inlineChildren, Bool.and_eq_true, Bool.and_eq_true, Option.isNone_iff_eq_none] at hinline
    obtain ⟨href, hbelow, hrest⟩ := hinline
    rw [declaredChildren, ← List.append_assoc] at hnodup
    have hchild : (child.flatten vars).declared = child.declared key vars := by
      refine flatten_declared href hbelow ?_
      rw [List.map_append, List.map_append] at hnodup
      exact hnodup.of_append_left.of_append_right
    have hboth : (⟨flat.tasks.update (child.flatten vars).tasks,
        flat.relations ++ (child.flatten vars).relations⟩ : Flat).declared =
          flat.declared ++ child.declared key vars := by
      have hkeys : ((flat.tasks ++ (child.flatten vars).tasks).map Prod.fst).Nodup := by
        rw [List.map_append, ← Flat.declared_keys, ← Flat.declared_keys, hchild,
          ← List.map_append]
        rw [List.map_append] at hnodup
        exact hnodup.of_append_left
      rw [Flat.declared, PyDict.update_of_disjoint hkeys, List.map_append]
      exact congrArg _ hchild
    rw [flattenChildren, flattenChildren_declared hrest (hboth ▸ hnodup), hboth, declaredChildren,
      List.append_assoc]

end

mutual

theorem flatten_relations {inherited : Vars} :
    ∀ {g : ProcessGroup}, g.flowRef = none → g.inlineBelow →
      (g.flatten inherited).relations = g.declaredRelations
  | mk id flowRef tasks relations vars childGroups, href, hinline => by
    obtain rfl : flowRef = none := href
    rw [flatten, declaredRelations, flattenChildren_relations hinline]

theorem flattenChildren_relations {vars : Vars} {flat : Flat} :
    ∀ {children : List (String × ProcessGroup)}, inlineChildren children →
      (flattenChildren vars flat children).relations =
        flat.relations ++ declaredChildRelations children
  | [], _ => by rw [flattenChildren, declaredChildRelations, List.append_nil]
  | (key, child) :: rest, hinline => by
    rw [inlineChildren, Bool.and_eq_true, Bool.and_eq_true, Option.isNone_iff_eq_none] at hinline
    obtain ⟨href, hbelow, hrest⟩ := hinline
    rw [flattenChildren, flattenChildren_relations hrest, declaredChildRelations,
      flatten_relations href hbelow, List.append_assoc]

end

mutual

theorem exists_subflow_of_not_inlineBelow {key : String} {inherited : Vars} :
    ∀ {g : ProcessGroup}, g.flowRef = none → g.inlineBelow = false →
      ∃ k, (k, TaskSource.subflow k) ∈ g.declared key inherited
  | mk id flowRef tasks relations vars childGroups, href, hnot => by
    obtain rfl : flowRef = none := href
    obtain ⟨k, hk⟩ := exists_subflow_of_not_inlineChildren hnot
    rw [declared]
    exact ⟨k, List.mem_append_right _ hk⟩

theorem exists_subflow_of_not_inlineChildren {vars : Vars} :
    ∀ {children : List (String × ProcessGroup)}, inlineChildren children = false →
      ∃ k, (k, TaskSource.subflow k) ∈ declaredChildren vars children
  | [], hnot => by simp [inlineChildren] at hnot
  | (key, child) :: rest, hnot => by
    rw [declaredChildren]
    cases href : child.flowRef with
    | some ref =>
      obtain ⟨id, flowRef, tasks, relations, vars', childGroups⟩ := child
      obtain rfl : flowRef = some ref := href
      rw [declared]
      exact ⟨key, List.mem_append_left _ (List.mem_singleton_self _)⟩
    | none =>
      rw [inlineChildren, href, Option.isNone_none, Bool.true_and, Bool.and_eq_false_iff] at hnot
      rcases hnot with hbelow | hrest
      · obtain ⟨k, hk⟩ := exists_subflow_of_not_inlineBelow href hbelow
        exact ⟨k, List.mem_append_left _ hk⟩
      · obtain ⟨k, hk⟩ := exists_subflow_of_not_inlineChildren hrest
        exact ⟨k, List.mem_append_right _ hk⟩

end

end ProcessGroup

/-! ## One task, one group -/

section

variable {τ σ : Type} {rt : Runtime τ σ} {params : Vars} {services : PyDict String Vars}
  {tasks tasks' : PyDict String (FlowTask τ)}

theorem sources_keys (tasks : PyDict String (FlowTask τ)) :
    (sources tasks).map Prod.fst = tasks.map Prod.fst := by
  simp [sources, Function.comp_def]

variable {α : Type} {entry : String × Option GroupConfig}
  {groups : List (String × Option GroupConfig)}

theorem addEntry_eq_ok {entries entries' : PyDict String α} {id : String} {entry : α}
    (h : rt.addEntry entries id entry = .ok entries') : entries' = entries.set id entry := by
  unfold Runtime.addEntry at h
  split at h
  · contradiction
  · split at h
    · contradiction
    · exact (Except.ok.inj h).symm
  · exact (Except.ok.inj h).symm

variable {β ε : Type}

variable {x : Except ε α}

variable {f : α → Except ε β} {task : FlowTask τ}

theorem bind_eq_ok {b : β}
    (h : (x >>= f) = .ok b) : ∃ a, x = .ok a ∧ f a = .ok b := by
  cases x with
  | error e => contradiction
  | ok a => exact ⟨a, rfl, h⟩

theorem bind_eq_error {e : ε}
    (h : (x >>= f) = .error e) : x = .error e ∨ ∃ a, x = .ok a ∧ f a = .error e := by
  cases x with
  | error e' =>
    have he : (Except.error e' : Except ε β) = .error e := h
    exact .inl (by rw [Except.error.inj he])
  | ok a => exact .inr ⟨a, rfl, h⟩

theorem map_eq_ok {f : α → β} {b : β} (h : x.map f = .ok b) : ∃ a, x = .ok a ∧ f a = b := by
  cases x with
  | error e => contradiction
  | ok a => exact ⟨a, rfl, Except.ok.inj h⟩

theorem buildTask_source {config : TaskConfig}
    (h : buildTask rt params services config = .ok task) : task.source = .inline config := by
  obtain ⟨_, -, h⟩ := bind_eq_ok h
  obtain ⟨_, -, h⟩ := bind_eq_ok h
  obtain ⟨_, -, h⟩ := bind_eq_ok h
  obtain ⟨_, -, h⟩ := bind_eq_ok h
  rw [← Except.ok.inj h]

theorem buildSubflow_source {groupId : String} {config : GroupConfig} {ref : FlowRef}
    (h : buildSubflow rt params groupId config ref = .ok task) :
    task.source = .subflow groupId := by
  obtain ⟨_, -, h⟩ := bind_eq_ok h
  obtain ⟨_, -, h⟩ := bind_eq_ok h
  obtain ⟨_, -, h⟩ := bind_eq_ok h
  rw [← Except.ok.inj h]

theorem addTask_eq_ok {item : String × TaskConfig}
    (h : addTask rt params services tasks item = .ok tasks') :
    item.1 ∉ tasks.map Prod.fst ∧ sources tasks' = sources tasks ++ [(item.1, .inline item.2)] := by
  unfold addTask at h
  split at h
  · contradiction
  next hnew =>
  refine ⟨hnew, ?_⟩
  split at h
  · contradiction
  next task htask =>
  rw [addEntry_eq_ok h, PyDict.set_of_not_mem task hnew, sources, List.map_append, List.map_singleton,
    buildTask_source htask]
  rfl

theorem foldlM_addTask_eq_ok {items : PyDict String TaskConfig}
    (h : items.foldlM (addTask rt params services) tasks = .ok tasks') :
    sources tasks' = sources tasks ++ (items.map fun i => (i.1, .inline i.2)) ∧
      ((tasks.map Prod.fst).Nodup → (tasks'.map Prod.fst).Nodup) := by
  induction items generalizing tasks with
  | nil =>
    obtain rfl : tasks = tasks' := Except.ok.inj h
    exact ⟨(List.append_nil _).symm, id⟩
  | cons item items ih =>
    rw [List.foldlM_cons] at h
    obtain ⟨mid, hmid, hrest⟩ := bind_eq_ok h
    obtain ⟨hnew, hsources⟩ := addTask_eq_ok hmid
    obtain ⟨hsources', hnodup'⟩ := ih hrest
    refine ⟨by rw [hsources', hsources, List.append_assoc]; rfl, fun hnodup => hnodup' ?_⟩
    rw [← sources_keys, hsources, List.map_append, sources_keys]
    exact List.nodup_append.2 ⟨hnodup, by simp, by simpa using fun a ha => ne_of_mem_of_not_mem ha hnew⟩

variable {acc acc' : PyDict String (FlowTask τ) × List Json}

theorem addGroup_cases (h : addGroup rt params services acc entry = .ok acc') :
    (entry.2 = none ∧ acc' = acc) ∨
      (isSubflow entry ∧ acc'.2 = acc.2 ∧
        ∃ task : FlowTask τ, task.source = .subflow entry.1 ∧ acc'.1 = acc.1.set entry.1 task) ∨
      ∃ g, entry.2 = some g ∧ g.group.flowRef = none ∧
        acc'.2 = acc.2 ++ (g.group.flatten []).relations ∧
        sources acc'.1 = sources acc.1 ++ (g.group.flatten []).declared ∧
        ((acc.1.map Prod.fst).Nodup → (acc'.1.map Prod.fst).Nodup) := by
  obtain ⟨key, config⟩ := entry
  cases config with
  | none => exact .inl ⟨rfl, (Except.ok.inj h).symm⟩
  | some g =>
    right
    unfold addGroup at h
    simp only at h
    split at h
    · next ref href =>
      split at h
      · contradiction
      next task htask =>
      obtain ⟨tasks', htasks, rfl⟩ := map_eq_ok h
      refine .inl ⟨by simp [isSubflow, href], rfl, task, buildSubflow_source htask, ?_⟩
      exact addEntry_eq_ok htasks
    · next href =>
      obtain ⟨tasks', htasks, rfl⟩ := map_eq_ok h
      obtain ⟨hsources, hnodup⟩ := foldlM_addTask_eq_ok htasks
      exact .inr ⟨g, rfl, href, rfl, hsources, hnodup⟩

theorem declaredBy_of_isSubflow (h : isSubflow entry) :
    declaredBy entry = [(entry.1, .subflow entry.1)] ∧ relationsBy entry = [] := by
  obtain ⟨key, config⟩ := entry
  cases config with
  | none => contradiction
  | some config =>
    obtain ⟨ref, href⟩ := Option.isSome_iff_exists.1 h
    simp only [declaredBy, relationsBy]
    cases hgroup : config.group with
    | mk id flowRef tasks relations vars childGroups =>
      rw [hgroup] at href
      obtain rfl : flowRef = some ref := href
      rw [ProcessGroup.declared, ProcessGroup.declaredRelations]
      exact ⟨rfl, rfl⟩

/-! ## All groups -/

/-- Ids stay different, and only the `flow_ref` groups make sub-flow tasks. -/
theorem foldlM_addGroup_nodup (h : groups.foldlM (addGroup rt params services) acc = .ok acc')
    (hnodup : (acc.1.map Prod.fst).Nodup) :
    (acc'.1.map Prod.fst).Nodup ∧ ∀ k, (k, .subflow k) ∈ sources acc'.1 →
      (k, .subflow k) ∈ sources acc.1 ∨ ∃ entry ∈ groups, isSubflow entry ∧ entry.1 = k := by
  induction groups generalizing acc with
  | nil =>
    obtain rfl : acc = acc' := Except.ok.inj h
    exact ⟨hnodup, fun _ hk => .inl hk⟩
  | cons entry groups ih =>
    rw [List.foldlM_cons] at h
    obtain ⟨mid, hmid, hrest⟩ := bind_eq_ok h
    have hstep : (mid.1.map Prod.fst).Nodup ∧ ∀ k, (k, .subflow k) ∈ sources mid.1 →
        (k, .subflow k) ∈ sources acc.1 ∨ (isSubflow entry ∧ entry.1 = k) := by
      rcases addGroup_cases hmid with ⟨-, rfl⟩ | ⟨hsub, -, task, hsource, htasks⟩ |
        ⟨g, -, -, -, hsources, hkeep⟩
      · exact ⟨hnodup, fun _ hk => .inl hk⟩
      · rw [htasks]
        refine ⟨PyDict.nodup_keys_set task hnodup, fun k hk => ?_⟩
        obtain ⟨⟨k', task'⟩, hmem, heq⟩ := List.mem_map.1 hk
        rcases PyDict.mem_of_mem_set hmem with hold | hnew
        · exact .inl (List.mem_map.2 ⟨_, hold, heq⟩)
        · exact .inr ⟨hsub, (congrArg Prod.fst hnew).symm.trans (congrArg Prod.fst heq)⟩
      · refine ⟨hkeep hnodup, fun k hk => ?_⟩
        rw [hsources, List.mem_append] at hk
        rcases hk with hk | hk
        · exact .inl hk
        · obtain ⟨i, -, heq⟩ := List.mem_map.1 hk
          exact absurd (congrArg Prod.snd heq) (by simp)
    obtain ⟨hnodup', hsub'⟩ := ih hrest hstep.1
    refine ⟨hnodup', fun k hk => ?_⟩
    rcases hsub' k hk with hk | ⟨entry', hmem, hsub, hkey⟩
    · rcases hstep.2 k hk with hk | ⟨hsub, hkey⟩
      · exact .inl hk
      · exact .inr ⟨entry, by simp, hsub, hkey⟩
    · exact .inr ⟨entry', by simp [hmem], hsub, hkey⟩

theorem addGroup_declared (h : addGroup rt params services acc entry = .ok acc')
    (hgroup : ∀ g, entry.2 = some g → g.group.flowRef = none →
      ((declaredBy entry).map Prod.fst).Nodup ∧ g.group.inlineBelow)
    (hnew : isSubflow entry → entry.1 ∉ acc.1.map Prod.fst) :
    sources acc'.1 = sources acc.1 ++ declaredBy entry ∧ acc'.2 = acc.2 ++ relationsBy entry := by
  rcases addGroup_cases h with ⟨hnone, rfl⟩ | ⟨hsub, hrel, task, hsource, htasks⟩ |
    ⟨g, hg, href, hrel, hsources, -⟩
  · simp [declaredBy, relationsBy, hnone]
  · obtain ⟨hdeclared, hrelations⟩ := declaredBy_of_isSubflow hsub
    rw [htasks, PyDict.set_of_not_mem task (hnew hsub), hdeclared, hrelations, hrel, sources,
      List.map_append, List.map_singleton, hsource, List.append_nil]
    exact ⟨rfl, rfl⟩
  · obtain ⟨hnodup, hinline⟩ := hgroup g hg href
    simp only [declaredBy, relationsBy, hg] at hnodup ⊢
    rw [hsources, hrel, ProcessGroup.flatten_declared href hinline hnodup,
      ProcessGroup.flatten_relations href hinline]
    exact ⟨rfl, rfl⟩

theorem foldlM_addGroup_declared (h : groups.foldlM (addGroup rt params services) acc = .ok acc')
    (hgroups : ∀ entry ∈ groups, ∀ g, entry.2 = some g → g.group.flowRef = none →
      ((declaredBy entry).map Prod.fst).Nodup ∧ g.group.inlineBelow)
    (hfresh : Fresh (acc.1.map Prod.fst) groups) :
    sources acc'.1 = sources acc.1 ++ groups.flatMap declaredBy ∧
      acc'.2 = acc.2 ++ groups.flatMap relationsBy := by
  induction groups generalizing acc with
  | nil =>
    obtain rfl : acc = acc' := Except.ok.inj h
    simp
  | cons entry groups ih =>
    rw [List.foldlM_cons] at h
    obtain ⟨mid, hmid, hrest⟩ := bind_eq_ok h
    obtain ⟨hnew, hfresh⟩ := hfresh
    obtain ⟨hsources, hrel⟩ := addGroup_declared hmid (hgroups entry (by simp)) hnew
    have hfresh' : Fresh (mid.1.map Prod.fst) groups := by
      rw [← sources_keys, hsources, List.map_append, sources_keys]
      exact hfresh
    obtain ⟨hsources', hrel'⟩ :=
      ih hrest (fun entry' hmem => hgroups entry' (List.mem_cons_of_mem _ hmem)) hfresh'
    rw [hsources', hrel', hsources, hrel, List.append_assoc, List.append_assoc]
    exact ⟨rfl, rfl⟩

theorem fresh_of_nodup {seen : List String}
    (h : (seen ++ (groups.flatMap declaredBy).map Prod.fst).Nodup) : Fresh seen groups := by
  induction groups generalizing seen with
  | nil => trivial
  | cons entry groups ih =>
    rw [List.flatMap_cons, List.map_append, ← List.append_assoc] at h
    refine ⟨fun hsub hmem => ?_, ih h⟩
    rw [(declaredBy_of_isSubflow hsub).1] at h
    have hdisjoint := (List.nodup_append.1 h.of_append_left).2.2
    exact hdisjoint entry.1 hmem entry.1 (by simp) rfl

end

/-! ## Relations -/

/-- The edge the executor builds for a relation. -/
def edgeOf (rel : PyDict String Json) : Edge :=
  ⟨endOf rel "from" "source", endOf rel "to" "target", relationType rel⟩

variable {relations : List Json}

theorem edges_normalizeRelations {τ σ : Type} {flow : Flow τ σ}
    (h : flow.relations = normalizeRelations relations) :
    flow.edges = (dictRelations relations).map edgeOf := by
  rw [Flow.edges, h, normalizeRelations, List.map_map]
  refine List.map_congr_left fun rel _ => ?_
  have hfrom : (normalizeRelation rel).get? "from" = some (endOf rel "from" "source") := by
    rw [normalizeRelation, PyDict.get?_set_of_ne _ _ (by decide),
      PyDict.get?_set_of_ne _ _ (by decide), PyDict.get?_set_self]
  have hto : (normalizeRelation rel).get? "to" = some (endOf rel "to" "target") := by
    rw [normalizeRelation, PyDict.get?_set_of_ne _ _ (by decide), PyDict.get?_set_self]
  have htype : (normalizeRelation rel).get? "type" = some (relationType rel) :=
    PyDict.get?_set_self _ _ _
  simp only [Function.comp, hfrom, hto, htype, Option.getD_some, edgeOf]

theorem relationships_eq (rel : PyDict String Json) :
    ∃ more, relationships rel = relationType rel :: more ∧
      (more = [] ↔ SingleRelationship rel) := by
  unfold relationships relationType SingleRelationship
  cases htype : (rel.get? "type").getD .null with
  | null =>
    simp only [Json.isNull, forall_const]
    split
    · next first more harr =>
      refine ⟨more.map fun value => orElse (some value) (.str "success"), ?_, ?_⟩
      · simp [harr]
      · simp [harr]
    · next hother =>
      refine ⟨[], ?_, ?_⟩
      · grind
      · simp only [true_iff]
        intro items hitems
        cases items with
        | nil => simp
        | cons first more => exact absurd hitems (hother first more)
  | _ => exact ⟨[], rfl, by simp [Json.isNull]⟩

theorem declaredEdges_of_single (h : ∀ rel ∈ dictRelations relations, SingleRelationship rel) :
    declaredEdges relations = (dictRelations relations).map edgeOf := by
  rw [declaredEdges, List.map_eq_flatMap]
  refine List.flatMap_congr fun rel hrel => ?_
  obtain ⟨more, heq, hsingle⟩ := relationships_eq rel
  rw [heq, hsingle.2 (h rel hrel)]
  rfl

theorem length_eq_one_of_flatMap {α β : Type*} {l : List α} {f : α → List β}
    (hpos : ∀ a ∈ l, 1 ≤ (f a).length) (h : (l.flatMap f).length = l.length) :
    ∀ a ∈ l, (f a).length = 1 := by
  have hle : ∀ l : List α, (∀ a ∈ l, 1 ≤ (f a).length) → l.length ≤ (l.flatMap f).length := by
    intro l hl
    induction l with
    | nil => simp
    | cons a l ih =>
      have ha := hl a (by simp)
      have hrest := ih fun b hb => hl b (List.mem_cons_of_mem _ hb)
      rw [List.flatMap_cons, List.length_append, List.length_cons]
      omega
  induction l with
  | nil => simp
  | cons a l ih =>
    have ha := hpos a (by simp)
    have hrest := hle l fun b hb => hpos b (List.mem_cons_of_mem _ hb)
    rw [List.flatMap_cons, List.length_append, List.length_cons] at h
    intro b hb
    rcases List.mem_cons.1 hb with rfl | hb
    · omega
    · exact ih (fun b hb => hpos b (List.mem_cons_of_mem _ hb)) (by omega) b hb

theorem single_of_perm (h : ((dictRelations relations).map edgeOf).Perm (declaredEdges relations)) :
    ∀ rel ∈ dictRelations relations, SingleRelationship rel := by
  intro rel hrel
  have hlength := h.length_eq
  rw [List.length_map, declaredEdges] at hlength
  have hone := length_eq_one_of_flatMap (fun rel _ => by
    obtain ⟨more, heq, -⟩ := relationships_eq rel
    simp [heq]) hlength.symm rel hrel
  obtain ⟨more, heq, hsingle⟩ := relationships_eq rel
  rw [List.length_map, heq, List.length_cons] at hone
  exact hsingle.1 (List.length_eq_zero_iff.1 (by omega))

/-! ## Flows -/

section

variable {τ σ : Type} {rt : Runtime τ σ} {config : FlowConfig} {flow : Flow τ σ}

/-- The parameters of the services, as the tasks see them. -/
def Runtime.resolvedServices (rt : Runtime τ σ) (config : FlowConfig) : PyDict String Vars :=
  config.services.map fun i => (i.1, resolveConfig rt i.2.parameters config.parameters)

theorem parse_eq_ok (h : parse rt config = .ok flow) :
    ∃ tasks acc, config.tasks.items.foldlM
        (addTask rt config.parameters (rt.resolvedServices config)) [] = .ok tasks ∧
      config.groups.foldlM (addGroup rt config.parameters (rt.resolvedServices config))
        (tasks, []) = .ok acc ∧
      flow.tasks = acc.1 ∧ flow.relations = normalizeRelations (config.relations ++ acc.2) := by
  obtain ⟨tasks, htasks, h⟩ := bind_eq_ok h
  obtain ⟨services, -, h⟩ := bind_eq_ok h
  obtain ⟨acc, hacc, h⟩ := bind_eq_ok h
  obtain rfl := Except.ok.inj h
  exact ⟨tasks, acc, htasks, hacc, rfl, rfl⟩

theorem lossless_of_plain (h : parse rt config = .ok flow) (hplain : Plain config) :
    Lossless config flow := by
  obtain ⟨tasks, acc, htasks, hacc, hflow, hrelations⟩ := parse_eq_ok h
  obtain ⟨hroot, -⟩ := foldlM_addTask_eq_ok htasks
  have hroot : sources tasks = config.tasks.declared := hroot
  have hfresh : Fresh (tasks.map Prod.fst) config.groups := by
    rw [← sources_keys, hroot]
    exact hplain.fresh
  obtain ⟨hsources, hrel⟩ := foldlM_addGroup_declared hacc hplain.groups hfresh
  have hall : config.relations ++ acc.2 = config.declaredRelations := by
    rw [hrel, List.nil_append, FlowConfig.declaredRelations]
  rw [hall] at hrelations
  constructor
  · rw [hflow, hsources, hroot, FlowConfig.declared]
  · rw [edges_normalizeRelations hrelations, declaredEdges_of_single hplain.relations]

theorem nodup_declaredIds (h : parse rt config = .ok flow)
    (htasks : (sources flow.tasks).Perm config.declared) : config.declaredIds.Nodup := by
  obtain ⟨tasks, acc, hroot, hacc, hflow, -⟩ := parse_eq_ok h
  obtain ⟨-, hnodup⟩ := foldlM_addTask_eq_ok hroot
  obtain ⟨hnodup, -⟩ := foldlM_addGroup_nodup hacc (hnodup List.nodup_nil)
  rw [FlowConfig.declaredIds, ← (htasks.map Prod.fst).nodup_iff, sources_keys, hflow]
  exact hnodup

theorem topLevel_of_subflow (h : parse rt config = .ok flow) {k : String}
    (hk : (k, .subflow k) ∈ sources flow.tasks) :
    ∃ entry ∈ config.groups, isSubflow entry ∧ entry.1 = k := by
  obtain ⟨tasks, acc, hroot, hacc, hflow, -⟩ := parse_eq_ok h
  obtain ⟨hsources, hnodup⟩ := foldlM_addTask_eq_ok hroot
  rw [hflow] at hk
  rcases (foldlM_addGroup_nodup hacc (hnodup List.nodup_nil)).2 k hk with hk | hk
  · rw [hsources] at hk
    obtain ⟨i, -, heq⟩ := List.mem_map.1 hk
    exact absurd (congrArg Prod.snd heq) (by simp)
  · exact hk

theorem plain_of_lossless (h : parse rt config = .ok flow) (hlossless : Lossless config flow) :
    Plain config := by
  have hids := nodup_declaredIds h hlossless.tasks
  rw [FlowConfig.declaredIds, FlowConfig.declared, List.map_append] at hids
  have hgroupIds : (config.groups.flatMap fun entry => (declaredBy entry).map Prod.fst).Nodup := by
    rw [← List.map_flatMap]
    exact hids.of_append_right
  obtain ⟨heach, hpairs⟩ := List.nodup_flatMap.1 hgroupIds
  have hgroups : ∀ entry ∈ config.groups, ∀ g, entry.2 = some g → g.group.flowRef = none →
      ((declaredBy entry).map Prod.fst).Nodup ∧ g.group.inlineBelow := by
    intro entry hentry g hg href
    refine ⟨heach entry hentry, ?_⟩
    by_contra hnot
    obtain ⟨k, hk⟩ := @ProcessGroup.exists_subflow_of_not_inlineBelow entry.1 [] g.group href
      (by simpa using hnot)
    have hdeclared : (k, TaskSource.subflow k) ∈ declaredBy entry := by
      rw [declaredBy, hg]
      exact hk
    -- It would be one of the tasks, so a group of the top level has the same key.
    have hmem : (k, TaskSource.subflow k) ∈ sources flow.tasks :=
      hlossless.tasks.mem_iff.2
        (List.mem_append_right _ (List.mem_flatMap.2 ⟨entry, hentry, hdeclared⟩))
    obtain ⟨entry', hentry', hsub, hkey⟩ := topLevel_of_subflow h hmem
    have hne : entry ≠ entry' := by
      rintro rfl
      simp [isSubflow, hg, href] at hsub
    have hsymm : Std.Symm (Function.onFun List.Disjoint
        fun entry : String × Option GroupConfig => (declaredBy entry).map Prod.fst) :=
      ⟨fun _ _ hdisjoint => List.Disjoint.symm hdisjoint⟩
    have hagain : k ∈ (declaredBy entry').map Prod.fst := by
      rw [(declaredBy_of_isSubflow hsub).1, hkey]
      simp
    exact hpairs.forall hentry hentry' hne (List.mem_map_of_mem hdeclared) hagain
  have hfresh : Fresh (config.tasks.declared.map Prod.fst) config.groups := fresh_of_nodup hids
  refine ⟨hgroups, hfresh, single_of_perm ?_⟩
  obtain ⟨tasks, acc, htasks, hacc, hflow, hrelations⟩ := parse_eq_ok h
  obtain ⟨hroot, -⟩ := foldlM_addTask_eq_ok htasks
  have hroot : sources tasks = config.tasks.declared := hroot
  rw [← hroot, sources_keys] at hfresh
  obtain ⟨-, hrel⟩ := foldlM_addGroup_declared hacc hgroups hfresh
  have hall : config.relations ++ acc.2 = config.declaredRelations := by
    rw [hrel, List.nil_append, FlowConfig.declaredRelations]
  rw [hall] at hrelations
  rw [← edges_normalizeRelations hrelations]
  exact hlossless.edges

end

/-! ## Ids declared twice -/

section

variable {τ σ : Type} {rt : Runtime τ σ} {config : FlowConfig}

/-- Nothing but a repeated id is wrong with a definition: its parts can be built, and its ids do not
differ in case or outer blanks only. -/
structure Buildable (rt : Runtime τ σ) (config : FlowConfig) : Prop where
  tasks : ∀ id c, (id, .inline c) ∈ config.declared →
    ∃ task, buildTask rt config.parameters (rt.resolvedServices config) c = .ok task
  services : ∃ services,
    config.services.foldlM (addService rt (rt.resolvedServices config)) [] = .ok services
  subflows : ∀ entry ∈ config.groups, ∀ g ref, entry.2 = some g → g.group.flowRef = some ref →
    ∃ task, buildSubflow rt config.parameters entry.1 g ref = .ok task
  ids : ∀ names, names ⊆ config.declaredIds → ∀ id ∈ config.declaredIds, id ∉ names →
    rt.resolveIdentifier names id = .ok none

variable {tasks : PyDict String (FlowTask τ)} {e : Error}

/-- Among buildable tasks only a repeated id is an error. -/
theorem foldlM_addTask_eq_error (hb : Buildable rt config) {items : PyDict String TaskConfig}
    (hitems : ∀ i ∈ items, (i.1, .inline i.2) ∈ config.declared)
    (hkeys : tasks.map Prod.fst ⊆ config.declaredIds)
    (h : items.foldlM (addTask rt config.parameters (rt.resolvedServices config)) tasks =
      .error e) :
    ∃ id, e = .duplicateTask id ∧
      2 ≤ (tasks.map Prod.fst ++ items.map Prod.fst).count id := by
  induction items generalizing tasks with
  | nil => contradiction
  | cons item items ih =>
    have hitem := hitems item (by simp)
    have hdeclared : item.1 ∈ config.declaredIds := List.mem_map_of_mem hitem
    rw [List.foldlM_cons] at h
    by_cases hmem : item.1 ∈ tasks.map Prod.fst
    · rw [addTask, if_pos hmem] at h
      refine ⟨item.1, (Except.error.inj h).symm, ?_⟩
      have hbefore := List.count_pos_iff.2 hmem
      rw [List.count_append, List.map_cons, List.count_cons_self]
      omega
    · obtain ⟨task, htask⟩ := hb.tasks item.1 item.2 hitem
      have hstep : addTask rt config.parameters (rt.resolvedServices config) tasks item =
          .ok (tasks ++ [(item.1, task)]) := by
        rw [addTask, if_neg hmem, htask]
        simp only [Runtime.addEntry, hb.ids _ hkeys _ hdeclared hmem, PyDict.set_of_not_mem task hmem]
      rw [hstep] at h
      have hkeys' : (tasks ++ [(item.1, task)]).map Prod.fst ⊆ config.declaredIds := by
        rw [List.map_append, List.append_subset]
        exact ⟨hkeys, by simpa using hdeclared⟩
      obtain ⟨id, he, hcount⟩ := ih (fun i hi => hitems i (List.mem_cons_of_mem _ hi)) hkeys' h
      refine ⟨id, he, ?_⟩
      rwa [List.map_append, List.append_assoc] at hcount

variable {rels : List Json}

/-- Among buildable groups of the plain kind too. -/
theorem addGroup_eq_error (hb : Buildable rt config) {entry : String × Option GroupConfig}
    (hentry : entry ∈ config.groups)
    (hgroup : ∀ g, entry.2 = some g → g.group.flowRef = none →
      ((declaredBy entry).map Prod.fst).Nodup ∧ g.group.inlineBelow)
    (hnew : isSubflow entry → entry.1 ∉ tasks.map Prod.fst)
    (hkeys : tasks.map Prod.fst ⊆ config.declaredIds)
    (h : addGroup rt config.parameters (rt.resolvedServices config) (tasks, rels) entry =
      .error e) :
    ∃ id, e = .duplicateTask id ∧
      2 ≤ (tasks.map Prod.fst ++ (declaredBy entry).map Prod.fst).count id := by
  have hdeclared : declaredBy entry ⊆ config.declared := fun i hi =>
    List.mem_append_right _ (List.mem_flatMap.2 ⟨entry, hentry, hi⟩)
  unfold addGroup at h
  split at h
  · contradiction
  next g hg =>
  split at h
  · next ref href =>
    have hsub : isSubflow entry := by simp [isSubflow, hg, href]
    obtain ⟨task, htask⟩ := hb.subflows entry hentry g ref hg href
    have hid : entry.1 ∈ config.declaredIds := by
      refine List.map_subset _ hdeclared ?_
      rw [(declaredBy_of_isSubflow hsub).1]
      simp
    rw [htask] at h
    simp only [Runtime.addEntry, hb.ids _ hkeys _ hid (hnew hsub), Except.map] at h
    contradiction
  · next href =>
    obtain ⟨hnodup, hinline⟩ := hgroup g hg href
    have hflat : (g.group.flatten []).declared = declaredBy entry := by
      simp only [declaredBy, hg] at hnodup ⊢
      exact ProcessGroup.flatten_declared href hinline hnodup
    cases hfold : (g.group.flatten []).tasks.foldlM
        (addTask rt config.parameters (rt.resolvedServices config)) tasks with
    | ok tasks' => simp [hfold, Except.map] at h
    | error e' =>
      simp only [hfold, Except.map, Except.error.injEq] at h
      subst h
      obtain ⟨id, he, hcount⟩ := foldlM_addTask_eq_error hb
        (fun i hi => hdeclared (hflat ▸ List.mem_map_of_mem hi)) hkeys hfold
      exact ⟨id, he, by rwa [← hflat, ProcessGroup.Flat.declared_keys]⟩

theorem foldlM_addGroup_eq_error (hb : Buildable rt config)
    {groups : List (String × Option GroupConfig)}
    (hgroups : ∀ entry ∈ groups, ∀ g, entry.2 = some g → g.group.flowRef = none →
      ((declaredBy entry).map Prod.fst).Nodup ∧ g.group.inlineBelow)
    (hsub : groups ⊆ config.groups) (hfresh : Fresh (tasks.map Prod.fst) groups)
    (hkeys : tasks.map Prod.fst ⊆ config.declaredIds)
    (h : groups.foldlM (addGroup rt config.parameters (rt.resolvedServices config)) (tasks, rels) =
      .error e) :
    ∃ id, e = .duplicateTask id ∧
      2 ≤ (tasks.map Prod.fst ++ (groups.flatMap declaredBy).map Prod.fst).count id := by
  induction groups generalizing tasks rels with
  | nil => contradiction
  | cons entry groups ih =>
    obtain ⟨hnew, hfresh⟩ := hfresh
    have hentry : entry ∈ config.groups := hsub (by simp)
    rw [List.foldlM_cons] at h
    rw [List.flatMap_cons, List.map_append, ← List.append_assoc]
    cases hstep : addGroup rt config.parameters (rt.resolvedServices config) (tasks, rels) entry with
    | error e' =>
      rw [hstep] at h
      obtain rfl : e' = e := Except.error.inj h
      obtain ⟨id, he, hcount⟩ :=
        addGroup_eq_error hb hentry (hgroups entry (by simp)) hnew hkeys hstep
      exact ⟨id, he, hcount.trans ((List.sublist_append_left _ _).count_le id)⟩
    | ok mid =>
      rw [hstep] at h
      obtain ⟨hsources, -⟩ := addGroup_declared hstep (hgroups entry (by simp)) hnew
      have hmid : mid.1.map Prod.fst =
          tasks.map Prod.fst ++ (declaredBy entry).map Prod.fst := by
        rw [← sources_keys, hsources, List.map_append, sources_keys]
      have hsubset : mid.1.map Prod.fst ⊆ config.declaredIds := by
        rw [hmid, List.append_subset]
        exact ⟨hkeys, List.map_subset _ fun i hi =>
          List.mem_append_right _ (List.mem_flatMap.2 ⟨entry, hentry, hi⟩)⟩
      have hrest := ih (fun entry' hmem => hgroups entry' (List.mem_cons_of_mem _ hmem))
        (fun entry' hmem => hsub (List.mem_cons_of_mem _ hmem)) (hmid ▸ hfresh) hsubset h
      rwa [hmid] at hrest

/-- A plain definition that repeats an id is refused for it. -/
theorem parse_eq_duplicateTask (hplain : Plain config) (hb : Buildable rt config)
    (hdup : ¬ config.declaredIds.Nodup) :
    ∃ id, parse rt config = .error (.duplicateTask id) ∧ 2 ≤ config.declaredIds.count id := by
  have hids : config.declaredIds = config.tasks.items.map Prod.fst ++
      (config.groups.flatMap declaredBy).map Prod.fst := by
    simp [FlowConfig.declaredIds, FlowConfig.declared, TaskDict.declared, Function.comp_def]
  cases hparse : parse rt config with
  | ok flow => exact absurd (nodup_declaredIds hparse (lossless_of_plain hparse hplain).tasks) hdup
  | error e =>
    suffices ∃ id, e = .duplicateTask id ∧ 2 ≤ config.declaredIds.count id by
      obtain ⟨id, rfl, hcount⟩ := this
      exact ⟨id, rfl, hcount⟩
    have hitems : ∀ i ∈ config.tasks.items, (i.1, .inline i.2) ∈ config.declared := fun i hi =>
      List.mem_append_left _ (List.mem_map_of_mem hi)
    rcases bind_eq_error hparse with hroot | ⟨tasks, hroot, hparse⟩
    · obtain ⟨id, he, hcount⟩ := foldlM_addTask_eq_error hb hitems (List.nil_subset _) hroot
      refine ⟨id, he, hcount.trans ?_⟩
      rw [hids]
      exact (List.sublist_append_left _ _).count_le id
    obtain ⟨hsources, -⟩ := foldlM_addTask_eq_ok hroot
    have hkeys : tasks.map Prod.fst = config.tasks.declared.map Prod.fst := by
      rw [← sources_keys, hsources]
      rfl
    rcases bind_eq_error hparse with hservices | ⟨services, -, hparse⟩
    · obtain ⟨services, hok⟩ := hb.services
      exact absurd (hok.symm.trans hservices) (by simp)
    rcases bind_eq_error hparse with hgroups | ⟨acc, -, hparse⟩
    · have hsubset : tasks.map Prod.fst ⊆ config.declaredIds := by
        rw [hkeys]
        exact List.map_subset _ (List.subset_append_left _ _)
      obtain ⟨id, he, hcount⟩ := foldlM_addGroup_eq_error hb hplain.groups (List.Subset.refl _)
        (hkeys ▸ hplain.fresh) hsubset hgroups
      refine ⟨id, he, ?_⟩
      rwa [hkeys, ← List.map_append] at hcount
    · contradiction

/-- For every definition the parser accepts: the flow has one task for each declared task and the
declared edges just when the definition is plain. A plain definition that declares an id twice is
refused with the duplicate. -/
theorem flattening_loses_nothing_iff (rt : Runtime τ σ) (config : FlowConfig) :
    (∀ flow, parse rt config = .ok flow → (Lossless config flow ↔ Plain config)) ∧
      (Plain config → ¬ config.declaredIds.Nodup →
        (∀ flow, parse rt config ≠ .ok flow) ∧
        (Buildable rt config → ∃ id, parse rt config = .error (.duplicateTask id) ∧
          2 ≤ config.declaredIds.count id)) := by
  refine ⟨fun flow h => ⟨plain_of_lossless h, lossless_of_plain h⟩, fun hplain hdup => ⟨?_, ?_⟩⟩
  · intro flow h
    exact hdup (nodup_declaredIds h (lossless_of_plain h hplain).tasks)
  · exact fun hb => parse_eq_duplicateTask hplain hb hdup

end

/-! ## Nested groups -/

/-- Every task can be made and every referenced flow is empty. -/
def sampleRuntime : Runtime Unit Unit where
  resolveExpression := fun text _ => .str text
  casefold := id
  makeTask := fun _ _ => .ok ()
  defaultInstances := fun _ => .int 1
  toInt := fun _ => .ok 1
  makeService := fun _ _ _ => .ok ()
  loadFromRef := fun _ => .ok []

def sampleTask : TaskConfig := [("type", .str "log")]

def sampleTasks (id : String) : TaskDict := ⟨[(id, sampleTask)], by simp⟩

/-- A group with the task `b`, and in it a group with the task `inner`. -/
def sampleGroup (inner : String) : ProcessGroup :=
  .mk "g" none (sampleTasks "b") [] [] [("h", .mk "h" none (sampleTasks inner) [] [] [])]

def sampleConfig (inner : String) (relationships : List Json) : FlowConfig where
  tasks := sampleTasks "a"
  groups := [("g", some { group := sampleGroup inner })]
  relations := [.obj [("source", .str "a"), ("target", .str "b"), ("relationships", .arr relationships)]]

/-- A `flow_ref` group with the id of the root task. -/
def sampleRefConfig : FlowConfig where
  tasks := sampleTasks "a"
  groups := [("a", some { group := .mk "a" (some ⟨"flows/x.json", ""⟩) (sampleTasks "x") [] [] [] })]

def sampleIds (config : FlowConfig) : Option (List String) :=
  (parse sampleRuntime config).toOption.map fun flow => flow.tasks.map Prod.fst

theorem sampleConfig_plain : Plain (sampleConfig "c" [.str "success"]) where
  groups := by
    intro entry hentry g hg _
    obtain rfl := List.mem_singleton.1 hentry
    obtain rfl := Option.some.inj hg
    exact ⟨by decide, by decide⟩
  fresh := ⟨by decide, trivial⟩
  relations := by
    intro rel hrel _ items hitems
    obtain rfl := List.mem_singleton.1 hrel
    obtain rfl : [Json.str "success"] = items := by simpa [PyDict.get?] using hitems
    decide

theorem flattening_loses_nothing_iff_sampleConfig :
    sampleIds (sampleConfig "c" [.str "success"]) = some ["a", "b", "c"] ∧
      ∃ flow, parse sampleRuntime (sampleConfig "c" [.str "success"]) = .ok flow ∧
        Lossless (sampleConfig "c" [.str "success"]) flow := by
  refine ⟨by decide +kernel, _, rfl, ?_⟩
  exact ((flattening_loses_nothing_iff sampleRuntime _).1 _ rfl).2 sampleConfig_plain

/-- A group and the group nested in it declare `b`, and one of the two tasks is gone; so is the root
task whose id a `flow_ref` group has; and of two relationships one is left. -/
theorem declarations_lost :
    ((sampleConfig "b" []).declaredIds = ["a", "b", "b"] ∧
      sampleIds (sampleConfig "b" []) = some ["a", "b"]) ∧
    (sampleRefConfig.declaredIds = ["a", "a"] ∧ sampleIds sampleRefConfig = some ["a"]) ∧
    ((declaredEdges (sampleConfig "c" [.str "success", .str "failure"]).declaredRelations).length = 2 ∧
      (parse sampleRuntime (sampleConfig "c" [.str "success", .str "failure"])).toOption.map
        (fun flow => flow.edges.length) = some 1) := by
  decide +kernel

end PawFlow.FlowDef
