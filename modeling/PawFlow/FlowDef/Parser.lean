import PawFlow.Lib.Json
import PawFlow.Lib.PyString

/-!
# Flow definitions

`FlowParser` (`engine/parser.py`) over `ProcessGroup` (`core/process_group.py`): root tasks and the
tasks of inline groups become the tasks of one flow, a group with a `flow_ref` becomes one
`executeFlow` task, and the relations of every level become the connections of the executor.

A definition arrives as the records `from_dict` builds. Expressions, the factories and the files of
referenced flows are arguments (`Runtime`).
-/

namespace PawFlow.FlowDef

open PawFlow.Lib

abbrev Vars := PyDict String Json

/-- A task as it is written in a definition. -/
abbrev TaskConfig := PyDict String Json

inductive Error
  /-- `FlowError`: `duplicate task id '…' across flow/groups`. -/
  | duplicateTask (id : String)
  /-- `FlowError`: `port_mapping.input.port_task_id` is no `inputPort` of the sub-flow. -/
  | notInputPort (groupId port path : String) (candidates : List String)
  /-- `FlowError`: `port_mapping.output` refers to non-outputPort tasks. -/
  | notOutputPort (groupId : String) (ports : List String) (path : String)
      (candidates : List String)
  /-- `ValueError` of `add_task` and `add_service`. -/
  | conflict (id existing : String)
  /-- `ValueError`: `Ambiguous identifier`. -/
  | ambiguous (id : String)
  /-- An `AttributeError`: a value that should be a dict. -/
  | notADict
  /-- What the factories and the loader raise. -/
  | outside (text : String)
deriving DecidableEq

/-- The tasks of one level: the keys of a dict are different. -/
structure TaskDict where
  items : PyDict String TaskConfig
  nodup : (items.map Prod.fst).Nodup

structure FlowRef where
  path : String
  version : String
deriving DecidableEq

/-- `ProcessGroup`. An empty `flow_ref` is none. -/
inductive ProcessGroup
  | mk (id : String) (flowRef : Option FlowRef) (tasks : TaskDict) (relations : List Json)
      (vars : Vars) (childGroups : List (String × ProcessGroup))

/-- A group of the top level, with what only a `flow_ref` group reads. -/
structure GroupConfig where
  group : ProcessGroup
  inputPort : String := ""
  outputPorts : List String := []
  portMapping : Json := .obj []
  parameterMapping : Json := .obj []
  passAttributes : Json := .bool true

structure ServiceConfig where
  serviceType : Json
  parameters : Vars

/-- What `FlowParser.parse` reads. A group that is no dict is `none`. -/
structure FlowConfig where
  tasks : TaskDict
  services : PyDict String ServiceConfig := []
  groups : List (String × Option GroupConfig) := []
  relations : List Json := []
  parameters : Vars := []

/-! ## Groups -/

namespace ProcessGroup

def flowRef : ProcessGroup → Option FlowRef
  | mk _ flowRef _ _ _ _ => flowRef

/-- `dict(task)` with its group and the variables of the group. -/
def annotate (groupId : String) (vars : Vars) (task : TaskConfig) : TaskConfig :=
  (task.set "_group_id" (.str groupId)).set "_group_variables" (.obj vars)

/-- What `flatten` returns. -/
structure Flat where
  tasks : PyDict String TaskConfig
  relations : List Json

mutual

def flatten (inherited : Vars) : ProcessGroup → Flat
  | mk id _ tasks relations vars childGroups =>
    let vars := PyDict.update inherited vars
    flattenChildren vars
      ⟨tasks.items.map fun i => (i.1, annotate id vars i.2), relations⟩ childGroups

/-- The loop of `flatten` over the nested groups. -/
def flattenChildren (vars : Vars) : Flat → List (String × ProcessGroup) → Flat
  | flat, [] => flat
  | flat, (_, child) :: rest =>
    let inner := child.flatten vars
    flattenChildren vars
      ⟨flat.tasks.update inner.tasks, flat.relations ++ inner.relations⟩ rest

end

end ProcessGroup

/-! ## Flows -/

/-- What a task of the flow was made of. -/
inductive TaskSource
  | inline (config : TaskConfig)
  | subflow (groupId : String)

structure FlowTask (τ : Type) where
  task : τ
  maxInstances : Int
  groupId : String
  source : TaskSource

structure Flow (τ σ : Type) where
  tasks : PyDict String (FlowTask τ) := []
  services : PyDict String σ := []
  relations : List (PyDict String Json) := []

/-- The code around the parser. -/
structure Runtime (τ σ : Type) where
  resolveExpression : String → Vars → Json
  casefold : String → String
  /-- `TaskFactory.get(type)(parameters)`. -/
  makeTask : Json → Vars → Except Error τ
  /-- `getattr(task, '_max_instances', 1)`. -/
  defaultInstances : τ → Json
  /-- `int(value)`. -/
  toInt : Json → Except Error Int
  /-- The service of an id, a type and its parameters. -/
  makeService : String → Json → Vars → Except Error σ
  /-- `load_from_ref`: the tasks of the referenced file. -/
  loadFromRef : FlowRef → Except Error (PyDict String TaskConfig)

/-- `value or default`. -/
def orElse (value : Option Json) (default : Json) : Json :=
  match value with
  | some v => if v.truthy then v else default
  | none => default

def dictOf : Json → Except Error Vars
  | .obj items => .ok items
  | _ => .error .notADict

section

variable {τ σ : Type} (rt : Runtime τ σ)

def Runtime.identifierKey (value : String) : String := rt.casefold (strip value)

def Runtime.resolveIdentifier (names : List String) (requested : String) :
    Except Error (Option String) :=
  let raw := strip requested
  if raw ∈ names then .ok (some raw)
  else
    match names.filter fun name => rt.identifierKey name = rt.identifierKey raw with
    | [] => .ok none
    | [name] => .ok (some name)
    | _ => .error (.ambiguous raw)

/-- `Flow.add_task` and `Flow.add_service`. -/
def Runtime.addEntry {α : Type} (entries : PyDict String α) (id : String) (entry : α) :
    Except Error (PyDict String α) :=
  match rt.resolveIdentifier (entries.map Prod.fst) id with
  | .error e => .error e
  | .ok (some existing) =>
    if existing ≠ "" ∧ existing ≠ id then .error (.conflict id existing)
    else .ok (entries.set id entry)
  | .ok none => .ok (entries.set id entry)

/-- A value with an expression in it. -/
def resolveValue (value : Json) (parameters : Vars) : Json :=
  match value with
  | .str text =>
    if occursIn "$\x7b".toList text.toList then rt.resolveExpression text parameters else value
  | _ => value

def resolveConfig (params flowParameters : Vars) : Vars :=
  params.map fun i => (i.1, resolveValue rt i.2 flowParameters)

def injectService (services : PyDict String Vars) (parameters : Vars) : Vars :=
  match parameters.get? "service" with
  | some (.str ref) =>
    match (if ref = "" then none else services.get? ref) with
    | some shared => shared.update (parameters.filter fun i => i.1 ≠ "service")
    | none => parameters
  | _ => parameters

/-- `int(raw) if raw else 1`. -/
def instances (raw : Json) : Except Error Int := if raw.truthy then rt.toInt raw else .ok 1

/-- The task `_add_task` makes of a configuration. -/
def buildTask (flowParameters : Vars) (services : PyDict String Vars) (config : TaskConfig) :
    Except Error (FlowTask τ) := do
  let parameters ← dictOf ((config.get? "parameters").getD (.obj []))
  let groupVariables ← dictOf (orElse (config.get? "_group_variables") (.obj []))
  let context := PyDict.update flowParameters groupVariables
  let parameters := injectService services (resolveConfig rt parameters context)
  let task ← rt.makeTask ((config.get? "type").getD .null) parameters
  let maxInstances ← instances rt
    (resolveValue rt ((config.get? "max_instances").getD (rt.defaultInstances task)) context)
  let groupId := match config.get? "_group_id" with
    | some (.str id) => id
    | _ => ""
  return ⟨task, maxInstances, groupId, .inline config⟩

def addTask (flowParameters : Vars) (services : PyDict String Vars)
    (tasks : PyDict String (FlowTask τ)) (item : String × TaskConfig) :
    Except Error (PyDict String (FlowTask τ)) :=
  if item.1 ∈ tasks.map Prod.fst then .error (.duplicateTask item.1)
  else
    match buildTask rt flowParameters services item.2 with
    | .error e => .error e
    | .ok task => rt.addEntry tasks item.1 task

def tasksOfType (taskType : String) (tasks : PyDict String TaskConfig) : List String :=
  (tasks.filter fun i => ((i.2.get? "type").getD .null).isStr taskType).map Prod.fst

/-- The ports of `port_mapping` are ports of the referenced flow. -/
def checkPorts (groupId : String) (config : GroupConfig) (ref : FlowRef)
    (tasks : PyDict String TaskConfig) : Except Error Unit :=
  let inputs := tasksOfType "inputPort" tasks
  let outputs := tasksOfType "outputPort" tasks
  if config.inputPort ≠ "" ∧ config.inputPort ∉ inputs then
    .error (.notInputPort groupId config.inputPort ref.path inputs)
  else
    match config.outputPorts.filter fun port => port ∉ outputs with
    | [] => .ok ()
    | bad => .error (.notOutputPort groupId bad ref.path outputs)

/-- The `executeFlow` task of a group with a `flow_ref`. -/
def buildSubflow (flowParameters : Vars) (groupId : String) (config : GroupConfig)
    (ref : FlowRef) : Except Error (FlowTask τ) := do
  let tasks ← rt.loadFromRef ref
  checkPorts groupId config ref tasks
  let parameters : Vars := [("flow_path", .str ref.path),
    ("parameter_mapping", config.parameterMapping), ("port_mapping", config.portMapping),
    ("pass_attributes", config.passAttributes)]
  let task ← rt.makeTask (.str "executeFlow") (resolveConfig rt parameters flowParameters)
  return ⟨task, 1, "", .subflow groupId⟩

/-- One group of the top level: the tasks so far and the relations of the inline groups. -/
def addGroup (flowParameters : Vars) (services : PyDict String Vars)
    (acc : PyDict String (FlowTask τ) × List Json) (entry : String × Option GroupConfig) :
    Except Error (PyDict String (FlowTask τ) × List Json) :=
  match entry.2 with
  | none => .ok acc
  | some config =>
    match config.group.flowRef with
    | some ref =>
      match buildSubflow rt flowParameters entry.1 config ref with
      | .error e => .error e
      | .ok task => (rt.addEntry acc.1 entry.1 task).map fun tasks => (tasks, acc.2)
    | none =>
      let flat := config.group.flatten []
      (flat.tasks.foldlM (addTask rt flowParameters services) acc.1).map fun tasks =>
        (tasks, acc.2 ++ flat.relations)

/-- One service of the definition. -/
def addService (resolved : PyDict String Vars) (services : PyDict String σ)
    (item : String × ServiceConfig) : Except Error (PyDict String σ) :=
  let parameters := (resolved.get? item.1).getD []
  let parameters :=
    if (parameters.get? "_service_id").isSome then parameters
    else parameters.set "_service_id" (.str item.1)
  match rt.makeService item.1 item.2.serviceType parameters with
  | .error e => .error e
  | .ok service => rt.addEntry services item.1 service

/-- `rel.get(a) or rel.get(b) or ''`. -/
def endOf (rel : PyDict String Json) (a b : String) : Json :=
  orElse (rel.get? a) (orElse (rel.get? b) (.str ""))

/-- The relationship of a relation: of several only the first. -/
def relationType (rel : PyDict String Json) : Json :=
  match (rel.get? "type").getD .null with
  | .null =>
    match rel.get? "relationships" with
    | some (.arr (first :: _)) => orElse (some first) (.str "success")
    | _ => .str "success"
  | relType => orElse (some relType) (.str "success")

/-- One relation, in the form the executor reads. -/
def normalizeRelation (rel : PyDict String Json) : PyDict String Json :=
  ((rel.set "from" (endOf rel "from" "source")).set "to" (endOf rel "to" "target")).set "type"
    (relationType rel)

def dictRelations (relations : List Json) : List (PyDict String Json) :=
  relations.filterMap fun
    | .obj rel => some rel
    | _ => none

def normalizeRelations (relations : List Json) : List (PyDict String Json) :=
  (dictRelations relations).map normalizeRelation

def parse (config : FlowConfig) : Except Error (Flow τ σ) := do
  let resolved := config.services.map fun i =>
    (i.1, resolveConfig rt i.2.parameters config.parameters)
  let tasks ← config.tasks.items.foldlM (addTask rt config.parameters resolved) []
  let services ← config.services.foldlM (addService rt resolved) []
  let (tasks, inlineRelations) ←
    config.groups.foldlM (addGroup rt config.parameters resolved) (tasks, [])
  return ⟨tasks, services, normalizeRelations (config.relations ++ inlineRelations)⟩

end

/-- One connection of the executor. -/
structure Edge where
  source : Json
  target : Json
  relationship : Json

/-- `build_from_flow`: one connection for each relation, under its `type`. -/
def Flow.edges {τ σ : Type} (flow : Flow τ σ) : List Edge :=
  flow.relations.map fun rel =>
    ⟨(rel.get? "from").getD .null, (rel.get? "to").getD .null,
      (rel.get? "type").getD (.str "success")⟩

end PawFlow.FlowDef
