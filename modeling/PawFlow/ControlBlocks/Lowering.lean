import PawFlow.Lib.Json
import PawFlow.Lib.PyString
import PawFlow.ParallelJoin.Merge

/-!
# Control blocks and what they are lowered to

The blocks if, switch, try_catch and repeat_n of `core/declarative_flow/macros/control.py`, the flows
that `apply_operation` of `core/declarative_flow/operations.py` makes of them, and the run of such a
flow: `InputPortTask`, `OutputPortTask`, `RouteOnAttributeTask`, and `_commit` and `_rollback` of the
executor with unlimited queues. A processor, and a task of a body, may do anything with a FlowFile.
-/

namespace PawFlow.ControlBlocks

open PawFlow.Lib PawFlow.Core PawFlow.ParallelJoin

/-! ## Conditions -/

structure Condition where
  attributeName : String := ""
  operator : String := "equals"
  value : String := ""
deriving DecidableEq

/-- `bool(re.match(pattern, text))` and `float(a) < float(b)`, false where they raise. -/
structure Tests where
  reMatch : String → String → Bool
  lessThan : String → String → Bool

/-- `_evaluate_condition`. -/
def Condition.holds (E : Tests) (c : Condition) (f : FlowFile) : Bool :=
  let value := f.getAttribute c.attributeName
  if c.operator = "is_empty" then value = none || value = some ""
  else if c.operator = "is_not_empty" then value ≠ none && value ≠ some ""
  else match value with
  | none => false
  | some text =>
    if c.operator = "equals" then text = c.value
    else if c.operator = "not_equals" then text ≠ c.value
    else if c.operator = "contains" then occursIn c.value.toList text.toList
    else if c.operator = "matches_regex" then E.reMatch c.value text
    else if c.operator = "greater_than" then E.lessThan c.value text
    else if c.operator = "less_than" then E.lessThan text c.value
    else false

def chosen (E : Tests) (routes : PyDict String Condition) (default : String) (f : FlowFile) :
    String :=
  ((routes.find? fun i => i.2.holds E f).map Prod.fst).getD default

/-- `RouteOnAttributeTask.execute` with the strategy `route_to_matched`. -/
def routed (E : Tests) (routes : PyDict String Condition) (default : String) (f : FlowFile) :
    FlowFile :=
  let name := chosen E routes default f
  (f.setAttribute "route" name).setAttribute "route.relationship" name

/-! ## Lowering -/

structure Relation where
  source : String
  target : String
  type : String := "success"
deriving DecidableEq

/-- A body as `_single_entry_body` accepts it. -/
structure Body where
  tasks : List String
  relations : List Relation := []
  entry : String
  exit : String
  entry_mem : entry ∈ tasks := by decide
  exit_mem : exit ∈ tasks := by decide
  closed : ∀ r ∈ relations, r.source ∈ tasks ∧ r.target ∈ tasks := by decide

inductive Task
  | inputPort (name : String)
  | outputPort (name : String)
  | routeOnAttribute (routes : PyDict String Condition) (default : String)
  /-- A processor, or a task of a body. -/
  | work
deriving DecidableEq

structure Group where
  tasks : PyDict String Task
  relations : List Relation

def portId (block direction name : String) : String := block ++ "." ++ direction ++ "." ++ name

abbrev entryId (block : String) : String := portId block "in" "input"

abbrev outputId (block name : String) : String := portId block "out" name

def routeId (block : String) : String := block ++ ".route"

def lowerRoute (block : String) (routes : PyDict String Condition) (default : String) : Group :=
  let names := routes.map Prod.fst ++ [default]
  { tasks := (entryId block, .inputPort "input") ::
      (routeId block, .routeOnAttribute routes default) ::
      names.map fun name => (outputId block name, .outputPort name)
    relations := ⟨entryId block, routeId block, "success"⟩ ::
      names.map fun name => ⟨routeId block, outputId block name, name⟩ }

/-- The tasks and relations of a body under other ids. -/
def Body.tasksAs (body : Body) (id : String → String) : PyDict String Task :=
  body.tasks.map fun t => (id t, .work)

def Body.relationsAs (body : Body) (id : String → String) : List Relation :=
  body.relations.map fun r => ⟨id r.source, id r.target, r.type⟩

def bodyId (block role task : String) : String := block ++ "." ++ role ++ "." ++ task

def lowerTryCatch (block : String) (attempt handler : Body) : Group where
  tasks := (entryId block, .inputPort "input") ::
    attempt.tasksAs (bodyId block "try") ++ handler.tasksAs (bodyId block "catch") ++
      [(outputId block "success", .outputPort "success"),
        (outputId block "caught", .outputPort "caught"),
        (outputId block "failure", .outputPort "failure")]
  relations :=
    attempt.relationsAs (bodyId block "try") ++ handler.relationsAs (bodyId block "catch") ++
      [⟨entryId block, bodyId block "try" attempt.entry, "success"⟩,
        ⟨bodyId block "try" attempt.exit, outputId block "success", "success"⟩] ++
      attempt.tasks.map (fun t =>
        ⟨bodyId block "try" t, bodyId block "catch" handler.entry, "failure"⟩) ++
      [⟨bodyId block "catch" handler.exit, outputId block "caught", "success"⟩] ++
      handler.tasks.map fun t => ⟨bodyId block "catch" t, outputId block "failure", "failure"⟩

def iterationId (block : String) (i : Nat) (task : String) : String :=
  bodyId block ("iteration_" ++ toString i) task

/-- The task an iteration follows on: the input port, or the exit of the iteration before. -/
def previousId (block : String) (body : Body) (i : Nat) : String :=
  if i = 0 then entryId block else iterationId block i body.exit

def lowerRepeatN (block : String) (times : Nat) (body : Body) : Group where
  tasks := (entryId block, .inputPort "input") ::
    (List.range times).flatMap (fun i => body.tasksAs (iterationId block (i + 1))) ++
      [(outputId block "success", .outputPort "success")]
  relations :=
    (List.range times).flatMap (fun i =>
      ⟨previousId block body i, iterationId block (i + 1) body.entry, "success"⟩ ::
        body.relationsAs (iterationId block (i + 1))) ++
      [⟨previousId block body times, outputId block "success", "success"⟩]

/-- The configurations that the lowerers accept. -/
inductive Control
  | ifElse (condition : Condition)
  | switch (cases : PyDict String Condition) (default : String)
      (distinct : (cases.map Prod.fst ++ [default]).Nodup)
      (named : "" ∉ cases.map Prod.fst ++ [default])
  | tryCatch (attempt handler : Body)
      (noFailure : ∀ r ∈ attempt.relations ++ handler.relations, r.type ≠ "failure")
  | repeatN (times : Nat) (body : Body) (bounds : 1 ≤ times ∧ times ≤ 8)

/-- `lower_control_block`. -/
def lower (block : String) : Control → Group
  | .ifElse condition => lowerRoute block [("true", condition)] "false"
  | .switch cases default .. => lowerRoute block cases default
  | .tryCatch attempt handler _ => lowerTryCatch block attempt handler
  | .repeatN times body _ => lowerRepeatN block times body

def Control.outputs : Control → List String
  | .ifElse _ => ["true", "false"]
  | .switch cases default .. => cases.map Prod.fst ++ [default]
  | .tryCatch .. => ["success", "caught", "failure"]
  | .repeatN .. => ["success"]

/-! ## Flows -/

structure Flow where
  processors : List String := []
  blocks : List (String × Control) := []
  /-- The relations of the root. -/
  relations : List Relation := []

namespace Flow

variable (w : Flow)

def tasks : PyDict String Task :=
  w.processors.map (fun id => (id, .work)) ++ w.blocks.flatMap fun b => (lower b.1 b.2).tasks

def taskIds : List String := w.tasks.map Prod.fst

def taskAt (id : String) : Task := (w.tasks.get? id).getD .work

def allRelations : List Relation :=
  w.relations ++ w.blocks.flatMap fun b => (lower b.1 b.2).relations

/-- `get_outgoing`: targets and relationships. -/
def outgoing (id : String) : List (String × String) :=
  (w.allRelations.filter fun r => r.source = id).map fun r => (r.target, r.type)

def endpoint (block direction name : String) : Option String :=
  if block ∈ w.processors then some block
  else match w.blocks.find? fun b => b.1 = block with
  | none => none
  | some b =>
    if name ∈ (if direction = "out" then b.2.outputs else ["input"]) then
      some (portId block direction name)
    else none

end Flow

inductive Operation
  | addProcessor (id : String)
  | addControlBlock (id : String) (c : Control)
  | connectBlocks (source output target input : String)
  | disconnectBlocks (k : Nat)
  | removeBlock (id : String)

/-- `apply_operation`; `none` when it raises. Connections that close a cycle, which it refuses, are
allowed here. -/
def Flow.apply (w : Flow) : Operation → Option Flow
  | .addProcessor id =>
    if id ∈ w.processors then none else some { w with processors := w.processors ++ [id] }
  | .addControlBlock id c =>
    if id ∈ w.processors ∨ id ∈ w.blocks.map Prod.fst then none
    else if ((lower id c).tasks.map Prod.fst).any fun t => t ∈ w.taskIds then none
    else some { w with blocks := w.blocks ++ [(id, c)] }
  | .connectBlocks source output target input =>
    match w.endpoint source "out" output, w.endpoint target "in" input with
    | some s, some t => some { w with relations := w.relations ++ [⟨s, t, output⟩] }
    | _, _ => none
  | .disconnectBlocks k =>
    if k < w.relations.length then some { w with relations := w.relations.eraseIdx k } else none
  | .removeBlock id =>
    let without (removed : List String) (w : Flow) : Flow := { w with
      relations := w.relations.filter fun r => r.source ∉ removed ∧ r.target ∉ removed }
    if id ∈ w.processors then
      some (without [id] { w with processors := w.processors.filter fun p => p ≠ id })
    else match w.blocks.find? fun b => b.1 = id with
    | none => none
    | some b =>
      some (without (id :: (lower b.1 b.2).tasks.map Prod.fst)
        { w with blocks := w.blocks.filter fun b => b.1 ≠ id })

/-! ## Runs -/

/-- A FlowFile on its way to a task; `visit` numbers the times a FlowFile entered a block. -/
structure Token where
  task : String
  file : FlowFile
  visit : Option Nat := none
deriving DecidableEq

/-- What happened on a visit, for the record. -/
inductive Event
  | entered (visit : Nat) (entry : String) (f : FlowFile)
  | raised (visit : Nat) (task : String)
  | moved (visit : Nat) (source target : String)
  | left (visit : Nat) (output : String)
  /-- The executor discarded the FlowFile of a task that raised. -/
  | discarded (visit : Nat)
deriving DecidableEq

structure State where
  tokens : List Token := []
  count : Nat := 0
  /-- Newest first. -/
  log : List Event := []

/-- What a processor or a task of a body does: the results it returns, or the FlowFile it leaves when
all its attempts raised. -/
inductive Outcome
  | returned (results : List FlowFile)
  | raised (f : FlowFile) (message code : String)

inductive Act
  /-- A FlowFile comes from outside. -/
  | inject (target : String) (f : FlowFile)
  /-- A task executes; `uuids` and `clones` are what `uuid4` and the clock answer. -/
  | fire (k : Nat) (outcome : Outcome) (uuids : Nat → String) (clones : Nat → Nat → String × Time)

def Task.execute (E : Tests) (outcome : Outcome) (f : FlowFile) : Task → Outcome
  | .inputPort name | .outputPort name => .returned [port name f]
  | .routeOnAttribute routes default => .returned [routed E routes default f]
  | .work => outcome

namespace State

def record (s : State) (ev : Event) : State := { s with log := ev :: s.log }

/-- A FlowFile is sent along a relation. -/
def deliver (w : Flow) (visit : Option Nat) (source : String) (s : State)
    (sent : String × FlowFile) : State :=
  let s := match visit with
    | some v => s.record (.moved v source sent.1)
    | none => s
  match w.taskAt sent.1, visit with
  | .inputPort _, _ =>
    { s.record (.entered s.count sent.1 sent.2) with
      tokens := s.tokens ++ [⟨sent.1, sent.2, some s.count⟩], count := s.count + 1 }
  | .outputPort name, some v =>
    { s.record (.left v name) with tokens := s.tokens ++ [⟨sent.1, sent.2, none⟩] }
  | _, _ => { s with tokens := s.tokens ++ [⟨sent.1, sent.2, visit⟩] }

def commit (w : Flow) (s : State) (t : Token) (results : List FlowFile) (uuids : Nat → String)
    (clones : Nat → Nat → String × Time) : State :=
  let sent := results.zipIdx.flatMap fun r =>
    commitResult (w.outgoing t.task) r.1 (uuids r.2) (clones r.2)
  sent.foldl (deliver w t.visit t.task) s

def failed (f : FlowFile) (task message code : String) : FlowFile :=
  let f := (f.setAttribute "error.message" message).setAttribute "error.task" task
  if code = "" then f else f.setAttribute "error.code" code

/-- The answer to the client of a failed HTTP request. -/
def responded (f : FlowFile) (message : String) : FlowFile :=
  let answer := "\x7b\"error\": \"" ++ String.ofList (Json.escapeAscii message) ++ "\"\x7d"
  { (f.setAttribute "http.response.status" "500").setAttribute
      "http.response.header.Content-Type" "application/json" with content := answer.toUTF8.toList }

def rollback (w : Flow) (s : State) (t : Token) (f : FlowFile) (message code : String)
    (clones : Nat → String × Time) : State :=
  let s := match t.visit with
    | some v => s.record (.raised v t.task)
    | none => s
  let failures := (w.outgoing t.task).filter fun c => c.2 = "failure"
  if failures ≠ [] then
    let f := failed f t.task message code
    (failures.zipIdx.map fun c =>
      (c.1.1, if c.2 = 0 then f else f.clone (clones c.2).1 (clones c.2).2)).foldl
        (deliver w t.visit t.task) s
  else
    match (w.outgoing t.task).find? (fun c => c.2 = "success" ∧ f.attr "http.request.id" ≠ "") with
    | some c => deliver w t.visit t.task s (c.1, responded f message)
    | none =>
      match t.visit with
      | some v => s.record (.discarded v)
      | none => s

end State

def step (E : Tests) (w : Flow) (s : State) : Act → Option State
  | .inject target f =>
    if target ∈ w.processors ∨ target ∈ w.blocks.map (fun b => entryId b.1) then
      some (s.deliver w none "" (target, f))
    else none
  | .fire k outcome uuids clones => s.tokens[k]?.map fun t =>
    let s := { s with tokens := s.tokens.eraseIdx k }
    match (w.taskAt t.task).execute E outcome t.file with
    | .returned results => s.commit w t results uuids clones
    | .raised f message code => s.rollback w t f message code (clones 0)

/-! ## What the blocks promise -/

def Event.visit : Event → Nat
  | .entered v _ _ | .raised v _ | .moved v _ _ | .left v _ | .discarded v => v

def Event.raises (tasks : List String) : Event → Bool
  | .raised _ task => task ∈ tasks
  | _ => false

/-- A FlowFile was sent along one of these relations. -/
def Event.follows (links : List (String × String)) : Event → Bool
  | .moved _ source target => (source, target) ∈ links
  | _ => false

namespace State

/-- What happened on a visit. -/
def eventsOf (s : State) (v : Nat) : List Event := s.log.filter fun ev => ev.visit = v

/-- The FlowFiles of a visit that are in the block. -/
def tokensOf (s : State) (v : Nat) : List Token := s.tokens.filter fun t => t.visit = some v

end State

/-- The route that if and switch prescribe for a FlowFile. -/
def Control.choice (E : Tests) (f : FlowFile) : Control → String
  | .ifElse condition => if condition.holds E f then "true" else "false"
  | .switch cases default .. => chosen E cases default f
  | .tryCatch .. | .repeatN .. => ""

/-- The relations that end a run of the body of repeat_n. -/
def bodyEnds (block : String) (times : Nat) (body : Body) : List (String × String) :=
  (List.range times).map fun i => (iterationId block (i + 1) body.exit,
    if i + 1 = times then outputId block "success" else iterationId block (i + 2) body.entry)

/-- The output port a block prescribes for a FlowFile that entered as `f`, given what happened on the
visit. -/
def Prescribed (E : Tests) (block : String) (f : FlowFile) (events : List Event) (output : String) :
    Control → Prop
  | c@(.ifElse _) | c@(.switch ..) => output = c.choice E f
  | .tryCatch attempt handler _ =>
    let tried := events.any (Event.raises (attempt.tasks.map (bodyId block "try")))
    let caught := events.any (Event.raises (handler.tasks.map (bodyId block "catch")))
    (output = "success" ↔ tried = false) ∧ (output = "caught" ↔ tried = true ∧ caught = false) ∧
      (output = "failure" ↔ tried = true ∧ caught = true)
  | .repeatN times body _ =>
    output = "success" ∧ events.countP (Event.follows (bodyEnds block times body)) = times

def Control.isRepeat : Control → Bool
  | .repeatN .. => true
  | _ => false

/-- Each visit of a FlowFile is of one block, is still going on or left the block once, by the
prescribed port. Only a repeat_n loses a FlowFile, by a task of its body that raised. -/
def Kept (E : Tests) (w : Flow) (s : State) : Prop :=
  ∀ v < s.count, ∃ b ∈ w.blocks, ∃ f,
    (s.eventsOf v).filter (fun ev => ev matches .entered ..) = [.entered v (entryId b.1) f] ∧
    (s.tokensOf v).length + (s.eventsOf v).countP (fun ev => ev matches .left ..) +
      (s.eventsOf v).countP (fun ev => ev matches .discarded _) = 1 ∧
    (∀ output, .left v output ∈ s.eventsOf v → Prescribed E b.1 f (s.eventsOf v) output b.2) ∧
    (.discarded v ∈ s.eventsOf v → b.2.isRepeat = true)

/-- Inside a block a FlowFile stays one FlowFile: a task of a body that returns hands on one, along
one relation, in a try_catch not along its failure relation, and one that raises has one failure
relation, or none and no HTTP client. And the input port does not change the route of the FlowFile. -/
def InLine (E : Tests) (w : Flow) (s : State) : Act → Prop
  | .inject _ _ => True
  | .fire k outcome _ _ => ∀ t ∈ s.tokens[k]?, t.visit ≠ none →
      match w.taskAt t.task with
      | .inputPort name => ∀ b ∈ w.blocks, t.task = entryId b.1 →
          b.2.choice E (port name t.file) = b.2.choice E t.file
      | .work =>
        match outcome with
        | .returned results => ∃ r c, results = [r] ∧ matching (w.outgoing t.task) r = [c] ∧
            (c.2 = "failure" → ∀ b ∈ w.blocks, t.task ∈ (lower b.1 b.2).tasks.map Prod.fst →
              b.2.isRepeat = true)
        | .raised f _ _ =>
          let failures := (w.outgoing t.task).filter fun c => c.2 = "failure"
          failures.length ≤ 1 ∧ (failures = [] → f.attr "http.request.id" = "")
      | _ => True

instance decidableHandsOn (out : List (String × String)) (results : List FlowFile)
    (P : String × String → Prop) [DecidablePred P] :
    Decidable (∃ r c, results = [r] ∧ matching out r = [c] ∧ P c) :=
  match results with
  | [r] =>
    match h : matching out r with
    | [c] => decidable_of_iff (P c) ⟨fun hp => ⟨r, c, rfl, h, hp⟩, fun ⟨r', c', hr, hm, hp⟩ => by
      obtain rfl := (List.cons.inj hr).1
      obtain rfl := (List.cons.inj (h.symm.trans hm)).1
      exact hp⟩
    | [] => .isFalse fun ⟨r', c', hr, hm, _⟩ => by
      obtain rfl := (List.cons.inj hr).1
      cases h.symm.trans hm
    | _ :: _ :: _ => .isFalse fun ⟨r', c', hr, hm, _⟩ => by
      obtain rfl := (List.cons.inj hr).1
      cases h.symm.trans hm
  | [] => .isFalse fun ⟨_, _, hr, _⟩ => by cases hr
  | _ :: _ :: _ => .isFalse fun ⟨_, _, hr, _⟩ => by cases hr

instance decidableInLine (E : Tests) (w : Flow) (s : State) (a : Act) :
    Decidable (InLine E w s a) := by
  cases a with
  | inject target f => exact .isTrue trivial
  | fire k outcome uuids clones =>
    refine @Option.decidableForallMem _ _ (fun t => @instDecidableForall _ _ inferInstance ?_) _
    cases w.taskAt t.task with
    | inputPort name => exact inferInstanceAs (Decidable (∀ b ∈ w.blocks, _ → _))
    | work =>
      cases outcome with
      | returned results =>
        exact inferInstanceAs (Decidable (∃ r c, results = [r] ∧
          matching (w.outgoing t.task) r = [c] ∧ _))
      | raised f message code => exact inferInstanceAs (Decidable (_ ∧ _))
    | outputPort | routeOnAttribute => exact .isTrue trivial

end PawFlow.ControlBlocks
