import PawFlow.Lib.Json
import PawFlow.Lib.PyString
import PawFlow.Lib.Runs
import PawFlow.Lib.Table
import PawFlow.Lib.Transaction

/-!
# The flow run store

The tables and operations of `core/flow_run_store.py`. Every operation is a block over
one connection: it reads and writes the two tables as it goes, and `closing` commits the
result or rolls everything back when the block raises.

A `*_json` column holds the value its text decodes to. `_json` sorts keys, so the text is
determined by the value; where the source compares texts the model compares `canonical`
texts, and where it compares decoded values the model uses `pyEq`. Clock readings, fresh
uuids and the outcome of the `before_live_write` hook are arguments of the call.
-/

namespace PawFlow.FlowRun

open PawFlow.Lib

/-- Clock readings, in microseconds. -/
abbrev Time := Int

inductive FlowRunStatus
  | created | starting | running | waiting | cancelling | committing
  | completed | failed | cancelled | timedOut | forceStopped
deriving DecidableEq

namespace FlowRunStatus

/-- The text stored in the `status` column. -/
def text : FlowRunStatus → String
  | created => "created"
  | starting => "starting"
  | running => "running"
  | waiting => "waiting"
  | cancelling => "cancelling"
  | committing => "committing"
  | completed => "completed"
  | failed => "failed"
  | cancelled => "cancelled"
  | timedOut => "timed_out"
  | forceStopped => "force_stopped"

/-- `FLOW_RUN_TERMINALS`. -/
def terminals : List FlowRunStatus := [completed, failed, cancelled, timedOut, forceStopped]

/-- `status in FLOW_RUN_TERMINALS`. -/
def isTerminal (s : FlowRunStatus) : Bool := s ∈ terminals

def transitions : FlowRunStatus → List FlowRunStatus
  | created => [starting, cancelling, failed, timedOut, forceStopped]
  | starting => [running, cancelling, failed, timedOut, forceStopped]
  | running => [waiting, committing, cancelling, failed, timedOut, forceStopped]
  | waiting => [running, committing, cancelling, failed, timedOut, forceStopped]
  | cancelling => [cancelled, forceStopped]
  | committing => [completed]
  | _ => []

end FlowRunStatus

open FlowRunStatus

inductive Error
  | valueError (message : String)
  | typeError (message : String)
  | keyError (message : String)
  /-- A `UNIQUE` or `PRIMARY KEY` constraint failed. -/
  | integrityError
  /-- Raised by the `before_live_write` hook. -/
  | liveWrite (message : String)
deriving DecidableEq

/-- `ResourceRef`, as `from_dict` returns it. -/
structure ResourceRef where
  resourceType : String
  name : String
  scope : String
  ownerId : Option String
  packageId : Option String
  packageVersion : Option String
  version : Option String
  contentDigest : String
  sourceId : String
deriving DecidableEq

/-- A row of `flow_runs`. -/
structure Run where
  runId : String
  userId : String
  conversationId : String
  generation : Int
  flowRef : ResourceRef
  deploymentInstanceId : String
  proposalId : Option String
  parentInvocationJson : Option Json
  authorizationRefJson : Json
  executionAuthorityJson : Option Json
  inputJson : Json
  parametersJson : Json
  replayOf : Option String := none
  status : FlowRunStatus
  terminalJson : Option Json := none
  terminalEventId : Option String := none
  /-- The value whose `str` the column holds. -/
  error : Option Json := none
  recoveryCount : Nat := 0
  createdAt : Time
  updatedAt : Time
  terminalAt : Option Time := none
  importMetadataJson : Option Json := none
  checkpointJson : Option Json := none

/-- The event a terminal run publishes; `type` is always `flow_run_terminal`. -/
structure Event where
  eventId : String
  runId : String
  status : FlowRunStatus
  terminal : Option Json
  /-- Absent from the event `stage_terminal` writes. -/
  error : Option String
  createdAt : Time

inductive OutboxState
  | pending | delivered
deriving DecidableEq

/-- A row of `flow_run_outbox`. -/
structure OutboxRow where
  eventId : String
  runId : String
  eventJson : Event
  state : OutboxState := .pending
  attempts : Nat := 0
  createdAt : Time
  deliveredAt : Option Time := none

structure Store where
  runs : Table String Run Run.runId := .empty
  outbox : Table String OutboxRow OutboxRow.eventId := .empty

/-- What one call reads from its surroundings. -/
structure Env where
  now : Time
  /-- `uuid.uuid4().hex`. -/
  uuid : String
  /-- A second one, for the deployment instance. -/
  instanceUuid : String := ""
  beforeLiveWrite : Except Error Unit := .ok ()

def required (value field : String) : Except Error String :=
  if strip value = "" then .error (.valueError (field ++ " is required")) else .ok (strip value)

/-- Python's truth of an optional text column. -/
def truthy (value : Option String) : Bool := value.any fun t => t ≠ ""

namespace Store

/-! ## Statements -/

/-- `SELECT COALESCE(MAX(generation), 0) … ` plus one. -/
def nextGeneration (s : Store) (conversationId : String) (flowRef : ResourceRef) : Int :=
  (s.runs.rows.filter fun r => r.conversationId = conversationId ∧ r.flowRef = flowRef).foldl
    (fun m r => max m r.generation) 0 + 1

/-- `INSERT INTO flow_runs`; `run_id` and `deployment_instance_id` are unique. -/
def insertRun (s : Store) (r : Run) : Except Error Unit × Store :=
  if s.runs.rows.any fun x => x.deploymentInstanceId = r.deploymentInstanceId then
    (.error .integrityError, s)
  else
    match s.runs.insert? r with
    | none => (.error .integrityError, s)
    | some runs => (.ok (), { s with runs })

/-- `INSERT INTO flow_run_outbox`; `event_id` and `run_id` are unique. -/
def insertEvent (s : Store) (o : OutboxRow) : Except Error Unit × Store :=
  if s.outbox.rows.any fun x => x.runId = o.runId then (.error .integrityError, s)
  else
    match s.outbox.insert? o with
    | none => (.error .integrityError, s)
    | some outbox => (.ok (), { s with outbox })

/-- `UPDATE flow_runs SET … WHERE run_id = ?`. -/
def updateRun (s : Store) (runId : String) (f : Run → Run)
    (hf : ∀ r, (f r).runId = r.runId) : Store :=
  { s with runs := s.runs.update (fun r => r.runId = runId) f hf }

/-- `return self.get(run_id)` after the transaction. -/
def thenGet (runId : String) (x : Except Error Unit × Store) : Except Error (Option Run) × Store :=
  (x.1.map fun _ => x.2.runs.get? runId, x.2)

@[simp] theorem thenGet_snd (runId : String) (x : Except Error Unit × Store) :
    (thenGet runId x).2 = x.2 := rfl

/-! ## Creation and import -/

structure CreateArgs where
  userId : String
  conversationId : String
  flowRef : ResourceRef
  /-- The parsed contracts, as `to_dict` writes them. -/
  authorization : Json
  executionAuthority : Json
  inputSnapshot : Json
  parameters : Json
  proposalId : String := ""
  parentInvocation : Option Json := none
  replayOf : String := ""
  runId : String := ""
  instanceId : String := ""

/-- `value or None` of a text. -/
def orNone (value : String) : Option String := if value = "" then none else some value

/-- `run_id or f"fr_{uuid}"`. -/
def createdId (a : CreateArgs) (env : Env) : String :=
  if a.runId = "" then "fr_" ++ env.uuid else a.runId

/-- The row `create` inserts. -/
def createRow (s : Store) (a : CreateArgs) (userId conversationId : String) (env : Env) : Run where
  runId := createdId a env
  userId := userId
  conversationId := conversationId
  generation := s.nextGeneration conversationId a.flowRef
  flowRef := a.flowRef
  deploymentInstanceId :=
    if a.instanceId = "" then "flowrun__" ++ env.instanceUuid else a.instanceId
  proposalId := orNone a.proposalId
  parentInvocationJson := a.parentInvocation.filter Json.truthy
  authorizationRefJson := a.authorization
  executionAuthorityJson := some a.executionAuthority
  inputJson := a.inputSnapshot
  parametersJson := a.parameters
  replayOf := orNone a.replayOf
  status := .created
  createdAt := env.now
  updatedAt := env.now

def create (a : CreateArgs) (env : Env) (s : Store) : Except Error (Option Run) × Store :=
  if a.flowRef.resourceType ≠ "flow" then
    (.error (.valueError "flow_ref must identify an exact flow"), s)
  else if !a.inputSnapshot.isObj || !a.parameters.isObj then
    (.error (.typeError "input_snapshot and parameters must be objects"), s)
  else
    match required a.userId "user_id", required a.conversationId "conversation_id",
        env.beforeLiveWrite with
    | .ok userId, .ok conversationId, .ok _ =>
      thenGet (createdId a env)
        (closing (fun s => s.insertRun (s.createRow a userId conversationId env)) s)
    | .error e, _, _ => (.error e, s)
    | _, .error e, _ => (.error e, s)
    | _, _, .error e => (.error e, s)

/-- The arguments the three imports share. -/
structure ImportArgs where
  runId : String
  userId : String
  conversationId : String
  flowRef : ResourceRef
  proposalId : String
  importMetadata : Json
  createdAt : Time

/-- What an import compares with a row that is already there: every expected key. -/
def ImportArgs.agrees (a : ImportArgs) (row : Run) : Bool :=
  row.runId = a.runId && row.userId = a.userId && row.conversationId = a.conversationId &&
    row.flowRef = a.flowRef && row.proposalId = some a.proposalId &&
    row.importMetadataJson.any (Json.pyEq · a.importMetadata) && row.createdAt = a.createdAt

/-- The four required texts of an import, stripped. -/
def ImportArgs.normalize (a : ImportArgs) : Except Error ImportArgs :=
  (required a.runId "run_id").bind fun runId =>
  (required a.userId "user_id").bind fun userId =>
  (required a.conversationId "conversation_id").bind fun conversationId =>
  (required a.proposalId "proposal_id").bind fun proposalId =>
    .ok { a with runId, userId, conversationId, proposalId }

/-- The transaction of an import: an equal row stays, a different one is refused. -/
def importRow (a : ImportArgs) (expected : Run → Bool) (row : Int → Run) (s : Store) :
    Except Error Unit × Store :=
  match s.runs.get? a.runId with
  | some existing =>
    if expected existing then (.ok (), s)
    else (.error (.valueError "different imported run already exists"), s)
  | none => s.insertRun (row (s.nextGeneration a.conversationId a.flowRef))

/-- `import_terminal`; the outcome of its checks comes before its transaction. -/
def importTerminal (a : ImportArgs) (status : String) (terminal : Json) (terminalAt : Time)
    (s : Store) : Except Error (Option Run) × Store :=
  match a.normalize with
  | .error e => (.error e, s)
  | .ok a =>
    match terminals.find? fun t => t.text = status with
    | none => (.error (.valueError "imported flow run status must be terminal"), s)
    | some status =>
      if !terminal.isObj || !a.importMetadata.isObj then
        (.error (.typeError "terminal and import_metadata must be objects"), s)
      else if terminalAt < a.createdAt then
        (.error (.valueError "import timestamps are invalid"), s)
      else if a.flowRef.resourceType ≠ "flow" then
        (.error (.valueError "flow_ref must identify an exact flow"), s)
      else
        thenGet a.runId (closing (importRow a
          (fun row => a.agrees row && row.status = status &&
            row.terminalJson.any (Json.pyEq · terminal) && row.terminalAt = some terminalAt)
          fun generation =>
            { runId := a.runId, userId := a.userId, conversationId := a.conversationId,
              generation, flowRef := a.flowRef,
              deploymentInstanceId := "flowrun__legacy__" ++ a.runId,
              proposalId := some a.proposalId, parentInvocationJson := none,
              authorizationRefJson := .obj [("kind", .str "legacy_plan_import")],
              executionAuthorityJson := none, inputJson := .obj [],
              parametersJson := .obj [], status, terminalJson := some terminal,
              error := (terminal.get? "error").filter Json.truthy,
              createdAt := a.createdAt, updatedAt := terminalAt,
              terminalAt := some terminalAt, importMetadataJson := some a.importMetadata }) s)

/-- A live import: `waiting` at a checkpoint, or `created` without one. -/
def liveImport (a : ImportArgs) (status : FlowRunStatus) (checkpoint : Option Json)
    (authorizationRef inputSnapshot parameters : Json) (s : Store) :
    Except Error (Option Run) × Store :=
  if a.flowRef.resourceType ≠ "flow" then
    (.error (.valueError "flow_ref must identify an exact flow"), s)
  else
    thenGet a.runId (closing (importRow a
      (fun row => a.agrees row && row.authorizationRefJson.pyEq authorizationRef &&
        row.inputJson.pyEq inputSnapshot && row.parametersJson.pyEq parameters &&
        row.status = status &&
        (match row.checkpointJson, checkpoint with
          | some c, some d => c.pyEq d
          | none, none => true
          | _, _ => false))
      fun generation =>
        { runId := a.runId, userId := a.userId, conversationId := a.conversationId,
          generation, flowRef := a.flowRef,
          deploymentInstanceId := "flowrun__legacy__" ++ a.runId,
          proposalId := some a.proposalId, parentInvocationJson := none,
          authorizationRefJson := authorizationRef, executionAuthorityJson := none,
          inputJson := inputSnapshot, parametersJson := parameters, status,
          createdAt := a.createdAt, updatedAt := a.createdAt,
          importMetadataJson := some a.importMetadata, checkpointJson := checkpoint }) s)

def checkObjects (fields : List (String × Json × Bool)) : Except Error Unit :=
  match fields.find? fun (_, value, nonEmpty) => !value.isObj || (nonEmpty && !value.truthy) with
  | some (name, _) => .error (.valueError (name ++ " must be an object"))
  | none => .ok ()

def importActive (a : ImportArgs) (status : String)
    (checkpoint authorizationRef inputSnapshot parameters : Json) (s : Store) :
    Except Error (Option Run) × Store :=
  match a.normalize with
  | .error e => (.error e, s)
  | .ok a =>
    if status ≠ "waiting" then
      (.error (.valueError "active checkpoint import requires waiting status"), s)
    else
      match checkObjects [("checkpoint", checkpoint, true),
          ("import_metadata", a.importMetadata, true),
          ("authorization_ref", authorizationRef, true),
          ("input_snapshot", inputSnapshot, false), ("parameters", parameters, false)] with
      | .error e => (.error e, s)
      | .ok _ =>
        liveImport a .waiting (some checkpoint) authorizationRef inputSnapshot parameters s

def importPending (a : ImportArgs) (authorizationRef inputSnapshot parameters : Json)
    (s : Store) : Except Error (Option Run) × Store :=
  match a.normalize with
  | .error e => (.error e, s)
  | .ok a =>
    match checkObjects [("import_metadata", a.importMetadata, true),
        ("authorization_ref", authorizationRef, true),
        ("input_snapshot", inputSnapshot, false), ("parameters", parameters, false)] with
    | .error e => (.error e, s)
    | .ok _ => liveImport a .created none authorizationRef inputSnapshot parameters s

def deleteImported (runId : String) (importMetadata : Json) (s : Store) :
    Except Error Bool × Store :=
  match required runId "run_id" with
  | .error e => (.error e, s)
  | .ok runId =>
    if !importMetadata.isObj || !importMetadata.truthy then
      (.error (.valueError "import_metadata must be a non-empty object"), s)
    else
      closing (fun s =>
        match s.runs.get? runId with
        | none => (.ok false, s)
        | some row =>
          if row.importMetadataJson.map Json.canonical ≠ some importMetadata.canonical then
            (.error (.valueError "imported run provenance does not match"), s)
          else if s.outbox.rows.any fun o => o.runId = runId then
            (.error (.valueError "imported run has a live outbox event"), s)
          else (.ok true, { s with runs := s.runs.delete fun r => r.runId = runId })) s

/-! ## Lifecycle -/

/-- The row after the `UPDATE` of `transition`. -/
def enter (target : FlowRunStatus) (error : String) (now : Time) (r : Run) : Run :=
  { r with
    status := target
    error := (orNone error).map Json.str
    updatedAt := now
    terminalAt := if target.isTerminal then some now else r.terminalAt }

theorem enter_runId (target : FlowRunStatus) (error : String) (now : Time) (r : Run) :
    (enter target error now r).runId = r.runId := rfl

/-- The writes of `transition`, once the hook has agreed. -/
def writeTransition (row : Run) (target : FlowRunStatus) (error : String) (env : Env)
    (s : Store) : Except Error Unit × Store :=
  let s := s.updateRun row.runId (enter target error env.now) (enter_runId target error env.now)
  if target.isTerminal ∧ ¬ truthy row.terminalEventId then
    let eventId := "fre_" ++ env.uuid
    let event : Event :=
      { eventId, runId := row.runId, status := target, terminal := row.terminalJson,
        error := some error, createdAt := env.now }
    (s.updateRun row.runId (fun r => { r with terminalEventId := some eventId })
      fun _ => rfl).insertEvent
        { eventId, runId := row.runId, eventJson := event, createdAt := env.now }
  else (.ok (), s)

/-- `transition`; a target text that names no status is in no row of `_TRANSITIONS`. -/
def transition (runId target error : String) (env : Env) (s : Store) :
    Except Error (Option Run) × Store :=
  thenGet runId (closing (fun s =>
    match s.runs.get? runId with
    | none => (.error (.keyError runId), s)
    | some row =>
      if row.status.text = target then (.ok (), s)
      else
        match row.status.transitions.find? fun t => t.text = target with
        | none =>
          (.error (.valueError
            ("invalid flow run transition " ++ row.status.text ++ " -> " ++ target)), s)
        | some target =>
          match env.beforeLiveWrite with
          | .error e => (.error e, s)
          | .ok _ => s.writeTransition row target error env) s)

/-- The row after the `UPDATE` of `stage_terminal`. -/
def stageAt (terminal : Json) (eventId : String) (now : Time) (r : Run) : Run :=
  { r with
    status := .committing
    terminalJson := some terminal
    terminalEventId := some eventId
    updatedAt := now }

theorem stageAt_runId (terminal : Json) (eventId : String) (now : Time) (r : Run) :
    (stageAt terminal eventId now r).runId = r.runId := rfl

/-- The payload checks of `stage_terminal`. -/
def checkTerminal (terminal : Json) : Except Error Unit :=
  if !terminal.isObj then .error (.typeError "terminal must be an object")
  else if terminal.canonical.utf8ByteSize > 1024 * 1024 then
    .error (.valueError "terminal exceeds 1 MiB")
  else
    match (terminal.get? "artifacts").getD (.arr []) with
    | .arr items =>
      if items.length > 100 then
        .error (.valueError "terminal artifacts must be an array of at most 100 items")
      else .ok ()
    | _ => .error (.valueError "terminal artifacts must be an array of at most 100 items")

/-- The writes of `stage_terminal`. -/
def writeTerminal (row : Run) (terminal : Json) (env : Env) (s : Store) :
    Except Error Unit × Store :=
  let eventId := "fre_" ++ env.uuid
  let event : Event :=
    { eventId, runId := row.runId, status := .completed, terminal := some terminal,
      error := none, createdAt := env.now }
  (s.updateRun row.runId (stageAt terminal eventId env.now)
    (stageAt_runId terminal eventId env.now)).insertEvent
    { eventId, runId := row.runId, eventJson := event, createdAt := env.now }

def stageTerminal (runId : String) (terminal : Json) (env : Env) (s : Store) :
    Except Error (Option Run) × Store :=
  match checkTerminal terminal with
  | .error e => (.error e, s)
  | .ok _ =>
    thenGet runId (closing (fun s =>
      match s.runs.get? runId with
      | none => (.error (.keyError runId), s)
      | some row =>
        match row.terminalJson with
        | some staged =>
          if staged.canonical ≠ terminal.canonical then
            (.error (.valueError "flow run already has a different terminal"), s)
          else (.ok (), s)
        | none =>
          if row.status ≠ .running ∧ row.status ≠ .waiting then
            (.error (.valueError
              "flow run terminal requires running or waiting status"), s)
          else
            match env.beforeLiveWrite with
            | .error e => (.error e, s)
            | .ok _ => s.writeTerminal row terminal env) s)

/-- `commit`: a read, then a transition of its own. -/
def commit (runId : String) (env : Env) (s : Store) : Except Error (Option Run) × Store :=
  match s.runs.get? runId with
  | none => (.error (.keyError runId), s)
  | some row =>
    if row.status = .completed then (.ok (some row), s)
    else transition runId "completed" "" env s

def markRecovered (runId : String) (env : Env) (s : Store) : Except Error (Option Run) × Store :=
  thenGet runId (closing (fun s =>
    match s.runs.get? runId with
    | none => (.error (.keyError runId), s)
    | some row =>
      if row.status ≠ .starting ∧ row.status ≠ .running ∧ row.status ≠ .waiting then
        (.error (.valueError "flow run is not recoverable"), s)
      else
        match env.beforeLiveWrite with
        | .error e => (.error e, s)
        | .ok _ =>
          (.ok (), s.updateRun runId
            (fun r => { r with
              status := .starting
              recoveryCount := r.recoveryCount + 1
              updatedAt := env.now })
            fun _ => rfl)) s)

def acknowledgeEvent (eventId : String) (env : Env) : Store → Except Error Unit × Store :=
  closing fun s =>
    (.ok (), { s with
      outbox := s.outbox.update (fun o => o.eventId = eventId)
        (fun o => { o with
          state := .delivered
          attempts := o.attempts + 1
          deliveredAt := some env.now })
        fun _ => rfl })

/-! ## Calls -/

inductive Op
  | create (a : CreateArgs)
  | importTerminal (a : ImportArgs) (status : String) (terminal : Json) (terminalAt : Time)
  | importActive (a : ImportArgs) (status : String)
      (checkpoint authorizationRef inputSnapshot parameters : Json)
  | importPending (a : ImportArgs) (authorizationRef inputSnapshot parameters : Json)
  | transition (runId target error : String)
  | stageTerminal (runId : String) (terminal : Json)
  | commit (runId : String)
  | markRecovered (runId : String)
  | acknowledgeEvent (eventId : String)
  | deleteImported (runId : String) (importMetadata : Json)

/-- What a call returns. -/
inductive Reply
  | run (r : Option Run)
  | deleted (b : Bool)
  | unit

/-- Name the kind of a call's result. -/
def reply {β : Type} (f : β → Reply) (x : Except Error β × Store) : Except Error Reply × Store :=
  (x.1.map f, x.2)

/-- One call: its outcome and the store it leaves. -/
def perform (s : Store) (op : Op) (env : Env) : Except Error Reply × Store :=
  match op with
  | .create a => reply .run (create a env s)
  | .importTerminal a status terminal terminalAt =>
    reply .run (importTerminal a status terminal terminalAt s)
  | .importActive a status checkpoint authorizationRef inputSnapshot parameters =>
    reply .run (importActive a status checkpoint authorizationRef inputSnapshot parameters s)
  | .importPending a authorizationRef inputSnapshot parameters =>
    reply .run (importPending a authorizationRef inputSnapshot parameters s)
  | .transition runId target error => reply .run (transition runId target error env s)
  | .stageTerminal runId terminal => reply .run (stageTerminal runId terminal env s)
  | .commit runId => reply .run (commit runId env s)
  | .markRecovered runId => reply .run (markRecovered runId env s)
  | .acknowledgeEvent eventId => reply (fun _ => .unit) (acknowledgeEvent eventId env s)
  | .deleteImported runId importMetadata => reply .deleted (deleteImported runId importMetadata s)

/-- The step function of a store under any sequence of calls. -/
def step (s : Store) (c : Op × Env) : Option Store := some (s.perform c.1 c.2).2

end Store

end PawFlow.FlowRun
