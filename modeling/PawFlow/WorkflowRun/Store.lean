import PawFlow.Lib.Table
import PawFlow.Lib.Transaction
import PawFlow.WorkflowRun.Contracts

/-!
# The workflow run store

The tables of `core/workflow_run_store.py` and its operations, each one SQLite
transaction: a pure function of the store that either raises (the transaction is
rolled back) or returns its result with the new store. Texts the store only keeps
and compares (`*_json` columns) stay texts. Clock readings are arguments.

`workflow_active_runs`, `workflow_step_results`, `workflow_llm_reservations` and
`workflow_terminal_outbox` reference `workflow_runs` with `ON DELETE CASCADE`;
`deleteRuns` models that.
-/

namespace PawFlow.WorkflowRun

open PawFlow.Lib

/-- Clock readings and durations, in microseconds. -/
abbrev Time := Int

def second : Time := 1000000

/-! ## Rows -/

/-- The counters `commit_llm_step` aggregates; an absent key reads as zero. -/
structure Usage where
  llmCalls : Int := 0
  tokensIn : Int := 0
  tokensOut : Int := 0
  cacheRead : Int := 0
  cacheWrite : Int := 0
  durationMs : Int := 0
  costUsd : Float := 0
  virtualCostUsd : Float := 0

/-- `aggregate[key] = aggregate.get(key, 0) + usage.get(key, 0)`, for every key. -/
def Usage.add (a u : Usage) : Usage where
  llmCalls := a.llmCalls + u.llmCalls
  tokensIn := a.tokensIn + u.tokensIn
  tokensOut := a.tokensOut + u.tokensOut
  cacheRead := a.cacheRead + u.cacheRead
  cacheWrite := a.cacheWrite + u.cacheWrite
  durationMs := a.durationMs + u.durationMs
  costUsd := a.costUsd + u.costUsd
  virtualCostUsd := a.virtualCostUsd + u.virtualCostUsd

/-- The limits the store enforces; `maxCostUsd` is `none` when absent or zero. -/
structure Limits where
  maxLlmCalls : Int := 0
  maxCostUsd : Option Float := none

/-- A row of `workflow_runs`. -/
structure Run where
  runId : String
  conversationId : String
  agentKey : String
  permissionMode : String
  rootTurnId : String
  ingressSourceJson : String
  runGeneration : Int
  flowRefJson : String
  parentInvocationJson : Option String
  publishToConversation : Bool
  limits : Limits
  status : WorkflowRunStatus := .accepted
  reason : Option String := none
  deadlineAt : Option Time := none
  usage : Usage := {}
  stagedResultJson : Option String := none
  assistantPayloadJson : Option String := none
  answeredTurnIdsJson : String := "[]"
  assistantMsgId : Option String := none
  terminalEventId : Option String := none
  terminalEventJson : Option String := none
  terminalStatus : WorkflowRunStatus := .completed
  messageCommitted : Bool := false
  inboxAcknowledged : Bool := false
  outboxEnqueued : Bool := false
  createdAt : Time
  updatedAt : Time
  terminalAt : Option Time := none
  recoveryCount : Nat := 0
  waitingSince : Option Time := none
  resumeTaskId : String := ""
  resumeFlowfileJson : Option String := none
  errorJson : Option String := none

/-- A row of `workflow_active_runs`. -/
structure ActiveRun where
  conversationId : String
  agentKey : String
  runId : String
  generation : Int
  leaseExpiresAt : Time
  updatedAt : Time

@[reducible] def ActiveRun.key (a : ActiveRun) : String × String := (a.conversationId, a.agentKey)

/-- A row of `workflow_generations`. -/
structure GenerationRow where
  conversationId : String
  agentKey : String
  generation : Int
  updatedAt : Time

@[reducible] def GenerationRow.key (g : GenerationRow) : String × String :=
  (g.conversationId, g.agentKey)

/-- A row of `workflow_step_results`. -/
structure StepResult where
  runId : String
  taskId : String
  inputHash : String
  resultJson : String
  usage : Usage
  createdAt : Time

/-- The primary key of the step tables. -/
abbrev StepKey := String × String × String

@[reducible] def StepResult.key (r : StepResult) : StepKey := (r.runId, r.taskId, r.inputHash)

/-- A row of `workflow_llm_reservations`. -/
structure Reservation where
  runId : String
  taskId : String
  inputHash : String
  createdAt : Time

@[reducible] def Reservation.key (r : Reservation) : StepKey := (r.runId, r.taskId, r.inputHash)

/-- A row of `workflow_terminal_outbox`. -/
structure OutboxRow where
  eventId : String
  runId : String
  eventJson : String
  delivered : Bool := false
  attempts : Nat := 0
  lastAttemptAt : Option Time := none
  deliveredAt : Option Time := none
  createdAt : Time

structure Store where
  generations : Table (String × String) GenerationRow GenerationRow.key := .empty
  runs : Table String Run Run.runId := .empty
  active : Table (String × String) ActiveRun ActiveRun.key := .empty
  stepResults : Table StepKey StepResult StepResult.key := .empty
  reservations : Table StepKey Reservation Reservation.key := .empty
  outbox : Table String OutboxRow OutboxRow.eventId := .empty

namespace Store

/-! ## Statements shared by the operations -/

/-- `UPDATE workflow_runs SET … WHERE run_id=?`. -/
def updateRun (s : Store) (runId : String) (f : Run → Run)
    (hf : ∀ r, (f r).runId = r.runId) : Store :=
  { s with runs := s.runs.update (fun r => r.runId = runId) f hf }

/-- `DELETE FROM workflow_active_runs WHERE run_id=?`. -/
def deleteActive (s : Store) (runId : String) : Store :=
  { s with active := s.active.delete fun a => a.runId = runId }

/-- `UPDATE workflow_active_runs SET lease_expires_at=?, updated_at=? WHERE run_id=?`. -/
def renewLease (s : Store) (runId : String) (leaseSeconds now : Time) : Store :=
  { s with
    active := s.active.update (fun a => a.runId = runId)
      (fun a => { a with leaseExpiresAt := now + max second leaseSeconds, updatedAt := now })
      fun _ => rfl }

/-- `DELETE FROM workflow_runs WHERE p`, with the cascades. -/
def deleteRuns (s : Store) (p : Run → Bool) : Store :=
  let dropped (runId : String) : Bool := (s.runs.get? runId).any p
  { s with
    runs := s.runs.delete p
    active := s.active.delete fun a => dropped a.runId
    stepResults := s.stepResults.delete fun r => dropped r.runId
    reservations := s.reservations.delete fun r => dropped r.runId
    outbox := s.outbox.delete fun o => dropped o.runId }

def ownsKey (s : Store) (r : Run) : Bool :=
  match s.active.get? (r.conversationId, r.agentKey) with
  | some a => a.runId = r.runId && a.generation = r.runGeneration
  | none => false

/-- `float(value or now)`. -/
def timeOr (value : Option Time) (now : Time) : Time :=
  match value with
  | some t => if t = 0 then now else t
  | none => now

/-- The deadline after a pause that began at `since`. -/
def extendDeadline (deadline : Option Time) (since now : Time) : Option Time :=
  deadline.map (· + max 0 (now - since))

/-! ## Generations and creation -/

/-- `_agent`; `casefold` is `str.casefold`. -/
def agent (casefold : String → String) (name : String) : Except StoreError String :=
  (required name "agent_name").map casefold

def reserveGeneration (casefold : String → String) (s : Store)
    (conversationId agentName : String) (now : Time) : Except StoreError (Int × Store) := do
  let conversationId ← required conversationId "conversation_id"
  let agentKey ← agent casefold agentName
  let generation := match s.generations.get? (conversationId, agentKey) with
    | some row => row.generation + 1
    | none => 1
  return (generation, { s with
    generations := s.generations.upsert ⟨conversationId, agentKey, generation, now⟩ })

/-- The part of the run context `create_run` reads. -/
structure RunContext where
  runId : String
  conversationId : String
  agentName : String
  userId : String
  channel : String
  permissionMode : String
  rootTurnId : String
  runGeneration : Int
  flowRefJson : String
  deadlineAt : Option Time
  limits : Limits

/-- The stored run is the one this call describes. -/
def sameRun (existing : Run) (context : RunContext) (conversationId agentKey : String)
    (ingressSourceJson : String) (parentInvocationJson : Option String)
    (publishToConversation : Bool) : Bool :=
  existing.conversationId = conversationId && existing.agentKey = agentKey &&
    existing.permissionMode = context.permissionMode &&
    existing.rootTurnId = context.rootTurnId &&
    existing.ingressSourceJson = ingressSourceJson &&
    existing.runGeneration = context.runGeneration &&
    existing.flowRefJson = context.flowRefJson &&
    existing.parentInvocationJson = parentInvocationJson &&
    existing.publishToConversation = publishToConversation

def createRun (casefold : String → String) (s : Store) (context : RunContext)
    (ingressSourceJson : String) (parentInvocationJson : Option String)
    (publishToConversation : Bool) (leaseSeconds now : Time) :
    Except StoreError (Run × Store) := do
  let runId ← required context.runId "run_id"
  let conversationId ← required context.conversationId "conversation_id"
  let agentName ← required context.agentName "agent_name"
  let agentKey ← agent casefold agentName
  let _ ← required context.userId "user_id"
  let _ ← required context.channel "channel"
  let permissionMode ← required context.permissionMode "permission_mode"
  let rootTurnId ← required context.rootTurnId "root_turn_id"
  match s.runs.get? runId with
  | some existing =>
    if sameRun existing context conversationId agentKey ingressSourceJson
        parentInvocationJson publishToConversation then
      return (existing, s)
    else
      throw (.valueError "run_id already identifies a different workflow run")
  | none =>
    if ((s.active.get? (conversationId, agentKey)).any fun a => a.runId ≠ runId) then
      throw (.runtimeError "another workflow run owns the active key")
    else
      let run : Run :=
        { runId, conversationId, agentKey, permissionMode, rootTurnId,
          ingressSourceJson, runGeneration := context.runGeneration,
          flowRefJson := context.flowRefJson, parentInvocationJson,
          publishToConversation, limits := context.limits,
          deadlineAt := context.deadlineAt, createdAt := now, updatedAt := now }
      match s.runs.insert? run with
      | none => throw (.integrityError "UNIQUE constraint failed: workflow_runs.run_id")
      | some runs =>
        return (run, { s with
          runs
          active := s.active.upsert
            { conversationId, agentKey, runId, generation := context.runGeneration,
              leaseExpiresAt := now + max second leaseSeconds, updatedAt := now } })

/-! ## Status changes -/

/-- The columns `transition` writes. -/
def enter (current : WorkflowRunStatus) (reason : Option String) (now : Time)
    (r : Run) : Run := { r with
  status := current
  reason
  updatedAt := now
  terminalAt := if current.isTerminal then some now else none
  waitingSince := if current = .waiting then some now else none }

theorem enter_runId (current : WorkflowRunStatus) (reason : Option String) (now : Time)
    (r : Run) : (enter current reason now r).runId = r.runId := rfl

/-- `resume_task_id='', resume_flowfile_json=NULL`. -/
def forgetResume (r : Run) : Run :=
  { r with resumeTaskId := "", resumeFlowfileJson := none }

theorem forgetResume_runId (r : Run) : (forgetResume r).runId = r.runId := rfl

def transition (s : Store) (runId : String) (expected current : WorkflowRunStatus)
    (reason : Option String) (now : Time) : Except StoreError (Bool × Store) := do
  validateWorkflowRunTransition expected current
  match s.runs.get? runId with
  | none => return (false, s)
  | some row =>
    if row.status ≠ expected then
      return (false, s)
    else
      let s := s.updateRun runId (enter current reason now)
        (enter_runId current reason now)
      let s := if current.isTerminal then s.deleteActive runId else s
      let s := if current = .waiting || current.isTerminal then
          s.updateRun runId forgetResume forgetResume_runId
        else s
      return (true, s)

/-- The columns `resume_wait` writes. -/
def resumeAt (deadlineAt : Option Time) (taskId flowfileJson : String) (now : Time)
    (r : Run) : Run := { r with
  status := .running
  reason := none
  updatedAt := now
  deadlineAt
  waitingSince := none
  resumeTaskId := taskId
  resumeFlowfileJson := some flowfileJson }

theorem resumeAt_runId (deadlineAt : Option Time) (taskId flowfileJson : String)
    (now : Time) (r : Run) : (resumeAt deadlineAt taskId flowfileJson now r).runId = r.runId := rfl

def resumeWait (s : Store) (runId taskId flowfileJson : String)
    (leaseSeconds now : Time) : Except StoreError (Bool × Store) := do
  let runId ← required runId "run_id"
  let taskId ← required taskId "task_id"
  match s.runs.get? runId with
  | none => return (false, s)
  | some row =>
    if row.status ≠ .waiting then
      return (false, s)
    else if !s.ownsKey row then
      return (false, s)
    else
      let deadlineAt := extendDeadline row.deadlineAt (timeOr row.waitingSince now) now
      let s := s.updateRun runId (resumeAt deadlineAt taskId flowfileJson now)
        (resumeAt_runId deadlineAt taskId flowfileJson now)
      return (true, s.renewLease runId leaseSeconds now)

def clearResume (s : Store) (runId : String) : Store :=
  s.updateRun runId forgetResume forgetResume_runId

/-- `WorkflowRunError`, as far as the store reads it. -/
structure RunError where
  runId : String
  retryable : Bool
  message : String
  json : String

/-- The columns `pause_retryable_failure` writes. -/
def pauseAt (error : RunError) (taskId flowfileJson : String) (now : Time)
    (r : Run) : Run := { r with
  status := .retryableFailed
  reason := some error.message
  errorJson := some error.json
  updatedAt := now
  waitingSince := some now
  resumeTaskId := taskId
  resumeFlowfileJson := some flowfileJson }

theorem pauseAt_runId (error : RunError) (taskId flowfileJson : String) (now : Time)
    (r : Run) : (pauseAt error taskId flowfileJson now r).runId = r.runId := rfl

def pauseRetryableFailure (s : Store) (runId : String) (error : RunError)
    (taskId flowfileJson : String) (leaseSeconds now : Time) :
    Except StoreError (Bool × Store) :=
  if error.runId ≠ runId || !error.retryable then
    .error (.valueError "retryable workflow error does not match the run")
  else do
    let taskId ← required taskId "task_id"
    match s.runs.get? runId with
    | none => return (false, s)
    | some row =>
      -- the `EXISTS` clause looks the active row up by run id, not by key
      if row.status = .running && s.active.rows.any fun a =>
          a.runId = row.runId && a.generation = row.runGeneration then
        let s := s.updateRun runId (pauseAt error taskId flowfileJson now)
          (pauseAt_runId error taskId flowfileJson now)
        return (true, s.renewLease runId leaseSeconds now)
      else
        return (false, s)

/-- The columns `retry_failure` writes. -/
def retryAt (deadlineAt : Option Time) (now : Time) (r : Run) : Run := { r with
  status := .running
  reason := none
  updatedAt := now
  deadlineAt
  waitingSince := none
  recoveryCount := r.recoveryCount + 1 }

theorem retryAt_runId (deadlineAt : Option Time) (now : Time) (r : Run) :
    (retryAt deadlineAt now r).runId = r.runId := rfl

def retryFailure (s : Store) (runId : String) (leaseSeconds now : Time) : Bool × Store :=
  match s.runs.get? runId with
  | none => (false, s)
  | some row =>
    if row.status ≠ .retryableFailed || row.resumeTaskId = "" ||
        row.resumeFlowfileJson.getD "" = "" then
      (false, s)
    else if !s.ownsKey row then
      (false, s)
    else
      let deadlineAt := extendDeadline row.deadlineAt (timeOr row.waitingSince now) now
      let s := s.updateRun runId (retryAt deadlineAt now) (retryAt_runId deadlineAt now)
      (true, s.renewLease runId leaseSeconds now)

def recordError (s : Store) (runId : String) (error : RunError) :
    Except StoreError (Bool × Store) :=
  if error.runId ≠ runId then
    .error (.valueError "workflow error does not match the run")
  else
    .ok ((s.runs.get? runId).isSome,
      s.updateRun runId (fun r => { r with errorJson := some error.json }) fun _ => rfl)

/-- `get_run`, then `transition` from the status just read to the one `target` names
for it; `False` when the run is missing or `target` names none. -/
def transitionBy (s : Store) (target : WorkflowRunStatus → Option WorkflowRunStatus)
    (runId reason : String) (now : Time) : Except StoreError (Bool × Store) :=
  match s.runs.get? runId with
  | none => .ok (false, s)
  | some run =>
    match target run.status with
    | none => .ok (false, s)
    | some current => s.transition runId run.status current (some reason) now

def fail (s : Store) (runId reason : String) (now : Time) :
    Except StoreError (Bool × Store) :=
  s.transitionBy (fun status =>
    if status.isTerminal then none
    else if status = .committing then some .recoveryFailed else some .failed)
    runId reason now

def supersede (s : Store) (runId reason : String) (now : Time) :
    Except StoreError (Bool × Store) :=
  s.transitionBy (fun status =>
    if status.isTerminal then none
    else if status ∈ [WorkflowRunStatus.accepted, .running, .waiting, .retryableFailed,
        .committing] then some .superseded
    else none)
    runId reason now

def forceStop (s : Store) (runId reason : String) (now : Time) :
    Except StoreError (Bool × Store) :=
  s.transitionBy (fun status =>
    if status.isTerminal then none
    else if status = .accepted then some .cancelled
    else if status ∈ [WorkflowRunStatus.running, .waiting, .retryableFailed, .cancelling]
      then some .forceStopped
    else none)
    runId reason now

def markBudgetExceeded (s : Store) (runId reason : String) (now : Time) :
    Except StoreError (Bool × Store) :=
  s.transitionBy (fun status => if status = .running then some .budgetExceeded else none)
    runId reason now

/-! ## The terminal saga -/

/-- The result object handed to `stage_terminal`. -/
structure TerminalResult where
  status : String := "completed"
  json : String
  answeredTurnIdsJson : String

/-- `assistant_payload` and `terminal_event`: the ids read from them and their texts. -/
structure TerminalPayload where
  assistantMsgId : String
  assistantPayloadJson : String
  eventId : String
  eventStatus : String
  eventJson : String

/-- `str(terminal_event.get("status") or result.status)`, with `no_change` read as
`completed`. -/
def resultStatus (result : TerminalResult) (payload : TerminalPayload) : String :=
  let status := if payload.eventStatus = "" then result.status else payload.eventStatus
  if status = "no_change" then "completed" else status

/-- The columns `stage_terminal` writes. -/
def stageAt (result : TerminalResult) (payload : TerminalPayload)
    (assistantMsgId eventId : String) (terminalStatus : WorkflowRunStatus) (now : Time)
    (r : Run) : Run := { r with
  status := .committing
  stagedResultJson := some result.json
  assistantPayloadJson := some payload.assistantPayloadJson
  answeredTurnIdsJson := result.answeredTurnIdsJson
  assistantMsgId := some assistantMsgId
  terminalEventId := some eventId
  terminalEventJson := some payload.eventJson
  terminalStatus
  outboxEnqueued := true
  updatedAt := now }

theorem stageAt_runId (result : TerminalResult) (payload : TerminalPayload)
    (assistantMsgId eventId : String) (terminalStatus : WorkflowRunStatus) (now : Time)
    (r : Run) : (stageAt result payload assistantMsgId eventId terminalStatus now r).runId =
      r.runId := rfl

def stageTerminal (s : Store) (runId : String) (result : TerminalResult)
    (payload : TerminalPayload) (now : Time) : Except StoreError (Run × Store) := do
  let assistantMsgId ← required payload.assistantMsgId "assistant_msg_id"
  let eventId ← required payload.eventId "event_id"
  match WorkflowRunStatus.terminalOfText (resultStatus result payload) with
  | none => throw (.valueError "terminal status is invalid")
  | some terminalStatus =>
    match s.runs.get? runId with
    | none => throw (.keyError "workflow run does not exist")
    | some row =>
      if row.status = .committing then
        if row.assistantMsgId = some assistantMsgId &&
            row.terminalEventId = some eventId &&
            row.stagedResultJson = some result.json &&
            row.assistantPayloadJson = some payload.assistantPayloadJson &&
            row.terminalEventJson = some payload.eventJson &&
            row.terminalStatus = terminalStatus then
          return (row, s)
        else
          throw (.runtimeError "committing run has different terminal identities")
      else if row.status ≠ .running then
        throw (.runtimeError ("workflow run cannot stage terminal from " ++ row.status.text))
      else
        let staged := stageAt result payload assistantMsgId eventId terminalStatus now
        let s := s.updateRun runId staged
          (stageAt_runId result payload assistantMsgId eventId terminalStatus now)
        -- `ON CONFLICT(event_id) DO NOTHING`; the run's own row is `UNIQUE` too
        match s.outbox.insert?
            { eventId, runId, eventJson := payload.eventJson, createdAt := now } with
        | none => return (staged row, s)
        | some outbox =>
          if s.outbox.rows.any fun o => o.runId = runId then
            throw (.integrityError
              "UNIQUE constraint failed: workflow_terminal_outbox.run_id")
          else return (staged row, { s with outbox })

/-- `_mark_committing`; `set` writes one of the two commit markers. -/
def markCommitting (s : Store) (runId : String) (set : Run → Run)
    (hset : ∀ r, (set r).runId = r.runId) (now : Time) : Bool × Store :=
  match s.runs.get? runId with
  | none => (false, s)
  | some row =>
    if row.status = .committing then
      (true, s.updateRun runId (fun r => { set r with updatedAt := now }) hset)
    else (false, s)

def markMessageCommitted (s : Store) (runId : String) (now : Time) : Bool × Store :=
  s.markCommitting runId (fun r => { r with messageCommitted := true }) (fun _ => rfl) now

def markInboxAcknowledged (s : Store) (runId : String) (now : Time) : Bool × Store :=
  s.markCommitting runId (fun r => { r with inboxAcknowledged := true }) (fun _ => rfl) now

def recordOutboxAttempt (s : Store) (eventId : String) (delivered : Bool) (now : Time) :
    Bool × Store :=
  ((s.outbox.get? eventId).isSome, { s with
    outbox := s.outbox.update (fun o => o.eventId = eventId)
      (fun o => { o with
        attempts := o.attempts + 1
        lastAttemptAt := some now
        delivered := delivered || o.delivered
        deliveredAt := if delivered then some now else o.deliveredAt }) fun _ => rfl })

/-- The columns `complete` writes. -/
def completeAt (terminalStatus : WorkflowRunStatus) (now : Time) (r : Run) : Run :=
  { r with status := terminalStatus, terminalAt := some now, updatedAt := now }

theorem completeAt_runId (terminalStatus : WorkflowRunStatus) (now : Time) (r : Run) :
    (completeAt terminalStatus now r).runId = r.runId := rfl

def complete (s : Store) (runId : String) (now : Time) : Bool × Store :=
  match s.runs.get? runId with
  | none => (false, s)
  | some row =>
    if row.status ≠ .committing then (row.status.isTerminal, s)
    else
      let outbox := s.outbox.rows.find? fun o => o.runId = runId
      if !row.messageCommitted || !row.inboxAcknowledged ||
          row.assistantMsgId.getD "" = "" || row.terminalEventId.getD "" = "" ||
          !(outbox.any fun o => o.delivered) then
        (false, s)
      else if !row.terminalStatus.isTerminal then (false, s)
      else
        let s := s.updateRun runId (completeAt row.terminalStatus now)
          (completeAt_runId row.terminalStatus now)
        (true, s.deleteActive runId)

/-! ## Recovery and deletion -/

/-- The columns `reacquire` writes. -/
def recoverAt (now : Time) (r : Run) : Run :=
  { r with recoveryCount := r.recoveryCount + 1, updatedAt := now }

theorem recoverAt_runId (now : Time) (r : Run) : (recoverAt now r).runId = r.runId := rfl

def reacquire (s : Store) (runId : String) (leaseSeconds now : Time) : Bool × Store :=
  match s.runs.get? runId with
  | none => (false, s)
  | some row =>
    if row.status ∉ [WorkflowRunStatus.accepted, .running, .waiting,
        .retryableFailed, .cancelling] then (false, s)
    else if (s.active.get? (row.conversationId, row.agentKey)).any fun a =>
        a.runId ≠ runId && row.runGeneration ≤ a.generation then (false, s)
    else
      let s := { s with
        reservations := s.reservations.delete fun r => r.runId = runId
        active := s.active.upsert
          { conversationId := row.conversationId, agentKey := row.agentKey, runId,
            generation := row.runGeneration,
            leaseExpiresAt := now + max second leaseSeconds, updatedAt := now } }
      (true, s.updateRun runId (recoverAt now) (recoverAt_runId now))

def deleteTerminal (s : Store) (runId conversationId : String) :
    Except StoreError (Bool × Store) := do
  let runId ← required runId "run_id"
  let conversationId ← required conversationId "conversation_id"
  let p (r : Run) : Bool :=
    r.runId = runId && r.conversationId = conversationId && r.status.isTerminal
  return (decide (s.runs.count p = 1), s.deleteRuns p)

def pruneTerminal (s : Store) (retentionSeconds now : Time) : Nat × Store :=
  let cutoff := now - max 0 retentionSeconds
  let p (r : Run) : Bool := r.status.isTerminal && r.updatedAt < cutoff
  (s.runs.count p, s.deleteRuns p)

def deleteConversation (s : Store) (conversationId : String) :
    Except StoreError (Nat × Store) := do
  let conversation ← required conversationId "conversation_id"
  let p (r : Run) : Bool := r.conversationId = conversation
  let s' := s.deleteRuns p
  return (s.runs.count p, { s' with
    generations := s'.generations.delete fun g => g.conversationId = conversationId })

/-! ## LLM steps (`core/_workflow_run_store_llm.py`) -/

def cacheStepResult (s : Store) (runId taskId inputHash resultJson : String)
    (usage : Usage) (now : Time) : Except StoreError (Bool × Store) := do
  let runId ← required runId "run_id"
  let taskId ← required taskId "task_id"
  let inputHash ← required inputHash "input_hash"
  match s.stepResults.insert? ⟨runId, taskId, inputHash, resultJson, usage, now⟩ with
  | none => return (false, s)
  | some stepResults =>
    if (s.runs.get? runId).isNone then
      throw (.integrityError "FOREIGN KEY constraint failed")
    else return (true, { s with stepResults })

def outstanding (s : Store) (runId : String) : Nat :=
  s.reservations.count fun r => r.runId = runId

def beginLlmStep (s : Store) (runId taskId inputHash : String) (now : Time) :
    Except StoreError (Option StepResult × Store) := do
  let runId ← required runId "run_id"
  let taskId ← required taskId "task_id"
  let inputHash ← required inputHash "input_hash"
  match s.runs.get? runId with
  | none => throw (.keyError "workflow run does not exist")
  | some run =>
    if run.status ≠ .running then
      throw (.runtimeError
        ("workflow LLM step requires running, got " ++ run.status.text))
    else match s.stepResults.get? (runId, taskId, inputHash) with
    | some cached => return (some cached, s)
    | none =>
      if 0 < run.limits.maxLlmCalls &&
          run.limits.maxLlmCalls ≤ run.usage.llmCalls + s.outstanding runId then
        throw (.budgetExceeded "workflow LLM call budget exhausted")
      else if run.limits.maxCostUsd.any fun c => 0 < c && c ≤ run.usage.costUsd then
        throw (.budgetExceeded "workflow cost budget exhausted")
      else match s.reservations.insert? ⟨runId, taskId, inputHash, now⟩ with
      | none => throw (.runtimeError "workflow LLM step is already in progress")
      | some reservations => return (none, { s with reservations })

/-- What `commit_llm_step` returns. -/
structure CommitResult where
  inserted : Bool
  resultJson : String
  stepUsage : Usage
  runUsage : Usage

/-- `DELETE FROM workflow_llm_reservations WHERE run_id=? AND task_id=? AND input_hash=?`. -/
def release (s : Store) (k : StepKey) : Store :=
  { s with reservations := s.reservations.delete fun r => r.key = k }

/-- The columns `commit_llm_step` writes. -/
def chargeAt (aggregate : Usage) (now : Time) (r : Run) : Run :=
  { r with usage := aggregate, updatedAt := now }

theorem chargeAt_runId (aggregate : Usage) (now : Time) (r : Run) :
    (chargeAt aggregate now r).runId = r.runId := rfl

def commitLlmStep (s : Store) (runId taskId inputHash resultJson : String)
    (usage : Usage) (now : Time) : Except StoreError (CommitResult × Store) :=
  let k : StepKey := (runId, taskId, inputHash)
  match s.stepResults.get? k with
  | some cached =>
    match s.runs.get? runId with
    | none => .error (.runtimeError "'NoneType' object is not subscriptable")
    | some run =>
      .ok (⟨false, cached.resultJson, cached.usage, run.usage⟩, s.release k)
  | none =>
    match s.runs.get? runId with
    | none => .error (.keyError "workflow run does not exist")
    | some run =>
      if run.status ≠ .running then
        .error (.budgetExceeded "workflow run stopped before LLM result commit")
      else if (s.reservations.get? k).isNone then
        .error (.runtimeError "workflow LLM step was not reserved")
      else match s.stepResults.insert?
          ⟨runId, taskId, inputHash, resultJson, usage, now⟩ with
      | none => .error (.integrityError
          "UNIQUE constraint failed: workflow_step_results")
      | some stepResults =>
        let aggregate := run.usage.add usage
        let s := { s with stepResults }
        let s := s.updateRun runId (chargeAt aggregate now) (chargeAt_runId aggregate now)
        .ok (⟨true, resultJson, usage, aggregate⟩, s.release k)

def abortLlmStep (s : Store) (runId taskId inputHash : String) : Bool × Store :=
  let k : StepKey := (runId, taskId, inputHash)
  ((s.reservations.get? k).isSome, s.release k)

/-! ## What the operations outside the status machine do -/

variable {s s' : Store}

variable {now : Time}

/-- A successful `create_run` finds the same run in place, or inserts an accepted run
under a key that no other run owns. -/
theorem createRun_cases {casefold : String → String} {context : RunContext}
    {ingressSourceJson : String} {parentInvocationJson : Option String}
    {publishToConversation : Bool} {l : Time} {r : Run}
    (hok : s.createRun casefold context ingressSourceJson parentInvocationJson
      publishToConversation l now = .ok (r, s')) :
    s' = s ∨ ∃ run runs, s.runs.get? run.runId = none ∧
      (∀ a, s.active.get? (run.conversationId, run.agentKey) = some a →
        a.runId = run.runId) ∧
      run.status = .accepted ∧ run.usage = {} ∧ s.runs.insert? run = some runs ∧
      s' = { s with
        runs
        active := s.active.upsert
          ⟨run.conversationId, run.agentKey, run.runId, run.runGeneration,
            now + max second l, now⟩ } := by
  obtain ⟨runId, -, hok⟩ := bind_ok hok
  obtain ⟨conversationId, -, hok⟩ := bind_ok hok
  obtain ⟨agentName, -, hok⟩ := bind_ok hok
  obtain ⟨agentKey, -, hok⟩ := bind_ok hok
  obtain ⟨_, -, hok⟩ := bind_ok hok
  obtain ⟨_, -, hok⟩ := bind_ok hok
  obtain ⟨permissionMode, -, hok⟩ := bind_ok hok
  obtain ⟨rootTurnId, -, hok⟩ := bind_ok hok
  split at hok
  · split at hok
    · obtain ⟨-, rfl⟩ := ok_pair_inj hok
      exact Or.inl rfl
    · exact absurd hok (by simp [throw, throwThe, MonadExceptOf.throw])
  next hnone =>
  split at hok
  · exact absurd hok (by simp [throw, throwThe, MonadExceptOf.throw])
  next howner =>
  dsimp only at hok
  split at hok
  · exact absurd hok (by simp [throw, throwThe, MonadExceptOf.throw])
  next runs hinsert =>
  obtain ⟨rfl, rfl⟩ := ok_pair_inj hok
  refine Or.inr ⟨_, runs, hnone, ?_, rfl, rfl, hinsert, rfl⟩
  intro a ha
  simpa [ha] using howner

theorem reacquire_cases (s : Store) (runId : String) (l now : Time) :
    (s.reacquire runId l now).2 = s ∨ ∃ row, s.runs.get? runId = some row ∧
      row.status.isTerminal = false ∧
      (s.reacquire runId l now).2 = ({ s with
        reservations := s.reservations.delete fun r => r.runId = runId
        active := s.active.upsert
          ⟨row.conversationId, row.agentKey, runId, row.runGeneration,
            now + max second l, now⟩ } : Store).updateRun runId (recoverAt now)
              (recoverAt_runId now) := by
  unfold reacquire
  split
  · exact Or.inl rfl
  next row hrow =>
  split
  · exact Or.inl rfl
  next hstatus =>
  split
  · exact Or.inl rfl
  refine Or.inr ⟨row, hrow, ?_, rfl⟩
  cases hs : row.status <;> simp [hs] at hstatus <;> rfl

theorem deleteTerminal_cases {r c : String} {b : Bool}
    (hok : s.deleteTerminal r c = .ok (b, s')) : ∃ p, s' = s.deleteRuns p := by
  obtain ⟨_, -, hok⟩ := bind_ok hok
  obtain ⟨_, -, hok⟩ := bind_ok hok
  obtain ⟨-, rfl⟩ := ok_pair_inj hok
  exact ⟨_, rfl⟩

theorem deleteConversation_cases {c : String} {n : Nat}
    (hok : s.deleteConversation c = .ok (n, s')) :
    ∃ p generations, s' = { s.deleteRuns p with generations } := by
  obtain ⟨_, -, hok⟩ := bind_ok hok
  obtain ⟨-, rfl⟩ := ok_pair_inj hok
  exact ⟨_, _, rfl⟩

/-- A successful `begin_llm_step` returns the cached row, or reserves one call
within the call budget. -/
theorem beginLlmStep_cases {r t h : String}
    {c : Option StepResult} (hok : s.beginLlmStep r t h now = .ok (c, s')) :
    ∃ runId taskId inputHash run, s.runs.get? runId = some run ∧ run.status = .running ∧
      ((∃ cached, s.stepResults.get? (runId, taskId, inputHash) = some cached ∧
          c = some cached ∧ s' = s) ∨
        (s.stepResults.get? (runId, taskId, inputHash) = none ∧ c = none ∧
          (0 < run.limits.maxLlmCalls →
            run.usage.llmCalls + s.outstanding runId < run.limits.maxLlmCalls) ∧
          ∃ reservations,
            s.reservations.insert? ⟨runId, taskId, inputHash, now⟩ = some reservations ∧
            s' = { s with reservations })) := by
  obtain ⟨runId, -, hok⟩ := bind_ok hok
  obtain ⟨taskId, -, hok⟩ := bind_ok hok
  obtain ⟨inputHash, -, hok⟩ := bind_ok hok
  split at hok
  · exact absurd hok (by simp [throw, throwThe, MonadExceptOf.throw])
  next run hrun =>
  split at hok
  · exact absurd hok (by simp [throw, throwThe, MonadExceptOf.throw])
  next hstatus =>
  refine ⟨runId, taskId, inputHash, run, hrun, not_not.mp hstatus, ?_⟩
  split at hok
  · next cached hcached =>
    obtain ⟨rfl, rfl⟩ := ok_pair_inj hok
    exact Or.inl ⟨cached, hcached, rfl, rfl⟩
  next hnone =>
  split at hok
  · exact absurd hok (by simp [throw, throwThe, MonadExceptOf.throw])
  next hbudget =>
  split at hok
  · exact absurd hok (by simp [throw, throwThe, MonadExceptOf.throw])
  split at hok
  · exact absurd hok (by simp [throw, throwThe, MonadExceptOf.throw])
  next reservations hinsert =>
  obtain ⟨rfl, rfl⟩ := ok_pair_inj hok
  refine Or.inr ⟨hnone, rfl, ?_, reservations, hinsert, rfl⟩
  intro hpos
  simpa [hpos] using hbudget

/-- A successful `commit_llm_step` returns the cached row, or charges a reserved
step that has none. -/
theorem commitLlmStep_cases {runId taskId inputHash resultJson : String}
    {usage : Usage} {c : CommitResult}
    (hok : s.commitLlmStep runId taskId inputHash resultJson usage now = .ok (c, s')) :
    (∃ (cached : StepResult) (run : Run),
      s.stepResults.get? (runId, taskId, inputHash) = some cached ∧
      s.runs.get? runId = some run ∧
      c = ⟨false, cached.resultJson, cached.usage, run.usage⟩ ∧
      s' = s.release (runId, taskId, inputHash)) ∨
    (∃ run stepResults, s.stepResults.get? (runId, taskId, inputHash) = none ∧
      s.runs.get? runId = some run ∧ run.status = .running ∧
      (s.reservations.get? (runId, taskId, inputHash)).isSome ∧
      s.stepResults.insert? ⟨runId, taskId, inputHash, resultJson, usage, now⟩ =
        some stepResults ∧
      c = ⟨true, resultJson, usage, run.usage.add usage⟩ ∧
      s' = (({ s with stepResults }).updateRun runId (chargeAt (run.usage.add usage) now)
        (chargeAt_runId _ _)).release (runId, taskId, inputHash)) := by
  unfold commitLlmStep at hok
  dsimp only at hok
  split at hok
  · next cached hcached =>
    split at hok
    · exact absurd hok (by simp)
    next run hrun =>
    obtain ⟨rfl, rfl⟩ := ok_pair_inj hok
    exact Or.inl ⟨cached, run, hcached, hrun, rfl, rfl⟩
  next hnone =>
  split at hok
  · exact absurd hok (by simp)
  next run hrun =>
  split at hok
  · exact absurd hok (by simp)
  next hstatus =>
  split at hok
  · exact absurd hok (by simp)
  next hreserved =>
  split at hok
  · exact absurd hok (by simp)
  next stepResults hinsert =>
  obtain ⟨rfl, rfl⟩ := ok_pair_inj hok
  exact Or.inr ⟨run, stepResults, hnone, hrun, not_not.mp hstatus,
    Option.isSome_iff_ne_none.mpr (by simpa using hreserved), hinsert, rfl, rfl⟩

end Store

end PawFlow.WorkflowRun
