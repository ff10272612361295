import PawFlow.Lib.PyString

/-!
# Workflow run statuses and their transitions

The status machine of `core/workflow_agent_contracts.py`, and the errors the
stores raise. `validateWorkflowRunTransition` is the only guard between a caller
and the `status` column.
-/

namespace PawFlow.WorkflowRun

inductive WorkflowRunStatus
  | accepted | running | waiting | retryableFailed | cancelling | committing
  | completed | cancelled | superseded | failed | timedOut | budgetExceeded
  | forceStopped | recoveryFailed
deriving DecidableEq

namespace WorkflowRunStatus

/-- The text stored in the `status` column. -/
def text : WorkflowRunStatus → String
  | accepted => "accepted"
  | running => "running"
  | waiting => "waiting"
  | retryableFailed => "retryable_failed"
  | cancelling => "cancelling"
  | committing => "committing"
  | completed => "completed"
  | cancelled => "cancelled"
  | superseded => "superseded"
  | failed => "failed"
  | timedOut => "timed_out"
  | budgetExceeded => "budget_exceeded"
  | forceStopped => "force_stopped"
  | recoveryFailed => "recovery_failed"

/-- `WORKFLOW_TERMINAL_STATUSES`. -/
def terminalStatuses : List WorkflowRunStatus :=
  [completed, cancelled, superseded, failed, timedOut, budgetExceeded,
    forceStopped, recoveryFailed]

def isTerminal (s : WorkflowRunStatus) : Bool := s ∈ terminalStatuses

/-- `_WORKFLOW_TRANSITIONS`. -/
def transitions : WorkflowRunStatus → List WorkflowRunStatus
  | accepted => [running, cancelled, superseded, failed]
  | running => [waiting, retryableFailed, cancelling, superseded, committing,
      failed, timedOut, budgetExceeded, forceStopped]
  | waiting => [running, cancelling, cancelled, superseded, failed, timedOut,
      forceStopped]
  | retryableFailed => [running, cancelling, cancelled, superseded, failed,
      timedOut, forceStopped]
  | cancelling => [cancelled, forceStopped, failed]
  | committing => terminalStatuses
  | _ => []

/-- A status text that names a terminal status, as `stage_terminal` accepts it. -/
def terminalOfText (s : String) : Option WorkflowRunStatus :=
  terminalStatuses.find? fun t => t.text = s

end WorkflowRunStatus

/-- The exceptions the store raises; a transaction that raises is rolled back. -/
inductive StoreError
  | valueError (message : String)
  | runtimeError (message : String)
  | keyError (message : String)
  | budgetExceeded (message : String)
  | integrityError (message : String)
deriving DecidableEq

def validateWorkflowRunTransition (previous current : WorkflowRunStatus) :
    Except StoreError Unit :=
  if previous.isTerminal then
    .error (.valueError "terminal workflow states are immutable")
  else if current ∉ previous.transitions then
    .error (.valueError
      ("invalid workflow state transition: " ++ previous.text ++ " -> " ++ current.text))
  else .ok ()

theorem not_isTerminal_of_validate {previous current : WorkflowRunStatus}
    (h : validateWorkflowRunTransition previous current = .ok ()) :
    previous.isTerminal = false := by
  unfold validateWorkflowRunTransition at h
  split at h
  · exact absurd h (by simp)
  · next hp => simpa using hp

def required (value name : String) : Except StoreError String :=
  if Lib.strip value = "" then .error (.valueError (name ++ " is required"))
  else .ok (Lib.strip value)

end PawFlow.WorkflowRun
