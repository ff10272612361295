import PawFlow.Core.Connection
import PawFlow.Lib.Json

/-!
# Executing one task

`_execute_task`, `_commit` and `_rollback` of the continuous executor
(`engine/_continuous_exec_run.py`), as one call from the state it finds to the state it leaves.

FlowFiles are shared, mutable objects, so queues hold references and a heap says what each
object contains at the moment. Everything the code cannot decide by itself is a parameter of
the call: what the task does in each attempt, when somebody sets the stop event, which of the
callbacks raise. Tasks run in other threads at the same time are not part of one call.
-/

namespace PawFlow.Engine

open PawFlow.Lib PawFlow.Core

/-! ## Objects and state -/

/-- A FlowFile object: one that exists when the call starts or that a task makes, or the clone
the engine makes of another one in the given attempt (attempt 0 stands for the time before the
first attempt). -/
inductive Ref
  | obj (n : Nat)
  | clone (of : Ref) (attempt uuid : Nat)
deriving DecidableEq

/-- The object is no clone made in attempt `k` or later. -/
def Ref.Before (k : Nat) : Ref → Prop
  | .obj _ => True
  | .clone _ attempt _ => attempt < k

abbrev ConnId := Nat

structure Exn where
  message : String
  typeName : String := "TaskError"
  /-- `str(getattr(error, "code", "") or "")`. -/
  code : String := ""
  /-- The attribute `retryable`, if the exception has one. -/
  retryable : Option Bool := none
deriving DecidableEq

structure FailureCheckpoint where
  taskId : String
  error : String
  code : String
  exceptionType : String
  retryable : Bool
  flowfile : Option Ref
deriving DecidableEq

structure State where
  heap : Ref → FlowFile
  conns : ConnId → Connection Ref
  exitResults : List Ref := []
  failureCheckpoints : List FailureCheckpoint := []
  discardedFlowfileErrors : List (String × String) := []
  /-- Level, source and message of every bulletin. -/
  bulletins : List (String × String × String) := []
  taskRetryCounts : PyDict String Nat := []
  /-- The tasks in state ERROR, with their message. -/
  taskErrors : PyDict String String := []
  stopEvent : Bool := false
  inFlight : PyDict String Nat := []
  /-- How many uuids were drawn. -/
  uuids : Nat := 0

/-- What a task with a `_drain_pending` slot may do to its input queues while it runs. -/
inductive QueueCall
  | drainPending
  | requeueFlowfiles (flowfiles : List Ref)

/-- What the task does in attempt `k`, and what happens outside meanwhile. -/
structure Attempt (k : Nat) where
  /-- The stop event is set by the time the loop looks at it. -/
  stopBefore : Bool := false
  /-- `authorize_workflow_task` or the progress callback raises. -/
  refused : Option Exn := none
  /-- Calls of `_drain_pending` and `_requeue_flowfiles` during `execute`. -/
  queueCalls : List QueueCall := []
  /-- What `execute` does to FlowFile objects. -/
  effect : (Ref → FlowFile) → (Ref → FlowFile) := id
  outcome : Except Exn (Option (List Ref))
  /-- The debugger's `capture_output` raises. -/
  captured : Option Exn := none
  /-- The statistics, the provenance record or the progress callback after the sends raise. -/
  closing : Option Exn := none
  /-- The progress callback raises inside the exception handler. -/
  failedProgress : Option Exn := none
  /-- The stop event is set by the end of the wait before the next attempt. -/
  stopInWait : Bool := false
  /-- A task returns objects that exist. -/
  existing : ∀ results, outcome = .ok (some results) → ∀ r ∈ results, r.Before k

structure Task where
  /-- `select_processable`, where the task has it. -/
  selectProcessable : Option ((Ref → FlowFile) → (ConnId → Connection Ref) → List ConnId →
    Except Exn (Option (Ref × ConnId))) := none
  prioritize : Option (FlowFile → Except Exn Int) := none
  hasPendingInput : Option Bool := none
  workflowRetryAttempts : Option (Int → Except Exn Int) := none
  /-- The task has a `_drain_pending` slot. -/
  drains : Bool := false

/-- An executor with its flow. -/
structure Executor where
  tasks : PyDict String Task
  /-- The registered connections, in order. -/
  connections : List ConnId
  maxRetries : Int := 0
  enabledOneShotRootTaskIds : Option (List String) := none
  /-- There is a `workflow_run_context`. -/
  workflowContext : Bool := false
  workflowReservedAttributes : List (String × String) := []

/-- What one call of `_execute_task` meets outside the executor. -/
structure Call where
  now : Int := 0
  uuid : Nat → String := fun n => toString n
  /-- A debugger raises while it pauses the task. -/
  debugger : Option Exn := none
  /-- A listener still has the request pending, or the check itself fails. -/
  httpPending : String → Bool := fun _ => true
  /-- The status `get_run` finds, where there are a workflow context and a store. -/
  workflowRun : Option (Except Exn (Option String)) := none
  attempt : (k : Nat) → Attempt k

/-- How a call ended. -/
inductive Exit
  | idle
  | stale
  | dropped
  | stopped
  | committed (attempt : Nat) (results : List Ref)
  | rolledBack
  | crashed (error : Exn)
deriving DecidableEq

namespace State

variable (s : State)

def setAttribute (r : Ref) (key value : String) : State :=
  { s with heap := Function.update s.heap r ((s.heap r).setAttribute key value) }

def setContent (r : Ref) (content : List UInt8) : State :=
  { s with heap := Function.update s.heap r { s.heap r with content } }

/-- `flowfile.clone()`. -/
def clone (w : Call) (attempt : Nat) (r : Ref) : Ref × State :=
  let copy := .clone r attempt s.uuids
  (copy, { s with
    heap := Function.update s.heap copy ((s.heap r).clone (w.uuid s.uuids) w.now)
    uuids := s.uuids + 1 })

def setConn (c : ConnId) (conn : Connection Ref) : State :=
  { s with conns := Function.update s.conns c conn }

def enqueue (w : Call) (c : ConnId) (r : Ref) : Bool × State :=
  let (accepted, conn) := (s.conns c).enqueue s.heap w.now r
  (accepted, s.setConn c conn)

def setError (taskId message : String) : State :=
  { s with taskErrors := s.taskErrors.set taskId message }

/-- The stop event once somebody else may have set it. -/
def observe (stop : Bool) : State := { s with stopEvent := s.stopEvent || stop }

/-- `flowfile.get_attribute(key)` is a nonempty text. -/
def hasAttribute (r : Ref) (key : String) : Bool :=
  match (s.heap r).getAttribute key with
  | some v => v ≠ ""
  | none => false

end State

/-- `getattr(e, "retryable", True)`. -/
def Exn.isRetryable (e : Exn) : Bool := e.retryable.getD true

/-- Use of an attribute of `None`. -/
def attributeError (name : String) : Exn :=
  { message := "'NoneType' object has no attribute '" ++ name ++ "'", typeName := "AttributeError" }

namespace Executor

variable (e : Executor) (w : Call)

def outgoing (s : State) (taskId : String) : List ConnId :=
  e.connections.filter fun c => (s.conns c).sourceId = taskId

def incoming (s : State) (taskId : String) : List ConnId :=
  e.connections.filter fun c => (s.conns c).targetId = taskId

/-! ## Commit -/

def matching (s : State) (outgoing : List ConnId) (r : Ref) : List ConnId :=
  let rel := match (s.heap r).getAttribute "route.relationship" with
    | none => "success"
    | some rel => if rel = "" then "success" else rel
  let found := outgoing.filter fun c => (s.conns c).relationship = rel
  if found.isEmpty then outgoing else found

/-- The priority the target task gives a FlowFile, `0` when it gives none. -/
def targetPriority (targetId : String) (ff : FlowFile) : Except Exn Int :=
  match (e.tasks.get? targetId).bind Task.prioritize with
  | none => .ok 0
  | some prioritize => prioritize ff

/-- One round of the fan-out loop: the result itself goes to the first connection, a clone to
each other one; what a connection refuses is put back into the source connection. -/
def send (k : Nat) (source : Option ConnId) (result : Ref) (first : Bool) (c : ConnId)
    (s : State) : State × Option Exn :=
  let (copy, s) := if first then (result, s) else s.clone w k result
  match e.targetPriority (s.conns c).targetId (s.heap copy) with
  | .error x => (s, some x)
  | .ok prio =>
    let s := if prio ≠ 0 then s.setAttribute copy "priority" (toString prio) else s
    let (accepted, s) := s.enqueue w c copy
    if accepted then (s, none)
    else match source with
      | none => (s, some (attributeError "enqueue"))
      | some src => ((s.enqueue w src copy).2, none)

/-- The fan-out loop over the matching connections. -/
def sendAll (k : Nat) (source : Option ConnId) (result : Ref) :
    Bool → List ConnId → State → State × Option Exn
  | _, [], s => (s, none)
  | first, c :: cs, s =>
    match e.send w k source result first c s with
    | (s, some x) => (s, some x)
    | (s, none) => sendAll k source result false cs s

/-- Copies of one FlowFile share a fragment identifier. -/
def tag (matching : List ConnId) (result : Ref) (s : State) : State :=
  if 1 < matching.length ∧ ¬ s.hasAttribute result "fragment.identifier" then
    { s.setAttribute result "fragment.identifier" (w.uuid s.uuids) with uuids := s.uuids + 1 }
  else s

def commitResult (k : Nat) (source : Option ConnId) (outgoing : List ConnId) (result : Ref)
    (s : State) : State × Option Exn :=
  let targets := matching s outgoing result
  e.sendAll w k source result true targets (tag w targets result s)

def commitResults (k : Nat) (source : Option ConnId) (outgoing : List ConnId) :
    List Ref → State → State × Option Exn
  | [], s => (s, none)
  | result :: results, s =>
    match e.commitResult w k source outgoing result s with
    | (s, some x) => (s, some x)
    | (s, none) => commitResults k source outgoing results s

/-- `_commit`, with the exception it raises, if any. -/
def commit (k : Nat) (taskId : String) (source : Option ConnId) (results : List Ref)
    (s : State) : State × Option Exn :=
  let outgoing := e.outgoing s taskId
  if outgoing.isEmpty then
    ({ s with exitResults := s.exitResults ++ results }, (w.attempt k).closing)
  else
    match e.commitResults w k source outgoing results s with
    | (s, some x) => (s, some x)
    | (s, none) => (s, (w.attempt k).closing)

/-! ## Rollback -/

/-- The loop over the failure connections; what they answer is not looked at. -/
def sendFailures (k : Nat) (input : Ref) : Bool → List ConnId → State → State
  | _, [], s => s
  | first, c :: cs, s =>
    let (copy, s) := if first then (input, s) else s.clone w k input
    sendFailures k input false cs (s.enqueue w c copy).2

def failureConns (s : State) (taskId : String) : List ConnId :=
  (e.outgoing s taskId).filter fun c => (s.conns c).relationship = "failure"

/-- The attributes a FlowFile on a failure connection carries. -/
def markFailed (taskId : String) (input : Ref) (error : Exn) (s : State) : State :=
  let s := s.setAttribute input "error.message" error.message
  let s := s.setAttribute input "error.task" taskId
  if error.code = "" then s else s.setAttribute input "error.code" error.code

def respondError (taskId : String) (input : Ref) (error : Exn) (s : State) : State :=
  if s.hasAttribute input "http.request.id" then
    let s := s.setAttribute input "http.response.status" "500"
    let s := s.setAttribute input "http.response.header.Content-Type" "application/json"
    let body := "\x7b\"error\": \"".toList ++ Json.escapeAscii error.message ++ "\"\x7d".toList
    let s := s.setContent input (body.map fun c => c.toNat.toUInt8)
    match (e.outgoing s taskId).filter fun c => (s.conns c).relationship = "success" with
    | [] => s
    | c :: _ => (s.enqueue w c input).2
  else s

/-- The FlowFile is given up: its checkpoint is kept with the error. -/
def discard (taskId : String) (checkpoint : Option Ref) (error : Exn) (s : State) : State :=
  let consecutive := (s.taskRetryCounts.get? taskId).getD 0 + 1
  let s := { s with
    taskRetryCounts := s.taskRetryCounts.set taskId consecutive
    discardedFlowfileErrors := s.discardedFlowfileErrors ++ [(taskId, error.message)]
    failureCheckpoints := s.failureCheckpoints ++ [{
      taskId, error := error.message
      code := if error.code = "" then "task_failed" else error.code
      exceptionType := error.typeName
      retryable := error.retryable.getD false
      flowfile := checkpoint }]
    bulletins := s.bulletins ++ [("ERROR", taskId,
      "FlowFile discarded after " ++ toString e.maxRetries ++ " retries: " ++ error.message)] }
  if 5 ≤ consecutive then s.setError taskId error.message else s

/-- `_rollback`, with the exception it raises, if any. -/
def rollback (k : Nat) (taskId : String) (input checkpoint : Option Ref) (error : Exn)
    (s : State) : State × Option Exn :=
  match e.failureConns s taskId, input with
  | [], none => (e.discard taskId checkpoint error s, none)
  | [], some ff => (e.discard taskId checkpoint error (e.respondError w taskId ff error s), none)
  | _ :: _, none => (s, some (attributeError "set_attribute"))
  | c :: cs, some ff => (sendFailures w k ff true (c :: cs) (markFailed taskId ff error s), none)

/-! ## The attempts -/

/-- `_drain_fn` and `_requeue_fn`. -/
def queueCall (taskId : String) (s : State) : QueueCall → State
  | .drainPending =>
    (e.incoming s taskId).foldl (fun s c =>
      s.setConn c (Connection.drain s.heap (s.conns c).flowfiles.length (s.conns c))) s
  | .requeueFlowfiles flowfiles =>
    match e.incoming s taskId with
    | [] => s
    | c :: _ => flowfiles.foldl (fun s r => s.setConn c ((s.conns c).requeue s.heap r)) s

/-- One attempt up to the results of `execute`; `None` counts as no results. -/
def execute (k : Nat) (taskId : String) (task : Task) (s : State) :
    State × Except Exn (List Ref) :=
  let o := w.attempt k
  match o.refused with
  | some x => (s, .error x)
  | none =>
    let s := if task.drains then o.queueCalls.foldl (e.queueCall taskId) s else s
    let s := { s with heap := o.effect s.heap }
    match o.outcome with
    | .error x => (s, .error x)
    | .ok results =>
      match o.captured with
      | some x => (s, .error x)
      | none => (s, .ok (results.getD []))

/-- One attempt: the task runs and its results are committed. -/
def tryOnce (k : Nat) (taskId : String) (task : Task) (source : Option ConnId) (s : State) :
    State × Except Exn (List Ref) :=
  match e.execute w k taskId task s with
  | (s, .error x) => (s, .error x)
  | (s, .ok results) =>
    match e.commit w k taskId source results s with
    | (s, some x) => (s, .error x)
    | (s, none) => (s, .ok results)

/-- What follows a commit: the retry count is reset, and a result may ask for a stop. -/
def afterCommit (taskId : String) (results : List Ref) (s : State) : State :=
  { s with
    taskRetryCounts := s.taskRetryCounts.set taskId 0
    stopEvent := s.stopEvent ||
      results.any fun r => (s.heap r).getAttribute "flow.stop_requested" == some "true" }

/-- The exception handler around the whole call. -/
def crash (taskId : String) (x : Exn) (s : State) : Exit × State :=
  (.crashed x, s.setError taskId x.message)

def giveUp (k : Nat) (taskId : String) (input checkpoint : Option Ref) (error : Exn)
    (s : State) : Exit × State :=
  match e.rollback w k taskId input checkpoint error s with
  | (s, none) => (.rolledBack, s)
  | (s, some x) => crash taskId x s

/-- The retry loop from attempt `k` on; `none` when `fuel` attempts do not end it. The loop
condition is `attempts <= 0 or attempt < attempts`, which is `can_retry` of the attempt before,
so a failed attempt without a retry goes straight to the rollback. -/
def attemptLoop (taskId : String) (task : Task) (source : Option ConnId)
    (input checkpoint : Option Ref) (attempts : Int) : Nat → Nat → State → Option (Exit × State)
  | 0, _, _ => none
  | fuel + 1, k, s =>
    let s := s.observe (w.attempt k).stopBefore
    if s.stopEvent then some (.stopped, s)
    else
      match e.tryOnce w k taskId task source s with
      | (s, .ok results) => some (.committed k results, afterCommit taskId results s)
      | (s, .error x) =>
        match (w.attempt k).failedProgress with
        | some y => some (crash taskId y s)
        | none =>
          if (attempts ≤ 0 ∨ k < attempts) ∧ x.isRetryable then
            let s := s.observe (w.attempt k).stopInWait
            if s.stopEvent then some (.stopped, s)
            else attemptLoop taskId task source input checkpoint attempts fuel (k + 1) s
          else some (e.giveUp w k taskId input checkpoint x s)

/-! ## The call -/

inductive Taken
  | nothing
  | selfTriggering
  | input (flowfile : Ref) (source : ConnId)
deriving DecidableEq

/-- The first FlowFile the given connections yield. -/
def dequeueFirst : List ConnId → State → Taken × State
  | [], s => (.nothing, s)
  | c :: cs, s =>
    match (s.conns c).dequeue s.heap with
    | (some r, conn) => (.input r c, s.setConn c conn)
    | (none, conn) => dequeueFirst cs (s.setConn c conn)

/-- The first part of `_execute_task`: the input is removed from its queue. -/
def takeInput (taskId : String) (task : Task) (s : State) : Except Exn Taken × State :=
  let incoming := e.incoming s taskId
  let consumable := incoming.filter fun c => !(s.conns c).paused
  if incoming.isEmpty then
    let enabled := match e.enabledOneShotRootTaskIds with
      | none => true
      | some ids => ids.contains taskId
    if task.hasPendingInput = some true && enabled then (.ok .selfTriggering, s)
    else (.ok .nothing, s)
  else
    match task.selectProcessable with
    | none =>
      let (taken, s) := dequeueFirst consumable s
      (.ok taken, s)
    | some select =>
      match select s.heap s.conns consumable with
      | .error x => (.error x, s)
      | .ok none => (.ok .nothing, s)
      | .ok (some (r, c)) =>
        match (s.conns c).remove s.heap r with
        | (true, conn) => (.ok (.input r c), s.setConn c conn)
        | (false, _) => (.ok .nothing, s)

/-- The request of an HTTP FlowFile is answered already, or its listener is gone. -/
def isStale (s : State) (input : Option Ref) : Bool :=
  match input with
  | none => false
  | some r =>
    match (s.heap r).getAttribute "http.request.id" with
    | none => false
    | some id => id ≠ "" && !w.httpPending id

/-- The reserved attributes of the workflow are restored. -/
def restoreReserved (input : Option Ref) (s : State) : State :=
  match input with
  | none => s
  | some r => e.workflowReservedAttributes.foldl (fun s a => s.setAttribute r a.1 a.2) s

/-- The clone kept as `failure_checkpoint`. -/
def keepCheckpoint (input : Option Ref) (s : State) : Option Ref × State :=
  match input with
  | none => (none, s)
  | some r =>
    let (copy, s) := s.clone w 0 r
    (some copy, s)

def attemptsBound (task : Task) : Except Exn Int :=
  match task.workflowRetryAttempts with
  | none => .ok e.maxRetries
  | some policy => if e.workflowContext then policy e.maxRetries else .ok e.maxRetries

/-- The checkpoint is taken and the attempts begin. -/
def start (fuel : Nat) (taskId : String) (task : Task) (input : Option Ref)
    (source : Option ConnId) (s : State) : Option (Exit × State) :=
  let (checkpoint, s) := keepCheckpoint w input (e.restoreReserved input s)
  match e.attemptsBound task with
  | .error x => some (crash taskId x s)
  | .ok attempts => e.attemptLoop w taskId task source input checkpoint attempts fuel 1 s

/-- `_execute_task` once it has an input, or triggers itself. -/
def process (fuel : Nat) (taskId : String) (task : Task) (input : Option Ref)
    (source : Option ConnId) (s : State) : Option (Exit × State) :=
  match w.debugger with
  | some x => some (crash taskId x s)
  | none =>
    if isStale w s input then some (.stale, s)
    else
      match w.workflowRun with
      | none => e.start w fuel taskId task input source s
      | some (.error x) => some (crash taskId x s)
      | some (.ok status) =>
        if status = some "running" then e.start w fuel taskId task input source s
        else some (.dropped, s.observe true)

/-- `_execute_task`; `none` when `fuel` attempts do not end it. -/
def executeTask (fuel : Nat) (taskId : String) (s : State) : Option (Exit × State) :=
  let ended : Option (Exit × State) :=
    match e.tasks.get? taskId with
    | none => some (.idle, s)
    | some task =>
      match e.takeInput taskId task s with
      | (.error x, s) => some (crash taskId x s)
      | (.ok .nothing, s) => some (.idle, s)
      | (.ok .selfTriggering, s) => e.process w fuel taskId task none none s
      | (.ok (.input r c), s) => e.process w fuel taskId task (some r) (some c) s
  ended.map fun (exit, s) =>
    (exit, { s with inFlight := s.inFlight.set taskId ((s.inFlight.get? taskId).getD 1 - 1) })

end Executor

end PawFlow.Engine
