import PawFlow.Agui.Batches

/-!
# Turns

Admission, dispatch, the running lease, fencing and cancellation: the transactions of
`core/_a2a_turn_acquire.py` and `cancel_agui_run`. `step` puts all transactions of the turn
machine together; a call of several transactions contributes each of them, so every
interleaving of calls by any number of workers is a run of `step`.
-/

namespace PawFlow.Agui

open PawFlow.Lib

/-! ## Texts of terminal events -/

def runFinishedEvent : String := "\x7b\"type\": \"RUN_FINISHED\"\x7d"

def runLostEvent : String :=
  "\x7b\"type\": \"RUN_ERROR\", \"message\": \"run_lost\", \"code\": \"run_lost\"\x7d"

def cancelledEvent : String :=
  "\x7b\"type\": \"RUN_ERROR\", \"message\": \"cancelled\", \"code\": \"cancelled\"\x7d"

/-- `terminal_event_json`: the text a worker presents and the object `json.loads` reads
from it, if it is one. -/
structure TerminalEvent where
  text : String
  fields : Option (List (String × Json))

/-- The check of `terminal_event_json` against the outcome. -/
def checkTerminalEvent (outcome : String) (event : Option TerminalEvent) : Except Error Unit :=
  match event with
  | none => .ok ()
  | some e =>
    match e.fields with
    | none => .error (.valueError "terminal_event_json must be a JSON object")
    | some fields =>
      let finished := (PyDict.get? fields "type").any (Json.isStr "RUN_FINISHED")
      if outcome = "success" ∧ ¬ finished then
        .error (.valueError "a success terminal must journalize RUN_FINISHED")
      else if outcome ≠ "success" ∧ finished then
        .error (.valueError "RUN_FINISHED is reserved for success terminals")
      else .ok ()

/-- The event `finish_agui_turn` journalizes; a frozen batch adds its token to it. -/
def finishEvent (outcome : String) (event : Option TerminalEvent) (batchToken : Option Token) :
    String :=
  let error : List (String × Json) := [("type", .str "RUN_ERROR"), ("code", .str outcome)]
  let fields : List (String × Json) :=
    match event.bind TerminalEvent.fields with
    | some fields => fields
    | none => if outcome = "success" then [("type", .str "RUN_FINISHED")] else error
  match batchToken with
  | some token => (Json.obj (PyDict.set fields "batch_token" (.str token.text))).compact
  | none =>
    match event with
    | some e => e.text
    | none => if outcome = "success" then runFinishedEvent else (Json.obj error).compact

namespace State

/-! ## Acquire -/

/-- The parent of a new run: a complete batch is consumed by the run that names it, pending
calls without a batch must be named, and a parent that names nothing is refused. -/
def bindParent (c : ContextId) (parentRunId : String) (s : State) : Except Error State :=
  match s.batches.rows.find? fun b => b.contextId = c ∧ b.state ≠ .consumed with
  | some b =>
    if b.state ≠ .complete then .error (.batchIncomplete b.runId)
    else if parentRunId ≠ b.runId then .error .parentMismatch
    else .ok (s.consumeBatch b.key)
  | none =>
    let parents := (s.calls.rows.filter fun x => x.contextId = c ∧ x.state = .emitted).map
      Call.runId
    if parents = [] then
      if parentRunId ≠ "" then .error .parentMismatch else .ok s
    else if parentRunId ∉ parents then .error .parentMismatch
    else .ok s

def nextToken (s : State) (c : ContextId) : Nat :=
  ((s.fences.get? c).map Fence.token).getD 0 + 1

/-- The arguments of an admission. -/
structure AcquireArgs where
  thread : ThreadKey
  generation : Int
  runId : String
  bodyHash : String
  payloadJson : String := ""
  parentRunId : String := ""

namespace AcquireArgs

@[reducible] def contextId (a : AcquireArgs) : ContextId := ⟨a.thread, a.generation⟩

@[reducible] def key (a : AcquireArgs) : RunKey := (a.contextId, a.runId)

end AcquireArgs

/-- The admission row a new run gets. -/
def AcquireArgs.admission (a : AcquireArgs) (token : Nat) (now : Time) : Admission where
  contextId := a.contextId
  runId := a.runId
  bodyHash := a.bodyHash
  parentRunId := a.parentRunId
  fenceToken := token
  payloadJson := a.payloadJson
  createdAt := now

/-- Reserve the admission, open the journal, advance the fence and mint the run's handle. -/
def reserve (a : AcquireArgs) (now : Time) (draw : Draw) (s : State) :
    Except Error (Admission × State) :=
  let token := s.nextToken a.contextId
  let admission := a.admission token now
  match s.admissions.insert? admission with
  | none => .error (.threadRotated a.generation)
  | some admissions =>
    let s := { s with admissions, fences := s.fences.upsert ⟨a.contextId, token⟩ }
    (s.insertRun a.key now).bind fun s =>
    (s.ensureRunTokens a.key draw).bind fun s => .ok (admission, s)

/-- The transaction of `acquire_agui_turn`: the admission and whether it is a replay. -/
def acquire (a : AcquireArgs) (now : Time) (draw : Draw) (s : State) :
    Except Error ((Admission × Bool) × State) :=
  if a.runId = "" ∨ a.bodyHash = "" then
    .error (.valueError "run_id and body_hash are required")
  else
    match s.threads.get? a.thread with
    | none => .error (.threadRotated 0)
    | some thread =>
      if a.generation < thread.closedBeforeGeneration ∨ a.generation ≠ thread.generation then
        .error (.threadRotated thread.generation)
      else if (s.contexts.get? a.contextId).isNone then .error (.threadRotated thread.generation)
      else
        match s.admissions.get? a.key with
        | some row =>
          if row.bodyHash ≠ a.bodyHash then .error .idempotencyConflict
          else .ok ((row, true), s)
        | none =>
          if s.tombstones.any fun t => t.contextId = a.contextId ∧ t.runId = a.runId then
            .error .idempotencyExpired
          else
            match s.activeAdmission a.contextId with
            | some active => .error (.turnBusy active.runId)
            | none =>
              (s.bindParent a.contextId a.parentRunId).bind fun s =>
              (s.reserve a now draw).bind fun (admission, s) => .ok ((admission, false), s)

/-! ## Dispatch and lease -/

/-- `state='reserved' OR (state='dispatching' AND claim_deadline<=?)`. -/
def dispatchable (now : Time) (a : Admission) : Bool :=
  a.state = .reserved ∨ a.state = .dispatching ∧ a.claimDeadline ≤ now

def dispatchedTo (owner : String) (deadline : Time) (a : Admission) : Admission :=
  { a with state := .dispatching, claimOwner := owner, claimDeadline := deadline }

theorem dispatchedTo_key (owner : String) (deadline : Time) (a : Admission) :
    (dispatchedTo owner deadline a).key = a.key := rfl

/-- `claim_agui_dispatch`: the oldest dispatchable admission. -/
def claimDispatch (owner : String) (deadlineSeconds now : Time) (s : State) :
    Except Error (Option Admission × State) :=
  if owner = "" then .error (.valueError "owner is required")
  else
    match ((s.admissions.rows.filter (dispatchable now)).insertionSort
        fun a b => a.createdAt ≤ b.createdAt).head? with
    | none => .ok (none, s)
    | some a =>
      let deadline := now + max second deadlineSeconds
      .ok (some (dispatchedTo owner deadline a),
        s.updateAdmission a.key (dispatchedTo owner deadline) (dispatchedTo_key owner deadline))

def acceptedRow (a : Admission) : Admission :=
  { a with state := .accepted, payloadJson := "", claimOwner := "", claimDeadline := 0 }

theorem acceptedRow_key (a : Admission) : (acceptedRow a).key = a.key := rfl

/-- `ack_agui_dispatch`. -/
def ackDispatch (k : RunKey) (owner : String) (s : State) : Except Error (Bool × State) :=
  match s.admissions.get? k with
  | none => .ok (false, s)
  | some a =>
    if a.state ≠ .reserved ∧ a.state ≠ .dispatching then .ok (true, s)
    else if a.state ≠ .dispatching ∨ a.claimOwner ≠ owner then .ok (false, s)
    else
      .ok (true, s.updateAdmission k acceptedRow acceptedRow_key)

def startedBy (worker : String) (now : Time) (a : Admission) : Admission :=
  { a with state := .running, leaseOwner := worker, leaseHeartbeatAt := now }

theorem startedBy_key (worker : String) (now : Time) (a : Admission) :
    (startedBy worker now a).key = a.key := rfl

/-- The same, taken over with what was left of the dispatch cleared. -/
def adoptedBy (worker : String) (now : Time) (a : Admission) : Admission :=
  { startedBy worker now a with claimOwner := "", claimDeadline := 0, payloadJson := "" }

theorem adoptedBy_key (worker : String) (now : Time) (a : Admission) :
    (adoptedBy worker now a).key = a.key := rfl

/-- `adopt_agui_run`. -/
def adopt (k : RunKey) (worker : String) (now : Time) (s : State) : Except Error (Nat × State) :=
  if worker = "" then .error (.valueError "worker is required")
  else
    match s.admissions.get? k with
    | none => .error .fenceLost
    | some a =>
      if a.state = .running then
        if a.leaseOwner ≠ worker then .error .fenceLost else .ok (a.fenceToken, s)
      else if ¬ a.isActive then .error .fenceLost
      else
        .ok (a.fenceToken,
          s.updateAdmission k (adoptedBy worker now) (adoptedBy_key worker now))

/-- `start_agui_turn`. -/
def start (k : RunKey) (worker : String) (now : Time) (s : State) : Except Error (Nat × State) :=
  if worker = "" then .error (.valueError "worker is required")
  else
    match s.admissions.get? k with
    | none => .error .fenceLost
    | some a =>
      if a.state ≠ .accepted then .error .fenceLost
      else
        .ok (a.fenceToken,
          s.updateAdmission k (startedBy worker now) (startedBy_key worker now))

/-- The admission row after a heartbeat. -/
def heartbeatAt (now : Time) (a : Admission) : Admission := { a with leaseHeartbeatAt := now }

theorem heartbeatAt_key (now : Time) (a : Admission) : (heartbeatAt now a).key = a.key := rfl

/-- `heartbeat_agui_turn`. -/
def heartbeat (k : RunKey) (worker : String) (now : Time) (s : State) :
    Except Error (Bool × State) :=
  match s.admissions.get? k with
  | none => .ok (false, s)
  | some a =>
    if a.state ≠ .running ∨ a.leaseOwner ≠ worker then .ok (false, s)
    else .ok (true, s.updateAdmission k (heartbeatAt now) (heartbeatAt_key now))

/-- `check_agui_fence`. -/
def checkFence (s : State) (c : ContextId) (token : Nat) : Bool :=
  (s.fences.get? c).any fun f => f.token = token

/-! ## Leaving the lease -/

/-- The admission row of a run that is over. -/
def leftWith (state : AdmissionState) (outcome : String) (a : Admission) : Admission :=
  { a with state, outcome, leaseOwner := "", leaseHeartbeatAt := 0 }

theorem leftWith_key (state : AdmissionState) (outcome : String) (a : Admission) :
    (leftWith state outcome a).key = a.key := rfl

/-- Leaving the lease: the admission adopts the outcome and the fence is advanced. -/
def exitLease (k : RunKey) (state : AdmissionState) (outcome : String) (s : State) : State :=
  (s.updateAdmission k (leftWith state outcome) (leftWith_key state outcome)).bumpFence k.1

/-- What follows once the journal holds the outcome; the pending calls of an unsuccessful run
are abandoned. -/
def leave (k : RunKey) (state : AdmissionState) (outcome : String) (s : State) : State :=
  { s.exitLease k state outcome with
    calls := if outcome ≠ "success" then (s.abandonCalls k).calls else s.calls }

structure FinishArgs where
  worker : String
  outcome : String
  terminalEvent : Option TerminalEvent := none
  batchDeadlineSeconds : Time := 900 * second

/-- T-freeze, when it applies: a managed success with pending calls and an active journal. -/
def freezeIfManaged (mac : Mac) (k : RunKey) (a : FinishArgs) (now : Time) (draw : Draw)
    (s : State) : Except Error (Option Token × State) :=
  if a.outcome = "success" ∧ s.managed k.1 ∧ s.pendingCalls k ≠ [] ∧
      (s.runs.get? k).any fun r => ¬ r.terminal then
    (s.freezeBatch mac k a.batchDeadlineSeconds now draw).bind fun (token, s) =>
      .ok (some token, s)
  else .ok (none, s)

/-- `finish_agui_turn`. -/
def finish (mac : Mac) (k : RunKey) (a : FinishArgs) (now : Time) (draw : Draw) (s : State) :
    Except Error (String × State) :=
  if a.outcome = "" then .error (.valueError "outcome is required")
  else
    (checkTerminalEvent a.outcome a.terminalEvent).bind fun _ =>
      match s.admissions.get? k with
      | none => .error .fenceLost
      | some row =>
        if row.state ≠ .running ∨ row.leaseOwner ≠ a.worker then .error .fenceLost
        else
          (s.freezeIfManaged mac k a now draw).bind fun (token, s) =>
          (s.terminalizeRun k a.outcome (finishEvent a.outcome a.terminalEvent token) now).bind
            fun (effective, s) => .ok (effective, s.leave k .terminal effective)

/-- One turn of the loop of `orphan_expired_agui_turns`. -/
def orphanOne (k : RunKey) (now : Time) (s : State) : Except Error State :=
  match s.runs.get? k with
  | some run =>
    if run.terminal then .ok (s.leave k .terminal run.outcome)
    else
      (s.terminalizeRun k "run_lost" runLostEvent now).bind fun (_, s) =>
        .ok (s.leave k .orphaned "run_lost")
  | none => .error .runUnknown

def orphanAll (now : Time) : List RunKey → State → Except Error State
  | [], s => .ok s
  | k :: rest, s => (s.orphanOne k now).bind fun s => orphanAll now rest s

/-- The running turns whose heartbeat is too old. -/
def staleRunning (cutoff : Time) (s : State) : List RunKey :=
  (s.admissions.rows.filter fun a => a.state = .running ∧ a.leaseHeartbeatAt ≤ cutoff).map
    Admission.key

/-- `orphan_expired_agui_turns`. -/
def orphanExpired (timeout now : Time) (s : State) : Except Error (Nat × State) :=
  let stale := s.staleRunning (now - max second timeout)
  (s.orphanAll now stale).bind fun s => .ok (stale.length, s)

/-- What a cancellation clears besides the lease. -/
def clearDispatch (a : Admission) : Admission :=
  { a with claimOwner := "", claimDeadline := 0, payloadJson := "" }

theorem clearDispatch_key (a : Admission) : (clearDispatch a).key = a.key := rfl

/-- `cancel_agui_run`: the outcome and whether the run was over already. -/
def cancel (mac : Mac) (token : Token) (scope : Scope) (now : Time) (s : State) :
    Except Error ((String × Bool) × State) :=
  (s.resolveRunToken mac token .cancel scope).bind fun k =>
    match s.admissions.get? k with
    | none => .error .tokenInvalid
    | some a =>
      if ¬ a.isActive then .ok ((a.outcome, true), s)
      else
        (s.terminalizeRun k "cancelled" cancelledEvent now).bind fun (effective, s) =>
          .ok ((effective, false),
            (s.updateAdmission k clearDispatch clearDispatch_key).leave k .terminal effective)

/-! ## The call ledger -/

structure CallArgs where
  toolCallId : String
  tool : String := ""
  catalogueId : String := ""
  catalogueVersion : String := ""

/-- `record_agui_call`. -/
def recordCall (k : RunKey) (a : CallArgs) (now : Time) (s : State) : Except Error (Unit × State) :=
  if a.toolCallId = "" then .error (.valueError "tool_call_id is required")
  else
    match s.admissions.get? k with
    | none => .error (.runTerminal "missing")
    | some admission =>
      if admission.state ≠ .running then
        .error (.runTerminal
          (if admission.outcome ≠ "" then admission.outcome else admission.state.text))
      else if s.managed k.1 ∧ (a.catalogueId = "" ∨ a.catalogueVersion = "") then
        .error (.valueError
          ("managed publications require the call's full catalogue identity " ++
            "(catalogue_id and catalogue_version)"))
      else if (s.runs.get? k).isNone then .error .integrityError
      else
        .ok ((), { s with
          calls := s.calls.insertIgnore
            { contextId := k.1, runId := k.2, toolCallId := a.toolCallId, tool := a.tool
              catalogueId := a.catalogueId, catalogueVersion := a.catalogueVersion
              createdAt := now } })

/-! ## Steps -/

/-- One transaction of the turn machine. -/
inductive Op
  | ensureThread (k : ThreadKey)
  | resolveContext (p : Publication) (k : ThreadKey) (generation : Int) (digest : String)
  | clearCleanup (k : ThreadKey) (marker : String) (generation : Option Int)
  | rotate (p : Publication) (k : ThreadKey) (expectedGeneration : Int) (closeGeneration : Bool)
  | reserveSweep (minInterval : Time)
  | savePublication (p : Publication)
  | openRun (k : RunKey)
  | acquireSubscriber (k : RunKey) (afterSeq : Int)
  | append (k : RunKey) (a : AppendArgs)
  | prune (retention : Time)
  | acquire (a : AcquireArgs)
  | claimDispatch (owner : String) (deadlineSeconds : Time)
  | ackDispatch (k : RunKey) (owner : String)
  | adopt (k : RunKey) (worker : String)
  | start (k : RunKey) (worker : String)
  | heartbeat (k : RunKey) (worker : String)
  | finish (k : RunKey) (a : FinishArgs)
  | orphanExpired (timeout : Time)
  | cancel (token : Token) (scope : Scope)
  | recordCall (k : RunKey) (a : CallArgs)
  | claimBatch (token : Token) (claimId : String) (leaseSeconds : Time) (scope : Scope)
  | renewBatch (token : Token) (leaseSeconds : Time) (scope : Scope)
  | beginCall (receipt : Token) (catalogueId catalogueVersion : String) (scope : Scope)
  | depositCall (receipt : Token) (kind payloadJson : String) (scope : Scope)
  | expireNext
  | pruneKeys

/-- An empty store. -/
def init : State := {}

/-- A transaction together with the clock and the random draws it reads. -/
structure Tx where
  op : Op
  now : Time := 0
  draw : Draw := {}

variable (mac : Mac)

/-- The store after a transaction; one that raises before its commit leaves it as it was. -/
def perform (s : State) (x : Tx) : State :=
  match x.op with
  | .ensureThread k => settle s (s.ensureThread k)
  | .resolveContext p k generation digest =>
    settle s (s.resolveContext p k generation digest x.now)
  | .clearCleanup k marker generation => settle s (s.clearCleanup k marker generation)
  | .rotate p k expected close => settle s (s.rotate p k expected close)
  | .reserveSweep minInterval => settle s (s.reserveSweep minInterval x.now)
  | .savePublication p => settle s (s.savePublication p)
  | .openRun k => settle s (s.openRun k x.now)
  | .acquireSubscriber k afterSeq => settle s (s.acquireSubscriber k afterSeq x.now)
  | .append k a => settle s (s.append k a x.now)
  | .prune retention => settle s (s.prune retention x.now)
  | .acquire a => settle s (s.acquire a x.now x.draw)
  | .claimDispatch owner deadline => settle s (s.claimDispatch owner deadline x.now)
  | .ackDispatch k owner => settle s (s.ackDispatch k owner)
  | .adopt k worker => settle s (s.adopt k worker x.now)
  | .start k worker => settle s (s.start k worker x.now)
  | .heartbeat k worker => settle s (s.heartbeat k worker x.now)
  | .finish k a => settle s (s.finish mac k a x.now x.draw)
  | .orphanExpired timeout => settle s (s.orphanExpired timeout x.now)
  | .cancel token scope => settle s (s.cancel mac token scope x.now)
  | .recordCall k a => settle s (s.recordCall k a x.now)
  | .claimBatch token claimId lease scope =>
    settle s (s.claimBatch mac token claimId lease scope x.now)
  | .renewBatch token lease scope => settle s (s.renewBatch mac token lease scope x.now)
  | .beginCall receipt catalogueId catalogueVersion scope =>
    settle s (s.beginCall mac receipt catalogueId catalogueVersion scope x.now)
  | .depositCall receipt kind payloadJson scope =>
    settle s (s.depositCall mac receipt kind payloadJson scope x.now)
  | .expireNext => settle s (s.expireNext x.now)
  | .pruneKeys => settle s s.pruneKeys

def step (s : State) (x : Tx) : Option State := some (s.perform mac x)

end State

end PawFlow.Agui
