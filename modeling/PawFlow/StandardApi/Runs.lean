import PawFlow.StandardApi.Store

/-!
# Runs, leases and client tool batches

Admission (`find_active_api_run`, `acquire_api_session`), the end of a run
(`finalize_api_run`, `fail_api_run`, `abandon_expired_api_runs` and the lease check inside
`acquire_api_session`), its heartbeat, and the settlement of client tool batches.

Client tool definitions arrive as the lookup `schema` from a tool name to the fingerprint of
its definition, results as pairs of an id and the fingerprint of the whole result.
-/

namespace PawFlow.StandardApi

open PawFlow.Lib

namespace State

/-! ## Admission -/

/-- `DELETE FROM api_export_active_admissions WHERE replay_until<?`. -/
def pruneAdmissions (now : Time) (s : State) : State :=
  { s with admissions := s.admissions.delete fun a => a.replayUntil < now }

/-- The reservation of a request, when its run and its session are running. -/
def activeAdmission (key : AdmissionKey) (now : Time) (s : State) : Option (Session × Run) :=
  match s.admissions.get? key with
  | none => none
  | some a =>
    match s.runs.get? a.runId, s.sessions.get? a.sessionId with
    | some r, some x =>
      if now ≤ a.replayUntil ∧ r.status = .running ∧ x.state = .running ∧
          now < x.leaseDeadline then some (x, r) else none
    | _, _ => none

/-- `find_active_api_run`. -/
def findActive (key : AdmissionKey) (now : Time) (s : State) :
    Except Error (Option (Session × Run) × State) :=
  let s := s.pruneAdmissions now
  .ok (s.activeAdmission key now, s)

inductive AcquireReply
  | notFound | unavailable | expired | conflict
  | stale (x : Session)
  | busy (x : Session)
  | attached (x : Session) (r : Run)
  | acquired (x : Session) (r : Run)
deriving DecidableEq

/-- The row of a run whose lease expired. -/
def abandonedRun (r : Run) : Run := { r with status := .abandoned }

theorem abandonedRun_runId (r : Run) : (abandonedRun r).runId = r.runId := rfl

/-- The row of a session whose run failed. -/
def quarantinedSession (x : Session) : Session :=
  { x with
    state := .quarantined
    leaseId := ""
    leaseDeadline := 0 }

theorem quarantinedSession_sessionId (x : Session) :
    (quarantinedSession x).sessionId = x.sessionId := rfl

/-- The lease check inside `acquire_api_session`: it abandons the run, and leaves the tool
batches as they are. -/
def expireLease (sessionId : String) (s : State) : State :=
  { s with
    runs := s.runs.update (fun r => r.sessionId = sessionId ∧ r.status = .running) abandonedRun
      abandonedRun_runId
    sessions := s.sessions.update (fun x => x.sessionId = sessionId) quarantinedSession
      quarantinedSession_sessionId
    admissions := s.admissions.delete fun a => a.sessionId = sessionId }

structure AcquireArgs where
  sessionId : String
  expectedHeadHash : String
  expectedItemCount : Int
  runId : String
  requestId : String
  bodyFingerprint : String
  leaseDuration : Time := 120 * second
  replayWindow : Time := 15 * second
  /-- What `secrets.token_urlsafe` draws. -/
  token : String

namespace AcquireArgs

/-- The reservation the request asks for, in a session of namespace `ns`. -/
def key (a : AcquireArgs) (ns : Namespace) : AdmissionKey :=
  ⟨ns, a.expectedHeadHash, a.expectedItemCount, a.bodyFingerprint⟩

def leaseId (a : AcquireArgs) : String := "apil_" ++ a.token

/-- The row of the new run. -/
def run (a : AcquireArgs) (now : Time) : Run :=
  { runId := a.runId, sessionId := a.sessionId, leaseId := a.leaseId
    parentHeadHash := a.expectedHeadHash, parentItemCount := a.expectedItemCount
    bodyFingerprint := a.bodyFingerprint, replayUntil := now + a.replayWindow }

/-- The row of its reservation. -/
def admission (a : AcquireArgs) (ns : Namespace) (now : Time) : Admission :=
  ⟨a.key ns, a.sessionId, a.runId, now + a.replayWindow⟩

/-- The row of the session it runs on. -/
def leasedSession (a : AcquireArgs) (now : Time) (x : Session) : Session :=
  { x with
    state := .running
    leaseId := a.leaseId
    leaseDeadline := now + a.leaseDuration }

theorem leasedSession_sessionId (a : AcquireArgs) (now : Time) (x : Session) :
    (a.leasedSession now x).sessionId = x.sessionId := rfl

end AcquireArgs

def leased (publicationId keyId : String) (now : Time) (x : Session) : Bool :=
  x.ns.publicationId = publicationId ∧ x.ns.keyId = keyId ∧ x.state = .running ∧
    now < x.leaseDeadline

def hasPendingBatch (s : State) (sessionId headHash : String) (itemCount : Int) : Bool :=
  s.batches.rows.any fun b => b.sessionId = sessionId ∧ b.visibleHeadHash = headHash ∧
    b.itemCount = itemCount ∧ b.state = .pending

/-- The reservation row, the lease and the run of a new admission. -/
def reserveRun (a : AcquireArgs) (x : Session) (now : Time) (s : State) :
    Except Error (AcquireReply × State) :=
  -- `INSERT OR IGNORE`: both the key and the run id are unique
  if (s.admissions.get? (a.key x.ns)).isSome ∨ s.admissions.rows.any fun r => r.runId = a.runId then
    match (s.admissions.get? (a.key x.ns)).bind fun r => (s.runs.get? r.runId).bind fun run =>
        if run.status = .running ∧ now ≤ r.replayUntil then
          (s.sessions.get? r.sessionId).map fun y => (y, run)
        else none with
    | some (y, run) => .ok (.attached y run, s)
    | none => .error (.runtimeError "Conflicting active API admission reservation")
  else
    let admissions := s.admissions.insertIgnore (a.admission x.ns now)
    let free : Session → Bool := fun y => y.sessionId = a.sessionId ∧
      y.state ∈ [.idle, .waitingTool] ∧ y.visibleHeadHash = a.expectedHeadHash ∧
      y.itemCount = a.expectedItemCount
    if s.sessions.rows.all fun y => !free y then
      .ok (.conflict, { s with admissions := admissions.delete fun r => r.runId = a.runId })
    else
      match s.runs.insert? (a.run now) with
      | none => .error .integrityError
      | some runs =>
        .ok (.acquired (a.leasedSession now x) (a.run now), { s with
          admissions
          sessions := s.sessions.update free (a.leasedSession now)
            (a.leasedSession_sessionId now)
          runs })

/-- `acquire_api_session`. -/
def acquire (a : AcquireArgs) (now : Time) (s : State) : Except Error (AcquireReply × State) :=
  if a.sessionId = "" ∨ a.runId = "" ∨ a.requestId = "" ∨ a.bodyFingerprint = "" then
    .error (.valueError "Session, run, request, and body identities are required")
  else if a.leaseDuration ≤ 0 ∨ a.replayWindow < 0 then
    .error (.valueError "Lease and replay durations are invalid")
  else
    match s.sessions.get? a.sessionId with
    | none => .ok (.notFound, s)
    | some x =>
      if x.state = .running then
        if x.leaseDeadline ≤ now then .ok (.unavailable, s.expireLease a.sessionId)
        else
          match s.runs.rows.find? fun r => r.sessionId = a.sessionId ∧ r.status = .running ∧
              r.parentHeadHash = a.expectedHeadHash ∧ r.parentItemCount = a.expectedItemCount ∧
              r.bodyFingerprint = a.bodyFingerprint ∧ now ≤ r.replayUntil with
          | some r => .ok (.attached x r, s)
          | none => .ok (.busy x, s)
      else if x.state ∉ [.idle, .waitingTool] then .ok (.unavailable, s)
      else if x.state = .idle ∧ x.expiresAt ≤ now then
        .ok (.expired, s.closeSessions
          (fun y => y.sessionId = a.sessionId ∧ y.state = .idle) .expired id)
      else if x.visibleHeadHash ≠ a.expectedHeadHash ∨ x.itemCount ≠ a.expectedItemCount then
        .ok (.stale x, s)
      else if x.state = .waitingTool ∧
          ¬ s.hasPendingBatch a.sessionId a.expectedHeadHash a.expectedItemCount then
        .ok (.unavailable, s)
      else
        (s.validateNamespace x.ns).bind fun publication =>
          let s := s.pruneAdmissions now
          match s.activeAdmission (a.key x.ns) now with
          | some (y, r) => .ok (.attached y r, s)
          | none =>
            match s.runs.get? a.runId with
            | some existing =>
              if existing.sessionId = a.sessionId ∧
                  existing.bodyFingerprint = a.bodyFingerprint ∧
                  existing.status = .running then .ok (.attached x existing, s)
              else .error (.valueError "run_id is already used by another API request")
            | none =>
              let quota := publication.apiMaxConcurrentRunsPerKey
              let active := s.sessions.count (leased x.ns.publicationId x.ns.keyId now)
              if quota < 1 ∨ quota ≤ active then .error .runQuotaExceeded
              else s.reserveRun a x now

def renewedSession (deadline : Time) (x : Session) : Session := { x with leaseDeadline := deadline }

theorem renewedSession_sessionId (deadline : Time) (x : Session) :
    (renewedSession deadline x).sessionId = x.sessionId := rfl

/-- `heartbeat_api_run`: the deadline that passed is not looked at. -/
def heartbeat (runId leaseId : String) (leaseDuration now : Time) (s : State) :
    Except Error (Bool × State) :=
  let ours : Session → Bool := fun x => x.leaseId = leaseId ∧ x.state = .running
  .ok ((s.runs.rows.any fun r => r.runId = runId ∧ r.leaseId = leaseId ∧ r.status = .running) &&
      s.sessions.rows.any ours,
    { s with
      sessions := s.sessions.update ours (renewedSession (now + leaseDuration))
        (renewedSession_sessionId (now + leaseDuration)) })

/-! ## Client tool batches -/

/-- A client tool call as a run reports it. -/
structure ClientCall where
  id : String
  name : String
  argumentsJson : String
deriving DecidableEq

/-- `_pending_tool_rows`, from position `position` on. -/
def pendingRows (schema : String → Option String) (batchId : String) :
    (position : Nat) → (seen : List String) → List ClientCall → Except Error (List ToolCall)
  | _, _, [] => .ok []
  | position, seen, call :: calls =>
    let callId := strip call.id
    let name := strip call.name
    if callId = "" ∨ 256 < callId.length ∨ name = "" then
      .error (.valueError "Client tool call id and name are required")
    else if callId ∈ seen then
      .error (.valueError ("Duplicate client tool call id: " ++ callId))
    else
      match schema name with
      | none => .error (.valueError ("Client tool call '" ++ name ++ "' has no matching definition"))
      | some fingerprint =>
        (pendingRows schema batchId (position + 1) (callId :: seen) calls).map
          ({ batchId, callId, position, toolName := name
             argumentsJson := call.argumentsJson, schemaFingerprint := fingerprint } :: ·)

def pendingToolRows (schema : String → Option String) (batchId : String)
    (calls : List ClientCall) : Except Error (List ToolCall) :=
  if 128 < calls.length then .error (.valueError "A client tool batch cannot exceed 128 calls")
  else pendingRows schema batchId 0 [] calls

/-- The results of a request, their ids normalised. -/
def normalizedResults : (seen : List String) → List (String × String) →
    Except Error (List (String × String))
  | _, [] => .ok []
  | seen, (id, fingerprint) :: results =>
    let callId := strip id
    if callId = "" then .error (.valueError "Client tool result id is required")
    else if callId ∈ seen then
      .error (.valueError ("Duplicate client tool result id: " ++ callId))
    else (normalizedResults (callId :: seen) results).map ((callId, fingerprint) :: ·)

def settledCall (results : List (String × String)) (now : Time) (c : ToolCall) : ToolCall :=
  { c with
    state := .settled
    resultFingerprint := (results.lookup c.callId).getD ""
    settledAt := now }

theorem settledCall_key (results : List (String × String)) (now : Time) (c : ToolCall) :
    (settledCall results now c).key = c.key := rfl

def settledBatch (runId : String) (now : Time) (b : ToolBatch) : ToolBatch :=
  { b with
    state := .settled
    settledByRunId := runId
    settledAt := now }

theorem settledBatch_batchId (runId : String) (now : Time) (b : ToolBatch) :
    (settledBatch runId now b).batchId = b.batchId := rfl

/-- The writes of a settlement. -/
def settleBatch (b : ToolBatch) (runId : String) (results : List (String × String)) (now : Time)
    (s : State) : State :=
  { s with
    calls := s.calls.update (fun c => c.batchId = b.batchId ∧ c.state = .pending)
      (settledCall results now) (settledCall_key results now)
    batches := s.batches.update (fun b' => b'.batchId = b.batchId ∧ b'.state = .pending)
      (settledBatch runId now) (settledBatch_batchId runId now) }

def ownsLease (r : Run) (x : Session) (leaseId : String) : Bool :=
  r.status = .running ∧ x.state = .running ∧ r.leaseId = leaseId ∧ x.leaseId = leaseId

/-- `ORDER BY created_at DESC LIMIT 1` over the batches at the parent head of a run. -/
def parentBatch (s : State) (r : Run) : Option ToolBatch :=
  ((s.batches.rows.filter fun b => b.sessionId = r.sessionId ∧
    b.visibleHeadHash = r.parentHeadHash ∧ b.itemCount = r.parentItemCount).insertionSort
      fun b b' => b'.createdAt ≤ b.createdAt).head?

/-- The calls of a batch, `ORDER BY position`. -/
def callsOf (s : State) (batchId : String) : List ToolCall :=
  (s.calls.rows.filter fun c => c.batchId = batchId).insertionSort fun c c' =>
    c.position ≤ c'.position

/-- `sorted(result_ids - expected_ids)`. -/
def unknownIds (results : List (String × String)) (calls : List ToolCall) : List String :=
  ((results.map Prod.fst).filter fun id => calls.all fun c => c.callId ≠ id).insertionSort
    fun a b => a ≤ b

/-- `expected_ids - result_ids`. -/
def missingIds (results : List (String × String)) (calls : List ToolCall) : List String :=
  (calls.map ToolCall.callId).filter fun id => id ∉ results.map Prod.fst

/-- The first call whose definition is no longer the one it was made with. -/
def changedSchema (schema : String → Option String) (calls : List ToolCall) : Option ToolCall :=
  calls.find? fun c => schema c.toolName ≠ some c.schemaFingerprint

/-- `settle_api_tool_batch`. -/
def settle (runId leaseId : String) (results : List (String × String))
    (schema : String → Option String) (now : Time) (s : State) :
    Except Error ((Bool × ToolBatch) × State) :=
  if runId = "" ∨ leaseId = "" then .error (.valueError "Run and lease identities are required")
  else
    (normalizedResults [] results).bind fun results =>
      match s.runs.get? runId with
      | none => .error (.valueError "Unknown standard API run")
      | some r =>
        if ¬ (s.sessions.get? r.sessionId).any (ownsLease r · leaseId) then
          .error (.leaseLost "The standard API run lease is no longer owned")
        else
          match s.parentBatch r with
          | none => .error (.valueError
              "Current tool results do not match a pending client tool batch")
          | some batch =>
            let calls := s.callsOf batch.batchId
            match (unknownIds results calls).head?, missingIds results calls,
                changedSchema schema calls with
            | some id, _, _ => .error (.valueError
                ("Client tool result references an unknown pending call: " ++ id))
            | none, _ :: _, _ => .error (.valueError
                "The request must settle every pending client tool call")
            | none, [], some c => .error (.valueError
                ("Client tool schema changed for '" ++ c.toolName ++ "'"))
            | none, [], none =>
              if batch.state = .settled then
                if batch.settledByRunId ≠ runId then
                  .error (.valueError "Client tool batch was already settled")
                else if calls.any fun c =>
                    results.lookup c.callId ≠ some c.resultFingerprint then
                  .error (.valueError "Client tool batch was retried with different results")
                else .ok ((true, batch), s)
              else if batch.state ≠ .pending then
                .error (.valueError "Client tool batch is canceled")
              else
                .ok ((false, settledBatch runId now batch),
                  s.settleBatch batch runId results now)

/-! ## The end of a run -/

/-- The row of a call whose settlement is undone. -/
def reopenedCall (c : ToolCall) : ToolCall :=
  { c with
    state := .pending
    resultFingerprint := ""
    settledAt := 0 }

theorem reopenedCall_key (c : ToolCall) : (reopenedCall c).key = c.key := rfl

/-- The row of a batch whose settlement is undone. -/
def reopenedBatch (b : ToolBatch) : ToolBatch :=
  { b with
    state := .pending
    settledByRunId := ""
    settledAt := 0 }

theorem reopenedBatch_batchId (b : ToolBatch) : (reopenedBatch b).batchId = b.batchId := rfl

/-- Undo the settlements of the runs `p`. -/
def reopenBatches (p : String → Bool) (s : State) : State :=
  { s with
    calls := s.calls.update
      (fun c => c.state = .settled ∧ (s.batches.get? c.batchId).any fun b =>
        b.state = .settled ∧ p b.settledByRunId) reopenedCall reopenedCall_key
    batches := s.batches.update (fun b => b.state = .settled ∧ p b.settledByRunId) reopenedBatch
      reopenedBatch_batchId }

/-- `UPDATE api_export_runs … WHERE run_id=? AND lease_id=?` and the reservation it had. -/
def endRun (runId leaseId : String) (f : Run → Run) (hf : ∀ r, (f r).runId = r.runId)
    (s : State) : State :=
  { s with
    runs := s.runs.update (fun r => r.runId = runId ∧ r.leaseId = leaseId) f hf
    admissions := s.admissions.delete fun a => a.runId = runId }

/-- The row of a session whose run failed. -/
def failedSession (now : Time) (x : Session) : Session :=
  { quarantinedSession x with expiresAt := min x.expiresAt now }

theorem failedSession_sessionId (now : Time) (x : Session) :
    (failedSession now x).sessionId = x.sessionId := rfl

/-- The row of a run that failed or was canceled. -/
def failedRun (status : RunStatus) (r : Run) : Run := { r with status }

theorem failedRun_runId (status : RunStatus) (r : Run) : (failedRun status r).runId = r.runId := rfl

/-- The writes of `fail_api_run`. -/
def failLease (r : Run) (status : RunStatus) (now : Time) (s : State) : State :=
  let s := s.reopenBatches fun id => id = r.runId
  { s with
    sessions := s.sessions.update (fun x => x.sessionId = r.sessionId ∧ x.leaseId = r.leaseId)
      (failedSession now) (failedSession_sessionId now) }.endRun r.runId r.leaseId (failedRun status)
    (failedRun_runId status)

/-- `fail_api_run`. -/
def fail (runId leaseId errorCode : String) (canceled : Bool) (now : Time) (s : State) :
    Except Error (Bool × State) :=
  let code := strip errorCode
  let status : RunStatus := if canceled then .canceled else .failed
  if runId = "" ∨ leaseId = "" ∨ code = "" ∨ 64 < code.length then
    .error (.valueError "Run, lease, and bounded error code are required")
  else
    match s.runs.get? runId with
    | none => .error (.valueError "Unknown standard API run")
    | some r =>
      if r.status = status then .ok (false, s)
      else if ¬ (s.sessions.get? r.sessionId).any (ownsLease r · leaseId) then
        .error (.leaseLost "The standard API run lease is no longer owned")
      else .ok (true, s.failLease r status now)

def runningIn (s : State) (sessionId runId : String) : Bool :=
  (s.runs.get? runId).any fun r => r.sessionId = sessionId ∧ r.status = .running

/-- The body of the loop in `abandon_expired_api_runs`. -/
def abandonSession (sessionId : String) (s : State) : State :=
  let s := s.reopenBatches (s.runningIn sessionId)
  { s with
    runs := s.runs.update (fun r => r.sessionId = sessionId ∧ r.status = .running) abandonedRun
      abandonedRun_runId
    sessions := s.sessions.update (fun x => x.sessionId = sessionId ∧ x.state = .running)
      quarantinedSession quarantinedSession_sessionId
    admissions := s.admissions.delete fun a => a.sessionId = sessionId }

def overdue (now : Time) (x : Session) : Bool := x.state = .running ∧ x.leaseDeadline ≤ now

/-- `abandon_expired_api_runs`. -/
def abandonExpired (now : Time) (s : State) : Except Error (Nat × State) :=
  let sessions := s.sessions.rows.filter (overdue now)
  .ok (sessions.length, sessions.foldl (fun s x => s.abandonSession x.sessionId) s)

/-! ## Finalization -/

/-- A prefix of the visible items, as the finalizer publishes it. -/
structure Prefix where
  prefixHash : String
  itemCount : Int
  boundaryKind : String

def Prefix.isValid (p : Prefix) (itemCount : Int) : Bool :=
  p.prefixHash ≠ "" ∧ 1 ≤ p.itemCount ∧ p.itemCount ≤ itemCount ∧ p.boundaryKind ≠ ""

/-- A response to store, its parts encoded. -/
structure ResponseRecord where
  previousResponseId : String
  visibleItems : List String
  visibleItemsJson : String
  outputJson : String
  envelopeJson : String
  envelopeId : String

def responseRecordValues (responseId : String) (record : Option ResponseRecord) (itemCount : Int) :
    Except Error (Option ResponseValues) :=
  match record with
  | none => .ok none
  | some record =>
    let id := strip responseId
    let previous := strip record.previousResponseId
    if id = "" ∨ 256 < id.length then
      .error (.valueError "Stored response_id is required and must be bounded")
    else if 256 < previous.length then
      .error (.valueError "Stored previous_response_id exceeds its limit")
    else if (record.visibleItems.length : Int) ≠ itemCount then
      .error (.valueError "Stored response visible_items must match the finalized item_count")
    else if record.envelopeId ≠ id then
      .error (.valueError "Stored response envelope id does not match response_id")
    else .ok (some
      ⟨id, previous, record.visibleItemsJson, record.outputJson, record.envelopeJson⟩)

structure FinalizeArgs where
  runId : String
  leaseId : String
  visibleHeadHash : String
  itemCount : Int
  prefixes : List Prefix := []
  checkpointId : String := ""
  responseId : String := ""
  record : Option ResponseRecord := none
  pendingCalls : List ClientCall := []
  schema : String → Option String := fun _ => none
  /-- What `secrets.token_urlsafe` draws for the batch. -/
  token : String := ""

namespace FinalizeArgs

def batchId (a : FinalizeArgs) : String := "apitb_" ++ a.token

/-- The row of the batch the run leaves behind. -/
def batch (a : FinalizeArgs) (sessionId : String) (now : Time) : ToolBatch :=
  { batchId := a.batchId, runId := a.runId, sessionId, visibleHeadHash := a.visibleHeadHash
    itemCount := a.itemCount, createdAt := now }

/-- The row of the session once the run is published. -/
def publishedSession (a : FinalizeArgs) (waits : Bool) (expiresAt : Time) (x : Session) : Session :=
  { x with
    visibleHeadHash := a.visibleHeadHash
    itemCount := a.itemCount
    state := if waits then .waitingTool else .idle
    leaseId := ""
    leaseDeadline := 0
    expiresAt }

theorem publishedSession_sessionId (a : FinalizeArgs) (waits : Bool) (expiresAt : Time)
    (x : Session) : (a.publishedSession waits expiresAt x).sessionId = x.sessionId := rfl

def completedRun (a : FinalizeArgs) (r : Run) : Run :=
  { r with
    status := .completed
    responseId := a.responseId }

theorem completedRun_runId (a : FinalizeArgs) (r : Run) : (a.completedRun r).runId = r.runId := rfl

/-- The row of the stored response. -/
def response (a : FinalizeArgs) (sessionId : String) (v : ResponseValues) : Response :=
  ⟨v.responseId, sessionId, a.runId, a.checkpointId, a.visibleHeadHash, a.itemCount, v⟩

end FinalizeArgs

/-- A call as a repeated finalization compares it. -/
def sameCall (c c' : ToolCall) : Bool :=
  c.callId = c'.callId ∧ c.position = c'.position ∧ c.toolName = c'.toolName ∧
    c.argumentsJson = c'.argumentsJson ∧ c.schemaFingerprint = c'.schemaFingerprint

/-- A finalization that was already done: the arguments have to be the same. -/
def finalizeAgain (a : FinalizeArgs) (r : Run) (x : Session) (rows : List ToolCall)
    (values : Option ResponseValues) (s : State) : Except Error Unit :=
  let batch := s.batches.rows.find? fun b => b.runId = a.runId
  let stored := s.responses.rows.find? fun p => p.runId = a.runId
  if x.visibleHeadHash ≠ a.visibleHeadHash ∨ x.itemCount ≠ a.itemCount then
    .error (.leaseLost "Completed API finalization does not match its head")
  else if rows ≠ [] ∧ batch.isNone then
    .error (.leaseLost "Completed API finalization has no matching tool batch")
  else if rows ≠ [] ∧ ¬ batch.all fun b =>
      let existing := s.callsOf b.batchId
      existing.length = rows.length ∧ (existing.zip rows).all fun p => sameCall p.1 p.2 then
    .error (.leaseLost "Completed API finalization tool batch differs")
  else if a.responseId ≠ "" ∧ r.responseId ≠ a.responseId then
    .error (.leaseLost "Completed API finalization response id differs")
  else if ¬ values.all fun v => stored.any fun p =>
      p.values = v ∧ p.checkpointId = a.checkpointId ∧ p.visibleHeadHash = a.visibleHeadHash ∧
        p.itemCount = a.itemCount then
    .error (.leaseLost "Completed API finalization response record differs")
  else .ok ()

/-- The tool batch a run leaves behind, if it has calls for the client. -/
def insertBatch (a : FinalizeArgs) (sessionId : String) (rows : List ToolCall) (now : Time)
    (s : State) : Except Error State :=
  if rows = [] then .ok s
  -- `run_id` is unique
  else if s.batches.rows.any fun b => b.runId = a.runId then .error .integrityError
  else
    match s.batches.insert? (a.batch sessionId now),
        rows.foldlM (fun calls c => calls.insert? c) s.calls with
    | some batches, some calls => .ok { s with
        batches
        calls }
    | _, _ => .error .integrityError

/-- The response a run stores, if it has one. -/
def insertResponse (a : FinalizeArgs) (sessionId : String) (values : Option ResponseValues)
    (s : State) : Except Error State :=
  match values with
  | none => .ok s
  | some v =>
    if s.responses.rows.any fun p => p.runId = a.runId then .error .integrityError
    else
      match s.responses.insert? (a.response sessionId v) with
      | none => .error .integrityError
      | some responses => .ok { s with responses }

/-- The head, the session and the run of a finalization. -/
def publish (a : FinalizeArgs) (sessionId : String) (waits : Bool) (expiresAt : Time) (s : State) :
    State :=
  { s with
    sessions := s.sessions.update (fun y => y.sessionId = sessionId ∧ y.leaseId = a.leaseId)
      (a.publishedSession waits expiresAt) (a.publishedSession_sessionId waits expiresAt) }.endRun
    a.runId a.leaseId a.completedRun a.completedRun_runId

def nextExpiry (x : Session) (now : Time) (s : State) : Time :=
  if (s.publications.get? x.ns.publicationId).any fun p => p.apiGeneration = x.ns.apiGeneration then
    now + x.ttlSeconds * second
  else now

/-- `finalize_api_run`; `true`: it had been done before. -/
def finalize (a : FinalizeArgs) (now : Time) (s : State) : Except Error (Bool × State) :=
  if a.runId = "" ∨ a.leaseId = "" ∨ a.visibleHeadHash = "" then
    .error (.valueError "Run, lease, and visible head identities are required")
  else
    (pendingToolRows a.schema a.batchId a.pendingCalls).bind fun rows =>
    (responseRecordValues a.responseId a.record a.itemCount).bind fun values =>
      match s.runs.get? a.runId with
      | none => .error (.valueError "Unknown standard API run")
      | some r =>
        match s.sessions.get? r.sessionId with
        | none => .error (.leaseLost "The standard API run lease is no longer owned")
        | some x =>
          if values.isSome ∧ x.ns.dialect ≠ .responses then
            .error (.valueError "Stored response records require the Responses dialect")
          else if r.status = .completed then
            (s.finalizeAgain a r x rows values).bind fun _ => .ok (true, s)
          else if ¬ ownsLease r x a.leaseId then
            .error (.leaseLost "The standard API run lease is no longer owned")
          else if a.itemCount < r.parentItemCount then
            .error (.valueError "Final item_count cannot precede the parent head")
          else if rows ≠ [] ∧ s.batches.rows.any fun b =>
              b.sessionId = x.sessionId ∧ b.state = .pending then
            .error (.valueError
              "A session cannot publish a second pending client tool batch")
          else if a.prefixes.any fun p => ¬ p.isValid a.itemCount then
            .error (.valueError "Invalid finalized API prefix")
          else
            (s.insertBatch a x.sessionId rows now).bind fun t =>
            (t.insertResponse a x.sessionId values).bind fun t =>
              .ok (false, t.publish a x.sessionId (rows ≠ []) (s.nextExpiry x now))

/-! ## Transactions -/

inductive Op
  | configure (p : Publication)
  | resetSessions (publicationId : String)
  | requestDelete (publicationId : String)
  | createKey (keyId publicationId : String)
  | create (a : CreateArgs)
  | discardEmpty (sessionId : String)
  | quarantineUnstarted (sessionId : String)
  | findActive (key : AdmissionKey)
  | acquire (a : AcquireArgs)
  | heartbeat (runId leaseId : String) (leaseDuration : Time)
  | settle (runId leaseId : String) (results : List (String × String))
      (schema : String → Option String)
  | finalize (a : FinalizeArgs)
  | fail (runId leaseId errorCode : String) (canceled : Bool)
  | abandonExpired
  | claimSweep (limit : Nat)
  | finishSweep (sessionId : String) (removed : Bool)

/-- A transaction together with the time it reads. -/
structure Tx where
  op : Op
  now : Time

/-- The clock has shown `now`. -/
def tick (now : Time) (s : State) : State := { s with clock := max s.clock now }

/-- The store after a transaction; one that raises leaves it as it was. -/
def perform (s : State) (x : Tx) : State :=
  let s := s.tick x.now
  match x.op with
  | .configure p => Lib.settle s (s.configure p x.now)
  | .resetSessions publicationId => Lib.settle s (s.resetSessions publicationId x.now)
  | .requestDelete publicationId => Lib.settle s (s.requestDelete publicationId)
  | .createKey keyId publicationId => Lib.settle s (s.createKey keyId publicationId)
  | .create a => Lib.settle s (s.create a x.now)
  | .discardEmpty sessionId => Lib.settle s (s.discardEmpty sessionId)
  | .quarantineUnstarted sessionId => Lib.settle s (s.quarantineUnstarted sessionId x.now)
  | .findActive key => Lib.settle s (s.findActive key x.now)
  | .acquire a => Lib.settle s (s.acquire a x.now)
  | .heartbeat runId leaseId duration => Lib.settle s (s.heartbeat runId leaseId duration x.now)
  | .settle runId leaseId results schema =>
    Lib.settle s (s.settle runId leaseId results schema x.now)
  | .finalize a => Lib.settle s (s.finalize a x.now)
  | .fail runId leaseId errorCode canceled =>
    Lib.settle s (s.fail runId leaseId errorCode canceled x.now)
  | .abandonExpired => Lib.settle s (s.abandonExpired x.now)
  | .claimSweep limit => Lib.settle s (s.claimSweep x.now limit)
  | .finishSweep sessionId removed => Lib.settle s (s.finishSweep sessionId removed x.now)

def init : State := {}

def step (s : State) (x : Tx) : Option State := some (s.perform x)

end State

end PawFlow.StandardApi
