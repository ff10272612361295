import PawFlow.Lib.PyString
import PawFlow.Lib.Runs
import PawFlow.Lib.Table
import PawFlow.Lib.Transaction

/-!
# The tables of the standard API

The session store of `core/_a2a_standard_api.py`: publications and their keys, sessions with
the lease of their run, the reservations that make retries attach, and the batches of client
tool calls. All of it is one SQLite commit domain with foreign keys on.

Columns no operation reads back (creation, heartbeat and finish stamps, checkpoint ids, error
codes) and the prefix table are left out. Ids drawn with `secrets` are arguments; an insert
whose key is taken raises.
-/

namespace PawFlow.StandardApi

open PawFlow.Lib

/-- Clock readings and durations, in microseconds. -/
abbrev Time := Int

def second : Time := 1000000

inductive Error
  | sessionQuotaExceeded
  | runQuotaExceeded
  | leaseLost (message : String)
  | valueError (message : String)
  | runtimeError (message : String)
  | integrityError
deriving DecidableEq

inductive Dialect
  | chatCompletions | responses | anthropicMessages
deriving DecidableEq

/-- The part of `a2a_publications` the standard API reads. -/
structure Publication where
  publicationId : String
  enabled : Bool
  /-- `context_policy = 'isolated'`. -/
  isolated : Bool
  standardApiEnabled : Bool
  deleteRequested : Bool := false
  apiGeneration : Nat := 0
  apiModelId : String
  apiSessionTtlSeconds : Int
  apiMaxSessionsPerKey : Int
  apiMaxConcurrentRunsPerKey : Int
  dialects : Dialect → Bool
  /-- The agent name and the other configuration fields a change of which moves the
  generation. -/
  settings : String := ""

/-- A row of `a2a_api_keys`. -/
structure ApiKey where
  keyId : String
  publicationId : String
  revoked : Bool := false

/-- `StandardApiNamespace`. -/
structure Namespace where
  publicationId : String
  apiGeneration : Nat
  keyId : String
  dialect : Dialect
  apiModelId : String
  canonicalizationVersion : Nat := 1
  hashSecretVersion : Nat := 1
deriving DecidableEq

inductive SessionState
  | idle | running | waitingTool | quarantined | expired
deriving DecidableEq

/-- A row of `api_export_sessions`. -/
structure Session where
  sessionId : String
  ns : Namespace
  internalConversationId : String
  visibleHeadHash : String
  itemCount : Int
  state : SessionState := .idle
  leaseId : String := ""
  leaseDeadline : Time := 0
  ttlSeconds : Int
  expiresAt : Time
deriving DecidableEq

inductive RunStatus
  | running | completed | failed | canceled | abandoned
deriving DecidableEq

/-- A row of `api_export_runs`. -/
structure Run where
  runId : String
  sessionId : String
  leaseId : String
  parentHeadHash : String
  parentItemCount : Int
  bodyFingerprint : String
  status : RunStatus := .running
  responseId : String := ""
  replayUntil : Time
deriving DecidableEq

/-- The primary key of `api_export_active_admissions`. -/
structure AdmissionKey where
  ns : Namespace
  parentHeadHash : String
  parentItemCount : Int
  bodyFingerprint : String
deriving DecidableEq

/-- A row of `api_export_active_admissions`; `runId` is unique as well. -/
structure Admission where
  key : AdmissionKey
  sessionId : String
  runId : String
  replayUntil : Time
deriving DecidableEq

inductive ToolState
  | pending | settled | canceled
deriving DecidableEq

/-- A row of `api_export_tool_batches`; `runId` is unique as well. -/
structure ToolBatch where
  batchId : String
  runId : String
  sessionId : String
  visibleHeadHash : String
  itemCount : Int
  state : ToolState := .pending
  settledByRunId : String := ""
  createdAt : Time
  settledAt : Time := 0
deriving DecidableEq

/-- A row of `api_export_tool_calls`. -/
structure ToolCall where
  batchId : String
  callId : String
  position : Nat
  toolName : String
  argumentsJson : String
  schemaFingerprint : String
  state : ToolState := .pending
  resultFingerprint : String := ""
  settledAt : Time := 0
deriving DecidableEq

@[reducible] def ToolCall.key (c : ToolCall) : String × String := (c.batchId, c.callId)

/-- `_response_record_values`: the texts a stored response is made of. -/
structure ResponseValues where
  responseId : String
  previousResponseId : String
  visibleItemsJson : String
  outputJson : String
  envelopeJson : String
deriving DecidableEq

/-- A row of `api_export_responses`; `runId` is unique as well. -/
structure Response where
  responseId : String
  sessionId : String
  runId : String
  checkpointId : String
  visibleHeadHash : String
  itemCount : Int
  values : ResponseValues
deriving DecidableEq

structure State where
  publications : Table String Publication Publication.publicationId := .empty
  keys : Table String ApiKey ApiKey.keyId := .empty
  sessions : Table String Session Session.sessionId := .empty
  runs : Table String Run Run.runId := .empty
  admissions : Table AdmissionKey Admission Admission.key := .empty
  batches : Table String ToolBatch ToolBatch.batchId := .empty
  calls : Table (String × String) ToolCall ToolCall.key := .empty
  responses : Table String Response Response.responseId := .empty
  /-- History: the latest time a transaction has read. -/
  clock : Time := 0

namespace State

/-! ## Publications and generations -/

def ofOlderGeneration (s : State) (publicationId : String) (generation : Nat) (sessionId : String) :
    Bool :=
  (s.sessions.get? sessionId).any fun x =>
    x.ns.publicationId = publicationId ∧ x.ns.apiGeneration ≠ generation

def canceledCall (c : ToolCall) : ToolCall := { c with state := .canceled }

theorem canceledCall_key (c : ToolCall) : (canceledCall c).key = c.key := rfl

def canceledBatch (now : Time) (b : ToolBatch) : ToolBatch :=
  { b with
    state := .canceled
    settledAt := now }

theorem canceledBatch_batchId (now : Time) (b : ToolBatch) :
    (canceledBatch now b).batchId = b.batchId := rfl

/-- The row of an idle session of an older generation. -/
def agedSession (now : Time) (x : Session) : Session :=
  { x with
    state := if x.state = .waitingTool then .quarantined else x.state
    expiresAt := min x.expiresAt now }

theorem agedSession_sessionId (now : Time) (x : Session) :
    (agedSession now x).sessionId = x.sessionId := rfl

/-- `_expire_old_api_generations`. -/
def expireOldGenerations (publicationId : String) (generation : Nat) (now : Time) (s : State) :
    State :=
  { s with
    calls := s.calls.update
      (fun c => c.state = .pending ∧ (s.batches.get? c.batchId).any fun b =>
        s.ofOlderGeneration publicationId generation b.sessionId) canceledCall canceledCall_key
    batches := s.batches.update
      (fun b => b.state = .pending ∧ s.ofOlderGeneration publicationId generation b.sessionId)
      (canceledBatch now) (canceledBatch_batchId now)
    -- `waiting_tool` sessions are quarantined first, then both kinds expire
    sessions := s.sessions.update
      (fun x => x.ns.publicationId = publicationId ∧ x.ns.apiGeneration ≠ generation ∧
        x.state ∈ [.waitingTool, .idle, .quarantined])
      (agedSession now) (agedSession_sessionId now) }

/-- Fields whose change moves the generation. -/
def materialChange (p q : Publication) : Bool :=
  decide (p.enabled ≠ q.enabled ∨ p.isolated ≠ q.isolated ∨
    p.standardApiEnabled ≠ q.standardApiEnabled ∨ p.apiModelId ≠ q.apiModelId ∨
    p.apiSessionTtlSeconds ≠ q.apiSessionTtlSeconds ∨ p.apiMaxSessionsPerKey ≠ q.apiMaxSessionsPerKey ∨
    p.apiMaxConcurrentRunsPerKey ≠ q.apiMaxConcurrentRunsPerKey ∨
    p.dialects .chatCompletions ≠ q.dialects .chatCompletions ∨
    p.dialects .responses ≠ q.dialects .responses ∨
    p.dialects .anthropicMessages ≠ q.dialects .anthropicMessages ∨ p.settings ≠ q.settings)

/-- The generation a configuration change leaves. -/
def nextGeneration (row p : Publication) : Nat :=
  if row.apiGeneration ≠ 0 ∧ materialChange row p then row.apiGeneration + 1
  else if row.apiGeneration = 0 ∧ p.standardApiEnabled then 1
  else row.apiGeneration

/-- `configure_publication`, from a configuration that passed validation. -/
def configure (p : Publication) (now : Time) (s : State) : Except Error (Unit × State) :=
  match s.publications.get? p.publicationId with
  | none =>
    let p := { p with
      apiGeneration := if p.standardApiEnabled then 1 else 0
      deleteRequested := false }
    .ok ((), { s with publications := s.publications.upsert p })
  | some row =>
    if row.deleteRequested then .error (.valueError "A2A publication is being deleted")
    else
      let t : State := { s with
        publications := s.publications.upsert { p with
          apiGeneration := nextGeneration row p
          deleteRequested := false } }
      .ok ((), if nextGeneration row p ≠ row.apiGeneration then
        t.expireOldGenerations p.publicationId (nextGeneration row p) now else t)

/-- `reset_api_sessions`. -/
def resetSessions (publicationId : String) (now : Time) (s : State) :
    Except Error (Unit × State) :=
  match s.publications.get? publicationId with
  | none => .error (.valueError "Unknown A2A publication")
  | some row =>
    if row.apiGeneration < 1 then
      .error (.valueError "The publication has no standard API sessions to reset")
    else
      let t : State := { s with
        publications := s.publications.upsert { row with
          apiGeneration := row.apiGeneration + 1 } }
      .ok ((), t.expireOldGenerations publicationId (row.apiGeneration + 1) now)

/-- `request_publication_delete`; sessions of the older generation are left as they are. -/
def requestDelete (publicationId : String) (s : State) : Except Error (Unit × State) :=
  match s.publications.get? publicationId with
  | none => .error (.valueError "Unknown A2A publication")
  | some row =>
    if row.deleteRequested then .ok ((), s)
    else
      .ok ((), { s with
        publications := s.publications.upsert { row with
          enabled := false
          deleteRequested := true
          apiGeneration := if row.apiGeneration = 0 then 0 else row.apiGeneration + 1 } })

def createKey (keyId publicationId : String) (s : State) : Except Error (Unit × State) :=
  if (s.publications.get? publicationId).isNone then .error .integrityError
  else
    match s.keys.insert? { keyId, publicationId } with
    | none => .error .integrityError
    | some keys => .ok ((), { s with keys })

/-- `_validate_api_namespace`. -/
def validateNamespace (ns : Namespace) (s : State) : Except Error Publication :=
  match s.publications.get? ns.publicationId, s.keys.get? ns.keyId with
  | some row, some key =>
    if key.publicationId ≠ ns.publicationId ∨ key.revoked then
      .error (.valueError "Unknown or revoked publication API key")
    else if ¬ row.enabled ∨ ¬ row.standardApiEnabled ∨ row.deleteRequested ∨ ¬ row.isolated then
      .error (.valueError "Standard API publication is unavailable")
    else if row.apiGeneration ≠ ns.apiGeneration then
      .error (.valueError "Standard API generation is stale")
    else if row.apiModelId ≠ ns.apiModelId then
      .error (.valueError "Standard API model does not match the publication")
    else if ¬ row.dialects ns.dialect then
      .error (.valueError "Standard API dialect is unavailable")
    else .ok row
  | _, _ => .error (.valueError "Unknown or revoked publication API key")

/-! ## Sessions -/

/-- The sessions of a key that count against its quota. -/
def retained (publicationId keyId : String) (now : Time) (x : Session) : Bool :=
  x.ns.publicationId = publicationId ∧ x.ns.keyId = keyId ∧ x.state ≠ .expired ∧
    (x.state = .running ∨ now < x.expiresAt)

structure CreateArgs where
  ns : Namespace
  internalConversationId : String
  visibleHeadHash : String := ""
  itemCount : Int := 0
  /-- What `secrets.token_urlsafe` draws. -/
  token : String

/-- `create_api_session`. -/
def create (a : CreateArgs) (now : Time) (s : State) : Except Error (Session × State) :=
  if a.internalConversationId = "" then
    .error (.valueError "internal_conversation_id is required")
  else if a.itemCount < 0 then .error (.valueError "item_count must be a non-negative integer")
  else
    (s.validateNamespace a.ns).bind fun publication =>
      let quota := publication.apiMaxSessionsPerKey
      let kept := s.sessions.count (retained a.ns.publicationId a.ns.keyId now)
      if quota < 1 ∨ quota ≤ kept then .error .sessionQuotaExceeded
      -- `internal_conversation_id` is unique
      else if s.sessions.rows.any fun x =>
          x.internalConversationId = a.internalConversationId then .error .integrityError
      else
        let x : Session :=
          { sessionId := "apis_" ++ a.token, ns := a.ns
            internalConversationId := a.internalConversationId
            visibleHeadHash := a.visibleHeadHash, itemCount := a.itemCount
            ttlSeconds := publication.apiSessionTtlSeconds
            expiresAt := now + publication.apiSessionTtlSeconds * second }
        match s.sessions.insert? x with
        | none => .error .integrityError
        | some sessions => .ok (x, { s with sessions })

/-- `DELETE FROM api_export_sessions WHERE p`, with its cascades. -/
def dropSessions (p : Session → Bool) (s : State) : State :=
  let gone := fun sessionId => (s.sessions.get? sessionId).any p
  { s with
    sessions := s.sessions.delete p
    runs := s.runs.delete fun r => gone r.sessionId
    admissions := s.admissions.delete fun a => gone a.sessionId
    batches := s.batches.delete fun b => gone b.sessionId
    calls := s.calls.delete fun c => (s.batches.get? c.batchId).any fun b => gone b.sessionId
    responses := s.responses.delete fun r => gone r.sessionId }

/-- A session no run was ever started on. -/
def unstarted (sessionId : String) (s : State) (x : Session) : Bool :=
  x.sessionId = sessionId ∧ x.state = .idle ∧ s.runs.rows.all fun r => r.sessionId ≠ sessionId

/-- `discard_empty_api_session`. -/
def discardEmpty (sessionId : String) (s : State) : Except Error (Bool × State) :=
  .ok (s.sessions.rows.any (unstarted sessionId s), s.dropSessions (unstarted sessionId s))

/-- The row of a session that is out of use, with a new time to expire at. -/
def closedSession (state : SessionState) (expires : Time → Time) (x : Session) : Session :=
  { x with
    state
    expiresAt := expires x.expiresAt }

theorem closedSession_sessionId (state : SessionState) (expires : Time → Time) (x : Session) :
    (closedSession state expires x).sessionId = x.sessionId := rfl

/-- `UPDATE api_export_sessions SET state=?, expires_at=? WHERE p`. -/
def closeSessions (p : Session → Bool) (state : SessionState) (expires : Time → Time) (s : State) :
    State :=
  { s with
    sessions := s.sessions.update p (closedSession state expires)
      (closedSession_sessionId state expires) }

/-- `quarantine_unstarted_api_session`. -/
def quarantineUnstarted (sessionId : String) (now : Time) (s : State) :
    Except Error (Bool × State) :=
  .ok (s.sessions.rows.any (unstarted sessionId s),
    s.closeSessions (unstarted sessionId s) .quarantined (min now))

/-! ## The sweep -/

def sweepable (now : Time) (x : Session) : Bool :=
  x.state ∈ [.idle, .quarantined] ∧ x.expiresAt ≤ now

/-- `ORDER BY expires_at LIMIT limit`. -/
def sweepRows (now : Time) (limit : Nat) (s : State) : List Session :=
  ((s.sessions.rows.filter (sweepable now)).insertionSort
    (fun x y => x.expiresAt ≤ y.expiresAt)).take limit

/-- The first transaction of `sweep_expired_api_sessions`: claim the sessions. -/
def claimSweep (now : Time) (limit : Nat) (s : State) : Except Error (List Session × State) :=
  if limit < 1 then .error (.valueError "limit must be positive")
  else
    let rows := s.sweepRows now limit
    .ok (rows, rows.foldl (fun s row => s.closeSessions
      (fun x => x.sessionId = row.sessionId ∧ x.state ∈ [.idle, .quarantined]) .expired id) s)

/-- The last transaction for one claimed session, after its conversation was deleted or not;
`now` is still the time of the claim. -/
def finishSweep (sessionId : String) (removed : Bool) (now : Time) (s : State) :
    Except Error (Unit × State) :=
  let claimed : Session → Bool := fun x => x.sessionId = sessionId ∧ x.state = .expired
  .ok ((), if removed then s.dropSessions claimed
    else s.closeSessions claimed .quarantined fun _ => now + 60 * second)

end State

end PawFlow.StandardApi
