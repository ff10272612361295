import PawFlow.Lib.Json
import PawFlow.Lib.PyString
import PawFlow.Lib.Runs
import PawFlow.Lib.Table
import PawFlow.Lib.Transaction

/-!
# The tables of the AG-UI turn machine

The tables of `core/_a2a_turn_machine.py`, `_a2a_turn_journal.py`, `_a2a_turn_acquire.py`,
`_a2a_turn_batch.py` and `_a2a_turn_attach.py`: one SQLite commit domain with foreign keys
on. Columns no operation reads (creation and update stamps, `turn_id`) are left out.

A context id is a digest of publication, key, thread and generation; the model keeps the
four parts, that is, it takes the digest to be free of collisions. `secrets.token_hex` is
taken to never repeat a handle: `minted` remembers the handles drawn so far.
-/

namespace PawFlow.Agui

open PawFlow.Lib

/-- Clock readings and durations, in microseconds. -/
abbrev Time := Int

def second : Time := 1000000

/-- `agui_terminal_snapshot`. -/
structure TerminalSnapshot where
  runId : String
  /-- `state = 'terminal'`. -/
  terminal : Bool
  outcome : String
  committedSequence : Nat
  replayWatermark : Nat
  /-- `batch_token`, while the batch of the run is open. -/
  batchToken : Option String
deriving DecidableEq

inductive Error
  | threadRotated (currentGeneration : Int)
  | cleanupPending
  | idempotencyConflict
  | idempotencyExpired
  | turnBusy (activeRunId : String)
  | parentMismatch
  | fenceLost
  | runUnknown
  | runTerminal (outcome : String)
  | runQuotaExceeded
  | replayExpired (snapshot : TerminalSnapshot)
  | subscriberTakenOver
  | managedSuccessWithoutBatch
  | tokenInvalid
  | claimExpired
  | batchClaimed
  | batchIncomplete (runId : String)
  | catalogueRejected (outcome : String)
  | depositRejected
  | receiptConflict
  | valueError (message : String)
  | runtimeError
  | integrityError
deriving DecidableEq

/-! ## Threads and contexts -/

/-- The primary key of `agui_threads`. -/
structure ThreadKey where
  publicationId : String
  keyId : String
  threadId : String
deriving DecidableEq

/-- `agui_context_id`: what the digest is taken of. -/
structure ContextId where
  thread : ThreadKey
  generation : Int
deriving DecidableEq

/-- A row of `agui_threads`. -/
structure Thread where
  key : ThreadKey
  generation : Int := 0
  closedBeforeGeneration : Int := 0
  pendingCleanupConversation : String := ""

/-- A row of `a2a_contexts` that belongs to an AG-UI thread. -/
structure Context where
  id : ContextId
  internalConversationId : String
  lastSeenAt : Time

/-- A row of `agui_run_tombstones`. -/
structure Tombstone where
  contextId : ContextId
  runId : String

/-- The part of `a2a_publications` the machine reads. -/
structure Publication where
  publicationId : String
  conversationId : String
  isolated : Bool
  managedMode : Bool

/-! ## Turns and the journal -/

/-- `(context_id, run_id)`. -/
abbrev RunKey := ContextId × String

inductive AdmissionState
  | reserved | dispatching | accepted | running | terminal | orphaned
deriving DecidableEq

/-- `_ACTIVE_STATES`, the same as `_CANCELLABLE_STATES`. -/
def AdmissionState.isActive : AdmissionState → Bool
  | reserved | dispatching | accepted | running => true
  | terminal | orphaned => false

def AdmissionState.text : AdmissionState → String
  | reserved => "reserved"
  | dispatching => "dispatching"
  | accepted => "accepted"
  | running => "running"
  | terminal => "terminal"
  | orphaned => "orphaned"

/-- A row of `agui_admissions`. -/
structure Admission where
  contextId : ContextId
  runId : String
  bodyHash : String
  parentRunId : String
  state : AdmissionState := .reserved
  outcome : String := ""
  fenceToken : Nat
  payloadJson : String
  claimOwner : String := ""
  claimDeadline : Time := 0
  leaseOwner : String := ""
  leaseHeartbeatAt : Time := 0
  createdAt : Time

namespace Admission

@[reducible] def key (a : Admission) : RunKey := (a.contextId, a.runId)

@[reducible] def isActive (a : Admission) : Bool := a.state.isActive

end Admission

/-- A row of `agui_fences`. -/
structure Fence where
  contextId : ContextId
  token : Nat

/-- The fence after one more advance. -/
def Fence.bumped (f : Fence) : Fence := { f with token := f.token + 1 }

theorem Fence.bumped_contextId (f : Fence) : f.bumped.contextId = f.contextId := rfl

/-- A row of `agui_runs`. -/
structure Run where
  contextId : ContextId
  runId : String
  /-- `state = 'terminal'`, else `'active'`. -/
  terminal : Bool := false
  outcome : String := ""
  eventCount : Nat := 0
  byteCount : Nat := 0
  committedSequence : Nat := 0
  replayWatermark : Nat := 0
  subscriberEpoch : Nat := 0
  updatedAt : Time

@[reducible] def Run.key (r : Run) : RunKey := (r.contextId, r.runId)

/-- A row of `agui_journal`. -/
structure JournalRow where
  contextId : ContextId
  runId : String
  seq : Nat
  eventJson : String
  /-- History: the append that wrote this event ended the run. -/
  terminal : Bool

namespace JournalRow

@[reducible] def key (j : JournalRow) : RunKey × Nat := ((j.contextId, j.runId), j.seq)

@[reducible] def runKey (j : JournalRow) : RunKey := (j.contextId, j.runId)

end JournalRow

/-! ## Frontend calls and batches -/

inductive CallState
  | emitted | abandoned | consumed
deriving DecidableEq

/-- The outcomes a call can end with. -/
inductive Outcome
  | denied | ledgerUnavailable | cancelledBeforeBegin | catalogueUnverifiable | catalogueChanged
  | result | nullNavigation | error | indeterminate
  | abandoned
deriving DecidableEq

namespace Outcome

def text : Outcome → String
  | denied => "denied"
  | ledgerUnavailable => "ledger_unavailable"
  | cancelledBeforeBegin => "cancelled_before_begin"
  | catalogueUnverifiable => "catalogue_unverifiable"
  | catalogueChanged => "catalogue_changed"
  | result => "result"
  | nullNavigation => "null_navigation"
  | error => "error"
  | indeterminate => "indeterminate"
  | abandoned => "abandoned"

/-- `NO_EFFECT_OUTCOMES`. -/
def noEffect : List Outcome :=
  [denied, ledgerUnavailable, cancelledBeforeBegin, catalogueUnverifiable, catalogueChanged]

/-- `EFFECT_OUTCOMES`. -/
def effect : List Outcome := [result, nullNavigation, error, indeterminate]

end Outcome

/-- `exec_state`: empty, `executing`, or how the call ended. -/
inductive ExecState
  | none
  | executing
  | done (outcome : Outcome)
deriving DecidableEq

/-- `exec_state in _TERMINAL_EXEC_STATES`. -/
def ExecState.isDone : ExecState → Bool
  | done _ => true
  | _ => false

/-- The primary key of `agui_calls`. -/
abbrev CallKey := RunKey × String

/-- A row of `agui_calls`. -/
structure Call where
  contextId : ContextId
  runId : String
  toolCallId : String
  tool : String
  state : CallState := .emitted
  handle : String := ""
  execState : ExecState := .none
  /-- `result_kind`, empty before the call ended. -/
  resultKind : Option Outcome := Option.none
  resultJson : String := ""
  catalogueId : String := ""
  catalogueVersion : String := ""
  createdAt : Time

namespace Call

@[reducible] def key (c : Call) : CallKey := ((c.contextId, c.runId), c.toolCallId)

@[reducible] def runKey (c : Call) : RunKey := (c.contextId, c.runId)

/-- The row of a call whose run was not successful. -/
def abandon (c : Call) : Call := { c with state := .abandoned }

theorem abandon_key (c : Call) : c.abandon.key = c.key := rfl

end Call

inductive BatchState
  | frozen | reservedPreEffect | executionCommitted | complete | consumed
deriving DecidableEq

/-- `state IN ('frozen','reserved_pre_effect','execution_committed')`. -/
def BatchState.isOpen : BatchState → Bool
  | frozen | reservedPreEffect | executionCommitted => true
  | complete | consumed => false

/-- A row of `agui_batches`; `handle` is unique. -/
structure Batch where
  contextId : ContextId
  runId : String
  state : BatchState := .frozen
  handle : String
  keyVersion : Nat
  claimGeneration : Nat := 0
  batchClaimId : String := ""
  claimLeaseDeadline : Time := 0
  absoluteDeadline : Time

@[reducible] def Batch.key (b : Batch) : RunKey := (b.contextId, b.runId)

/-- A row of `agui_expired_claims`. -/
structure ExpiredClaim where
  handle : String
  batchClaimId : String

@[reducible] def ExpiredClaim.key (e : ExpiredClaim) : String × String :=
  (e.handle, e.batchClaimId)

/-- A row of `agui_token_keys`. -/
structure TokenKey where
  version : Nat
  secret : String

/-- A row of `agui_run_tokens`; `(context_id, run_id)` is unique. -/
structure RunToken where
  handle : String
  contextId : ContextId
  runId : String
  keyVersion : Nat

@[reducible] def RunToken.key (r : RunToken) : RunKey := (r.contextId, r.runId)

/-! ## The store -/

structure State where
  publications : Table String Publication Publication.publicationId := .empty
  threads : Table ThreadKey Thread Thread.key := .empty
  contexts : Table ContextId Context Context.id := .empty
  tombstones : List Tombstone := []
  admissions : Table RunKey Admission Admission.key := .empty
  fences : Table ContextId Fence Fence.contextId := .empty
  runs : Table RunKey Run Run.key := .empty
  journal : Table (RunKey × Nat) JournalRow JournalRow.key := .empty
  calls : Table CallKey Call Call.key := .empty
  batches : Table RunKey Batch Batch.key := .empty
  expiredClaims : Table (String × String) ExpiredClaim ExpiredClaim.key := .empty
  tokenKeys : Table Nat TokenKey TokenKey.version := .empty
  keyHighWater : Nat := 0
  runTokens : Table RunKey RunToken RunToken.key := .empty
  lastSweepAt : Option Time := none
  /-- History: the handles drawn so far. -/
  minted : List String := []
  /-- History: every `begin_agui_call` that answered `True`, with the claim it ran under. -/
  begins : List (CallKey × String) := []

namespace State

/-- The managed mode a transaction reads for a context: the context joined with its
publication. -/
def managed (s : State) (c : ContextId) : Bool :=
  (s.contexts.get? c).isSome &&
    (s.publications.get? c.thread.publicationId).any Publication.managedMode

/-- `UPDATE agui_admissions SET … WHERE context_id=? AND run_id=?`. -/
def updateAdmission (s : State) (k : RunKey) (f : Admission → Admission)
    (hf : ∀ a, (f a).key = a.key) : State :=
  { s with admissions := s.admissions.update (fun a => a.key = k) f hf }

/-- `UPDATE agui_fences SET token=token+1 WHERE context_id=?`. -/
def bumpFence (s : State) (c : ContextId) : State :=
  { s with
    fences := s.fences.update (fun f => f.contextId = c) Fence.bumped Fence.bumped_contextId }

/-- `UPDATE agui_runs SET … WHERE context_id=? AND run_id=?`. -/
def updateRun (s : State) (k : RunKey) (f : Run → Run) (hf : ∀ r, (f r).key = r.key) : State :=
  { s with runs := s.runs.update (fun r => r.key = k) f hf }

/-- `UPDATE agui_calls SET … WHERE …`. -/
def updateCalls (s : State) (p : Call → Bool) (f : Call → Call) (hf : ∀ c, (f c).key = c.key) :
    State :=
  { s with calls := s.calls.update p f hf }

/-- `UPDATE agui_batches SET … WHERE context_id=? AND run_id=?`. -/
def updateBatch (s : State) (k : RunKey) (f : Batch → Batch) (hf : ∀ b, (f b).key = b.key) :
    State :=
  { s with batches := s.batches.update (fun b => b.key = k) f hf }

def pendingCalls (s : State) (k : RunKey) : List Call :=
  s.calls.rows.filter fun c => c.runKey = k ∧ c.state = .emitted

def activeAdmission (s : State) (c : ContextId) : Option Admission :=
  s.admissions.rows.find? fun a => a.contextId = c ∧ a.isActive

/-- `UPDATE agui_calls SET state='abandoned' … AND state='emitted'`. -/
def abandonCalls (s : State) (k : RunKey) : State :=
  s.updateCalls (fun c => c.runKey = k ∧ c.state = .emitted) Call.abandon Call.abandon_key

end State

end PawFlow.Agui
