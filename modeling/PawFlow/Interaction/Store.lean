import PawFlow.Core.FlowFile
import PawFlow.Lib.Json
import PawFlow.Lib.PyString
import PawFlow.Lib.Table

/-!
# The user interaction store

The tables of `core/confirmation_store.py` and its transactions, each of them one
`with self._lock, self._connect()` block. A call such as `respond` is several of these
blocks, with nothing held in between; `Interaction.Calls` puts them together.

JSON columns hold the values themselves: what `json.dumps` writes is only ever read back
by `json.loads`. A parked FlowFile is kept as it is, since `_restore_flowfile` rebuilds
what `_serialize_flowfile` wrote.
-/

namespace PawFlow.Interaction

open PawFlow.Lib PawFlow.Core

/-- Clock readings in microseconds. -/
abbrev Time := Int

/-- What the store takes from elsewhere: `validate_interaction_answer` (kind, answer,
response schema, options), the first 16 hex digits of SHA-256, `str`, and
`datetime.isoformat` of a time stamp. -/
structure Platform where
  validateInteractionAnswer : String → Json → Json → Json → Except String Json
  sha256Hex16 : String → String
  str : Json → String
  isoformat : Time → String

/-! ## Rows -/

inductive ConfirmationStatus
  | pending | answered | cancelled | expired
deriving DecidableEq

def ConfirmationStatus.text : ConfirmationStatus → String
  | pending => "pending"
  | answered => "answered"
  | cancelled => "cancelled"
  | expired => "expired"

/-- A row of `confirmations`; `expiresAt = 0` means no deadline. -/
structure Confirmation where
  requestId : String
  conversationId : String
  kind : String
  options : Json
  responseSchema : Json
  signalId : String
  expiresAt : Time
  status : ConfirmationStatus
  answer : Option Json
  answeredBy : String
  answeredAt : Time

/-- The signal `_confirmation_row` reports for a row. -/
def Confirmation.signal (c : Confirmation) : String :=
  if c.signalId = "" then "confirmation:" ++ c.requestId else c.signalId

inductive WaitStatus
  | waiting | resolved | timeout | elapsed | cancelled | delivered
deriving DecidableEq

def WaitStatus.text : WaitStatus → String
  | waiting => "waiting"
  | resolved => "resolved"
  | timeout => "timeout"
  | elapsed => "elapsed"
  | cancelled => "cancelled"
  | delivered => "delivered"

/-- Statuses `deliver_resolved` selects. -/
def WaitStatus.ready : WaitStatus → Bool
  | resolved | timeout | elapsed | cancelled => true
  | waiting | delivered => false

inductive WaitKind
  | signal | timer
deriving DecidableEq

/-- A row of `durable_waits`. `resolution` is the value of `resolution_json`;
`importMetadata` is set for imported timers only. -/
structure Wait where
  waitId : String
  signalId : String
  instanceId : String
  taskId : String
  flowfile : FlowFile
  createdAt : Time
  expiresAt : Time
  status : WaitStatus
  resolution : Option (Json × Time)
  kind : WaitKind
  importMetadata : Option String

/-- A row of `durable_signal_values`. -/
structure SignalValue where
  signalId : String
  value : Json
  firedAt : Time

/-- Something that happened, for the record: what the calls returned or raised, and the
effects outside the tables. -/
inductive Event
  | raised (message : String)
  | responded (requestId : String)
  | cancelled (requestId : String) (done : Bool)
  /-- A `notify_signal` transaction, with the waits it resolved (none: value stored);
  `cause` is the interaction that fired it. -/
  | notified (cause : Option String) (signalId : String) (value : Json)
      (resolved : List String)
  /-- `park_wait` consumed a stored value and passes the FlowFile through. -/
  | passed (signalId : String) (flowfile : FlowFile)
  /-- `park_wait` consumed a stored value that reads as `None`. -/
  | discarded (signalId : String)
  /-- `park_wait` returned a wait id. -/
  | parked (signalId waitId : String)
  /-- An executor accepted a restored FlowFile. -/
  | injected (waitId : String) (flowfile : FlowFile)

structure Store where
  confirmations : Table String Confirmation Confirmation.requestId := .empty
  waits : Table String Wait Wait.waitId := .empty
  values : Table String SignalValue SignalValue.signalId := .empty
  log : List Event := []

namespace Store

def record (s : Store) (e : Event) : Store := { s with log := e :: s.log }

/-! ## Confirmations -/

/-- The transaction of `create_interaction`. Whether an existing row is returned or
reported as a different interaction makes no difference to the store. -/
def createInteraction (s : Store) (row : Confirmation) : Store :=
  match s.confirmations.insert?
      { row with status := .pending, answer := none, answeredBy := "", answeredAt := 0 } with
  | some confirmations => { s with confirmations }
  | none => s

def getConfirmation (s : Store) (requestId : String) : Option Confirmation :=
  s.confirmations.get? requestId

/-- The columns `_set_status` writes. -/
def withStatus (status : ConfirmationStatus) (c : Confirmation) : Confirmation :=
  { c with status }

theorem withStatus_requestId (status : ConfirmationStatus) (c : Confirmation) :
    (withStatus status c).requestId = c.requestId := rfl

/-- `_set_status`: no condition on the status the row has. -/
def setStatus (s : Store) (requestId : String) (status : ConfirmationStatus) : Store :=
  { s with
    confirmations := s.confirmations.update (fun c => c.requestId = requestId)
      (withStatus status) (withStatus_requestId status) }

/-- The columns `respond` writes. -/
def answerAt (answer : Json) (answeredBy : String) (now : Time) (c : Confirmation) :
    Confirmation :=
  { c with status := .answered, answer := some answer, answeredBy, answeredAt := now }

theorem answerAt_requestId (answer : Json) (answeredBy : String) (now : Time)
    (c : Confirmation) : (answerAt answer answeredBy now c).requestId = c.requestId := rfl

/-- `UPDATE … WHERE request_id=? AND status='pending'` of `respond`. -/
def answer (s : Store) (requestId : String) (answer : Json) (answeredBy : String)
    (now : Time) : Store :=
  { s with
    confirmations := s.confirmations.update
      (fun c => c.requestId = requestId && c.status = .pending)
      (answerAt answer answeredBy now) (answerAt_requestId answer answeredBy now) }

/-- The rows `sweep_once` expires. -/
def overdue (now : Time) (c : Confirmation) : Bool :=
  c.status = .pending && 0 < c.expiresAt && c.expiresAt < now

/-! ## Waits -/

def withWaitStatus (status : WaitStatus) (w : Wait) : Wait := { w with status }

theorem withWaitStatus_waitId (status : WaitStatus) (w : Wait) :
    (withWaitStatus status w).waitId = w.waitId := rfl

/-- `UPDATE durable_waits SET status=? WHERE p`. -/
def setWaits (s : Store) (p : Wait → Bool) (status : WaitStatus) : Store :=
  { s with waits := s.waits.update p (withWaitStatus status) (withWaitStatus_waitId status) }

/-- The first transaction of `sweep_once`: it expires overdue requests and ends overdue
waits and timers, and returns the requests it expired. -/
def sweep (s : Store) (now : Time) : List String × Store :=
  let expired := (s.confirmations.rows.filter (overdue now)).map Confirmation.requestId
  let s := { s with
    confirmations := s.confirmations.update (overdue now) (withStatus .expired)
      (withStatus_requestId .expired) }
  let s := s.setWaits (fun w => w.kind = .signal && w.status = .waiting &&
    0 < w.expiresAt && w.expiresAt < now) .timeout
  let s := s.setWaits (fun w => w.kind = .timer && w.status = .waiting &&
    w.expiresAt ≤ now) .elapsed
  (expired, s)

/-- The arguments of `park_wait`. -/
structure Park where
  signalId : String
  instanceId : String
  taskId : String
  flowfile : FlowFile
  timeout : Time

def waitIdOf (P : Platform) (park : Park) : String :=
  "wait_" ++ P.sha256Hex16 (park.signalId ++ "\x00" ++ park.instanceId ++ "\x00" ++
    park.taskId ++ "\x00" ++ park.flowfile.processId)

/-- The row `park_wait` inserts. -/
def parkedWait (P : Platform) (park : Park) (now : Time) : Wait where
  waitId := waitIdOf P park
  signalId := park.signalId
  instanceId := park.instanceId
  taskId := park.taskId
  flowfile := park.flowfile
  createdAt := now
  expiresAt := if park.timeout = 0 then 0 else now + park.timeout
  status := .waiting
  resolution := none
  kind := .signal
  importMetadata := none

/-- The second transaction of `park_wait`: a row with this id is left as it is. -/
def insertWait (s : Store) (w : Wait) : Store :=
  match s.waits.insert? w with
  | some waits => { s with waits }
  | none => s

/-- The row `park_timer` inserts; its signal is its own id. -/
def timerWait (waitId instanceId taskId : String) (flowfile : FlowFile)
    (createdAt deadlineAt : Time) (importMetadata : Option String) : Wait where
  waitId
  signalId := waitId
  instanceId
  taskId
  flowfile
  createdAt
  expiresAt := deadlineAt
  status := .waiting
  resolution := none
  kind := .timer
  importMetadata

/-- The transaction of `delete_imported_wait`. -/
def deleteImportedWait (s : Store) (waitId importMetadata : String) : Store :=
  match s.waits.get? waitId with
  | none => s
  | some w =>
    if w.importMetadata ≠ some importMetadata then
      s.record (.raised "imported wait provenance does not match")
    else if w.status ≠ .waiting then
      s.record (.raised "imported wait is no longer compensatable")
    else { s with waits := s.waits.delete fun w => w.waitId = waitId }

/-- `consume_signal_value`: the stored value of a signal, taken out of the table. `None`
when there is none, and when the stored value is `null`. -/
def consumeSignalValue (s : Store) (signalId : String) : Json × Store :=
  match s.values.get? signalId with
  | none => (.null, s)
  | some row => (row.value, { s with
      values := s.values.delete fun v => v.signalId = signalId })

/-- The columns `notify_signal` writes to a waiting row. -/
def resolveAt (value : Json) (now : Time) (w : Wait) : Wait :=
  { w with status := .resolved, resolution := some (value, now) }

theorem resolveAt_waitId (value : Json) (now : Time) (w : Wait) :
    (resolveAt value now w).waitId = w.waitId := rfl

/-- The waits `notify_signal` resolves. -/
def waitsOn (signalId : String) (w : Wait) : Bool :=
  w.signalId = signalId && w.status = .waiting

/-- The transaction of `notify_signal`: resolve the waiting rows of the signal, or
remember the value when there are none. Returns the ids of the rows resolved. -/
def notifySignal (s : Store) (signalId : String) (value : Json) (now : Time) :
    List String × Store :=
  let rows := s.waits.rows.filter (waitsOn signalId)
  let s := { s with
    waits := s.waits.update (waitsOn signalId) (resolveAt value now) (resolveAt_waitId value now) }
  if rows.isEmpty then ([], { s with values := s.values.upsert ⟨signalId, value, now⟩ })
  else (rows.map Wait.waitId, s)

/-- The transaction of `cancel_wait`. -/
def cancelWait (s : Store) (waitId : String) : Bool × Store :=
  ((s.waits.get? waitId).any fun w => w.status = .waiting,
    s.setWaits (fun w => w.waitId = waitId && w.status = .waiting) .cancelled)

/-- The rows `deliver_resolved` selects. -/
def resolvedWaits (s : Store) : List Wait := s.waits.rows.filter fun w => w.status.ready

/-- The last transaction of `_deliver_wait`. -/
def markDelivered (s : Store) (waitId : String) : Store :=
  s.setWaits (fun w => w.waitId = waitId) .delivered

/-! ## What a resumed FlowFile carries -/

/-- `signal_id.startswith(("interaction:", "confirmation:"))`. -/
def isInteractionSignal (signalId : String) : Bool :=
  startsWith signalId "interaction:" || startsWith signalId "confirmation:"

def stampInteractionResolution (P : Platform) (f : FlowFile) (signalId : String)
    (value : Json) : FlowFile :=
  if !isInteractionSignal signalId then f
  else
    let (status, answer) := match value with
      | .obj items =>
        (match PyDict.get? items "status" with
          | some v => if v.truthy then P.str v else "signaled"
          | none => "signaled",
         (PyDict.get? items "answer").getD .null)
      | value => ("signaled", value)
    let f := f.setAttribute "interaction.status" status
    match answer with
    | .null => f
    | .str text => f.setAttribute "interaction.answer" text
    | answer => f.setAttribute "interaction.answer" answer.dumps

/-- A FlowFile `park_wait` passes through. -/
def passThrough (P : Platform) (park : Park) (value : Json) : FlowFile :=
  let f := park.flowfile.setAttribute "durable.wait.status" "signaled"
  let f := f.setAttribute "durable.wait.value" value.dumps
  stampInteractionResolution P f park.signalId value

/-- The FlowFile `_deliver_wait` injects for a wait. -/
def restoredFlowFile (P : Platform) (w : Wait) (now : Time) : FlowFile :=
  match w.kind with
  | .timer =>
    let f := w.flowfile.setAttribute "durable.timer.status" w.status.text
    let f := f.setAttribute "durable.timer.scheduled_at" (P.isoformat w.expiresAt)
    let f := f.setAttribute "durable.timer.elapsed_at" (P.isoformat now)
    f.setAttribute "route.relationship" w.status.text
  | .signal =>
    let status := match w.status with
      | .timeout => "timeout"
      | .cancelled => "cancelled"
      | _ => "signaled"
    let f := w.flowfile.setAttribute "durable.wait.status" status
    let f := f.setAttribute "durable.wait.signal_id" w.signalId
    match w.resolution with
    | some (value, _) =>
      let f := f.setAttribute "durable.wait.value" value.dumps
      stampInteractionResolution P f w.signalId value
    | none =>
      if isInteractionSignal w.signalId then f.setAttribute "interaction.status" status
      else f

end Store

end PawFlow.Interaction
