import PawFlow.Interaction.Store
import PawFlow.Lib.Pool

/-!
# Calls of the interaction store

A call is a sequence of transactions with nothing held in between. `Task` lists the
atomic steps, `exec` runs one of them and says which steps of the same call come next,
and `Lib.Pool` interleaves the calls.
-/

namespace PawFlow.Interaction

open PawFlow.Lib PawFlow.Core

/-- One atomic step of a call: a transaction, or the hand-over of a FlowFile. -/
inductive Task
  | createInteraction (row : Confirmation)
  /-- `respond` up to the end of its first transaction. -/
  | respond (requestId : String) (answer : Json) (answeredBy : String)
  /-- `_set_status(request_id, "expired")` of `respond`. -/
  | respondExpire (requestId : String)
  /-- The compare-and-set of `respond`, for the row read before. -/
  | respondUpdate (row : Confirmation) (normalized : Json) (answeredBy : String)
  /-- `cancel` up to the end of its first transaction. -/
  | cancel (requestId : String)
  /-- `_set_status(request_id, "cancelled")` of `cancel`, for the row read before. -/
  | cancelWrite (row : Confirmation)
  /-- `sweep_once` up to the end of its first transaction. -/
  | sweepOnce
  /-- The loop body of `sweep_once`: read an expired request back. -/
  | sweepRead (requestId : String)
  | notifySignal (cause : Option String) (signalId : String) (value : Json)
  /-- `park_wait` up to the end of `consume_signal_value`. -/
  | parkWait (park : Store.Park)
  /-- The second transaction of `park_wait`. -/
  | parkInsert (park : Store.Park)
  /-- `park_timer`, with the digits of its fresh wait id. -/
  | parkTimer (uuid instanceId taskId : String) (flowfile : FlowFile) (deadlineAt : Time)
  | importTimer (waitId instanceId taskId : String) (flowfile : FlowFile)
      (deadlineAt createdAt : Time) (importMetadata : String)
  | deleteImportedWait (waitId importMetadata : String)
  | cancelWait (waitId : String)
  /-- The snapshot `deliver_resolved` takes. -/
  | deliverResolved
  /-- `_deliver_wait` of a row of the snapshot, up to the answer of the executor. -/
  | deliverWait (wait : Wait)
  /-- The transaction that ends `_deliver_wait`. -/
  | markDelivered (waitId : String)

/-- The steps a call can begin with. -/
def Task.isCall : Task → Bool
  | .createInteraction _ | .respond .. | .cancel _ | .sweepOnce | .notifySignal none _ _
  | .parkWait _ | .parkTimer .. | .importTimer .. | .deleteImportedWait ..
  | .cancelWait _ | .deliverResolved => true
  | _ => false

/-- What a step learns from outside: the clock, and whether the executor of a wait is
running and accepts the FlowFile. -/
structure Env where
  now : Time := 0
  running : Bool := true
  accepts : Bool := true

/-- The value `_resume_requester` notifies. -/
def answeredValue (answer : Json) (answeredBy : String) : Json :=
  .obj [("status", .str "answered"), ("answer", answer), ("answered_by", .str answeredBy)]

/-- The value `cancel` and `sweep_once` notify. -/
def closedValue (status : ConfirmationStatus) : Json :=
  .obj [("status", .str status.text), ("answer", .null)]

/-- The notification an interaction causes on its signal. -/
def notifyFor (row : Confirmation) (value : Json) : Task :=
  .notifySignal (some row.requestId) row.signal value

namespace Store

variable (P : Platform)

def execRespond (s : Store) (requestId : String) (answer : Json) (answeredBy : String)
    (now : Time) : Store × List Task :=
  match s.getConfirmation requestId with
  | none => (s.record (.raised "Unknown user interaction request"), [])
  | some row =>
    if row.status ≠ .pending then
      (s.record (.raised ("Interaction is already " ++ row.status.text)), [])
    else if row.expiresAt ≠ 0 && row.expiresAt < now then
      (s, [.respondExpire requestId])
    else match P.validateInteractionAnswer row.kind answer row.responseSchema
        row.options with
    | .error message => (s.record (.raised message), [])
    | .ok normalized => (s, [.respondUpdate row normalized answeredBy])

def execRespondUpdate (s : Store) (row : Confirmation) (normalized : Json)
    (answeredBy : String) (now : Time) : Store × List Task :=
  match s.getConfirmation row.requestId with
  | some current =>
    if current.status = .pending then
      ((s.answer row.requestId normalized answeredBy now).record (.responded row.requestId),
        [notifyFor row (answeredValue normalized answeredBy)])
    else (s.record (.raised "Interaction was answered concurrently"), [])
  | none => (s.record (.raised "Interaction was answered concurrently"), [])

def execCancel (s : Store) (requestId : String) : Store × List Task :=
  match s.getConfirmation requestId with
  | some row =>
    if row.status = .pending then (s, [.cancelWrite row])
    else (s.record (.cancelled requestId false), [])
  | none => (s.record (.cancelled requestId false), [])

def execSweepRead (s : Store) (requestId : String) : Store × List Task :=
  match s.getConfirmation requestId with
  | some row => (s, [notifyFor row (closedValue .expired)])
  | none => (s, [])

def execNotify (s : Store) (cause : Option String) (signalId : String) (value : Json)
    (now : Time) : Store × List Task :=
  if signalId = "" then (s.record (.raised "signal_id is required"), [])
  else
    let (resolved, s) := s.notifySignal signalId value now
    (s.record (.notified cause signalId value resolved),
      if resolved.isEmpty then [] else [.deliverResolved])

def execPark (s : Store) (park : Park) : Store × List Task :=
  if park.signalId = "" then (s.record (.raised "signal_id is required"), [])
  else
    let stored := (s.values.get? park.signalId).isSome
    let (existing, s) := s.consumeSignalValue park.signalId
    if existing.isNull then
      (if stored then s.record (.discarded park.signalId) else s, [.parkInsert park])
    else (s.record (.passed park.signalId (passThrough P park existing)), [])

def execParkInsert (s : Store) (park : Park) (now : Time) : Store × List Task :=
  if park.flowfile.processId = "" then
    (s.record (.raised "flowfile process_id is required"), [])
  else
    ((s.insertWait (parkedWait P park now)).record (.parked park.signalId (waitIdOf P park)), [])

/-- `import_timer`. An existing row is left as it is, whether it is the same timer or
reported as a different one. -/
def execImportTimer (s : Store) (waitId instanceId taskId : String) (flowfile : FlowFile)
    (deadlineAt createdAt : Time) (importMetadata : String) : Store × List Task :=
  if !startsWith waitId "timer_legacy_" || instanceId = "" || taskId = "" then
    (s.record (.raised "wait_id, instance_id and task_id are required for imported timer"), [])
  else if deadlineAt < createdAt then
    (s.record (.raised "deadline_at must not precede created_at"), [])
  else
    (s.insertWait (timerWait waitId instanceId taskId flowfile createdAt deadlineAt
      (some importMetadata)), [])

/-- The wait belongs to a workflow run: `workflow:` followed by a run id. -/
def isWorkflowWait (w : Wait) : Bool :=
  startsWith w.instanceId "workflow:" && w.instanceId ≠ "workflow:"

/-- A FlowFile is handed over to a running executor (or to the runtime of its workflow
run); a refusal is left for the next sweep. -/
def execDeliver (s : Store) (w : Wait) (env : Env) : Store × List Task :=
  if !isWorkflowWait w && !env.running then (s, [])
  else if !env.accepts then (s, [])
  else (s.record (.injected w.waitId (restoredFlowFile P w env.now)), [.markDelivered w.waitId])

def exec (s : Store) (t : Task) (env : Env) : Store × List Task :=
  match t with
  | .createInteraction row => (s.createInteraction row, [])
  | .respond requestId answer answeredBy =>
    s.execRespond P requestId answer answeredBy env.now
  | .respondExpire requestId =>
    ((s.setStatus requestId .expired).record (.raised "Interaction has expired"), [])
  | .respondUpdate row normalized answeredBy =>
    s.execRespondUpdate row normalized answeredBy env.now
  | .cancel requestId => s.execCancel requestId
  | .cancelWrite row =>
    ((s.setStatus row.requestId .cancelled).record (.cancelled row.requestId true),
      [notifyFor row (closedValue .cancelled)])
  | .sweepOnce =>
    let (expired, s) := s.sweep env.now
    (s, expired.map .sweepRead ++ [.deliverResolved])
  | .sweepRead requestId => s.execSweepRead requestId
  | .notifySignal cause signalId value => s.execNotify cause signalId value env.now
  | .parkWait park => s.execPark P park
  | .parkInsert park => s.execParkInsert P park env.now
  | .parkTimer uuid instanceId taskId flowfile deadlineAt =>
    if instanceId = "" || taskId = "" then
      (s.record (.raised "instance_id and task_id are required"), [])
    else if deadlineAt ≤ env.now then (s, [])
    else (s.insertWait
      (timerWait ("timer_" ++ uuid) instanceId taskId flowfile env.now deadlineAt none), [])
  | .importTimer waitId instanceId taskId flowfile deadlineAt createdAt importMetadata =>
    s.execImportTimer (strip waitId) (strip instanceId) (strip taskId) flowfile deadlineAt
      createdAt importMetadata
  | .deleteImportedWait waitId importMetadata =>
    (s.deleteImportedWait waitId importMetadata, [])
  | .cancelWait waitId =>
    let (updated, s) := s.cancelWait waitId
    (s, if updated then [.deliverResolved] else [])
  | .deliverResolved => (s, s.resolvedWaits.map .deliverWait)
  | .deliverWait w => s.execDeliver P w env
  | .markDelivered waitId => (s.markDelivered waitId, [])

/-- What the first half of `park_wait` does: it raises, finds no stored value, or takes
the stored value out, which is then passed through unless it reads as `None`. -/
theorem execPark_cases (s : Store) (park : Park) :
    (park.signalId = "" ∧ s.execPark P park = (s.record (.raised "signal_id is required"), [])) ∨
    (s.values.get? park.signalId = none ∧ s.execPark P park = (s, [.parkInsert park])) ∨
    (∃ row, s.values.get? park.signalId = some row ∧ row.value.isNull = true ∧
      s.execPark P park = (({ s with
        values := s.values.delete fun v => v.signalId = park.signalId } : Store).record
          (.discarded park.signalId), [.parkInsert park])) ∨
    (∃ row, s.values.get? park.signalId = some row ∧ row.value.isNull = false ∧
      s.execPark P park = (({ s with
        values := s.values.delete fun v => v.signalId = park.signalId } : Store).record
          (.passed park.signalId (passThrough P park row.value)), [])) := by
  by_cases hsig : park.signalId = ""
  · exact Or.inl ⟨hsig, by simp [execPark, hsig]⟩
  cases hget : s.values.get? park.signalId with
  | none =>
    refine Or.inr (Or.inl ⟨rfl, ?_⟩)
    simp [execPark, consumeSignalValue, hsig, hget, Json.isNull]
  | some row =>
    cases hnull : row.value.isNull with
    | true =>
      refine Or.inr (Or.inr (Or.inl ⟨row, rfl, hnull, ?_⟩))
      simp [execPark, consumeSignalValue, hsig, hget, hnull]
    | false =>
      refine Or.inr (Or.inr (Or.inr ⟨row, rfl, hnull, ?_⟩))
      simp [execPark, consumeSignalValue, hsig, hget, hnull]

/-- The store with its calls in progress. -/
abbrev System := Pool Store Task

/-- No call in progress on an empty store. -/
def initial : System := { state := {} }

abbrev step (p : System) (a : PoolLabel Task Env) : Option System :=
  Pool.step (exec P) Task.isCall p a

/-- Runs whose steps all meet a condition on the store, the pending tasks, the task and
its environment. -/
abbrev RunsUnder (ok : Store → Multiset Task → Task → Env → Bool) (p q : System) : Prop :=
  Runs (step P) (fun p a => Pool.guarded ok p a = true) p q

def plainPlatform : Platform where
  validateInteractionAnswer _ answer _ _ := .ok answer
  sha256Hex16 := id
  str _ := ""
  isoformat _ := ""

end Store

end PawFlow.Interaction
