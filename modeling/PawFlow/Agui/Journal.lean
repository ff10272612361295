import PawFlow.Agui.Store

/-!
# Threads and the event journal

The transactions of `core/_a2a_turn_machine.py` (thread bootstrap, context resolution,
rotation) and of `core/_a2a_turn_journal.py` (opening a run, subscribing, appending, pruning). A call that
runs several transactions (`resolve_agui_thread`, `sweep_agui_threads`, `expire_agui_batches`)
is modelled by those transactions, which other calls may separate.

A transaction raises and is rolled back, or returns a result with the new store. Where the
source commits first and raises afterwards, the result is itself an `Except`.
-/

namespace PawFlow.Agui

open PawFlow.Lib

namespace State

/-! ## Threads -/

/-- `ensure_agui_thread`. -/
def ensureThread (k : ThreadKey) (s : State) : Except Error (Int × State) :=
  if k.threadId = "" then
    .error (.valueError "An AG-UI thread requires a non-empty thread_id")
  -- the publication is a foreign key
  else if (s.publications.get? k.publicationId).isNone then .error .integrityError
  else
    let threads := s.threads.insertIgnore { key := k }
    .ok (((threads.get? k).map Thread.generation).getD 0, { s with threads })

/-- `_agui_internal_conversation`; `digest` is the context id without its `agui_`. -/
def internalConversation (p : Publication) (digest : String) : String :=
  if p.isolated then p.conversationId ++ "::a2a::" ++ digest else p.conversationId

/-- The context row when it is used again. -/
def seenContext (now : Time) (c : Context) : Context := { c with lastSeenAt := now }

theorem seenContext_id (now : Time) (c : Context) : (seenContext now c).id = c.id := rfl

/-- The last transaction of `resolve_agui_thread`: validate the generation, then refresh or
create the context. -/
def resolveContext (p : Publication) (k : ThreadKey) (generation : Int) (digest : String)
    (now : Time) (s : State) : Except Error (Context × State) :=
  match s.threads.get? k with
  | none => .error (.threadRotated 0)
  | some row =>
    if generation < row.closedBeforeGeneration ∨ generation ≠ row.generation then
      .error (.threadRotated row.generation)
    else
      match s.contexts.get? ⟨k, row.generation⟩ with
      | some context =>
        .ok (context, { s with
          contexts := s.contexts.update (fun c => c.id = context.id) (seenContext now)
            (seenContext_id now) })
      | none =>
        if (s.publications.get? k.publicationId).isNone then .error .integrityError
        else
          let context : Context := ⟨⟨k, row.generation⟩, internalConversation p digest, now⟩
          match s.contexts.insert? context with
          | none => .error .integrityError
          | some contexts => .ok (context, { s with contexts })

/-- The thread row once its cleanup is done. -/
def cleanedThread (t : Thread) : Thread := { t with pendingCleanupConversation := "" }

theorem cleanedThread_key (t : Thread) : (cleanedThread t).key = t.key := rfl

/-- The CAS that clears the cleanup marker, after the conversation was deleted; a rotation
also names the generation it made. -/
def clearCleanup (k : ThreadKey) (marker : String) (generation : Option Int) (s : State) :
    Except Error (Unit × State) :=
  .ok ((), { s with
    threads := s.threads.update
      (fun t => t.key = k ∧ t.pendingCleanupConversation = marker ∧
        generation.all fun g => t.generation = g)
      cleanedThread cleanedThread_key })

/-- `DELETE FROM a2a_contexts WHERE context_id=?` with all its cascades, and the explicit
deletes of the rotation. -/
def dropContext (s : State) (c : ContextId) : State :=
  { s with
    contexts := s.contexts.delete fun x => x.id = c
    tombstones := s.tombstones.filter fun t =>
      ¬ (t.contextId.thread = c.thread ∧ t.contextId.generation ≤ c.generation)
    admissions := s.admissions.delete fun a => a.contextId = c
    fences := s.fences.delete fun f => f.contextId = c
    runs := s.runs.delete fun r => r.contextId = c
    journal := s.journal.delete fun j => j.contextId = c
    calls := s.calls.delete fun x => x.contextId = c
    batches := s.batches.delete fun b => b.contextId = c
    runTokens := s.runTokens.delete fun r => r.contextId = c }

/-- The thread row a rotation writes. -/
def rotatedThread (marker : String) (close : Bool) (t : Thread) : Thread :=
  { t with
    generation := t.generation + 1
    closedBeforeGeneration :=
      if close then max t.closedBeforeGeneration (t.generation + 1) else t.closedBeforeGeneration
    pendingCleanupConversation := marker }

theorem rotatedThread_key (marker : String) (close : Bool) (t : Thread) :
    (rotatedThread marker close t).key = t.key := rfl

/-- The transaction of `rotate_agui_thread`: the marker it leaves and the new generation. -/
def rotate (p : Publication) (k : ThreadKey) (expectedGeneration : Int) (closeGeneration : Bool)
    (s : State) : Except Error ((String × Int) × State) :=
  match s.threads.get? k with
  | none => .error (.valueError "Unknown AG-UI thread")
  | some row =>
    if expectedGeneration ≠ row.generation then .error (.threadRotated row.generation)
    else if row.pendingCleanupConversation ≠ "" then .error .cleanupPending
    else
      let old : ContextId := ⟨k, row.generation⟩
      match s.activeAdmission old with
      | some a => .error (.turnBusy a.runId)
      | none =>
        match s.batches.rows.find? fun b => b.contextId = old ∧ b.state.isOpen with
        | some b => .error (.turnBusy b.runId)
        | none =>
          let oldInternal :=
            ((s.contexts.get? old).map Context.internalConversationId).getD ""
          let marker := if p.isolated then oldInternal else ""
          let threads := s.threads.update (fun t => t.key = k)
            (rotatedThread marker closeGeneration)
            (rotatedThread_key marker closeGeneration)
          .ok ((marker, row.generation + 1), { s with threads }.dropContext old)

/-- The throttle transaction of `sweep_agui_threads`; the rotations it then tries are
transactions of their own. -/
def reserveSweep (minInterval now : Time) (s : State) : Except Error (Bool × State) :=
  if s.lastSweepAt.any fun t => now - t < minInterval then .ok (false, s)
  else .ok (true, { s with lastSweepAt := some now })

/-- `managed_mode` as an owner edits the publication. -/
def savePublication (p : Publication) (s : State) : Except Error (Unit × State) :=
  .ok ((), { s with publications := s.publications.upsert p })

/-! ## The journal -/

/-- `INSERT OR IGNORE INTO agui_runs`; the context is a foreign key. -/
def insertRun (k : RunKey) (now : Time) (s : State) : Except Error State :=
  if (s.contexts.get? k.1).isNone then .error .runUnknown
  else .ok { s with
    runs := s.runs.insertIgnore { contextId := k.1, runId := k.2, updatedAt := now } }

/-- `open_agui_run`. -/
def openRun (k : RunKey) (now : Time) (s : State) : Except Error (Run × State) :=
  if k.2 = "" then .error (.valueError "context_id and run_id are required")
  else
    (s.insertRun k now).bind fun s =>
      match s.runs.get? k with
      | none => .error .runUnknown
      | some row => .ok (row, s)

/-- The run row once a subscriber took over its stream. -/
def subscribedRun (now : Time) (r : Run) : Run :=
  { r with subscriberEpoch := r.subscriberEpoch + 1, updatedAt := now }

theorem subscribedRun_key (now : Time) (r : Run) : (subscribedRun now r).key = r.key := rfl

/-- `acquire_agui_subscriber`: the epoch of the new subscriber and the committed sequence. -/
def acquireSubscriber (k : RunKey) (afterSeq : Int) (now : Time) (s : State) :
    Except Error ((Nat × Nat) × State) :=
  if afterSeq < 0 then .error (.valueError "after_seq must be >= 0")
  else
    match s.runs.get? k with
    | none => .error .runUnknown
    | some row =>
      if afterSeq > row.committedSequence then
        .error (.valueError "after_seq is beyond the committed sequence")
      else
        .ok ((row.subscriberEpoch + 1, row.committedSequence),
          s.updateRun k (subscribedRun now) (subscribedRun_key now))

/-- The `UPDATE agui_runs` that goes with one journal row. -/
def advance (eventJson outcome : String) (terminal : Bool) (now : Time) (r : Run) : Run :=
  { r with
    terminal
    outcome := if terminal then outcome else ""
    eventCount := r.eventCount + 1
    byteCount := r.byteCount + eventJson.utf8ByteSize
    committedSequence := r.committedSequence + 1
    updatedAt := now }

theorem advance_key (eventJson outcome : String) (terminal : Bool) (now : Time) (r : Run) :
    (advance eventJson outcome terminal now r).key = r.key := rfl

/-- Write the next event of an active run: the journal row and the run's counters. -/
def writeEvent (row : Run) (eventJson outcome : String) (terminal : Bool) (now : Time)
    (s : State) : Except Error State :=
  match s.journal.insert?
      { contextId := row.contextId, runId := row.runId, seq := row.committedSequence + 1
        eventJson, terminal } with
  | none => .error .integrityError
  | some journal =>
    .ok ({ s with journal }.updateRun row.key (advance eventJson outcome terminal now)
      (advance_key eventJson outcome terminal now))

def quotaTerminalEvent : String :=
  "\x7b\"type\": \"RUN_ERROR\", \"message\": \"run_quota_exceeded\", " ++
    "\"code\": \"run_quota_exceeded\"\x7d"

/-- `_refuse_unfrozen_managed_success`. -/
def unfrozenManagedSuccess (s : State) (k : RunKey) : Bool :=
  s.managed k.1 && !(s.pendingCalls k).isEmpty && (s.batches.get? k).isNone

structure AppendArgs where
  eventJson : String
  terminal : Bool := false
  outcome : String := ""
  maxEvents : Int := 10000
  maxBytes : Int := 8 * 1024 * 1024

/-- `append_agui_event`; over quota the terminal event is committed before the call raises. -/
def append (k : RunKey) (a : AppendArgs) (now : Time) (s : State) :
    Except Error (Except Error Nat × State) :=
  if a.terminal ∧ a.outcome = "" then .error (.valueError "A terminal event requires an outcome")
  else
    match s.runs.get? k with
    | none => .error .runUnknown
    | some row =>
      if (a.terminal ∧ a.outcome = "success") ∧ s.unfrozenManagedSuccess k then
        .error .managedSuccessWithoutBatch
      else if row.terminal then .error (.runTerminal row.outcome)
      else
        let overQuota : Bool := !a.terminal &&
          (decide ((row.eventCount : Int) + 1 > a.maxEvents) ||
            decide ((row.byteCount : Int) + a.eventJson.utf8ByteSize > a.maxBytes))
        if overQuota then
          (s.writeEvent row quotaTerminalEvent "run_quota_exceeded" true now).bind fun s =>
            .ok (.error .runQuotaExceeded, s)
        else
          (s.writeEvent row a.eventJson a.outcome a.terminal now).bind fun s =>
            .ok (.ok (row.committedSequence + 1), s)

/-- `_terminalize_run_in_tx`: the outcome the journal holds afterwards. -/
def terminalizeRun (k : RunKey) (outcome eventJson : String) (now : Time) (s : State) :
    Except Error (String × State) :=
  match s.runs.get? k with
  | none => .error .runUnknown
  | some run =>
    if run.terminal then .ok (run.outcome, s)
    else (s.writeEvent run eventJson outcome true now).bind fun s => .ok (outcome, s)

/-- The runs `prune_agui_journals` takes. -/
def prunable (cutoff : Time) (r : Run) : Bool :=
  r.terminal ∧ r.updatedAt ≤ cutoff ∧ r.replayWatermark < r.committedSequence

def prunedRun (now : Time) (r : Run) : Run :=
  { r with replayWatermark := r.committedSequence, updatedAt := now }

theorem prunedRun_key (now : Time) (r : Run) : (prunedRun now r).key = r.key := rfl

/-- `prune_agui_journals`: every old terminal run loses its events and keeps its row. -/
def prune (retention now : Time) (s : State) : Except Error (Nat × State) :=
  let cutoff := now - max 0 retention
  .ok (s.runs.count (prunable cutoff),
    { s with
      journal := s.journal.delete fun j => (s.runs.get? j.runKey).any (prunable cutoff)
      runs := s.runs.update (prunable cutoff) (prunedRun now) (prunedRun_key now) })

end State

end PawFlow.Agui
