import PawFlow.Conversation.Steps

/-!
# The other operations on a conversation

The writes beside the appends: rows put into one context, whole contexts, display traces
(`core/_conversation_store_agentctx.py`, `core/_conversation_store_maint.py`), and rewinding. With
them comes what happens to the metadata: the cache entry is loaded and reloaded, a flush writes what
it has to `extras.json`, and a restart loses everything that is only in memory
(`core/_conversation_store_cache.py`).
-/

namespace PawFlow.Conversation

open PawFlow.Lib

def displayCount (rows : List Row) : Nat := rows.countP fun row => row.role ≠ ""

namespace Conv

variable (s : Conv)

/-! ## Metadata -/

/-- `_seed_persisted_seq`. -/
def seedSeq (n : Nat) : Conv := { s with lastSeq := some (max (s.lastSeq.getD 0) n) }

/-- `_load_cache`: an entry from the metadata, unless there is one. -/
def loadCache : Conv :=
  match s.cache with
  | some _ => s
  | none =>
    { s.seedSeq s.peekMaxSeq with
      appendAgents := some s.convAgents
      cache := some {
        msgCount := s.metaMsgCount.getD (displayCount s.transcript)
        agents := s.convAgents
        metaMsgCount := s.metaMsgCount
        metaMaxSeq := s.metaMaxSeq } }

/-- `_prune_invalid_agent_context_dirs`. -/
def pruneContexts : Conv :=
  if s.convAgents = [] then s
  else { s with contexts := s.contexts.filter fun i => i.1 ∈ s.convAgents }

/-- The largest number among rows. -/
def maxSeq (rows : List Row) : Nat := rows.foldl (fun n row => max n (row.seq.getD 0)) 0

/-- `_reload_cache`: an entry from the transcript. -/
def reloadCache : Conv :=
  ({ s.seedSeq (maxSeq s.transcript) with
    appendAgents := some s.convAgents
    cache := some {
      msgCount := displayCount s.transcript
      agents := s.convAgents
      metaMsgCount := s.metaMsgCount
      metaMaxSeq := s.metaMaxSeq } }).pruneContexts

/-- `_persist_recomputed_hot_metadata`. -/
def persistRecomputed : Conv :=
  match s.cache with
  | none => s
  | some cache =>
    { s with
      metaMsgCount := some cache.msgCount
      cache := some { cache with
        metaMsgCount := some cache.msgCount, metaMaxSeq := s.metaMaxSeq } }

/-- `_persist_hot_metadata_worker`, with the values of its snapshot. -/
def flush (msgCount maxSeq : Option Nat) : Conv :=
  { s with
    metaMsgCount := msgCount.or s.metaMsgCount
    metaMaxSeq := maxSeq.or s.metaMaxSeq }

/-- The process ends, and another one starts. -/
def restart : Conv :=
  { s with lastSeq := none, toolParents := [], ctxKnown := [], appendAgents := none, cache := none }

/-! ## Rows for one log -/

/-- `create_display_trace`; the id and the time are the ones it mints. -/
def createDisplayTrace (traceId msgId : String) (ts : Time) (source : Source) : Conv :=
  s.appendTranscript [{ role := "sub_agent_trace", msgId, ts := some ts, source, displayOnly := true
                        traceId }]

def appendDisplayTrace (traceId msgId : String) (ts : Time) : Conv :=
  s.appendTranscript [{ role := "", msgId, ts := some ts, traceId }]

def canonicalAll (find : String → String) : Parents → List Message → List Row
  | _, [] => []
  | parents, m :: ms =>
    let (rows, parents) := m.canonicalRows find parents
    rows ++ canonicalAll find parents ms

def putRows (agent : String) (rows : List Row) : Conv :=
  if agent = "" then { s with shared := rows }
  else { s with contexts := s.contexts.set agent rows }

def rowsOf (agent : String) : List Row :=
  if agent = "" then s.shared else (s.contexts.get? agent).getD []

/-- `_validate_message` for every row. -/
def validateAll : List Row → Except StoreError Unit
  | [] => .ok ()
  | row :: rows =>
    match row.validate with
    | .error e => .error e
    | .ok () => validateAll rows

/-- `append_agent_context_message`; the message has its id and its time. -/
def appendContextMessage (agent : String) (m : Message) : Conv × Option StoreError :=
  if !s.created then (s, none)
  else
    let rows := (m.canonicalRows s.findParent []).1
    match validateAll rows with
    | .error e => (s, some e)
    | .ok () => (s.putRows agent (s.rowsOf agent ++ rows), none)

def noteContext (agent : String) : Conv :=
  { s with
    ctxKnown := if agent ∈ s.ctxKnown then s.ctxKnown else agent :: s.ctxKnown
    appendAgents := some (mergeAgents (s.appendAgents.getD []) [agent])
    cache := s.cache.map fun cache => { cache with agents := mergeAgents cache.agents [agent] } }

/-- `save_agent_context`. -/
def saveContext (agent : String) (ms : List Message) : Conv × Option StoreError :=
  if !s.created then (s, none)
  else
    let rows := canonicalAll s.findParent [] (ms.filter fun m => !m.row.displayOnly)
    match validateAll rows with
    | .error e => (s, some e)
    | .ok () =>
      let written := (s.advance rows.length).putRows agent (s.stamp rows)
      (if agent = "" then written else written.noteContext agent, none)

/-! ## Rewinding -/

/-- A log through the last row of the message, if it has one:
`SegmentedJsonl.truncate_after_msg_id`. -/
def keepThrough (msgId : String) (rows : List Row) : List Row :=
  if rows.any fun row => row.msgId = msgId then
    (rows.reverse.dropWhile fun row => row.msgId ≠ msgId).reverse
  else rows

/-- `truncate_after_msg_id`. -/
def truncateAfter (msgId : String) : Conv :=
  let msgId := strip msgId
  if msgId = "" ∨ !s.created ∨ !(s.transcript.any fun row => row.msgId = msgId) then s
  else
    ({ s with
      transcript := keepThrough msgId s.transcript
      shared := keepThrough msgId s.shared
      contexts := s.contexts.map fun (i : String × List Row) => (i.1, keepThrough msgId i.2)
      cache := none }).reloadCache.persistRecomputed

end Conv

end PawFlow.Conversation
