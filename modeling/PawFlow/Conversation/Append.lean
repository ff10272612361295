import PawFlow.Conversation.Rows

/-!
# Appending messages

`append_message` and `append_messages` of `core/_conversation_store_append.py` on one conversation:
a message is stored in the transcript, in the context of its own agent and in the shared context,
and is queued for the other agents. The batch does the same with one write for each file.

The logs are lists of rows, in file order, as a reader with the key sees them. Beside them the state
has the metadata of `extras.json` and what the process keeps in memory.
-/

namespace PawFlow.Conversation

open PawFlow.Lib

/-- The entry of `_cache`, with the metadata it will flush. -/
structure Cache where
  msgCount : Nat
  agents : List String
  metaMsgCount : Option Nat
  metaMaxSeq : Option Nat
deriving DecidableEq

structure Conv where
  created : Bool := false
  transcript : List Row := []
  shared : List Row := []
  contexts : PyDict String (List Row) := []
  /-- What was handed to the inbox of each agent. -/
  catchUp : String → List Row := fun _ => []
  /-- `extras.json`: `conv_agents`, `_meta_msg_count`, `_meta_max_seq`. -/
  convAgents : List String := []
  metaMsgCount : Option Nat := none
  metaMaxSeq : Option Nat := none
  /-- Encrypted, and the key is not in the vault. -/
  locked : Bool := false
  /-- `_msg_seq_persisted`. -/
  lastSeq : Option Nat := none
  toolParents : Parents := []
  /-- `_agent_ctx_exists_cache`. -/
  ctxKnown : List String := []
  /-- `_append_agents_cache`. -/
  appendAgents : Option (List String) := none
  cache : Option Cache := none

/-- One item of `append_messages`; the agent name is canonical. -/
structure Item where
  msg : Message
  agentName : String := ""
  userId : String := ""

namespace Item

variable (item : Item)

def row : Row := item.msg.row

def source : Source := item.msg.row.source

/-- The agent in whose context the message belongs; `canon` is `_canon_agent`. -/
def routeAgent (canon : String → String) : String :=
  let target := if item.source.targetAgent = "" then "" else canon item.source.targetAgent
  if item.agentName ≠ "" then item.agentName
  else if target = "ALL" ∨ target = "all" then "" else target

/-- The checks before the lock is taken. -/
def check (canon : String → String) : Except StoreError Unit :=
  match item.row.validate with
  | .error e => .error e
  | .ok () =>
    let target := if item.source.targetAgent = "" then "" else canon item.source.targetAgent
    if item.row.role = "user" ∧ item.source.type ≠ "context" ∧ target = "" then
      .error .noTargetAgent
    else .ok ()

def isContext : Bool := item.source.type = "context"

def isDelegate : Bool := item.source.type = "agent_delegate"

def sharesRows : Bool := !item.isContext && item.source.visibility ≠ "target_only"

end Item

/-! ## Sequence numbers -/

/-- Rows with the numbers after `n`. -/
def stampRows : Nat → List Row → List Row
  | _, [] => []
  | n, row :: rows => { row with seq := some (n + 1) } :: stampRows (n + 1) rows

namespace Conv

variable (s : Conv)

/-- `peek_persisted_max_seq`. -/
def peekMaxSeq : Nat :=
  max (s.metaMaxSeq.getD 0) ((s.transcript.getLast?.bind Row.seq).getD 0)

/-- The last number given out, as the next `_stamp_line` sees it. -/
def counter : Nat := s.lastSeq.getD s.peekMaxSeq

def stamp (rows : List Row) : List Row := stampRows s.counter rows

/-- The counter after as many numbers. -/
def advance (n : Nat) : Conv := { s with lastSeq := some (s.counter + n) }

/-! ## Writing -/

/-- `cache[tcid] = msg_id` for the calls among rows. -/
def rememberParents (parents : Parents) (rows : List Row) : Parents :=
  rows.foldl (fun parents row =>
    if row.role = "tool_call" ∧ row.toolCallId ≠ "" ∧ row.msgId ≠ "" then
      parents.set row.toolCallId row.msgId
    else parents) parents

/-- `_find_tool_call_parent_id`. -/
def findParent (toolCallId : String) : String :=
  if toolCallId = "" then ""
  else
    match s.toolParents.get? toolCallId with
    | some msgId => if msgId ≠ "" then msgId else
        ((s.transcript.reverse.find? fun row =>
          row.role = "tool_call" && row.toolCallId = toolCallId).map Row.msgId).getD ""
    | none =>
      ((s.transcript.reverse.find? fun row =>
        row.role = "tool_call" && row.toolCallId = toolCallId).map Row.msgId).getD ""

def appendTranscript (rows : List Row) : Conv :=
  { s.advance rows.length with
    transcript := s.transcript ++ s.stamp rows
    toolParents := rememberParents s.toolParents rows }

/-- `_append_shared_ctx`. -/
def appendShared (rows : List Row) : Conv :=
  { s.advance rows.length with shared := s.shared ++ s.stamp rows }

/-- `_append_ctx_file`. -/
def appendContext (agent : String) (rows : List Row) : Conv :=
  { s.advance rows.length with
    contexts := s.contexts.set agent ((s.contexts.get? agent).getD [] ++ s.stamp rows)
    ctxKnown := if agent ∈ s.ctxKnown then s.ctxKnown else agent :: s.ctxKnown }

/-- `_seed_agent_context_from_shared_if_missing`. -/
def seedContext (agent : String) : Conv :=
  if agent ∈ s.ctxKnown then s
  else if (s.contexts.get? agent).isSome then { s with ctxKnown := agent :: s.ctxKnown }
  else if s.shared.isEmpty then s
  else
    { s with
      contexts := s.contexts.set agent (sharedForAgent s.shared agent)
      ctxKnown := agent :: s.ctxKnown }

/-- `save(cid, [])` of a conversation that does not exist. -/
def create : Conv :=
  { s with
    created := true, convAgents := [], metaMsgCount := some 0, metaMaxSeq := some 0
    appendAgents := some []
    cache := some ⟨0, [], some 0, some 0⟩ }

/-- `_cache_agents_for_append`: the agents, and the state that remembers them. -/
def agentsForAppend : List String × Conv :=
  match s.appendAgents with
  | some agents => (agents, s)
  | none =>
    let agents := match s.cache with
      | some cache => cache.agents
      | none => s.convAgents
    (agents, { s with appendAgents := some agents })

/-- The agents a message may be broadcast to. -/
def knownAgents (role route : String) : List String × Conv :=
  let (agents, s') :=
    if role = "user" ∧ route ≠ "" ∧ s.appendAgents.isNone ∧ s.cache.isNone then ([route], s)
    else s.agentsForAppend
  (if route ≠ "" ∧ route ∉ agents then agents ++ [route] else agents, s')

/-- The rows of `_queue_catchup_rows` for every one of these agents. -/
def queue (others : List String) (rows : String → List Row) : Conv :=
  { s with catchUp := fun agent =>
      if agent ∈ others then s.catchUp agent ++ rows agent else s.catchUp agent }

end Conv

/-- The rows as the agents see them; a message has one shared row at most. -/
def transformAll (rows : List Row) (agent : String) : Except StoreError (List Row) :=
  rows.mapM fun row => transformForOtherAgent row agent

/-- The catch-up items of a broadcast, or what raises. -/
def broadcastRows (others : List String) (rows : List Row) : Except StoreError Unit :=
  match others with
  | [] => .ok ()
  | _ =>
    if rows.any fun row => row.source.type = "agent" && row.source.name = "" then
      .error .noAgentName
    else if rows.any fun row => row.senderName = "" then .error .noSender
    else .ok ()

/-- `set.update`. -/
def mergeAgents (known new : List String) : List String :=
  known ++ (new.filter fun agent => agent ≠ "" && agent ∉ known)

namespace Conv

/-- `_note_cache_append` for one transcript row. -/
def noteAppend (touched : List String) (s : Conv) (row : Row) : Conv :=
  let s := if touched.isEmpty then s
    else { s with appendAgents := some (mergeAgents (s.appendAgents.getD []) touched) }
  match s.cache with
  | none => s
  | some cache =>
    let msgCount := cache.msgCount + 1
    { s with cache := some {
        msgCount
        agents := mergeAgents cache.agents touched
        metaMsgCount :=
          if row.role ≠ "" then some (max msgCount (cache.metaMsgCount.getD 0 + 1))
          else cache.metaMsgCount
        metaMaxSeq :=
          match row.seq with
          | some (seq + 1) => some (max (cache.metaMaxSeq.getD 0) (seq + 1))
          | _ => cache.metaMaxSeq } }

def noteAppends (s : Conv) (rows : List Row) (touched : List String) : Conv :=
  rows.foldl (noteAppend touched) s

end Conv

/-! ## One message -/

/-- What the routing of a message leaves: the state, the agents it touched, and what it raised. -/
structure Routed where
  conv : Conv
  touched : List String := []
  error : Option StoreError := none

section

variable (canon : String → String)

/-- The shared row and the broadcast of a message. -/
def shareRows (s : Conv) (role route : String) (rows : List Row) (touched : List String) :
    Routed :=
  let candidates := filterForShared rows
  if candidates.isEmpty then ⟨s, touched, none⟩
  else
    match candidates.mapM transformForShared with
    | .error e => ⟨s, touched, some e⟩
    | .ok sharedRows =>
      let (known, s) := (s.appendShared sharedRows).knownAgents role route
      let others := known.filter fun other => other ≠ "" && other ≠ route
      match broadcastRows others candidates with
      | .error e => ⟨s, touched, some e⟩
      | .ok () =>
        ⟨s.queue others fun other => ((transformAll candidates other).toOption).getD [],
          mergeAgents touched others, none⟩

/-- `_route_delegate_message`. -/
def routeDelegate (s : Conv) (rows : List Row) (agentName : String) : Routed :=
  match rows with
  | [] => ⟨s, [], none⟩
  | msg :: children =>
    let source := msg.source
    let sender := if source.sender ≠ "" then source.sender else agentName
    if source.recipient = "" then ⟨s, [], none⟩
    else
      let label := if source.recipientLabel ≠ "" then source.recipientLabel else source.recipient
      let keepsOwn := source.externalTransport = "" ∨ source.kind = "reply"
      let s := if keepsOwn then
          s.appendContext (canon sender)
            (msg.prefixed ("[delegate " ++ sender ++ " → " ++ label ++ "]:") :: children)
        else s
      let touched := if keepsOwn then [canon sender] else []
      if source.kind = "reply" ∨ source.externalTransport ≠ "" then ⟨s, touched, none⟩
      else
        let shared := msg.prefixed ("[" ++ sender ++ " to agent " ++ source.recipient ++ "]:")
        let shared := if shared.role = "assistant" then { shared with role := "user" } else shared
        let (known, s) := (s.appendShared [shared]).agentsForAppend
        let others := (mergeAgents known touched).filter fun other =>
          other ≠ "" && other ≠ canon sender && other ≠ canon source.recipient
        match broadcastRows others [shared] with
        | .error e => ⟨s, touched, some e⟩
        | .ok () => ⟨s.queue others fun _ => [shared], mergeAgents touched others, none⟩

/-- The author's own context. -/
def ownContext (s : Conv) (item : Item) (rows : List Row) : Conv :=
  let route := item.routeAgent canon
  if route = "" then s
  else (if item.isContext then s else s.seedContext route).appendContext route rows

/-- Everything of `append_message` after the transcript. -/
def route (s : Conv) (item : Item) (rows : List Row) : Routed :=
  if item.row.displayOnly then ⟨s, [], none⟩
  else if item.isDelegate then routeDelegate canon s rows item.agentName
  else
    let agent := item.routeAgent canon
    let touched := if agent = "" then [] else [agent]
    let s := ownContext canon s item rows
    if item.sharesRows then shareRows s item.row.role agent rows touched else ⟨s, touched, none⟩

/-- The conversation a message is written to. -/
def Conv.opened (s : Conv) (userId : String) : Except StoreError Conv :=
  if s.created then .ok s
  else if userId = "" then .error .noUserId
  else .ok s.create

/-- `append_message`: the state it leaves, and what it raises. -/
def appendMessage (s : Conv) (item : Item) : Conv × Option StoreError :=
  match item.check canon with
  | .error e => (s, some e)
  | .ok () =>
    let s := s.advance 0
    if s.locked then (s, some .locked)
    else
      match s.opened item.userId with
      | .error e => (s, some e)
      | .ok s =>
        let rows := (item.msg.canonicalRows s.findParent []).1
        let stored := if item.isContext then [] else rows
        let lines := s.stamp stored
        let routed := route canon (s.appendTranscript stored) item rows
        match routed.error with
        | some e => (routed.conv, some e)
        | none => (routed.conv.noteAppends lines routed.touched, none)

/-- `append_message` for each item, until one raises. -/
def appendEach (s : Conv) : List Item → Conv × Option StoreError
  | [] => (s, none)
  | item :: items =>
    match appendMessage canon s item with
    | (s, some e) => (s, some e)
    | (s, none) => appendEach s items

/-! ## A batch -/

/-- The accumulators of `append_messages`. -/
structure Batch where
  conv : Conv
  transcript : List Row := []
  shared : List Row := []
  contexts : PyDict String (List Row) := []
  parents : Parents := []
  touched : List String := []
  seeded : List String := []

namespace Batch

def addContext (b : Batch) (agent : String) (rows : List Row) : Batch :=
  { b with
    conv := b.conv.advance rows.length
    contexts := b.contexts.set agent ((b.contexts.get? agent).getD [] ++ b.conv.stamp rows)
    touched := mergeAgents b.touched [agent] }

/-- The author's own context. -/
def own (b : Batch) (item : Item) (rows : List Row) : Batch :=
  let route := item.routeAgent canon
  if route = "" then b
  else
    let b := if item.isContext ∨ route ∈ b.seeded then b
      else { b with conv := b.conv.seedContext route, seeded := route :: b.seeded }
    b.addContext route rows

/-- The shared row and the broadcast of a message. -/
def share (b : Batch) (role route : String) (rows : List Row) : Except StoreError Batch × Batch :=
  let candidates := filterForShared rows
  if candidates.isEmpty then (.ok b, b)
  else
    match candidates.mapM transformForShared with
    | .error e => (.error e, b)
    | .ok sharedRows =>
      let b := { b with
        conv := b.conv.advance sharedRows.length
        shared := b.shared ++ b.conv.stamp sharedRows }
      let (known, conv) := b.conv.knownAgents role route
      let b := { b with conv }
      let others := known.filter fun other => other ≠ "" && other ≠ route
      match broadcastRows others candidates with
      | .error e => (.error e, b)
      | .ok () =>
        let b := { b with
          conv := b.conv.queue others fun other =>
            ((transformAll candidates other).toOption).getD []
          touched := mergeAgents b.touched others }
        (.ok b, b)

/-- One item; beside the result the state where it raises. -/
def addItem (b : Batch) (item : Item) : Except StoreError Batch × Batch :=
  let (rows, parents) := item.msg.canonicalRows b.conv.findParent b.parents
  let stored := if item.isContext then [] else rows
  let b := { b with
    conv := b.conv.advance stored.length
    transcript := b.transcript ++ b.conv.stamp stored
    parents }
  if item.row.displayOnly then (.ok b, b)
  else
    let b := b.own canon item rows
    if item.sharesRows then b.share item.row.role (item.routeAgent canon) rows else (.ok b, b)

def addAll (b : Batch) : List Item → Except StoreError Batch × Batch
  | [] => (.ok b, b)
  | item :: items =>
    match b.addItem canon item with
    | (.ok b, _) => addAll b items
    | (.error e, b) => (.error e, b)

/-- The writes at the end of a batch. -/
def flush (b : Batch) : Conv :=
  { b.conv with
    transcript := b.conv.transcript ++ b.transcript
    toolParents := Conv.rememberParents b.conv.toolParents b.transcript
    shared := b.conv.shared ++ b.shared
    contexts := b.contexts.foldl (fun contexts i =>
      contexts.set i.1 ((contexts.get? i.1).getD [] ++ i.2)) b.conv.contexts }

end Batch

/-- The checks before a batch: what raises, or whether the items are appended one by one because of
a delegate message. -/
def batchChecks : List Item → Except StoreError Bool
  | [] => .ok false
  | item :: items =>
    match item.check canon with
    | .error e => .error e
    | .ok () => if item.isDelegate then .ok true else batchChecks items

def appendMessages (s : Conv) (items : List Item) : Conv × Option StoreError :=
  match items with
  | [] => (s, none)
  | [item] => appendMessage canon s item
  | first :: _ =>
    match batchChecks canon items with
    | .error e => (s, some e)
    | .ok true => appendEach canon s items
    | .ok false =>
      match (s.advance 0).opened first.userId with
      | .error e => (s.advance 0, some e)
      | .ok s =>
        match Batch.addAll canon { conv := s } items with
        | (.error e, b) => (b.conv, some e)
        | (.ok b, _) => (b.flush.noteAppends b.transcript b.touched, none)

end

end PawFlow.Conversation
