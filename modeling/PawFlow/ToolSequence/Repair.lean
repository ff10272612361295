import PawFlow.Lib.Json

/-!
# Repair of tool-call sequences

`repair_tool_sequence` of `core/llm_tool_sequence.py`, on the messages of `core/_llm_types.py`.
A message is its fields: the identity of the object is not kept apart from them.
-/

namespace PawFlow.ToolSequence

open PawFlow.Lib

abbrev Time := Int

structure LLMToolCall where
  id : String
  name : String
  arguments : PyDict String Json
  timestamp : Time
  toolOrigin : String := ""

/-- A message exists only inside a conversation. -/
structure LLMMessage where
  role : String
  content : Json := .str ""
  toolCalls : Option (List LLMToolCall) := none
  toolCallId : Option String := none
  source : Json := .null
  msgId : String
  displayOnly : Bool := false
  thinking : String := ""
  thinkingSignature : String := ""
  reasoningItem : String := ""
  isError : Bool := false
  timestamp : Time
  seq : Nat := 0
  conversationId : String
  inConversation : conversationId ≠ ""

/-- `==` on two lists. -/
def sameItems {α : Type} (same : α → α → Bool) : List α → List α → Bool
  | [], [] => true
  | a :: as, b :: bs => same a b && sameItems same as bs
  | _, _ => false

def LLMToolCall.same (a b : LLMToolCall) : Bool :=
  a.id == b.id && a.name == b.name && Json.pyEq (.obj a.arguments) (.obj b.arguments) &&
    a.timestamp == b.timestamp && a.toolOrigin == b.toolOrigin

namespace LLMMessage

def sameCalls : Option (List LLMToolCall) → Option (List LLMToolCall) → Bool
  | none, none => true
  | some as, some bs => sameItems LLMToolCall.same as bs
  | _, _ => false

def same (a b : LLMMessage) : Bool :=
  a.role == b.role && Json.pyEq a.content b.content && sameCalls a.toolCalls b.toolCalls &&
    a.toolCallId == b.toolCallId && Json.pyEq a.source b.source && a.msgId == b.msgId &&
    a.displayOnly == b.displayOnly && a.thinking == b.thinking &&
    a.thinkingSignature == b.thinkingSignature && a.reasoningItem == b.reasoningItem &&
    a.isError == b.isError && a.timestamp == b.timestamp && a.seq == b.seq &&
    a.conversationId == b.conversationId

/-- `message.tool_call_id or ""`. -/
def callId (m : LLMMessage) : String := m.toolCallId.getD ""

end LLMMessage

def unavailableResult : String :=
  "[Result unavailable because the previous turn was " ++
    "cancelled before this tool result was persisted.]"

/-- The id and the time a new message is given. -/
structure Stamp where
  msgId : String
  timestamp : Time

def synthetic (callId conversationId : String) (h : conversationId ≠ "") (stamp : Stamp) :
    LLMMessage where
  role := "tool"
  content := .str unavailableResult
  toolCallId := some callId
  msgId := stamp.msgId
  timestamp := stamp.timestamp
  conversationId := conversationId
  inConversation := h

def syntheticResult (callId conversationId : String) (stamp : Stamp) :
    Except String LLMMessage :=
  if h : conversationId = "" then
    .error ("LLMMessage(role='tool') requires conversation_id — a message has no existence " ++
      "outside a conversation. Thread the cid from the call site instead of leaving it empty.")
  else .ok (synthetic callId conversationId h stamp)

/-- `result_indexes`, from the message at `idx` on. -/
def indexResults (idx : Nat) : List LLMMessage → PyDict String Nat → PyDict String Nat
  | [], indexes => indexes
  | m :: rest, indexes =>
    if m.role ≠ "tool" then indexResults (idx + 1) rest indexes
    else if m.callId ≠ "" ∧ PyDict.get? indexes m.callId = none then
      indexResults (idx + 1) rest (indexes.set m.callId idx)
    else indexResults (idx + 1) rest indexes

/-- The earliest tool message of each call id. -/
def resultIndexes (messages : List LLMMessage) : PyDict String Nat := indexResults 0 messages []

section

variable (conversationId : String) (stamp : Nat → Stamp) (messages : List LLMMessage)

/-- The local variables of the loop over the calls of one message; `minted` counts the synthetic
results so far. -/
structure Claims where
  expected : List LLMMessage
  stripped : List LLMToolCall
  moved : List Nat
  changed : Bool
  minted : Nat

def Claims.synthesize (s : Claims) (callId : String) : Except String Claims :=
  (syntheticResult callId conversationId (stamp s.minted)).map fun m =>
    { s with expected := s.expected ++ [m], changed := true, minted := s.minted + 1 }

def claimCall (s : Claims) (call : LLMToolCall) : Except String Claims :=
  if call.id = "" then .ok { s with stripped := s.stripped ++ [call], changed := true }
  else
    match PyDict.get? (resultIndexes messages) call.id with
    | some resultIdx =>
      if resultIdx ∉ s.moved then
        match messages[resultIdx]? with
        | some m => .ok { s with expected := s.expected ++ [m], moved := s.moved ++ [resultIdx] }
        | none => .error "list index out of range"
      else s.synthesize conversationId stamp call.id
    | none => s.synthesize conversationId stamp call.id

def claimCalls : List LLMToolCall → Claims → Except String Claims
  | [], s => .ok s
  | call :: rest, s => (claimCall conversationId stamp messages s call).bind (claimCalls rest)

structure State where
  moved : List Nat := []
  rebuilt : List LLMMessage := []
  changed : Bool := false
  minted : Nat := 0

def stripCalls (message : LLMMessage) (calls : List LLMToolCall) : List LLMMessage :=
  let kept := calls.filter fun call => call.id ≠ ""
  if kept ≠ [] then [{ message with toolCalls := some kept }]
  else if message.content.truthy = false then []
  else [{ message with toolCalls := none }]

/-- The body of the loop. -/
def repairMessage (idx : Nat) (message : LLMMessage) (s : State) : Except String State :=
  if idx ∈ s.moved then .ok s
  else if message.role = "tool" then
    if PyDict.get? (resultIndexes messages) message.callId = some idx then .ok s
    else .ok { s with changed := true }
  else if message.role ≠ "assistant" ∨ message.toolCalls.getD [] = [] then
    .ok { s with rebuilt := s.rebuilt ++ [message] }
  else
    let calls := message.toolCalls.getD []
    (claimCalls conversationId stamp messages calls ⟨[], [], s.moved, s.changed, s.minted⟩).map
      fun c =>
        let immediate := (messages.drop (idx + 1)).take c.expected.length
        let own := if c.stripped = [] then [message] else stripCalls message calls
        { moved := c.moved
          rebuilt := s.rebuilt ++ own ++ c.expected
          changed := c.changed || !sameItems LLMMessage.same immediate c.expected
          minted := c.minted }

def repairFrom (idx : Nat) : List LLMMessage → State → Except String State
  | [], s => .ok s
  | message :: rest, s =>
    (repairMessage conversationId stamp messages idx message s).bind (repairFrom (idx + 1) rest)

def repairToolSequence : Except String (List LLMMessage × Bool) :=
  (repairFrom conversationId stamp messages 0 messages {}).map fun s =>
    (s.rebuilt, s.changed || (resultIndexes messages).any fun i => i.2 ∉ s.moved)

end

end PawFlow.ToolSequence
