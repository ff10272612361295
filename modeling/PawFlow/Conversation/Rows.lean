import PawFlow.Lib.Json
import PawFlow.Lib.PyString

/-!
# Conversation rows

The rows of `ConversationStore` and what is made of a message: the canonical rows it is stored as
(`core/_conversation_store_paths.py`), and the forms in which others see it, with the prefixes of
the shared context and of the contexts of other agents (`core/_conversation_store_ctxio.py`).
-/

namespace PawFlow.Conversation

open PawFlow.Lib

abbrev Time := Int

/-- The `source` of a message; a missing key is empty. -/
structure Source where
  type : String := ""
  name : String := ""
  targetAgent : String := ""
  sender : String := ""
  recipient : String := ""
  recipientLabel : String := ""
  kind : String := ""
  visibility : String := ""
  externalTransport : String := ""
  taskId : String := ""
  btw : Bool := false
deriving DecidableEq

/-- Text, or the parts of a multipart message. -/
inductive Content
  | text (value : String)
  | parts (items : List Json)

/-- A stored row. What the store only carries along is in `payload`. -/
structure Row where
  role : String
  msgId : String
  ts : Option Time := none
  seq : Option Nat := none
  content : Content := .text ""
  source : Source := {}
  displayOnly : Bool := false
  parentMessageId : String := ""
  toolCallId : String := ""
  traceId : String := ""
  payload : PyDict String Json := []

/-- One of `tool_calls`. `msgId` is its own id, or the one the store mints. -/
structure ToolCall where
  id : String
  msgId : String
  msgId_ne : msgId ≠ "" := by decide
  content : Content := .text ""
  ts : Option Time := none
  payload : PyDict String Json := []

/-- A message as it arrives. `thinkingId` is the id the store mints for its thinking. -/
structure Message where
  row : Row
  thinking : String := ""
  thinkingSignature : String := ""
  thinkingId : String := ""
  toolCalls : List ToolCall := []

/-- What a store operation raises. -/
inductive StoreError
  /-- `BUG: message without msg_id`. -/
  | noMsgId
  /-- `BUG: message without timestamp`. -/
  | noTimestamp
  /-- `user messages require source.target_agent`. -/
  | noTargetAgent
  /-- `ConversationLockedError`. -/
  | locked
  /-- `user_id required for new conversation`. -/
  | noUserId
  /-- `Agent message without source.name`. -/
  | noAgentName
  /-- `catch-up message requires a sender`. -/
  | noSender
deriving DecidableEq

/-- `_validate_message`. -/
def Row.validate (row : Row) : Except StoreError Unit :=
  if row.role = "system" then .ok ()
  else if row.msgId = "" then .error .noMsgId
  else if (row.ts.getD 0) = 0 then .error .noTimestamp
  else .ok ()

/-! ## Canonical rows -/

/-- The rows of the children of an assistant message. -/
def Message.thinkingRows (m : Message) : List Row :=
  if m.thinking = "" ∧ m.thinkingSignature = "" then []
  else [{ role := "thinking", msgId := m.thinkingId, ts := m.row.ts, content := .text m.thinking
          source := m.row.source, parentMessageId := m.row.msgId }]

def Message.toolCallRow (m : Message) (call : ToolCall) : Row :=
  { role := "tool_call", msgId := call.msgId, ts := (call.ts.filter fun ts => ts ≠ 0).or m.row.ts
    content := call.content, source := m.row.source, parentMessageId := m.row.msgId
    toolCallId := call.id, payload := call.payload }

/-- The row of a call, by the id of the call. -/
abbrev Parents := PyDict String String

/-- `tool_call_parents[tcid] = msg_id`, where there is a `tcid`. -/
def Parents.note (parents : Parents) (toolCallId msgId : String) : Parents :=
  if toolCallId = "" then parents else parents.set toolCallId msgId

/-- `_canonical_message_rows`; `find` is `_find_tool_call_parent_id`. -/
def Message.canonicalRows (m : Message) (find : String → String) (parents : Parents) :
    List Row × Parents :=
  let row := m.row
  if row.role = "assistant" then
    ({ row with toolCallId := "" } :: m.thinkingRows ++ m.toolCalls.map m.toolCallRow,
      m.toolCalls.foldl (fun parents call => Parents.note parents call.id call.msgId) parents)
  else if row.role = "tool_call" then ([row], Parents.note parents row.toolCallId row.msgId)
  else if row.role = "tool" ∧ row.toolCallId ≠ "" then
    let known := if row.parentMessageId ≠ "" then row.parentMessageId
      else (parents.get? row.toolCallId).getD ""
    let parent := if known ≠ "" then known else find row.toolCallId
    ([{ row with parentMessageId := parent }], parents)
  else ([row], parents)

/-! ## How others see a message -/

def prefixContent (content : Content) (pre : String) : Content :=
  match content with
  | .text text =>
    if startsWith text (pre ++ "\n") || startsWith text (pre ++ " ") then content
    else .text (pre ++ "\n" ++ text)
  | .parts items =>
    match items with
    | .obj first :: _ =>
      if ((PyDict.get? first "type").getD .null).isStr "text" &&
          ((PyDict.get? first "text").getD .null).isStr pre then content
      else .parts (.obj [("type", .str "text"), ("text", .str pre)] :: items)
    | _ => .parts (.obj [("type", .str "text"), ("text", .str pre)] :: items)

/-- `_strip_prefix`. -/
def stripContent (content : Content) (pre : String) : Content :=
  match content with
  | .text text =>
    if startsWith text (pre ++ "\n") then .text (.ofList (text.toList.drop (pre.length + 1)))
    else content
  | .parts (.obj first :: rest) =>
    if ((PyDict.get? first "type").getD .null).isStr "text" &&
        ((PyDict.get? first "text").getD .null).isStr pre then .parts rest
    else content
  | _ => content

def agentPrefix (agent : String) (source : Source) : String :=
  if source.taskId ≠ "" then "[Agent " ++ agent ++ " in Task " ++ source.taskId ++ "]:"
  else if source.btw then "[Agent " ++ agent ++ " in /btw]:"
  else "[Agent " ++ agent ++ "]:"

def userPrefix (target : String) (source : Source) : String :=
  if source.btw then "[User to agent " ++ target ++ " in /btw]:"
  else "[User to agent " ++ target ++ "]:"

/-- The row as another one's message, under a prefix. -/
def Row.asUser (row : Row) (pre : String) : Row :=
  { row with role := "user", content := prefixContent row.content pre }

def Row.prefixed (row : Row) (pre : String) : Row :=
  { row with content := prefixContent row.content pre }

def transformForShared (row : Row) : Except StoreError Row :=
  let source := row.source
  if source.type = "agent" then
    if source.name = "" then .error .noAgentName
    else .ok (row.asUser (agentPrefix source.name source))
  else if source.type = "user" ∧ source.targetAgent ≠ "" then
    .ok (row.prefixed (userPrefix source.targetAgent source))
  else .ok row

def transformForOtherAgent (row : Row) (receiver : String) : Except StoreError Row :=
  let source := row.source
  if source.type = "agent" then
    if source.name = "" then .error .noAgentName
    else if source.name ≠ receiver ∨ source.taskId ≠ "" ∨ source.btw then
      .ok (row.asUser (agentPrefix source.name source))
    else .ok row
  else if source.type = "user" ∧ source.targetAgent ≠ "" ∧
      (source.targetAgent ≠ receiver ∨ source.btw) then
    .ok (row.prefixed (userPrefix source.targetAgent source))
  else .ok row

def personalizeFromShared (row : Row) (agent : String) : Row :=
  let source := row.source
  if source.type = "agent" ∧ source.name = agent then
    if source.taskId = "" ∧ !source.btw then
      { row with role := "assistant", content := stripContent row.content ("[Agent " ++ agent ++ "]:") }
    else row
  else if source.type = "user" ∧ source.targetAgent = agent then
    { row with content := stripContent row.content ("[User to agent " ++ agent ++ "]:") }
  else row

def Content.isBlank : Content → Bool
  | .text value => strip value = ""
  | .parts _ => false

/-- The row is conversation, not work: `filter_for_shared` keeps it. -/
def Row.isShared (row : Row) : Bool :=
  row.role ∉ ["tool", "tool_call", "thinking"] && row.source.type ≠ "context" &&
    !(row.role = "assistant" && row.content.isBlank)

def filterForShared (rows : List Row) : List Row := rows.filter Row.isShared

/-- The sender of a catch-up item. -/
def Row.senderName (row : Row) : String :=
  if row.source.sender ≠ "" then row.source.sender else row.source.name

/-! ## Contexts -/

/-- The key `_read_ctx_file` sorts by. -/
def Row.readsBefore (a b : Row) : Bool :=
  decide (a.ts.getD 0 < b.ts.getD 0) ||
    (a.ts.getD 0 == b.ts.getD 0 && decide (a.seq.getD 0 ≤ b.seq.getD 0))

/-- `_read_ctx_file`. -/
def sortedRows (rows : List Row) : List Row := rows.insertionSort fun a b => a.readsBefore b

/-- `load_shared_for_agent`. -/
def sharedForAgent (shared : List Row) (agent : String) : List Row :=
  (sortedRows shared).map fun row => personalizeFromShared row agent

end PawFlow.Conversation
