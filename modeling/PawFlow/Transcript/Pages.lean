import PawFlow.Transcript.Composition

/-!
# Pages of a transcript

`load_page` of `core/_conversation_store_transcript.py`. A page is read from the end of the log: the
rows are taken one by one, backwards through the segments, until there are enough and no update among
them waits for its anchor. Before a cursor, rows are only counted, and the updates that may belong
to a row beyond it are kept.

The number of messages is not counted here but taken from the metadata of the conversation. Of the
operations that write the log, one appends a display row and leaves that number as it is.
-/

namespace PawFlow.Transcript

open PawFlow.Lib

/-- What `load_page` returns. -/
structure Page where
  messages : List Row
  totalCount : Nat
  offset : Nat
  limit : Nat
  hasMore : Bool

/-! ## Reading backwards -/

/-- `iter_rows_reverse` over the segments. -/
def iterRowsReverse (segments : List (List Row)) : List Row :=
  segments.reverse.flatMap List.reverse

/-- The rows a page is made of, in the order they are read: display rows and updates, until `need`
display rows are there and no trace is pending. -/
def collect (need : Nat) : (seen : Nat) → (pending : List String) → List Row → List Row
  | _, _, [] => []
  | seen, pending, row :: rows =>
    if Row.isTraceUpdate row then
      let trace := Row.traceId row
      row :: collect need seen (if trace = "" then pending else pending.insert trace) rows
    else if Row.hasRole row then
      let pending := if Row.roleIs row "sub_agent_trace" then
          pending.filter (· ≠ Row.traceId row)
        else pending
      if need ≤ seen + 1 ∧ pending = [] then [row]
      else row :: collect need (seen + 1) pending rows
    else collect need seen pending rows

/-- The rows down to the cursor: how many are shown, the updates of which no anchor was met, and the
rows before the cursor. -/
def seek (msgId : String) : (skipped : Nat) → (newer : PyDict String (List Row)) → List Row →
    Option (Nat × PyDict String (List Row) × List Row)
  | _, _, [] => none
  | skipped, newer, row :: rows =>
    let trace := Row.traceId row
    if Row.isTraceUpdate row then
      if trace = "" then seek msgId skipped newer rows
      else seek msgId skipped (newer.set trace ((newer.get? trace).getD [] ++ [row])) rows
    else if !Row.hasRole row then seek msgId skipped newer rows
    else
      let newer := if Row.roleIs row "sub_agent_trace" then newer.erase trace else newer
      if Segments.Row.hasMsgId msgId row then some (skipped + 1, newer, rows)
      else seek msgId (skipped + 1) newer rows

/-! ## Cutting a page -/

def detailRoles : List String := ["thinking", "tool_call", "tool"]

/-- `while start > 0 and msgs[start]["role"] in (…): start -= 1`; `none` is an `IndexError`. -/
def alignStart (msgs : List Row) : Nat → Option Nat
  | 0 => some 0
  | start + 1 =>
    match msgs[start + 1]? with
    | none => none
    | some msg =>
      if detailRoles.any (Row.roleIs msg) then alignStart msgs start else some (start + 1)

/-- The last `limit` messages before `stop`, not split from their assistant row. -/
def cutPage (msgs : List Row) (total limit offset stop : Nat) : Option Page := do
  let start ← alignStart msgs (stop - limit)
  let page := if 0 < stop then (msgs.take stop).drop start else []
  some ⟨page, total, offset, limit, offset + page.length < total⟩

/-- The extra rows a page may need to be aligned. -/
def margin : Nat := 20

def readTail (rows : List Row) (total limit offset : Nat) : Option Page := do
  let raw := collect (offset + limit + margin) 0 [] rows
  let msgs ← composeDisplayTraces raw.reverse
  cutPage msgs total limit offset (msgs.length - offset)

/-- `_read_tail_before_msg_id`; the inner `none` is a cursor that is not there. -/
def readTailBeforeMsgId (rows : List Row) (total limit : Nat) (msgId : String) :
    Option (Option Page) :=
  match seek msgId 0 [] rows with
  | none => some none
  | some (skipped, newer, rows) => do
    let raw := newer.flatMap Prod.snd ++ collect (limit + margin) 0 (newer.map Prod.fst) rows
    let msgs ← composeDisplayTraces raw.reverse
    let page ← cutPage msgs total limit skipped msgs.length
    some (some page)

/-! ## The store -/

/-- A conversation, as far as pages are concerned. -/
structure Store where
  created : Bool
  userId : String
  /-- The segments of the transcript, if there is one. -/
  log : Option (List (List Row))
  /-- `message_count`: the number kept in the metadata. -/
  msgCount : Nat

def Store.rows (s : Store) : List Row := (s.log.getD []).flatten

/-- `load_page`, and the store it leaves. -/
def loadPage (s : Store) (limit offset : Nat) (userId beforeMsgId : String) :
    Option Page × Store :=
  if !s.created then (none, s)
  else if userId ≠ "" ∧ s.userId ≠ "" ∧ s.userId ≠ userId then (none, s)
  else
    match s.log with
    | none => (some ⟨[], 0, 0, limit, false⟩, { s with msgCount := 0 })
    | some segments =>
      let rows := iterRowsReverse segments
      let total := s.msgCount
      let failed : Page := ⟨[], total, offset, limit, false⟩
      let byCursor := if beforeMsgId = "" then some none
        else readTailBeforeMsgId rows total limit beforeMsgId
      match byCursor with
      | none => (some failed, s)
      | some (some page) => (some page, s)
      | some none =>
        match readTail rows total limit offset with
        | none => (some failed, s)
        | some page =>
          if offset = 0 ∧ 0 < total ∧ page.messages.isEmpty then
            -- Nothing to show of a number of messages: they are counted again.
            let corrected := segments.flatten.countP Row.hasRole
            let s := { s with msgCount := corrected }
            if corrected = total then (some page, s)
            else (some ((readTail rows corrected limit offset).getD failed), s)
          else (some page, s)

/-! ### Writing -/

/-- A row at the end of the log, in its last segment or in a new one. -/
def Store.write (s : Store) (fresh : Bool) (row : Row) : Store :=
  let segments := s.log.getD []
  { s with log := some (
      if fresh then segments ++ [[row]]
      else segments.dropLast ++ [segments.getLastD [] ++ [row]]) }

/-- A row that `append_message` writes, and `_note_cache_append`. -/
def Store.appendMessage (s : Store) (fresh : Bool) (row : Row) : Store :=
  { s.write fresh row with msgCount := s.msgCount + 1 }

/-- `create_display_trace`, which writes the log alone; `stamps` is what `_stamp_line` adds. -/
def Store.createDisplayTrace (s : Store) (fresh : Bool) (traceId : String) (source : Json)
    (stamps : Row) : Store :=
  s.write fresh ([
    ("role", .str "sub_agent_trace"), ("display_only", .bool true), ("trace_id", .str traceId),
    ("source", source), ("content", .str ""), ("trace", .arr [])] ++ stamps)

def Store.appendDisplayTrace (s : Store) (fresh : Bool) (traceId : String) (entry : Json)
    (contentUpdate : String) (stamps : Row) : Store :=
  s.write fresh ([
    ("t", .str "trace_update"), ("trace_id", .str traceId), ("entry", entry),
    ("content_update", .str contentUpdate)] ++ stamps)

end PawFlow.Transcript
