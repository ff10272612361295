import PawFlow.Lib.Bytes
import PawFlow.Lib.JsonLines

/-!
# Server-sent events on the wire

`SSEEvent.encode` (`core/sse_writer.py`) frames an event as lines of text, and the rules of event
streams read it back: LF, CR and CRLF each end a line, a blank line ends an event, and the last id
is kept for the events that bring none.

A dumped payload has no line end in it. A payload that is text can have a CR, which ends a line
for the reader and not for the writer.
-/

namespace PawFlow.Sse

open PawFlow.Lib

/-- The line ends of an event stream. -/
def isLineEnd (c : Char) : Bool := c = '\n' || c = '\r'

theorem isLineEnd_dumpChars (v : Json) : ∀ d ∈ v.dumpChars, isLineEnd d = false := by
  intro d hd
  rw [Json.dumpChars_eq_write] at hd
  simpa [isLineEnd] using Json.Layout.oneLine_write Json.Layout.inLine_standard v d hd

/-! ## Writing -/

/-- The payload of an event. -/
inductive Data where
  | dict (items : List (String × Json))
  | list (items : List Json)
  | text (s : String)

/-- `data_str`. -/
def Data.chars : Data → List Char
  | dict items => (Json.obj items).dumpChars
  | list items => (Json.arr items).dumpChars
  | text s => s.toList

structure SSEEvent where
  event : String
  data : Data := .text ""
  id : Option String := none

namespace SSEEvent

variable (e : SSEEvent)

/-- The id a reader should see, empty if the event brings none. -/
def idChars : List Char := (e.id.getD "").toList

/-- The lines of the block, the blank one at its end included. -/
def lines : List (List Char) :=
  (if e.idChars = [] then [] else ["id: ".toList ++ e.idChars]) ++
    ("event: ".toList ++ e.event.toList) ::
      ((e.data.chars.splitOn '\n').map ("data: ".toList ++ ·) ++ [[]])

def encode : Bytes := encodeUtf8 (.ofList (['\n'].intercalate (e.lines ++ [[]])))

end SSEEvent

/-! ## Reading -/

/-- The lines that have ended, the first of them after `line`. -/
def endedLines (line : List Char) : List Char → List (List Char)
  | [] => []
  | '\r' :: '\n' :: cs => line :: endedLines [] cs
  | c :: cs => if isLineEnd c then line :: endedLines [] cs else endedLines (line ++ [c]) cs

/-- An event as it is dispatched. -/
structure Message where
  event : List Char
  id : List Char
  data : List Char
deriving DecidableEq

/-- The buffers of the reader. -/
structure Reader where
  event : List Char := []
  data : List Char := []
  lastId : List Char := []
deriving DecidableEq

namespace Reader

/-- A field; `retry` and unknown ones change nothing that is dispatched. -/
def field (r : Reader) (name value : List Char) : Reader :=
  if name = "event".toList then { r with event := value }
  else if name = "data".toList then { r with data := r.data ++ value ++ ['\n'] }
  else if name = "id".toList ∧ '\x00' ∉ value then { r with lastId := value }
  else r

def dispatch (r : Reader) : List Message × Reader :=
  (if r.data = [] then []
    else [⟨if r.event = [] then "message".toList else r.event, r.lastId, r.data.dropLast⟩],
    { lastId := r.lastId })

/-- One line; a comment is a field without a name. -/
def line (r : Reader) (l : List Char) : List Message × Reader :=
  if l = [] then r.dispatch
  else
    let value := (l.dropWhile (· ≠ ':')).drop 1
    ([], r.field (l.takeWhile (· ≠ ':')) (if value.head? = some ' ' then value.tail else value))

def messages (r : Reader) : List (List Char) → List Message
  | [] => []
  | l :: ls => (r.line l).1 ++ (r.line l).2.messages ls

end Reader

/-- The events in a stream, `none` if it is no UTF-8. -/
def parse (stream : Bytes) : Option (List Message) :=
  (decodeUtf8 stream).map fun s => Reader.messages {} (endedLines [] s.toList)

/-- What a reader should see of an event. -/
def SSEEvent.message (e : SSEEvent) : Message := ⟨e.event.toList, e.idChars, e.data.chars⟩

/-! ## The lines of a block -/

theorem endedLines_append {l : List Char} (h : ∀ c ∈ l, isLineEnd c = false) (line cs : List Char) :
    endedLines line (l ++ '\n' :: cs) = (line ++ l) :: endedLines [] cs := by
  induction l generalizing line with
  | nil => simp [endedLines, isLineEnd]
  | cons c l ih =>
    obtain ⟨hc, hl⟩ := List.forall_mem_cons.mp h
    have hr : c ≠ '\r' := by
      rintro rfl
      exact absurd hc (by decide)
    rw [List.cons_append, endedLines]
    · rw [if_neg (by simp [hc]), ih hl, List.append_assoc, List.singleton_append]
    · exact fun _ heq => absurd heq hr

variable {ls : List (List Char)}

/-- Lines that are written are read. -/
theorem endedLines_flatMap (h : ∀ l ∈ ls, ∀ c ∈ l, isLineEnd c = false) (cs : List Char) :
    endedLines [] (ls.flatMap (· ++ ['\n']) ++ cs) = ls ++ endedLines [] cs := by
  induction ls with
  | nil => rfl
  | cons l ls ih =>
    obtain ⟨hl, hls⟩ := List.forall_mem_cons.mp h
    rw [List.flatMap_cons, List.append_assoc, List.append_assoc, List.singleton_append,
      endedLines_append hl, ih hls, List.nil_append, List.cons_append]

theorem intercalate_append_newline (h : ls ≠ []) :
    ['\n'].intercalate ls ++ ['\n'] = ls.flatMap (· ++ ['\n']) := by
  induction ls with
  | nil => exact absurd rfl h
  | cons l ls ih =>
    cases ls with
    | nil => simp
    | cons m ls =>
      rw [List.intercalate_cons_of_ne_nil (by simp), List.append_assoc, ih (by simp)]
      simp

theorem intercalate_concat_nil (h : ls ≠ []) :
    ['\n'].intercalate (ls ++ [[]]) = ls.flatMap (· ++ ['\n']) := by
  induction ls with
  | nil => exact absurd rfl h
  | cons l ls ih =>
    rw [List.cons_append, List.intercalate_cons_of_ne_nil (by simp)]
    cases ls with
    | nil => simp
    | cons m ls =>
      rw [ih (by simp)]
      simp

/-! ## Reading a block -/

/-- `e` can be told apart by its reader: it has a name and an id without NUL, it brings an id
unless none has been seen, and its text has no CR. -/
structure SSEEvent.Framed (e : SSEEvent) (lastId : List Char) : Prop where
  named : e.event ≠ ""
  identified : e.idChars = [] → lastId = []
  noNul : '\x00' ∉ e.idChars
  noReturn : ∀ s, e.data = .text s → '\r' ∉ s.toList

/-- The id a reader has after `e`. -/
def SSEEvent.lastId (e : SSEEvent) (lastId : List Char) : List Char :=
  if e.idChars = [] ∨ '\x00' ∈ e.idChars then lastId else e.idChars

/-- What a reader that has the id `lastId` makes of `e`. -/
def SSEEvent.readAs (e : SSEEvent) (lastId : List Char) : Message :=
  ⟨if e.event.toList = [] then "message".toList else e.event.toList, e.lastId lastId, e.data.chars⟩

theorem Reader.line_named (r : Reader) (name : List Char) (h : ':' ∉ name) (value : List Char) :
    r.line (name ++ ':' :: ' ' :: value) = ([], r.field name value) := by
  have hne : name ++ ':' :: ' ' :: value ≠ [] := by simp
  have hname : ∀ c ∈ name, decide (c ≠ ':') = true := by
    intro c hc
    simp only [decide_eq_true_eq]
    rintro rfl
    exact h hc
  unfold Reader.line
  rw [if_neg hne, List.dropWhile_append_of_pos hname, List.takeWhile_append_of_pos hname]
  simp

theorem Reader.messages_data (r : Reader) (pieces ls : List (List Char)) :
    r.messages (pieces.map ("data: ".toList ++ ·) ++ ls) =
      Reader.messages { r with data := r.data ++ pieces.flatMap (· ++ ['\n']) } ls := by
  induction pieces generalizing r with
  | nil => simp
  | cons piece pieces ih =>
    have hline := r.line_named "data".toList (by simp) piece
    have hfield : r.field "data".toList piece = { r with data := r.data ++ piece ++ ['\n'] } :=
      rfl
    have hcons : "data: ".toList ++ piece = "data".toList ++ ':' :: ' ' :: piece := rfl
    rw [List.map_cons, List.cons_append, Reader.messages, hcons, hline, hfield, ih]
    simp

theorem Reader.messages_id (e : SSEEvent) (lastId : List Char) (ls : List (List Char)) :
    Reader.messages { lastId }
        ((if e.idChars = [] then [] else ["id: ".toList ++ e.idChars]) ++ ls) =
      Reader.messages { lastId := e.lastId lastId } ls := by
  by_cases hid : e.idChars = []
  · simp [hid, SSEEvent.lastId]
  · have hline := Reader.line_named { lastId } "id".toList (by simp) e.idChars
    have hcons : "id: ".toList ++ e.idChars = "id".toList ++ ':' :: ' ' :: e.idChars := rfl
    rw [if_neg hid, List.singleton_append, Reader.messages, hcons, hline]
    by_cases hnul : '\x00' ∈ e.idChars <;> simp [Reader.field, SSEEvent.lastId, hid, hnul]

/-- The block of an event is read as that event. -/
theorem Reader.messages_lines (e : SSEEvent) (lastId : List Char) (ls : List (List Char)) :
    Reader.messages { lastId } (e.lines ++ ls) =
      e.readAs lastId :: Reader.messages { lastId := e.lastId lastId } ls := by
  have hjoin := intercalate_append_newline (List.splitOn_ne_nil '\n' e.data.chars)
  rw [List.intercalate_splitOn] at hjoin
  have hline := Reader.line_named { lastId := e.lastId lastId } "event".toList (by simp)
    e.event.toList
  have hfield : Reader.field { lastId := e.lastId lastId } "event".toList e.event.toList =
      { lastId := e.lastId lastId, event := e.event.toList } := rfl
  have hcons : "event: ".toList ++ e.event.toList =
      "event".toList ++ ':' :: ' ' :: e.event.toList := rfl
  rw [SSEEvent.lines, List.append_assoc, Reader.messages_id, List.cons_append, Reader.messages, hcons,
    hline, hfield, List.append_assoc, Reader.messages_data, ← hjoin]
  simp [Reader.messages, Reader.line, Reader.dispatch, SSEEvent.readAs]

/-- What a reader makes of a sequence of events. -/
def readsAs (lastId : List Char) : List SSEEvent → List Message
  | [] => []
  | e :: es => e.readAs lastId :: readsAs (e.lastId lastId) es

theorem Reader.messages_flatMap (events : List SSEEvent) (lastId : List Char) :
    Reader.messages { lastId } (events.flatMap SSEEvent.lines) = readsAs lastId events := by
  induction events generalizing lastId with
  | nil => rfl
  | cons e es ih => rw [List.flatMap_cons, Reader.messages_lines, ih, readsAs]

/-! ## Reading a stream -/

def SSEEvent.Nameable (e : SSEEvent) : Prop :=
  (∀ c ∈ e.event.toList, isLineEnd c = false) ∧ ∀ c ∈ e.idChars, isLineEnd c = false

theorem Data.eq_text_of_return {d : Data} (h : '\r' ∈ d.chars) : ∃ s, d = .text s := by
  cases d with
  | dict items => exact absurd (isLineEnd_dumpChars (.obj items) _ h) (by decide)
  | list items => exact absurd (isLineEnd_dumpChars (.arr items) _ h) (by decide)
  | text s => exact ⟨s, rfl⟩

/-- Without a CR in the payload the lines of a block are lines for the reader. -/
theorem SSEEvent.lines_ended {e : SSEEvent} (h : e.Nameable) (hdata : '\r' ∉ e.data.chars) :
    ∀ l ∈ e.lines, ∀ c ∈ l, isLineEnd c = false := by
  have happend : ∀ {x y : List Char}, (∀ c ∈ x, isLineEnd c = false) →
      (∀ c ∈ y, isLineEnd c = false) → ∀ c ∈ x ++ y, isLineEnd c = false := fun hx hy =>
    List.forall_mem_append.mpr ⟨hx, hy⟩
  intro l hl
  simp only [SSEEvent.lines, List.mem_append, List.mem_cons, List.mem_map, List.not_mem_nil,
    or_false] at hl
  rcases hl with hl | rfl | ⟨piece, hpiece, rfl⟩ | rfl
  · split at hl
    · cases hl
    · obtain rfl := List.mem_singleton.mp hl
      exact happend (by simp [isLineEnd]) h.2
  · exact happend (by simp [isLineEnd]) h.1
  · obtain ⟨hnewline, hmem⟩ := mem_splitOn hpiece
    refine happend (by simp [isLineEnd]) fun c hc => ?_
    simp only [isLineEnd, Bool.or_eq_false_iff, decide_eq_false_iff_not]
    exact ⟨fun heq => hnewline (heq ▸ hc), fun heq => hdata (heq ▸ hmem c hc)⟩
  · simp

theorem SSEEvent.encode_eq (e : SSEEvent) :
    e.encode = (e.lines.flatMap (· ++ ['\n'])).flatMap String.utf8EncodeChar := by
  have hne : e.lines ≠ [] := by simp [SSEEvent.lines]
  rw [SSEEvent.encode, intercalate_concat_nil hne, encodeUtf8, String.toList_ofList]

theorem parse_flatMap (events : List SSEEvent) :
    parse (events.flatMap SSEEvent.encode) = some (Reader.messages {}
      (endedLines [] ((events.flatMap SSEEvent.lines).flatMap (· ++ ['\n'])))) := by
  have hstream : events.flatMap SSEEvent.encode =
      encodeUtf8 (.ofList ((events.flatMap SSEEvent.lines).flatMap (· ++ ['\n']))) := by
    rw [encodeUtf8, String.toList_ofList, List.flatMap_assoc, List.flatMap_assoc]
    exact List.flatMap_congr fun e _ => e.encode_eq.trans List.flatMap_assoc
  rw [hstream, parse, decodeUtf8_encodeUtf8, Option.map_some, String.toList_ofList]

variable {events : List SSEEvent}

/-- A stream without CRs is read event by event. -/
theorem parse_of_noReturn (hnames : ∀ e ∈ events, e.Nameable)
    (hdata : ∀ e ∈ events, '\r' ∉ e.data.chars) :
    parse (events.flatMap SSEEvent.encode) = some (readsAs [] events) := by
  have hlines : ∀ l ∈ events.flatMap SSEEvent.lines, ∀ c ∈ l, isLineEnd c = false := by
    intro l hl
    obtain ⟨e, he, hl⟩ := List.mem_flatMap.mp hl
    exact SSEEvent.lines_ended (hnames e he) (hdata e he) l hl
  have hended := endedLines_flatMap hlines []
  rw [List.append_nil] at hended
  rw [parse_flatMap, hended, endedLines, List.append_nil, Reader.messages_flatMap]

/-- No event that is read has a CR in its data. -/
theorem noReturn_endedLines {line : List Char} (h : '\r' ∉ line) (cs : List Char) :
    ∀ l ∈ endedLines line cs, '\r' ∉ l := by
  fun_induction endedLines line cs with
  | case1 => simp
  | case2 line cs ih => exact List.forall_mem_cons.mpr ⟨h, ih (by simp)⟩
  | case3 line c cs _ hc ih => exact List.forall_mem_cons.mpr ⟨h, ih (by simp)⟩
  | case4 line c cs _ hc ih =>
    refine ih ?_
    simp only [List.mem_append, List.mem_singleton, not_or]
    refine ⟨h, ?_⟩
    rintro rfl
    exact hc rfl

theorem Reader.noReturn_field {r : Reader} (hr : '\r' ∉ r.data) {value : List Char}
    (hvalue : '\r' ∉ value) (name : List Char) : '\r' ∉ (r.field name value).data := by
  unfold Reader.field
  split
  · exact hr
  split
  · simp [hr, hvalue]
  split
  · exact hr
  · exact hr

theorem Reader.noReturn_messages (hls : ∀ l ∈ ls, '\r' ∉ l) {r : Reader}
    (hr : '\r' ∉ r.data) : ∀ m ∈ r.messages ls, '\r' ∉ m.data := by
  induction ls generalizing r with
  | nil => simp [Reader.messages]
  | cons l ls ih =>
    obtain ⟨hl, hls⟩ := List.forall_mem_cons.mp hls
    rw [Reader.messages]
    refine List.forall_mem_append.mpr ⟨fun m hm => ?_, ih hls ?_⟩
    · unfold Reader.line Reader.dispatch at hm
      split at hm
      · split at hm
        · cases hm
        · obtain rfl := List.mem_singleton.mp hm
          exact fun hmem => hr (List.mem_of_mem_dropLast hmem)
      · cases hm
    · have hvalue : '\r' ∉ (l.dropWhile (· ≠ ':')).drop 1 := fun hmem =>
        hl (List.dropWhile_subset _ (List.mem_of_mem_drop hmem))
      unfold Reader.line
      split
      · simp [Reader.dispatch]
      · refine Reader.noReturn_field hr ?_ _
        split
        · exact fun hmem => hvalue (List.mem_of_mem_tail hmem)
        · exact hvalue

/-- The events of a stream a reader can tell apart; `lastId` is the id it has. -/
def Framed (lastId : List Char) : List SSEEvent → Prop
  | [] => True
  | e :: es => e.Framed lastId ∧ Framed e.idChars es

theorem readsAs_eq_iff (hdata : ∀ e ∈ events, '\r' ∉ e.data.chars)
    {lastId : List Char} (hlast : '\x00' ∉ lastId) :
    readsAs lastId events = events.map SSEEvent.message ↔ Framed lastId events := by
  induction events generalizing lastId with
  | nil => simp [readsAs, Framed]
  | cons e es ih =>
    obtain ⟨he, hes⟩ := List.forall_mem_cons.mp hdata
    have hmessage : e.readAs lastId = e.message ↔ e.Framed lastId := by
      have hname : (if e.event.toList = [] then "message".toList else e.event.toList) =
          e.event.toList ↔ e.event ≠ "" := by
        by_cases hevent : e.event = "" <;> simp [hevent]
      simp only [SSEEvent.readAs, SSEEvent.message, Message.mk.injEq, hname, and_true]
      constructor
      · rintro ⟨hevent, hid⟩
        unfold SSEEvent.lastId at hid
        refine ⟨hevent, fun hnil => by simp_all, fun hnul => ?_, ?_⟩
        · rw [if_pos (.inr hnul)] at hid
          exact hlast (hid ▸ hnul)
        · rintro s hs hmem
          exact he (by simpa [hs, Data.chars] using hmem)
      · rintro ⟨hevent, hid, hnul, -⟩
        refine ⟨hevent, ?_⟩
        unfold SSEEvent.lastId
        by_cases hnil : e.idChars = [] <;> simp [hnil, hnul, hid]
    rw [readsAs, List.map_cons, List.cons.injEq, Framed, hmessage]
    refine and_congr_right fun hframed => ?_
    have hid : e.lastId lastId = e.idChars := congrArg Message.id (hmessage.mpr hframed)
    rw [hid, ih hes hframed.noNul]

theorem Framed.noReturn {lastId : List Char} (h : Framed lastId events) :
    ∀ e ∈ events, '\r' ∉ e.data.chars := by
  induction events generalizing lastId with
  | nil => simp
  | cons e es ih =>
    refine List.forall_mem_cons.mpr ⟨fun hmem => ?_, ih h.2⟩
    obtain ⟨s, hs⟩ := Data.eq_text_of_return hmem
    exact h.1.noReturn s hs (by simpa [hs, Data.chars] using hmem)

/-- A stream is read back exactly when its events can be told apart. -/
theorem parse_eq_iff (hnames : ∀ e ∈ events, e.Nameable) :
    parse (events.flatMap SSEEvent.encode) = some (events.map SSEEvent.message) ↔
      Framed [] events := by
  have hlast : '\x00' ∉ ([] : List Char) := by simp
  constructor
  · intro hparse
    have hdata : ∀ e ∈ events, '\r' ∉ e.data.chars := by
      rw [parse_flatMap, Option.some.injEq] at hparse
      intro e he
      exact Reader.noReturn_messages (noReturn_endedLines (by simp) _) (by simp) e.message
        (hparse ▸ List.mem_map_of_mem he)
    rw [parse_of_noReturn hnames hdata, Option.some.injEq] at hparse
    exact (readsAs_eq_iff hdata hlast).mp hparse
  · intro hframed
    have hdata := hframed.noReturn
    rw [parse_of_noReturn hnames hdata, (readsAs_eq_iff hdata hlast).mpr hframed]

end PawFlow.Sse
