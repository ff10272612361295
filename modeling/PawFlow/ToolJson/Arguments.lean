import PawFlow.Lib.JsonText
import PawFlow.Lib.PyString

/-!
# Arguments of tool calls

`parse_tool_arguments` of `core/tool_json.py` with its three repairs. What the decoder says of a
text it refuses, with the place it says it of, and `repr` are arguments.
-/

namespace PawFlow.ToolJson

open PawFlow.Lib

/-! ## Closing a text that was cut off -/

structure Scan where
  stack : List Char := []
  inString : Bool := false
  escapeNext : Bool := false
deriving DecidableEq

def Scan.step (s : Scan) (c : Char) : Scan :=
  if s.inString then
    if s.escapeNext then { s with escapeNext := false }
    else if c = '\\' then { s with escapeNext := true }
    else if c = '"' then { s with inString := false }
    else s
  else if c = '"' then { s with inString := true }
  else if c = '{' then { s with stack := '}' :: s.stack }
  else if c = '[' then { s with stack := ']' :: s.stack }
  else if (c = '}' ∨ c = ']') ∧ s.stack.head? = some c then { s with stack := s.stack.tail }
  else s

def scan (s : Scan) (text : List Char) : Scan := text.foldl Scan.step s

/-- What is missing at the end of a text, the innermost closer first. -/
def Scan.closers (s : Scan) (maxAppends : Nat) : List Char :=
  let quote := if s.inString then ['"'] else []
  quote ++ s.stack.take (maxAppends - quote.length)

def autocloseTruncatedJson (s : List Char) (maxAppends : Nat := 4) : List Char :=
  s ++ (scan {} s).closers maxAppends

/-! ## Escapes -/

def jsonValidEscapes : List Char := ['"', '\\', '/', 'b', 'f', 'n', 'r', 't', 'u']

/-- What stands for a raw control character. -/
def controlEscape (c : Char) : List Char :=
  if c = '\n' then ['\\', 'n']
  else if c = '\t' then ['\\', 't']
  else if c = '\r' then ['\\', 'r']
  else if c = '\x08' then ['\\', 'b']
  else if c = '\x0c' then ['\\', 'f']
  else Json.unicodeEscape c.toNat

/-- The loop of the repair: its output, and whether it has changed anything. -/
def repairChars (inString : Bool) : List Char → List Char × Bool
  | [] => ([], false)
  | c :: cs =>
    if inString = false then
      let (out, changed) := repairChars (c = '"') cs
      (c :: out, changed)
    else if c = '"' then
      let (out, changed) := repairChars false cs
      (c :: out, changed)
    else if c = '\\' then
      match cs with
      | [] => ([], true)
      | e :: rest =>
        if e ∈ jsonValidEscapes then
          let (out, changed) := repairChars true rest
          (c :: e :: out, changed)
        else if e = '\'' then ('\'' :: (repairChars true rest).1, true)
        else ('\\' :: '\\' :: (repairChars true (e :: rest)).1, true)
    else if c.toNat < 32 then (controlEscape c ++ (repairChars true cs).1, true)
    else
      let (out, changed) := repairChars true cs
      (c :: out, changed)

def repairInvalidJsonEscapes (s : List Char) : List Char :=
  let (out, changed) := repairChars false s
  if changed then out else s

/-! ## Quotes -/

/-- A quote right after a bracket, a comma or a colon, up to blanks. -/
def isOpener (s : List Char) (i : Nat) : Bool :=
  ((s.take i).reverse.dropWhile Json.isBlank).head?.any (· ∈ ['{', '[', ',', ':'])

/-- A quote right before a closing bracket, a comma, a colon or the end, up to blanks. -/
def isCloser (s : List Char) (i : Nat) : Bool :=
  ((s.drop (i + 1)).dropWhile Json.isBlank).head?.all (· ∈ ['}', ']', ',', ':'])

/-- The text with the quotes between two of them escaped. -/
def requoted (s : List Char) (o c : Nat) : List Char :=
  let between := ((s.take c).drop (o + 1)).flatMap fun d => if d = '"' then ['\\', '"'] else [d]
  s.take o ++ '"' :: (between ++ '"' :: s.drop (c + 1))

section

variable (readFloat : List Char → Option (FloatText × Int × Nat))

def repairBareQuotes (s : List Char) : List Char :=
  let quotes := (List.range s.length).filter fun i => s[i]? = some '"'
  if quotes.length < 2 then s
  else
    let pairs := (quotes.filter (isOpener s)).flatMap fun o =>
      (quotes.filter (isCloser s)).filterMap fun c =>
        if c ≤ o then none else some (requoted s o c)
    (pairs.find? fun candidate => candidate ≠ s ∧ (Json.loads readFloat candidate).isSome).getD s

/-! ## Parsing -/

/-- `str(exc)` and `exc.pos` of a `JSONDecodeError`. -/
structure DecodeError where
  message : String
  pos : Nat

/-- What is known of Python beyond the reader. -/
structure Python where
  /-- What the decoder says of a text that it refuses. -/
  decodeError : List Char → DecodeError
  repr : Json → String

def parseErrorKey : String := "_pawflow_tool_arg_parse_error"

def rawArgumentsKey : String := "_pawflow_raw_tool_arguments"

variable (py : Python)

def errorPayload (raw : Json) (detail : String) : List (String × Json) :=
  let rawText := match raw with
    | .str s => s
    | v => py.repr v
  [(parseErrorKey, .str detail), (rawArgumentsKey, .str (.ofList (rawText.toList.take 2000)))]

def jsonErrorWindow (raw : List Char) (e : DecodeError) : String :=
  if raw.length < e.pos then ""
  else
    let lo := e.pos - 120
    let hi := min raw.length (e.pos + 120)
    " Window around char " ++ toString e.pos ++ ": " ++ (if 0 < lo then "..." else "") ++
      py.repr (.str (.ofList ((raw.take hi).drop lo))) ++ (if hi < raw.length then "..." else "")

def DecodeError.mentions (e : DecodeError) (what : String) : Bool :=
  occursIn what.toList e.message.toList

/-- The error looks like that of a text that was cut off. -/
def looksTruncated (text : List Char) (e : DecodeError) : Bool :=
  (e.mentions "Expecting ',' delimiter" || e.mentions "Expecting property name" ||
      e.mentions "Expecting value" || e.mentions "Unterminated string") &&
    (decide ((text.length : Int) - 4 ≤ e.pos) || e.mentions "Unterminated string")

/-- One attempt to read a text, `none` where it is not made. -/
def attempt (made : Bool) (text : List Char) (last : DecodeError) : Except DecodeError Json :=
  if made then
    match Json.loads readFloat text with
    | some v => .ok v
    | none => .error (py.decodeError text)
  else .error last

/-- `JSONDecoder().raw_decode`, where the decoder speaks of extra data. -/
def rawDecode (text : List Char) (e : DecodeError) : Except DecodeError Json :=
  if e.mentions "Extra data" then
    match Json.readValue readFloat (text.length + 1) text with
    | some (v, _) => .ok v
    | none => .error (py.decodeError text)
  else .error e

/-- One round of the loop on a text: the value read, or the payload of the error. -/
def decodeText (text : List Char) : Except (List (String × Json)) Json :=
  match Json.loads readFloat text with
  | some v => .ok v
  | none =>
    let e := py.decodeError text
    match rawDecode readFloat py text e with
    | .ok v => .ok v
    | .error last =>
      let patched := autocloseTruncatedJson text
      match attempt readFloat py (looksTruncated text e && patched ≠ text) patched last with
      | .ok v => .ok v
      | .error last =>
        let repaired := repairInvalidJsonEscapes text
        match attempt readFloat py (repaired ≠ text) repaired last with
        | .ok v => .ok v
        | .error last =>
          let requoted := repairBareQuotes readFloat repaired
          match attempt readFloat py (requoted ≠ repaired) requoted last with
          | .ok v => .ok v
          | .error last =>
            .error (errorPayload py (.str (.ofList text))
              (last.message ++ "." ++ jsonErrorWindow py text last))

/-- The loop: a text is read, and again while a text was in it. -/
def unwrap : (maxUnwraps : Nat) → Json → Except (List (String × Json)) Json
  | n + 1, .str s => (decodeText readFloat py s.toList).bind (unwrap n)
  | _, v => .ok v

/-- `type(value).__name__`. -/
def typeName : Json → String
  | .null => "NoneType"
  | .bool _ => "bool"
  | .int _ => "int"
  | .float _ _ _ => "float"
  | .str _ => "str"
  | .arr _ => "list"
  | .obj _ => "dict"

def parseToolArguments (raw : Json) : List (String × Json) :=
  match raw with
  | .null => []
  | .str "" => []
  | .obj fields => fields
  | raw =>
    match unwrap readFloat py 3 raw with
    | .error payload => payload
    | .ok (.obj fields) => fields
    | .ok v => errorPayload py raw
        ("expected JSON object for tool arguments, got " ++ typeName v)

end

end PawFlow.ToolJson
