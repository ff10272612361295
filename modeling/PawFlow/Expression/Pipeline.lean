import PawFlow.Lib.PyString

/-!
# Pipelines of expression operations

`core/expression_pipeline.py`: the text between the braces of an expression is a key followed
by operations, `key:op1:op2("arg")`. Text is a list of code points.

What the operations take from the standard library and is not plain list work (case mapping,
regular expressions, hashes, dates, …) is the record `Python`; the generators read it at the
number of the draw, which a computation counts in its state. Every result holds for any such
record.
-/

namespace PawFlow.Expression

open PawFlow.Lib

abbrev Text := List Char

inductive PyError
  | valueError | overflowError | reError
deriving DecidableEq

/-- Computations that may raise and that draw random values and clock readings; a raised
exception does not give the draws back. -/
abbrev Eval := ExceptT PyError (StateM Nat)

/-- The library functions behind the operations. -/
structure Python where
  upper : Text → Text
  lower : Text → Text
  capitalize : Text → Text
  title : Text → Text
  /-- `\w`. -/
  isWord : Char → Bool
  /-- `str` of a list. -/
  reprList : List Text → Text
  reSub : (pattern repl text : Text) → Except PyError Text
  reSearch : (pattern text : Text) → Except PyError Bool
  /-- `str(int(float(s)))`. -/
  intOfFloat : Text → Except PyError Text
  /-- `str(float(s))`. -/
  float : Text → Except PyError Text
  b64encode : Text → Text
  b64decode : Text → Option Text
  urlsafeB64encode : Text → Text
  urlsafeB64decode : Text → Option Text
  quote : Text → Text
  unquote : Text → Text
  /-- `json.loads(s)` and the walk along the path, then `str`. -/
  jsonGet : (text path : Text) → Option Text
  md5 : Text → Text
  sha256 : Text → Text
  fromisoformat : Text → Option Int
  isoformat : Int → Text
  strftime : Int → Text → Except PyError Text
  /-- `dt + timedelta(days=n)`, `none` out of range. -/
  addDays : Int → Int → Option Int
  uuid4 : (draw : Nat) → Text
  uuid4Hex : (draw : Nat) → Text
  randint : (draw : Nat) → (lo hi : Int) → Except PyError Int
  choices : (draw : Nat) → (k : Int) → Text
  time : (draw : Nat) → Int
  now : (draw : Nat) → Int

/-! ## Parsing -/

/-- `str.strip()`. -/
def strip (t : Text) : Text := ((t.dropWhile isSpace).reverse.dropWhile isSpace).reverse

/-- `_split_pipeline`, from a point inside the text: `current` is the part so far, reversed. -/
def splitFrom (current : Text) (paren : Int) (depth : Nat) : Text → List Text
  | [] => if current = [] then [] else [current.reverse]
  | c :: rest =>
    if c = '$' ∧ rest.head? = some '{' then splitFrom (c :: current) paren (depth + 1) rest
    else if c = '}' ∧ 0 < depth then splitFrom (c :: current) paren (depth - 1) rest
    else if c = '(' then splitFrom (c :: current) (paren + 1) depth rest
    else if c = ')' then splitFrom (c :: current) (paren - 1) depth rest
    else if c = ':' ∧ paren = 0 ∧ depth = 0 then current.reverse :: splitFrom [] paren depth rest
    else splitFrom (c :: current) paren depth rest

def splitPipeline (expr : Text) : List Text := splitFrom [] 0 0 expr

/-- `_split_args`, from a point inside the text. -/
def splitArgsFrom (current : Text) (inQuote : Option Char) (depth : Int) : Text → List Text
  | [] => if current = [] then [] else [current.reverse]
  | c :: rest =>
    if c ∈ ['"', '\x27'] ∧ depth = 0 then
      splitArgsFrom (c :: current)
        (if inQuote = some c then none else if inQuote = none then some c else inQuote) depth rest
    else if c = '{' ∧ inQuote = none then splitArgsFrom (c :: current) inQuote (depth + 1) rest
    else if c = '}' ∧ inQuote = none then splitArgsFrom (c :: current) inQuote (depth - 1) rest
    else if c = ',' ∧ inQuote = none ∧ depth = 0 then
      current.reverse :: splitArgsFrom [] inQuote depth rest
    else splitArgsFrom (c :: current) inQuote depth rest

def splitArgs (args : Text) : List Text := splitArgsFrom [] none 0 args

/-- Both ends of an argument are the quote `q`. -/
def quotedBy (q : Char) (a : Text) : Bool := a.head? = some q ∧ a.getLast? = some q

/-- An argument without its blanks and quotes. -/
def cleanArg (a : Text) : Text :=
  let a := strip a
  if quotedBy '"' a ∨ quotedBy '\x27' a then a.tail.dropLast else a

/-- An operation and its arguments. -/
abbrev Operation := Text × List Text

def parseOperation (text : Text) : Operation :=
  let text := strip text
  if '(' ∉ text then (text, [])
  else
    let name := strip (text.takeWhile (· ≠ '('))
    if text.getLast? ≠ some ')' then (name, [])
    else (name, (splitArgs ((text.dropWhile (· ≠ '(')).tail.dropLast)).map cleanArg)

def parsePipeline (expr : Text) : Text × List Operation :=
  if ':' ∉ expr then (expr, [])
  else if ":!important".toList.isSuffixOf expr then (expr, [])
  else
    match splitPipeline expr with
    | key :: part :: parts =>
      (key, ((part :: parts).map parseOperation).filter fun op => op.1 ≠ [])
    | _ => (expr, [])

/-! ## Operations -/

inductive Value
  | str (s : Text)
  | list (items : List Text)
  | bool (b : Bool)
deriving DecidableEq

/-- `str(value)`. -/
def Value.text (py : Python) : Value → Text
  | .str s => s
  | .list items => py.reprList items
  | .bool b => if b then "True".toList else "False".toList

/-- `s[start:stop]`. -/
def slice (s : Text) (start : Int) (stop : Option Int) : Text :=
  let pos := fun (i : Int) => (if i < 0 then max 0 (s.length + i) else min i s.length).toNat
  (s.take ((stop.map pos).getD s.length)).drop (pos start)

/-- `s.replace(old, new)` for a nonempty `old`; the rest of a match is skipped. -/
def replaceFrom (old new : Text) : (skip : Nat) → Text → Text
  | _, [] => []
  | skip + 1, _ :: cs => replaceFrom old new skip cs
  | 0, c :: cs =>
    if old.isPrefixOf (c :: cs) then new ++ replaceFrom old new (old.length - 1) cs
    else c :: replaceFrom old new 0 cs

/-- `s.replace(old, new)`. -/
def replace (old new s : Text) : Text :=
  if old = [] then new ++ s.flatMap fun c => c :: new else replaceFrom old new 0 s

/-- `s.split(sep)` for a nonempty `sep`. -/
def splitOnFrom (sep : Text) : (skip : Nat) → (current : Text) → Text → List Text
  | _, current, [] => [current.reverse]
  | skip + 1, current, _ :: cs => splitOnFrom sep skip current cs
  | 0, current, c :: cs =>
    if sep.isPrefixOf (c :: cs) then current.reverse :: splitOnFrom sep (sep.length - 1) [] cs
    else splitOnFrom sep 0 (c :: current) cs

/-- `int(text)`. -/
def int (t : Text) : Except PyError Int :=
  match int? (.ofList t) with
  | some n => .ok n
  | none => .error .valueError

/-- The number of the next draw. -/
def draw : Eval Nat := modifyGet fun n => (n, n + 1)

/-- The argument at a position, as a number, or a default. -/
def intArg (args : List Text) (i : Nat) (default : Int) : Except PyError Int :=
  match args[i]? with
  | some a => int a
  | none => .ok default

/-- A fill character repeated up to a width. -/
def padding (args : List Text) (s : Text) : Except PyError (Option Text) :=
  (intArg args 0 0).map fun width =>
    let fill := args.getD 1 [' ']
    fill.head?.map fun c => List.replicate (width - (s.length : Int)).toNat c

def decimal (n : Int) : Text := (toString n).toList

def applyOp (py : Python) (value : Value) (op : String) (args : List Text) : Eval Value :=
  let s := value.text py
  match op with
  | "upper" => return .str (py.upper s)
  | "lower" => return .str (py.lower s)
  | "trim" => return .str (strip s)
  | "ltrim" => return .str (s.dropWhile isSpace)
  | "rtrim" => return .str (s.reverse.dropWhile isSpace).reverse
  | "capitalize" => return .str (py.capitalize s)
  | "title" => return .str (py.title s)
  | "reverse" => return .str s.reverse
  | "length" => return .str (decimal s.length)
  | "count" => match value with
      | .list items => return .str (decimal items.length)
      | _ => return .str (decimal s.length)
  | "substr" => do
    let start ← intArg args 0 0
    let stop ← (args[1]?).mapM fun a => (int a : Except PyError Int)
    return .str (slice s start stop)
  | "replace" => match args with
      | old :: new :: _ => return .str (replace old new s)
      | _ => return .str s
  | "replace_regex" => match args with
      | pattern :: repl :: _ => do return .str (← py.reSub pattern repl s)
      | _ => return .str s
  | "append" => return .str (s ++ args.headD [])
  | "prepend" => return .str (args.headD [] ++ s)
  | "pad_left" => do return .str ((← padding args s).getD [] ++ s)
  | "pad_right" => do return .str (s ++ (← padding args s).getD [])
  | "split" =>
    let sep := args.headD [',']
    if sep = [] then throw .valueError else return .list (splitOnFrom sep 0 [] s)
  | "join" => match value with
      | .list items => return .str ((args.headD [',']).intercalate items)
      | _ => return .str s
  | "index" => match value, args with
      | .list items, a :: _ => do
        let i ← (int a : Except PyError Int)
        return .str (if 0 ≤ i then items.getD i.toNat [] else [])
      | _, _ => return .str s
  | "first" => match value with
      | .list (x :: _) => return .str x
      | _ => return .str s
  | "last" => match value with
      | .list (x :: xs) => return .str ((x :: xs).getLast (List.cons_ne_nil x xs))
      | _ => return .str s
  | "default" => return .str (if s ≠ [] then s else args.headD [])
  | "equals" => return .bool (args.head?.any fun a => s = a)
  | "not_equals" => return .bool (args.head?.all fun a => s ≠ a)
  | "contains" => return .bool (args.head?.any fun a => occursIn a s)
  | "starts_with" => return .bool (args.head?.any fun a => a.isPrefixOf s)
  | "ends_with" => return .bool (args.head?.any fun a => a.isSuffixOf s)
  | "matches" => match args with
      | pattern :: _ => do return .bool (← py.reSearch pattern s)
      | [] => return .bool false
  | "is_empty" => return .bool (strip s = [])
  | "then" => if value = .bool true then return .str (args.headD []) else return value
  | "else" => if value = .bool false then return .str (args.headD []) else return value
  | "to_int" => match py.intOfFloat s with
      | .ok t => return .str t
      | .error .valueError => return .str ['0']
      | .error e => throw e
  | "to_float" => match py.float s with
      | .ok t => return .str t
      | .error .valueError => return .str "0.0".toList
      | .error e => throw e
  | "to_bool" => return .str (if ["true".toList, "1".toList, "yes".toList,
      "on".toList].contains (py.lower s) then "true".toList else "false".toList)
  | "base64_encode" => return .str (py.b64encode s)
  | "base64_decode" => return .str ((py.b64decode s).getD s)
  | "url_encode" => return .str (py.quote s)
  | "url_decode" => return .str (py.unquote s)
  | "json_get" => match args with
      | path :: _ => return .str ((py.jsonGet s path).getD [])
      | [] => return .str s
  | "hash_md5" => return .str (py.md5 s)
  | "hash_sha256" => return .str (py.sha256 s)
  | "uuid" => do return .str (py.uuid4 (← draw))
  | "uuid_short" => do return .str ((py.uuid4Hex (← draw)).take 12)
  | "random_int" => do
    let lo ← intArg args 0 0
    let hi ← intArg args 1 100
    return .str (decimal (← py.randint (← draw) lo hi))
  | "random_string" => do
    let n ← intArg args 0 16
    return .str (py.choices (← draw) n)
  | "timestamp" => do return .str (decimal (py.time (← draw)))
  | "now" => do
    return .str (← py.strftime (py.now (← draw)) (args.headD "%Y-%m-%dT%H:%M:%S".toList))
  | "format_date" =>
    let date := (py.fromisoformat s).bind fun dt =>
      (py.strftime dt (args.headD "%Y-%m-%d".toList)).toOption
    return .str (date.getD s)
  | "add_days" =>
    let date := (py.fromisoformat s).bind fun dt =>
      (intArg args 0 0).toOption.bind (py.addDays dt)
    return .str ((date.map py.isoformat).getD s)
  -- an unknown operation changes nothing
  | _ => return .str s

/-- The start of an expression. -/
def opening : Text := ['$', '{']

/-- The arguments of an operation, those with an expression in them resolved. -/
def resolveArgs (resolve : Text → Eval Text) : List Text → Eval (List Text)
  | [] => return []
  | a :: args => do
    let a ← if occursIn opening a then resolve a else pure a
    return a :: (← resolveArgs resolve args)

/-- The loop of `evaluate_pipeline`. -/
def applyOps (py : Python) (resolve : Text → Eval Text) : Value → List Operation → Eval Value
  | value, [] => return value
  | value, op :: ops => do
    let args ← resolveArgs resolve op.2
    applyOps py resolve (← applyOp py value (.ofList op.1) args) ops

def evaluatePipeline (py : Python) (resolve : Text → Eval Text) (value : Text)
    (ops : List Operation) : Eval Text := do
  match ← applyOps py resolve (.str value) ops with
  | .bool b => return if b then "true".toList else "false".toList
  | value => return value.text py

end PawFlow.Expression
