import PawFlow.Expression.Pipeline
import PawFlow.Lib.PyDict

/-!
# Resolution of expressions

`core/expression.py`: every `${…}` of a template is looked up in the secrets and the
parameters of the conversation, the user and the installation, its operations are applied, and
the result is resolved again. The stores a call reads do not change while it runs; the caches
inside the call are left out.
-/

namespace PawFlow.Expression

open PawFlow.Lib

/-- `ConfigValue`: large values are not interpolated. -/
inductive ConfigValue
  | small (s : Text)
  | large
deriving DecidableEq

/-- `_resolve_value`. -/
def ConfigValue.interpolated : ConfigValue → Option Text
  | .small s => some s
  | .large => none

inductive SecretScope
  | conv | user | global
deriving DecidableEq

def SecretScope.name : SecretScope → Text
  | .conv => "conv".toList
  | .user => "user".toList
  | .global => "global".toList

structure SecretIdentity where
  name : Text
  sourceScope : SecretScope
  sourceScopeId : Text
deriving DecidableEq

/-- The contents of the secret stores: raw entries by name. -/
structure Secrets where
  conv : (conversationId : Text) → PyDict Text Text
  user : (owner : Text) → PyDict Text Text
  global : PyDict Text Text

/-- What a call reads. -/
structure Env where
  py : Python
  /-- Flow parameters and FlowFile attributes, as text. -/
  params : PyDict Text Text
  owner : Text
  /-- Empty for none. -/
  conversationId : Text
  convParams : (conversationId : Text) → PyDict Text Text
  userParams : (owner : Text) → PyDict Text ConfigValue
  globalParams : PyDict Text ConfigValue
  environ : PyDict Text Text
  /-- `relay_bindings.get_default`; `none` also when it raises. -/
  relayDefault : (conversationId agent : Text) → Option Text
  /-- `SecretAccessPolicy.load(…).allows`; `none` when loading raises. -/
  allows : (conversationId agent : Text) → SecretIdentity → Option Bool
  /-- `SecretResolver._materialize`: the decrypted entry, or the value a provider returns. -/
  materialize : SecretIdentity → (raw : Text) → Option ConfigValue
  secrets : Secrets

/-! ## The cascades -/

def cascadeParam (env : Env) (key : Text) (exactScope : Option Text) : Option Text :=
  let flow := env.params.get? key
  let conv := if env.conversationId = [] then none
    else (env.convParams env.conversationId).get? key
  let user := if env.owner = [] then none
    else ((env.userParams env.owner).get? key).bind ConfigValue.interpolated
  let global := (env.globalParams.get? key).bind ConfigValue.interpolated
  let environ := env.environ.get? key
  match exactScope with
  | some scope =>
    match String.ofList scope with
    | "flow" => flow
    | "conv" => conv
    | "user" => user
    | "global" => global
    | "env" => environ
    | _ => none
  | none => flow.or (conv.or (user.or (global.or environ)))

/-- The conversations a task or a delegate works in keep the secrets of their parent. -/
def childMarkers : List Text :=
  ["::task::", "::task_verify::", "::delegate::", "::flash::", "::a2a::", "::workflow::"].map
    String.toList

def rootConversationId (id : Text) : Text :=
  match childMarkers.find? fun marker => occursIn marker id with
  | none => id
  | some marker =>
    let parent := (splitOnFrom marker 0 [] id).headD []
    if parent = [] then id else parent

def sources (env : Env) : List (SecretScope × Text × PyDict Text Text) :=
  let root := rootConversationId env.conversationId
  (if root = [] then [] else [(.conv, root, env.secrets.conv root)]) ++
    (if env.owner = [] then [] else [(.user, env.owner, env.secrets.user env.owner)]) ++
    [(.global, [], env.secrets.global)]

def select (env : Env) (name : Text) (exactScope : Option Text) : Option (SecretIdentity × Text) :=
  let wanted := env.py.lower (strip (exactScope.getD []))
  let wanted := if wanted = "conversation".toList then "conv".toList else wanted
  (sources env).findSome? fun (scope, scopeId, raw) =>
    if wanted ≠ [] ∧ scope.name ≠ wanted then none
    else (raw.get? name).map fun entry => (⟨name, scope, scopeId⟩, entry)

/-- `_cascade_secret`. An empty name raises, as a policy that cannot be read does, and both
count as not found. -/
def cascadeSecret (env : Env) (key : Text) (exactScope : Option Text) : Option Text :=
  if key = [] then none
  else
    (select env key exactScope).bind fun (identity, raw) =>
      let agent := (env.params.get? "agent_name".toList).getD []
      if env.allows env.conversationId agent identity = some true then
        (env.materialize identity raw).bind ConfigValue.interpolated
      else none

/-! ## One expression -/

/-- What `$` in a pattern leaves aside: one newline at the end. -/
def dropFinalNewline (t : Text) : Text := if t.getLast? = some '\n' then t.dropLast else t

/-- `_parse_important`: the pattern `^(.+):!important\((\w+)\)$`, read from its end. -/
def parseImportant (py : Python) (expr : Text) : Text × Option Text :=
  match (dropFinalNewline expr).reverse with
  | ')' :: rest =>
    let scope := (rest.takeWhile py.isWord).reverse
    let mark := ":!important(".toList.reverse
    let rest := rest.dropWhile py.isWord
    let key := (rest.drop mark.length).reverse
    if scope ≠ [] ∧ mark.isPrefixOf rest ∧ key ≠ [] ∧ '\n' ∉ key then (key, some scope)
    else (expr, none)
  | _ => (expr, none)

/-- The text inside an argument that is one expression: the pattern `^\$\{(.+)\}$`. -/
def inside (a : Text) : Option Text :=
  match dropFinalNewline a with
  | '$' :: '{' :: rest =>
    if rest.getLast? = some '}' ∧ rest.dropLast ≠ [] ∧ '\n' ∉ rest.dropLast then
      some rest.dropLast
    else none
  | _ => none

def resolveSingle (replacer : Text → Eval Text) (a : Text) : Eval Text :=
  match inside a with
  | some expr => replacer expr
  | none => return a

/-- `${conv.relay}` and `${agent.relay}`. -/
def relayValue (env : Env) (key : Text) : Option Text :=
  if (key = "conv.relay".toList ∨ key = "agent.relay".toList) ∧ env.conversationId ≠ [] then
    let agent := if key = "agent.relay".toList then
      (env.params.get? "agent_name".toList).getD [] else []
    (env.relayDefault env.conversationId agent).filter fun rid => rid ≠ []
  else none

/-- The text an expression leaves that nothing resolves. -/
def unresolved (original scopeKey : Text) : Option Text → Text
  | some scope => opening ++ scopeKey ++ ":!important(".toList ++ scope ++ [')', '}']
  | none => opening ++ original ++ ['}']

/-- The body of `replacer_core`; `resolve` is what its arguments are resolved with. -/
def replacerWith (env : Env) (includeSecrets : Bool) (resolve : Text → Eval Text)
    (original : Text) : Eval Text := do
  let (expr, exactScope) := parseImportant env.py original
  let (scopeKey, ops) := parsePipeline expr
  if scopeKey = [] ∧ ops ≠ [] then return ← evaluatePipeline env.py resolve [] ops
  let returnVal := fun val => if ops = [] then pure val else evaluatePipeline env.py resolve val ops
  if let some rid := relayValue env scopeKey then
    -- an operation that raises here is ignored
    let val ← tryCatch (some <$> returnVal rid) fun _ => pure none
    if let some val := val then return val
  if includeSecrets then
    if let some val := cascadeSecret env scopeKey exactScope then return ← returnVal val
  if let some val := cascadeParam env scopeKey exactScope then return ← returnVal val
  if ops ≠ [] then
    let val ← evaluatePipeline env.py resolve [] ops
    if val ≠ [] then return val
  return unresolved original scopeKey exactScope

/-- `replacer_core`, for expressions nested at most `fuel` deep. -/
def replacerCore (env : Env) (includeSecrets : Bool) : (fuel : Nat) → Text → Eval Text
  | 0, expr => replacerWith env includeSecrets pure expr
  | fuel + 1, expr =>
    replacerWith env includeSecrets (resolveSingle (replacerCore env includeSecrets fuel)) expr

/-! ## Templates -/

/-- The text up to the brace that closes an expression, and the length of what was read is one
more; `prev` is the character before. -/
def untilClosing (prev : Char) (depth : Nat) : Text → Option Text
  | [] => none
  | c :: cs =>
    if c = '{' ∧ prev = '$' then (untilClosing c (depth + 1) cs).map (c :: ·)
    else if c = '}' then
      if depth = 1 then some [] else (untilClosing c (depth - 1) cs).map (c :: ·)
    else (untilClosing c depth cs).map (c :: ·)

/-- The pieces a template is made of. -/
inductive Piece
  | char (c : Char)
  | expr (inner : Text)
  /-- `\${…}`. -/
  | escaped (inner : Text)
deriving DecidableEq

/-- The scan of `_substitute_expressions`; the rest of an expression is skipped. -/
def scan : (skip : Nat) → Text → List Piece
  | _, [] => []
  | skip + 1, _ :: cs => scan skip cs
  | 0, '\\' :: '$' :: '{' :: cs =>
    match untilClosing '{' 1 cs with
    | some inner => .escaped inner :: scan (inner.length + 3) ('$' :: '{' :: cs)
    | none => .char '\\' :: scan 0 ('$' :: '{' :: cs)
  | 0, '$' :: '{' :: cs =>
    match untilClosing '{' 1 cs with
    | some inner => .expr inner :: scan (inner.length + 2) ('{' :: cs)
    | none => .char '$' :: scan 0 ('{' :: cs)
  | 0, c :: cs => .char c :: scan 0 cs

def escOpen : Text := "\x00pf-esc[".toList

def escClose : Text := "]pf-esc\x00".toList

def replacement (py : Python) (replacer : Text → Eval Text) : Piece → Eval Text
  | .char c => return [c]
  | .expr inner => replacer inner
  | .escaped inner =>
    return escOpen ++ py.urlsafeB64encode (opening ++ inner ++ ['}']) ++ escClose

/-- The pieces from left to right. -/
def assemble (py : Python) (replacer : Text → Eval Text) : List Piece → Eval Text
  | [] => return []
  | piece :: pieces => do
    let text ← replacement py replacer piece
    return text ++ (← assemble py replacer pieces)

def substituteExpressions (py : Python) (replacer : Text → Eval Text) (template : Text) :
    Eval Text :=
  assemble py replacer (scan 0 template)

/-- The pass of `resolve_expression` over a template and, while expressions are left and
something changed, over its result; `left` is how many passes may follow. -/
def resolvePass (env : Env) (includeSecrets : Bool) : (left : Nat) → Text → Eval Text
  | 0, template => return template
  | left + 1, template => do
    if ¬ occursIn opening template then return template
    let result ← substituteExpressions env.py
      (fun inner => replacerCore env includeSecrets inner.length inner) template
    if occursIn opening result ∧ result ≠ template then resolvePass env includeSecrets left result
    else return result

def isTokenChar (c : Char) : Bool := c.isAlphanum || c ∈ ['_', '-', '=']

/-- The payload of an escape token at the start of the text. -/
def tokenAt (t : Text) : Option Text :=
  let rest := t.drop escOpen.length
  if escOpen.isPrefixOf t ∧ escClose.isPrefixOf (rest.dropWhile isTokenChar) then
    some (rest.takeWhile isTokenChar)
  else none

def decodeEscapes (py : Python) : (skip : Nat) → Text → Text
  | _, [] => []
  | skip + 1, _ :: cs => decodeEscapes py skip cs
  | 0, c :: cs =>
    match tokenAt (c :: cs) with
    | some payload =>
      (py.urlsafeB64decode payload).getD (escOpen ++ payload ++ escClose) ++
        decodeEscapes py (escOpen.length + payload.length + escClose.length - 1) cs
    | none => c :: decodeEscapes py 0 cs

/-- `resolve_expression`: depths 0 to 10 are passes, and the outermost one decodes. -/
def resolveExpression (env : Env) (includeSecrets : Bool) (template : Text) : Eval Text := do
  if ¬ occursIn opening template then return template
  let result ← resolvePass env includeSecrets 11 template
  if occursIn escOpen result then return decodeEscapes env.py 0 result
  return result

end PawFlow.Expression
