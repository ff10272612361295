import PawFlow.Expression.Resolve
import PawFlow.Lib.Json
import PawFlow.Lib.Layers

/-!
# The secret resolver

`core/secret_resolver.py` and the policy of `core/secret_access_policy.py`. What a stored entry
materializes to, here or at a provider, is an argument.
-/

namespace PawFlow.Secrets

open PawFlow.Lib

abbrev SourceScope := Expression.SecretScope

/-- The place of a scope in the order of the lookup. -/
def rank : SourceScope → Nat
  | .conv => 0
  | .user => 1
  | .global => 2

def scopeName : SourceScope → String
  | .conv => "conv"
  | .user => "user"
  | .global => "global"

structure SecretIdentity where
  name : String
  sourceScope : SourceScope
  sourceScopeId : String
  name_ne : name ≠ ""
deriving DecidableEq

/-- `SecretIdentity.__post_init__`. -/
def SecretIdentity.of (name : String) (scope : SourceScope) (scopeId : String) :
    Except String SecretIdentity :=
  if h : name ≠ "" then .ok ⟨name, scope, scopeId, h⟩ else .error "secret name is required"

structure SecretGrant where
  name : String
  sourceScope : SourceScope
deriving DecidableEq

/-- `SecretAccessPolicy`; `none` is unrestricted. -/
structure Policy where
  conversation : Option (List SecretGrant)
  agent : Option (List SecretGrant)

/-- What the caller asks for. -/
structure Context where
  ownerUserId : String := ""
  conversationId : String := ""
  agentName : String := ""

/-- The stores a lookup reads, and what their entries materialize to. -/
structure World (ρ : Type) where
  /-- `get_extra(conversation, "conv_secrets")`. -/
  convSecrets : String → Json
  userSecrets : String → Json
  globalSecrets : Json
  /-- `get_extra(conversation, "secret_access")`. -/
  convAccess : String → Json
  /-- `resolve_agent_config_entry`: the canonical name and the configuration. -/
  agentEntry : (conversation agent : String) → Except String (String × PyDict String Json)
  lower : String → String
  /-- `str(value)`. -/
  str : Json → String
  materialize : Context → SecretIdentity → Json → Except String ρ

/-! ## Policies -/

def rootConversationId (id : String) : String :=
  .ofList (Expression.rootConversationId id.toList)

section

variable {ρ : Type} (w : World ρ) (ctx : Context)

/-- `str(value or "")`. -/
def strOr (v : Json) : String := if v.truthy then w.str v else ""

/-- `_scope`. -/
def scopeText (text : String) : String :=
  let result := w.lower (strip text)
  if result = "conversation" then "conv" else result

def scope? (text : String) : Option SourceScope :=
  [.conv, .user, .global].find? fun s => scopeName s = scopeText w text

/-- One grant of a list. -/
def parseGrant : Json → Except String SecretGrant
  | .obj item =>
    let name := strip (strOr w ((PyDict.get? item "name").getD .null))
    if name = "" then .error "secret grant name is required"
    else
      match scope? w (strOr w ((PyDict.get? item "source_scope").getD .null)) with
      | some s => .ok ⟨name, s⟩
      | none => .error "secret grant source_scope must be conv, user, or global"
  | _ => .error "each secret_access grant must be an object"

def parsePolicy (raw : Json) : Except String (Option (List SecretGrant)) :=
  match raw with
  | .null => .ok none
  | raw =>
    let items := match raw with
      | .obj fields => (PyDict.get? fields "allow").getD .null
      | raw => raw
    match items with
    | .null => .error "secret_access must contain an allow list"
    | .arr items => some <$> items.mapM (parseGrant w)
    | _ => .error "secret_access allow must be a list"

def secretAccessKey : String := "secret_access"

def Policy.load : Except String Policy :=
  if ctx.conversationId = "" then .ok ⟨none, none⟩
  else do
    let root := rootConversationId ctx.conversationId
    let conversation ← parsePolicy w (w.convAccess root)
    if ctx.agentName = "" then return ⟨conversation, none⟩
    let (canonical, config) ← w.agentEntry root ctx.agentName
    match config.get? secretAccessKey with
    | none => return ⟨conversation, none⟩
    | some raw =>
      if canonical = "" then return ⟨conversation, none⟩
      let agent ← parsePolicy w raw
      return ⟨conversation, agent⟩

/-- A policy lets a secret through. -/
def Permits (policy : Option (List SecretGrant)) (name : String) (scope : SourceScope) : Prop :=
  ∀ grants, policy = some grants → ⟨name, scope⟩ ∈ grants

instance (policy : Option (List SecretGrant)) (name : String) (scope : SourceScope) :
    Decidable (Permits policy name scope) :=
  match policy with
  | none => isTrue (by simp [Permits])
  | some grants => decidable_of_iff (⟨name, scope⟩ ∈ grants) (by simp [Permits])

def Policy.allows (policy : Policy) (identity : SecretIdentity) : Bool :=
  Permits policy.conversation identity.name identity.sourceScope ∧
    Permits policy.agent identity.name identity.sourceScope

/-! ## Lookups -/

def entries? : Json → Option (PyDict String Json)
  | .obj items => some items
  | _ => none

/-- `_sources`: the scopes that are asked, in order, with their entries. -/
def sources : List (SourceScope × String × PyDict String Json) :=
  let root := rootConversationId ctx.conversationId
  let conv := w.convSecrets root
  (if root = "" then []
    else ((entries? (if conv.truthy then conv else .obj [])).map fun raw =>
      (.conv, root, raw)).toList) ++
  (if ctx.ownerUserId = "" then []
    else [(.user, ctx.ownerUserId, (entries? (w.userSecrets ctx.ownerUserId)).getD [])]) ++
  [(.global, "", (entries? w.globalSecrets).getD [])]

def select (name : String) (exactScope : Option String) :
    Option (SourceScope × String × Json) :=
  -- The text of no scope is empty, stripped and lowered too.
  let wanted := (exactScope.map (scopeText w)).getD ""
  (sources w ctx).findSome? fun (scope, scopeId, raw) =>
    if wanted ≠ "" ∧ scopeName scope ≠ wanted then none
    else (raw.get? name).map fun entry => (scope, scopeId, entry)

def resolveRecord (name : String) (exactScope : Option String) : Except String (Option ρ) :=
  if name = "" then .error "secret name is required"
  else
    match select w ctx name exactScope with
    | none => .ok none
    | some (scope, scopeId, raw) => do
      let identity ← SecretIdentity.of name scope scopeId
      let policy ← Policy.load w ctx
      if policy.allows identity then return some (← w.materialize ctx identity raw)
      else return none

def winners : PyDict String (SourceScope × String × Json) :=
  (sources w ctx).foldl (fun winners (scope, scopeId, raw) =>
    raw.foldl (fun winners (name, entry) =>
      winners.setdefault name (scope, scopeId, entry)) winners) []

/-- The loop of `resolve_all`; an entry that does not materialize is left out. -/
def resolveWinners (policy : Policy) :
    PyDict String (SourceScope × String × Json) → Except String (PyDict String ρ)
  | [] => .ok []
  | (name, scope, scopeId, raw) :: rest => do
    let identity ← SecretIdentity.of name scope scopeId
    let others ← resolveWinners policy rest
    if policy.allows identity then
      match w.materialize ctx identity raw with
      | .ok value => return (name, value) :: others
      | .error _ => return others
    else return others

def resolveAll : Except String (PyDict String ρ) := do
  let policy ← Policy.load w ctx
  resolveWinners w ctx policy (winners w ctx)

end

end PawFlow.Secrets
