import PawFlow.Lib.PyString
import PawFlow.Routing.Policy

/-!
# The router client

`RouterLLMClient` of `services/llm_router.py` over `LLMRoutingStore`
(`core/llm_routing_store.py`): a turn makes one plan from the health, the affinity and the counter
of the store, tries the planned candidates one after the other, records what happened to each, and
at its end writes the affinity of its conversation.

The service registry, the clients of the candidates and the clocks are arguments.
-/

namespace PawFlow.Routing

open PawFlow.Lib

/-! ## The store -/

/-- `(router_scope, router_scope_id, router_service_id)`. -/
abbrev RouterKey := ServiceKey

/-- The key of `router_health`; `credential_id` is always empty. -/
structure CandidateKey where
  router : RouterKey
  child : ServiceKey
  model : String
deriving DecidableEq

/-- The key of `router_affinity`. -/
structure AffinityKey where
  router : RouterKey
  userId : String
  conversationId : String
  agentName : String
deriving DecidableEq

structure Store where
  health : CandidateKey → Option HealthRecord
  affinity : AffinityKey → Option AffinityRecord
  counters : RouterKey → Nat

namespace Store

variable (store : Store)

def empty : Store := ⟨fun _ => none, fun _ => none, fun _ => 0⟩

def getHealth (key : CandidateKey) : HealthRecord := (store.health key).getD {}

/-- `next_counter`: the value before the increment. -/
def nextCounter (router : RouterKey) : Nat × Store :=
  (store.counters router,
    { store with counters := Function.update store.counters router (store.counters router + 1) })

def setAffinity (key : AffinityKey) (record : AffinityRecord) : Store :=
  { store with affinity := Function.update store.affinity key (some record) }

def recordSuccess (key : CandidateKey) (now : Time) : Store :=
  let old := store.getHealth key
  { store with
    health := Function.update store.health key (some { old with
      state := .healthy, consecutiveFailures := 0, lastSuccessAt := now, cooldownUntil := 0
      lastFailureKind := "", lastStatus := 0, updatedAt := now, revision := old.revision + 1 }) }

/-- `_BASE_COOLDOWN_SECONDS` and `_MAX_COOLDOWN_SECONDS`. -/
def baseCooldownSeconds : Time := 30

def maxCooldownSeconds : Time := 1800

/-- `transient_threshold` as `_record_failure` leaves it. -/
def transientThreshold : Nat := 3

def failureState (failures : Nat) (cooldownUntil : Time) (locked : Bool) (now : Time) :
    HealthState :=
  if locked then .locked
  else if now < cooldownUntil ∨ transientThreshold ≤ failures then .cooldown
  else .degraded

/-- When a cooldown without a `Retry-After` ends. -/
def failureCooldown (failures : Nat) (cooldownUntil : Time) (locked : Bool) (now : Time) : Time :=
  if failureState failures cooldownUntil locked now = .cooldown ∧ cooldownUntil ≤ now then
    now + min maxCooldownSeconds (baseCooldownSeconds * 2 ^ (failures - transientThreshold))
  else cooldownUntil

def recordFailure (key : CandidateKey) (failureKind : String) (providerStatus : Int)
    (cooldownUntil : Time) (locked : Bool) (now : Time) : Store :=
  let old := store.getHealth key
  let failures := old.consecutiveFailures + 1
  let kind := if failureKind = "" then "unknown" else failureKind
  { store with
    health := Function.update store.health key (some { old with
      state := failureState failures cooldownUntil locked now
      consecutiveFailures := failures
      lastFailureAt := now
      cooldownUntil := failureCooldown failures cooldownUntil locked now
      lastFailureKind := .ofList (kind.toList.take 64)
      lastStatus := providerStatus
      updatedAt := now
      revision := old.revision + 1 }) }

end Store

/-! ## Failures -/

inductive Category
  | unknown
  | authInvalid
  | billingExhausted
  | modelUnavailable
  | upstreamTimeout
  | quotaExhausted
  | rateLimited
  | providerUnavailable
  | contextOverflow
  | callerInvalid
  | localTimeout
  | network
  | streamTruncated
  | providerStreamError
deriving DecidableEq

def Category.text : Category → String
  | unknown => "unknown"
  | authInvalid => "auth_invalid"
  | billingExhausted => "billing_exhausted"
  | modelUnavailable => "model_unavailable"
  | upstreamTimeout => "upstream_timeout"
  | quotaExhausted => "quota_exhausted"
  | rateLimited => "rate_limited"
  | providerUnavailable => "provider_unavailable"
  | contextOverflow => "context_overflow"
  | callerInvalid => "caller_invalid"
  | localTimeout => "local_timeout"
  | network => "network"
  | streamTruncated => "stream_truncated"
  | providerStreamError => "provider_stream_error"

inductive Origin
  | provider
  | adapter
  | local
  | caller
  | policy
deriving DecidableEq

/-- `LLMCallError`, as far as the router reads it. -/
structure LLMCallError where
  category : Category := .unknown
  origin : Origin := .provider
  providerStatus : Int := 0
  retryAfterSeconds : Time := 0
deriving DecidableEq

/-- What a call may raise. -/
inductive Exc
  /-- One of the signals of `is_control_flow`. -/
  | controlFlow
  /-- A `BaseException` that is no `Exception`. -/
  | base
  | llmCall (error : LLMCallError)
  /-- Any other exception, with `str(exc).lower()`. -/
  | other (lowered : String)
deriving DecidableEq

def cliAllowlists : String → List (Category × List String)
  | "claude-code" => [(.authInvalid, ["authentication_error", "invalid api key"]),
      (.rateLimited, ["rate_limit_error"]), (.contextOverflow, ["prompt is too long"])]
  | "claude-code-interactive" | "cc_mcp" => [(.authInvalid, ["authentication_error"]),
      (.rateLimited, ["rate_limit_error"]), (.contextOverflow, ["prompt is too long"])]
  | "codex-app-server" | "codex-interactive" | "codex_mcp" => [(.authInvalid, ["invalid_api_key"]),
      (.rateLimited, ["rate_limit_exceeded"]), (.contextOverflow, ["context_length_exceeded"])]
  | "gemini" => [(.authInvalid, ["unauthenticated"]),
      (.quotaExhausted, ["resource_exhausted", "quota will reset"]),
      (.contextOverflow, ["input token count exceeds"])]
  | "antigravity-interactive" | "agy_mcp" => [(.authInvalid, ["unauthenticated"]),
      (.quotaExhausted, ["resource_exhausted"]), (.contextOverflow, ["input token count exceeds"])]
  | "antigravity-acp" => [(.authInvalid, ["unauthenticated", "authentication required"]),
      (.quotaExhausted, ["resource_exhausted"]), (.contextOverflow, ["input token count exceeds"])]
  | _ => []

/-- `classify_cli_error` without a signal, of an exception that is no control flow. -/
def classifyCliError (provider : String) : Exc → LLMCallError
  | .llmCall error => error
  | .other lowered =>
    let hit := (cliAllowlists provider).find? fun entry =>
      entry.2.any fun pattern => occursIn pattern.toList lowered.toList
    { category := (hit.map Prod.fst).getD .unknown }
  | _ => {}

/-- The failure is charged to the candidate. -/
def LLMCallError.penalizes (error : LLMCallError) : Bool :=
  error.origin ∉ [.local, .caller, .policy] && error.category ≠ .contextOverflow

/-- One entry of `failures`; an exclusion has no origin and no status. -/
structure Failure where
  serviceId : String
  category : String
  origin : Option Origin := none
  providerStatus : Option Int := none
deriving DecidableEq

def Failure.ofError (serviceId : String) (error : LLMCallError) : Failure :=
  ⟨serviceId, error.category.text, some error.origin, some error.providerStatus⟩

def ExclusionReason.text : ExclusionReason → String
  | disabled => "disabled"
  | locked => "locked"
  | cooldown => "cooldown"

/-! ## Plans -/

/-- The part of a `ServiceDef` the router reads. -/
structure ServiceDef where
  ref : ServiceRef
  enabled : Bool
  serviceType : String
  provider : String
  /-- `config["default_model"]`, as it is stored. -/
  defaultModel : String
deriving DecidableEq

def providersWithoutDefaultModel : List String :=
  ["claude-code", "claude-code-interactive", "antigravity-interactive", "codex-app-server",
    "codex-interactive", "gemini", "acp", "antigravity-acp", "cursor-acp", "grok-build-acp",
    "opencode", "cc_mcp", "codex_mcp", "agy_mcp"]

/-- `resolve_default_model`; `defaultModels` is the shipped table. -/
def resolveDefaultModel (defaultModels : String → String) (provider configured : String) : String :=
  if configured ≠ "" then configured
  else if provider ∈ providersWithoutDefaultModel then ""
  else defaultModels provider

/-- The configuration of a router service. -/
structure RouterConfig where
  routerKey : RouterKey
  candidates : List CandidateDefinition
  strategy : Strategy
  stickySuccessfulTurns : Nat := 1
  affinityTtlSeconds : Time := 86400
  defaultModels : String → String

structure RoutePlan where
  ordered : List ServiceRef
  excluded : List CandidateExclusion
  reasonCode : ReasonCode
deriving DecidableEq

namespace RouterConfig

variable (cfg : RouterConfig)

def candidateKey (ref : ServiceRef) (model : String) : CandidateKey :=
  ⟨cfg.routerKey, ref.key, model⟩

/-- `_resolved_candidate`; `none` where it raises. -/
def resolvedCandidate (registry : String → Option ServiceDef) (definition : CandidateDefinition)
    (position : Nat) : Option ResolvedCandidate :=
  match registry definition.serviceId with
  | none => none
  | some sdef =>
    if sdef.enabled && sdef.serviceType == "llmConnection" then
      let provider := if sdef.provider = "" then "openai" else sdef.provider
      some ⟨definition, sdef.ref, resolveDefaultModel cfg.defaultModels provider sdef.defaultModel,
        position⟩
    else none

/-- The candidates a plan is made of. -/
def resolved (registry : String → Option ServiceDef) : List ResolvedCandidate :=
  cfg.candidates.zipIdx.filterMap fun (definition, position) =>
    cfg.resolvedCandidate registry definition position

def unresolved (registry : String → Option ServiceDef) : List Failure :=
  cfg.candidates.zipIdx.filterMap fun (definition, position) =>
    if (cfg.resolvedCandidate registry definition position).isNone then
      some (.ofError definition.serviceId {})
    else none

/-- The health a plan reads: by service, under the model the definition resolves to. Of two
candidates with one service the later one stays. -/
def healthMap (store : Store) (candidates : List ResolvedCandidate) (key : ServiceKey) :
    Option HealthRecord :=
  (candidates.reverse.find? fun c => c.service.key = key).map fun c =>
    store.getHealth (cfg.candidateKey c.service c.model)

/-- The strategies that consume a number of the counter. -/
def rotates : Bool := cfg.strategy = .roundRobin || cfg.strategy = .stickyRoundRobin

/-- `_ensure_plan` of a client that has no plan yet: the plan, or the failures of
`LLMRouteExhausted`. `lastSelected` is what `last_selected_map` returns. -/
def ensurePlan (registry : String → Option ServiceDef) (store : Store) (key : AffinityKey)
    (lastSelected : ServiceKey → Time) (now : Time) : Except (List Failure) RoutePlan × Store :=
  let candidates := cfg.resolved registry
  if candidates.isEmpty then (.error (cfg.unresolved registry), store)
  else
    let (counter, store') :=
      if cfg.rotates then store.nextCounter cfg.routerKey else (0, store)
    let selected := selectCandidates candidates cfg.strategy (cfg.healthMap store candidates)
      counter (store.affinity key) cfg.stickySuccessfulTurns lastSelected now
    if selected.ordered.isEmpty then
      (.error (cfg.unresolved registry ++ selected.excluded.map fun e =>
        { serviceId := e.child.serviceId, category := e.reasonCode.text }), store')
    else
      (.ok ⟨selected.ordered.map ResolvedCandidate.service, selected.excluded,
        selected.reasonCode⟩, store')

/-- `finalize_route` of a client with a plan whose current candidate is `child`. -/
def finalizeRoute (store : Store) (key : AffinityKey) (child : ServiceRef) (success : Bool)
    (now : Time) : Store :=
  if !success then store
  else
    let count := match store.affinity key with
      | some previous => if previous.child = child then previous.successfulTurns + 1 else 1
      | none => 1
    store.setAffinity key ⟨child, count, now, now + cfg.affinityTtlSeconds⟩

end RouterConfig

end PawFlow.Routing
