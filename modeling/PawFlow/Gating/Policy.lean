import PawFlow.Lib.PyString

/-!
# Policy gates

How a gate decides about one tool call: the structural class of the call and the merging of
decisions (`core/gating_policy.py`), the scripts (`core/gating_script_runner.py`), and the service
that runs them and the language model (`services/gating_service.py`). Scripts and the model are
sandboxes and remote services: what they came back with is data here.
-/

namespace PawFlow.Gating

open PawFlow.Lib

/-- `DECISIONS`. -/
inductive Decision where
  | allow
  | deny
  | ask
  | abstain
deriving DecidableEq

def Decision.severity : Decision → Nat
  | .deny => 3
  | .ask => 2
  | .allow => 1
  | .abstain => 0

/-- One of `FINAL_DECISIONS`. -/
def Decision.Final (d : Decision) : Prop := d ≠ .abstain

instance (d : Decision) : Decidable d.Final := inferInstanceAs (Decidable (_ ≠ _))

/-- A value of `FAILURE_DECISIONS`, `"ask"` for everything else. -/
def failureOf : Option Decision → Decision
  | some .deny => .deny
  | _ => .ask

theorem final_failureOf (d : Option Decision) : (failureOf d).Final := by
  unfold failureOf Decision.Final
  split <;> simp

/-! ## The class of a call -/

inductive Classification where
  | internalUngated
  | hardDeny
  | hardConfirm
  | ordinary
deriving DecidableEq

/-- A declared effect: of `READ_ONLY_EFFECTS`, another `CapabilityEffect`, or none at all. -/
inductive Effect where
  | readOnly
  | writing
  | unknown
deriving DecidableEq

/-- The mandate in the envelope. -/
inductive Authority where
  | missing
  | truncated
  | whole
deriving DecidableEq

/-- A prepared tool call, with what `ToolApprovalGate` says of it. -/
structure Call where
  /-- The normalized name. -/
  name : String
  action : String := ""
  toolPermission : String := ""
  permissionMode : String := "default"
  readOnlyOverride : Bool := false
  /-- `capability_effects`. -/
  effects : Option (List Effect) := none
  isReadOnlyAllowed : Bool := false
  /-- A command-bearing tool with a catastrophic command. -/
  catastrophic : Bool := false
  writesProtectedPath : Bool := false
  /-- `is_mutating_call`. -/
  mutating : Bool := true
  authority : Authority := .missing

def internalUngatedTools : List String :=
  ["get_tool_schema", "ask_user", "request_confirmation", "compact_result", "read_inbox"]

def hardConfirmTools : List String :=
  ["create_tool", "delete_tool", "manage_resource", "manage_package", "store_secret"]

def hardConfirmActionPrefixes : List String := ["a2a_publication_", "mcp_publish", "agui_"]

/-- The guard of the read-only modes. -/
def readOnlyDenies (call : Call) : Bool :=
  (call.permissionMode = "read_only" ∨ call.permissionMode = "advisor_read_only") &&
    match call.effects with
    | some effects => effects.isEmpty || effects.any fun effect => effect ≠ .readOnly
    | none => !call.isReadOnlyAllowed

def classifyCall (call : Call) : Classification :=
  if call.name ∈ internalUngatedTools then .internalUngated
  else if call.toolPermission = "deny" then .hardDeny
  else if readOnlyDenies call then .hardDeny
  else if call.readOnlyOverride && !call.isReadOnlyAllowed then .hardDeny
  else if call.toolPermission = "confirm" then .hardConfirm
  else if call.name ∈ hardConfirmTools then .hardConfirm
  else if hardConfirmActionPrefixes.any (startsWith call.action) then .hardConfirm
  else if call.catastrophic then .hardConfirm
  else if call.writesProtectedPath then .hardConfirm
  else .ordinary

theorem classifyCall_eq_internalUngated_iff {call : Call} :
    classifyCall call = .internalUngated ↔ call.name ∈ internalUngatedTools := by
  unfold classifyCall
  by_cases h : call.name ∈ internalUngatedTools
  · simp [h]
  · simp only [h, if_false, iff_false]
    repeat' split
    all_goals simp

/-! ## Evaluators -/

inductive Source where
  | script
  | llm
  | failure
deriving DecidableEq

/-- `evaluator_result`. -/
structure Evaluated where
  source : Source
  decision : Decision
deriving DecidableEq

def mergeDecisions (results : List Evaluated) (failure : Decision) : Decision :=
  let best := results.foldl (fun best r =>
    if r.decision.severity > best.severity then r.decision else best) Decision.abstain
  if best = .abstain then failureOf (some failure) else best

theorem final_mergeDecisions (results : List Evaluated) (failure : Decision) :
    (mergeDecisions results failure).Final := by
  unfold mergeDecisions
  dsimp only
  split
  · exact final_failureOf _
  · assumption

/-- How the run of a script ended; an answer that is no valid decision is `none`. -/
inductive ScriptRun where
  | timeout
  | raises
  | answer (decision : Option Decision)
deriving DecidableEq

/-- A `gating_script` resource, as it meets the call. -/
structure Script where
  failDecision : Option Decision
  /-- `script_applies`. -/
  applies : Bool
  hasSource : Bool
  run : ScriptRun
deriving DecidableEq

def runScript : Option Script → Evaluated
  | none => ⟨.failure, .ask⟩
  | some script =>
    if !script.applies then ⟨.script, .abstain⟩
    else if !script.hasSource then ⟨.failure, failureOf script.failDecision⟩
    else
      match script.run with
      | .answer (some decision) => ⟨.script, decision⟩
      | _ => ⟨.failure, failureOf script.failDecision⟩

/-- `run_scripts`: up to the first one that denies or asks. -/
def runScripts : List (Option Script) → List Evaluated
  | [] => []
  | script :: scripts =>
    let result := runScript script
    if result.decision = .deny ∨ result.decision = .ask then [result]
    else result :: runScripts scripts

/-- How the call of the language model ended. -/
inductive LlmRun where
  | unavailable
  | cliProvider
  | timeout
  | raises
  | answer (decision : Option Decision)
deriving DecidableEq

/-- `_llm_evaluate`: a missing or truncated mandate is never read as permission. -/
def llmEvaluate (failure : Decision) (authority : Authority) : LlmRun → Evaluated
  | .answer (some .allow) => if authority = .whole then ⟨.llm, .allow⟩ else ⟨.llm, .ask⟩
  | .answer (some decision) => ⟨.llm, decision⟩
  | _ => ⟨.failure, failure⟩

/-- A `GatingService`. -/
structure Service where
  /-- The scope and the id of its definition. -/
  key : String × String
  hasPrompt : Bool
  llmScope : String := "mutating"
  failure : Option Decision := none
  /-- The resources of `script_names`, unless the lookup raises. -/
  scripts : Option (List (Option Script)) := some []
  llm : LlmRun := .unavailable
  /-- `evaluate` raises all the same. -/
  crashes : Bool := false
deriving DecidableEq

namespace Service

variable (service : Service)

def failureDecision : Decision := failureOf service.failure

def llmApplies (call : Call) : Bool :=
  if !service.hasPrompt ∨ service.llmScope = "none" then false
  else if service.llmScope = "all" then true
  else call.mutating

/-- The aggregation of `evaluate`: every mandatory evaluator has to allow. -/
def aggregate (required : Bool) (evaluators : List Evaluated) : Decision :=
  let decision := mergeDecisions evaluators service.failureDecision
  let unheard := required && !(evaluators.any fun r => r.source = .llm && r.decision = .allow)
  let scripted := evaluators.filter fun r => r.source = .script && r.decision ≠ .abstain
  if decision = .allow ∧ (unheard || (scripted.any fun r => r.decision ≠ .allow)) then
    service.failureDecision
  else decision

/-- `evaluate`: the decision. -/
def evaluate (call : Call) : Decision :=
  match service.scripts with
  | none => service.failureDecision
  | some scripts =>
    let results := runScripts scripts
    let restricted := results.any fun r => r.decision = .deny || r.decision = .ask
    let required := service.llmApplies call
    if required && !restricted then
      service.aggregate required
        (results ++ [llmEvaluate service.failureDecision call.authority service.llm])
    else service.aggregate required results

theorem final_aggregate (required : Bool) (evaluators : List Evaluated) :
    (service.aggregate required evaluators).Final := by
  unfold aggregate
  dsimp only
  split
  · exact final_failureOf _
  · exact final_mergeDecisions _ _

theorem final_evaluate (call : Call) : (service.evaluate call).Final := by
  unfold evaluate
  split
  · exact final_failureOf _
  · dsimp only
    split
    · exact service.final_aggregate _ _
    · exact service.final_aggregate _ _

/-- The decision of a gate in `authorize_tool_call`: a gate that raises asks. -/
def settle (call : Call) : Decision := if service.crashes then .ask else service.evaluate call

theorem final_settle (call : Call) : (service.settle call).Final := by
  unfold settle
  split
  · simp [Decision.Final]
  · exact service.final_evaluate call

end Service

/-! ## Composition -/

/-- `compose_final`: the more restrictive decision of the two gates. -/
def composeFinal (conversation agent : Option Decision) : Decision :=
  match conversation.filter (·.Final), agent.filter (·.Final) with
  | none, none => .ask
  | some c, none => c
  | none, some a => a
  | some c, some a => if a.severity > c.severity then a else c

theorem composeFinal_some {c : Decision} (hc : c.Final) : composeFinal (some c) none = c := by
  simp [composeFinal, Option.filter, hc]

theorem composeFinal_none_some {a : Decision} (ha : a.Final) : composeFinal none (some a) = a := by
  simp [composeFinal, Option.filter, ha]

theorem severity_composeFinal {c a : Decision} (hc : c.Final) (ha : a.Final) :
    (composeFinal (some c) (some a)).severity = max c.severity a.severity := by
  simp only [composeFinal, Option.filter, hc, ha, decide_true, if_true]
  split <;> omega

end PawFlow.Gating
