import PawFlow.Gating.Policy

/-!
# Authorizing a tool call

The bindings of a conversation and of an agent are resolved to gates (`core/gating_bindings.py`), and
the gates decide about the call (`core/tool_authorization.py`). A call without a gate keeps the
older permission rules: the answer `legacy`.
-/

namespace PawFlow.Gating

open PawFlow.Lib

/-! ## Bindings -/

/-- What is stored as a binding. -/
inductive Raw where
  | absent
  | bare (serviceId : String)
  | scoped (scope serviceId : String)
deriving DecidableEq

structure Ref where
  scope : String
  serviceId : String
deriving DecidableEq

def scopes : List String := ["conv", "user", "global"]

def normalizeRef : Raw → Option Ref
  | .absent => none
  | .bare serviceId => if strip serviceId = "" then none else some ⟨"", strip serviceId⟩
  | .scoped scope serviceId => if serviceId = "" then none else some ⟨scope, serviceId⟩

/-- What a lookup of a stored binding does. -/
inductive Read where
  | fine
  | valueError
  | raises
deriving DecidableEq

structure Definition where
  enabled : Bool
  isGating : Bool
  /-- The configuration names scripts. -/
  hasScripts : Bool
  /-- `_live`. -/
  live : Except Unit (Option Service)

structure Registry where
  /-- `get_definition` in the scope of this call. -/
  definition : String → String → Except Unit (Option Definition)
  /-- `resolve_definition`: conversation, user, global. -/
  resolve : String → Except Unit (Option Definition)
  /-- A relay is linked to the conversation. -/
  linked : Except Unit Bool

/-- `_definition`. -/
def Registry.find (registry : Registry) (ref : Ref) : Except Unit (Option Definition) :=
  match (if ref.scope ∈ scopes then registry.definition ref.scope ref.serviceId
    else registry.resolve ref.serviceId) with
  | .error e => .error e
  | .ok definition =>
    .ok (definition.filter fun definition => definition.enabled && definition.isGating)

inductive Resolved where
  | unbound
  | broken
  | gate (service : Service)
deriving DecidableEq

def Registry.resolveRef (registry : Registry) : Option Ref → Except Unit Resolved
  | none => .ok .unbound
  | some ref =>
    match registry.find ref with
    | .error e => .error e
    | .ok none => .ok .broken
    | .ok (some definition) =>
      match definition.live with
      | .error e => .error e
      | .ok none => .ok .broken
      | .ok (some service) =>
        if definition.hasScripts then
          match registry.linked with
          | .error e => .error e
          | .ok linked => .ok (if linked then .gate service else .broken)
        else .ok (.gate service)

/-- The bindings of a conversation and of one of its agents. -/
structure Bindings where
  conversation : Raw
  agent : Raw
  conversationRead : Read := .fine
  agentRead : Read := .fine
  registry : Registry

namespace Bindings

variable (b : Bindings)

/-- What is bound. -/
def refs : List Ref := [b.conversation, b.agent].filterMap normalizeRef

/-- `get_binding`, when it does not raise. -/
def conversationRef : Option Ref :=
  if b.conversationRead = .fine then
    (normalizeRef b.conversation).filter fun ref => ref.scope ∈ scopes
  else none

def agentRef : Option Ref := if b.agentRead = .fine then normalizeRef b.agent else none

def sameService (conversation agent : Ref) : Bool :=
  agent.serviceId = conversation.serviceId &&
    (agent.scope = "" || agent.scope = conversation.scope)

/-- The agent's binding beside the conversation's; the same service is evaluated once. -/
def distinctAgentRef : Option Ref :=
  match b.conversationRef, b.agentRef with
  | some conversation, some agent => if sameService conversation agent then none else some agent
  | _, agent => agent

/-- `resolve_gates`: the gate of the conversation and the one of the agent. -/
def resolveGates : Except Unit (Resolved × Resolved) :=
  if b.conversationRead = .raises then .error ()
  else
    match b.registry.resolveRef b.conversationRef with
    | .error e => .error e
    | .ok conversation =>
      match b.registry.resolveRef b.distinctAgentRef with
      | .error e => .error e
      | .ok agent => .ok (conversation, agent)

end Bindings

/-! ## The decision -/

inductive Answer where
  | legacy
  | execute
  | ask
  | deny
deriving DecidableEq

/-- How restrictive an answer is. -/
def Answer.severity : Answer → Nat
  | .legacy => 0
  | .execute => 1
  | .ask => 2
  | .deny => 3

/-- The answer, and the gates that were evaluated. -/
structure Authorization where
  answer : Answer
  gates : List (Service × Decision) := []

/-- The gates in their order, up to the first one that denies. -/
def evaluateGates (call : Call) : List (Bool × Service) → List (Bool × Service × Decision)
  | [] => []
  | (isAgent, service) :: gates =>
    let decision := service.settle call
    if decision = .deny then [(isAgent, service, decision)]
    else (isAgent, service, decision) :: evaluateGates call gates

/-- `resolved_gates["gates"]`. -/
def Resolved.gates (isAgent : Bool) : Resolved → List (Bool × Service)
  | .gate service => [(isAgent, service)]
  | _ => []

/-- `per_origin.get(origin)`. -/
def perOrigin (isAgent : Bool) (results : List (Bool × Service × Decision)) : Option Decision :=
  (results.find? fun r => r.1 = isAgent).map fun r => r.2.2

def answerOf (call : Call) (final : Decision) : Answer :=
  match (if classifyCall call = .hardConfirm ∧ final = .allow then .ask else final) with
  | .allow => .execute
  | .deny => .deny
  | _ => .ask

/-- The evaluation of gates that are bound and not broken. -/
def decideCall (call : Call) (conversation agent : Resolved) : Authorization :=
  let results := evaluateGates call (conversation.gates false ++ agent.gates true)
  { answer := answerOf call (composeFinal (perOrigin false results) (perOrigin true results))
    gates := results.map Prod.snd }

def authorizeToolCall (b : Bindings) (call : Call) : Authorization :=
  let classification := classifyCall call
  if call.effects.isSome ∧ classification = .internalUngated then ⟨.legacy, []⟩
  else if call.effects.isSome ∧ classification = .hardDeny then ⟨.deny, []⟩
  else
    match b.resolveGates with
    | .error _ => ⟨.legacy, []⟩
    | .ok (conversation, agent) =>
      if conversation = .unbound ∧ agent = .unbound then ⟨.legacy, []⟩
      else if classification = .internalUngated then ⟨.legacy, []⟩
      else if classification = .hardDeny then ⟨.deny, []⟩
      else if conversation = .broken ∨ agent = .broken then ⟨.ask, []⟩
      else decideCall call conversation agent

/-! ## Failing closed -/

/-- What the gates promise for a call while something is bound. -/
structure FailsClosed (b : Bindings) (call : Call) : Prop where
  bound : (authorizeToolCall b call).answer ≠ .legacy
  execute : (authorizeToolCall b call).answer = .execute → classifyCall call = .ordinary ∧
    ∀ ref ∈ b.refs, ∃ service, b.registry.resolveRef (some ref) = .ok (.gate service) ∧
      (service, .allow) ∈ (authorizeToolCall b call).gates
  hardDeny : classifyCall call = .hardDeny → (authorizeToolCall b call).answer = .deny
  hardConfirm : classifyCall call = .hardConfirm → (authorizeToolCall b call).answer ≠ .execute
  tightens : normalizeRef b.conversation ≠ none →
    (authorizeToolCall { b with agent := .absent } call).answer.severity ≤
      (authorizeToolCall b call).answer.severity

/-- No lookup raises, and something is bound that is seen. -/
structure Bindings.Found (b : Bindings) (conversation agent : Resolved) : Prop where
  read : b.conversationRead ≠ .raises
  conversation : b.registry.resolveRef b.conversationRef = .ok conversation
  agent : b.registry.resolveRef b.distinctAgentRef = .ok agent
  seen : b.conversationRef ≠ none ∨ b.agentRef ≠ none

/-- When the gates fail closed: a call that is denied for its declared effects; or nothing raises,
something bound is seen, and either the call is denied by its class, or every binding leads to one of
the gates that all allow it, and no broken agent's gate hides a conversation's gate that denies. -/
def Guarded (b : Bindings) (call : Call) : Prop :=
  (classifyCall call = .hardDeny ∧ call.effects.isSome) ∨
    ∃ conversation agent, b.Found conversation agent ∧
      (classifyCall call = .hardDeny ∨
        (classifyCall call = .ordinary →
            (∀ gate ∈ [conversation, agent], gate ≠ .broken ∧
              ∀ service, gate = .gate service → service.settle call = .allow) →
            ∀ ref ∈ b.refs, ∃ service, b.registry.resolveRef (some ref) = .ok (.gate service) ∧
              (conversation = .gate service ∨ agent = .gate service)) ∧
          (agent = .broken → ∀ service, conversation = .gate service →
            service.settle call ≠ .deny))

/-! ### Resolution -/

section

variable {b : Bindings} {call : Call} {conversation agent : Resolved} {s t : Service}

theorem Registry.resolveRef_eq_unbound {registry : Registry} {ref : Option Ref}
    (h : registry.resolveRef ref = .ok .unbound) : ref = none := by
  cases ref with
  | none => rfl
  | some ref =>
    unfold Registry.resolveRef at h
    dsimp only at h
    repeat' split at h
    all_goals simp at h

namespace Bindings

theorem resolveGates_eq_ok_iff : b.resolveGates = .ok (conversation, agent) ↔
    b.conversationRead ≠ .raises ∧ b.registry.resolveRef b.conversationRef = .ok conversation ∧
      b.registry.resolveRef b.distinctAgentRef = .ok agent := by
  unfold resolveGates
  by_cases hread : b.conversationRead = .raises
  · simp [hread]
  rw [if_neg hread]
  cases b.registry.resolveRef b.conversationRef with
  | error e => simp
  | ok c =>
    cases b.registry.resolveRef b.distinctAgentRef with
    | error e => simp
    | ok a => simp [hread]

theorem distinctAgentRef_eq_none (h : b.conversationRef = none) :
    b.distinctAgentRef = b.agentRef := by
  unfold distinctAgentRef
  rw [h]

theorem Found.bound (h : b.Found conversation agent) :
    ¬ (conversation = .unbound ∧ agent = .unbound) := by
  rintro ⟨rfl, rfl⟩
  have hc := Registry.resolveRef_eq_unbound h.conversation
  have ha := Registry.resolveRef_eq_unbound h.agent
  rw [distinctAgentRef_eq_none hc] at ha
  rcases h.seen with hseen | hseen
  · exact hseen hc
  · exact hseen ha

theorem found_of_bound (h : b.resolveGates = .ok (conversation, agent))
    (hbound : ¬ (conversation = .unbound ∧ agent = .unbound)) : b.Found conversation agent := by
  obtain ⟨hread, hc, ha⟩ := resolveGates_eq_ok_iff.mp h
  refine ⟨hread, hc, ha, ?_⟩
  by_contra hnone
  rw [not_or, not_not, not_not] at hnone
  rw [hnone.1] at hc
  rw [distinctAgentRef_eq_none hnone.1, hnone.2] at ha
  exact hbound ⟨(Except.ok.inj hc).symm, (Except.ok.inj ha).symm⟩

theorem resolveGates_without_agent (h : b.Found conversation agent) :
    { b with agent := Raw.absent }.resolveGates = .ok (conversation, .unbound) := by
  refine resolveGates_eq_ok_iff.mpr ⟨h.read, h.conversation, ?_⟩
  have hagent : { b with agent := Raw.absent }.agentRef = none := by
    unfold agentRef
    split <;> rfl
  have hdistinct : { b with agent := Raw.absent }.distinctAgentRef = none := by
    unfold distinctAgentRef
    rw [hagent]
    split
    · simp_all
    · rfl
  rw [hdistinct]
  rfl

end Bindings

/-! ### The decision of the gates -/

variable {final : Decision}

theorem answerOf_eq_execute_iff : answerOf call final = .execute ↔
    classifyCall call ≠ .hardConfirm ∧ final = .allow := by
  unfold answerOf
  by_cases h : classifyCall call = .hardConfirm
  · cases final <;> simp [h]
  · cases final <;> simp [h]

theorem answerOf_ne_legacy : answerOf call final ≠ .legacy := by
  unfold answerOf
  split <;> simp

theorem severity_answerOf_mono {c d : Decision} (h : c.severity ≤ d.severity) (hc : c.Final) :
    (answerOf call c).severity ≤ (answerOf call d).severity := by
  unfold answerOf
  revert h hc
  by_cases hclass : classifyCall call = .hardConfirm
  · cases c <;> cases d <;> simp [hclass, Decision.severity, Answer.severity, Decision.Final]
  · cases c <;> cases d <;> simp [hclass, Decision.severity, Answer.severity, Decision.Final]

theorem decideCall_conversation : decideCall call (.gate s) .unbound =
    ⟨answerOf call (s.settle call), [(s, s.settle call)]⟩ := by
  have hfinal := composeFinal_some (s.final_settle call)
  simp [decideCall, Resolved.gates, evaluateGates, perOrigin, hfinal]

theorem decideCall_agent : decideCall call .unbound (.gate t) =
    ⟨answerOf call (t.settle call), [(t, t.settle call)]⟩ := by
  have hfinal := composeFinal_none_some (t.final_settle call)
  simp [decideCall, Resolved.gates, evaluateGates, perOrigin, hfinal]

theorem decideCall_both_deny (h : s.settle call = .deny) :
    decideCall call (.gate s) (.gate t) = ⟨.deny, [(s, .deny)]⟩ := by
  simp [decideCall, Resolved.gates, evaluateGates, h, perOrigin, composeFinal, Option.filter,
    Decision.Final, answerOf]

theorem decideCall_both (h : s.settle call ≠ .deny) :
    decideCall call (.gate s) (.gate t) =
      ⟨answerOf call (composeFinal (some (s.settle call)) (some (t.settle call))),
        [(s, s.settle call), (t, t.settle call)]⟩ := by
  simp [decideCall, Resolved.gates, evaluateGates, h, perOrigin]

theorem composeFinal_eq_allow_iff {c a : Decision} (hc : c.Final) (ha : a.Final) :
    composeFinal (some c) (some a) = .allow ↔ c = .allow ∧ a = .allow := by
  revert hc ha
  cases c <;> cases a <;> decide

theorem decideCall_eq_execute_iff (hc : conversation ≠ .broken) (ha : agent ≠ .broken)
    (hbound : ¬ (conversation = .unbound ∧ agent = .unbound)) :
    (decideCall call conversation agent).answer = .execute ↔ classifyCall call ≠ .hardConfirm ∧
      ∀ gate ∈ [conversation, agent], ∀ service, gate = .gate service →
        service.settle call = .allow := by
  cases conversation with
  | broken => exact absurd rfl hc
  | unbound =>
    cases agent with
    | broken => exact absurd rfl ha
    | unbound => exact absurd ⟨rfl, rfl⟩ hbound
    | gate t =>
      rw [decideCall_agent, answerOf_eq_execute_iff]
      simp
  | gate s =>
    cases agent with
    | broken => exact absurd rfl ha
    | unbound =>
      rw [decideCall_conversation, answerOf_eq_execute_iff]
      simp
    | gate t =>
      by_cases hdeny : s.settle call = .deny
      · rw [decideCall_both_deny hdeny]
        simp [hdeny]
      · rw [decideCall_both hdeny, answerOf_eq_execute_iff,
          composeFinal_eq_allow_iff (s.final_settle call) (t.final_settle call)]
        simp

theorem mem_gates_decideCall {d : Decision} (h : (s, d) ∈ (decideCall call conversation agent).gates) :
    conversation = .gate s ∨ agent = .gate s := by
  have hmem : ∀ gates : List (Bool × Service), (s, d) ∈ (evaluateGates call gates).map Prod.snd →
      ∃ isAgent, (isAgent, s) ∈ gates := by
    intro gates
    induction gates with
    | nil => simp [evaluateGates]
    | cons gate gates ih =>
      obtain ⟨isAgent, service⟩ := gate
      unfold evaluateGates
      dsimp only
      split
      · intro hs
        simp only [List.map_cons, List.map_nil, List.mem_singleton, Prod.mk.injEq] at hs
        exact ⟨isAgent, by simp [hs.1]⟩
      · intro hs
        rw [List.map_cons, List.mem_cons] at hs
        rcases hs with hs | hs
        · rw [Prod.mk.injEq] at hs
          exact ⟨isAgent, by simp [hs.1]⟩
        · obtain ⟨isAgent', hs'⟩ := ih hs
          exact ⟨isAgent', List.mem_cons_of_mem _ hs'⟩
  obtain ⟨isAgent, hs⟩ := hmem _ h
  rcases List.mem_append.mp hs with hs | hs
  · left
    cases conversation <;> simp_all [Resolved.gates]
  · right
    cases agent <;> simp_all [Resolved.gates]

theorem mem_gates_of_allow (hallow : ∀ gate ∈ [conversation, agent], ∀ service,
    gate = .gate service → service.settle call = .allow) (h : conversation = .gate s ∨ agent = .gate s) :
    (s, .allow) ∈ (decideCall call conversation agent).gates := by
  have hrun : ∀ gates : List (Bool × Service), (∀ gate ∈ gates, gate.2.settle call = .allow) →
      evaluateGates call gates = gates.map fun gate => (gate.1, gate.2, Decision.allow) := by
    intro gates hgates
    induction gates with
    | nil => rfl
    | cons gate gates ih =>
      rw [List.forall_mem_cons] at hgates
      unfold evaluateGates
      dsimp only
      rw [hgates.1, if_neg (by decide), ih hgates.2]
      rfl
  have hgates : ∀ gate ∈ conversation.gates false ++ agent.gates true,
      gate.2.settle call = .allow := by
    intro gate hgate
    rcases List.mem_append.mp hgate with hgate | hgate
    · cases conversation <;> simp_all [Resolved.gates]
    · cases agent <;> simp_all [Resolved.gates]
  change (s, Decision.allow) ∈ (evaluateGates call _).map Prod.snd
  rw [hrun _ hgates, List.map_map]
  refine List.mem_map.mpr ?_
  rcases h with rfl | rfl
  · exact ⟨(false, s), by simp [Resolved.gates], rfl⟩
  · exact ⟨(true, s), by simp [Resolved.gates], rfl⟩

theorem severity_decideCall_le : (decideCall call (.gate s) .unbound).answer.severity ≤
    (decideCall call (.gate s) (.gate t)).answer.severity := by
  by_cases hdeny : s.settle call = .deny
  · rw [decideCall_both_deny hdeny, decideCall_conversation, hdeny]
    simp [Answer.severity, answerOf]
  · rw [decideCall_both hdeny, decideCall_conversation]
    refine severity_answerOf_mono ?_ (s.final_settle call)
    rw [severity_composeFinal (s.final_settle call) (t.final_settle call)]
    exact le_max_left _ _

/-! ### The whole -/

theorem authorizeToolCall_of_found (h : b.Found conversation agent)
    (hcall : classifyCall call ≠ .internalUngated) (hdeny : classifyCall call ≠ .hardDeny) :
    authorizeToolCall b call =
      if conversation = .broken ∨ agent = .broken then ⟨.ask, []⟩
      else decideCall call conversation agent := by
  have hresolved := Bindings.resolveGates_eq_ok_iff.mpr ⟨h.read, h.conversation, h.agent⟩
  unfold authorizeToolCall
  dsimp only
  rw [if_neg (by simp [hcall]), if_neg (by simp [hdeny]), hresolved]
  dsimp only
  rw [if_neg h.bound, if_neg hcall, if_neg hdeny]

theorem authorizeToolCall_of_hardDeny (h : b.Found conversation agent)
    (hdeny : classifyCall call = .hardDeny) : authorizeToolCall b call = ⟨.deny, []⟩ := by
  have hresolved := Bindings.resolveGates_eq_ok_iff.mpr ⟨h.read, h.conversation, h.agent⟩
  unfold authorizeToolCall
  dsimp only
  rw [if_neg (by simp [hdeny])]
  split
  · rfl
  · rw [hresolved]
    dsimp only
    rw [if_neg h.bound, if_neg (by simp [hdeny])]

theorem authorizeToolCall_of_effects (hdeny : classifyCall call = .hardDeny)
    (heffects : call.effects.isSome) : authorizeToolCall b call = ⟨.deny, []⟩ := by
  unfold authorizeToolCall
  dsimp only
  rw [if_neg (by simp [hdeny]), if_pos ⟨heffects, hdeny⟩]

theorem found_of_ne_legacy (h : (authorizeToolCall b call).answer ≠ .legacy) :
    (classifyCall call = .hardDeny ∧ call.effects.isSome) ∨
      ∃ conversation agent, b.Found conversation agent := by
  by_cases hdeny : classifyCall call = .hardDeny ∧ call.effects.isSome
  · exact Or.inl hdeny
  right
  unfold authorizeToolCall at h
  dsimp only at h
  split at h
  · exact absurd rfl h
  rw [if_neg (by tauto)] at h
  cases hresolved : b.resolveGates with
  | error e =>
    rw [hresolved] at h
    exact absurd rfl h
  | ok resolved =>
    obtain ⟨conversation, agent⟩ := resolved
    rw [hresolved] at h
    dsimp only at h
    split at h
    · exact absurd rfl h
    · exact ⟨conversation, agent, Bindings.found_of_bound hresolved ‹_›⟩

theorem authorizeToolCall_of_unbound (h : b.resolveGates = .ok (.unbound, .unbound))
    (hdeny : classifyCall call ≠ .hardDeny) : (authorizeToolCall b call).answer = .legacy := by
  unfold authorizeToolCall
  dsimp only
  split
  · rfl
  · rw [if_neg (by simp [hdeny]), h]
    simp

theorem Answer.severity_le (answer : Answer) : answer.severity ≤ Answer.deny.severity := by
  cases answer <;> decide

theorem failsClosed_of_deny (h : (authorizeToolCall b call).answer = .deny)
    (hclass : classifyCall call = .hardDeny) : FailsClosed b call where
  bound := by simp [h]
  execute := fun hexecute => by simp [h] at hexecute
  hardDeny := fun _ => h
  hardConfirm := fun hconfirm => by simp [hclass] at hconfirm
  tightens := fun _ => by
    rw [h]
    exact Answer.severity_le _

theorem tightens_of_found (h : b.Found conversation agent)
    (hcall : classifyCall call ≠ .internalUngated) (hdeny : classifyCall call ≠ .hardDeny)
    (hhides : agent = .broken → ∀ service, conversation = .gate service →
      service.settle call ≠ .deny) :
    (authorizeToolCall { b with agent := .absent } call).answer.severity ≤
      (authorizeToolCall b call).answer.severity := by
  have hwithout := Bindings.resolveGates_without_agent h
  rw [authorizeToolCall_of_found h hcall hdeny]
  cases conversation with
  | unbound =>
    rw [authorizeToolCall_of_unbound hwithout hdeny]
    exact Nat.zero_le _
  | broken =>
    rw [authorizeToolCall_of_found (Bindings.found_of_bound hwithout (by simp)) hcall hdeny]
    simp
  | gate s =>
    rw [authorizeToolCall_of_found (Bindings.found_of_bound hwithout (by simp)) hcall hdeny,
      if_neg (by simp)]
    cases agent with
    | unbound => simp
    | broken =>
      rw [if_pos (by simp), decideCall_conversation]
      have hne := hhides rfl s rfl
      have hs := s.final_settle call
      unfold answerOf
      by_cases hclass : classifyCall call = .hardConfirm
      · cases hd : s.settle call <;> simp_all [Answer.severity]
      · cases hd : s.settle call <;> simp_all [Answer.severity]
    | gate t =>
      rw [if_neg (by simp)]
      exact severity_decideCall_le

theorem failsClosed_iff_guarded (b : Bindings) (call : Call)
    (hcall : call.name ∉ internalUngatedTools) : FailsClosed b call ↔ Guarded b call := by
  have hinternal : classifyCall call ≠ .internalUngated :=
    fun h => hcall (classifyCall_eq_internalUngated_iff.mp h)
  constructor
  · intro h
    rcases found_of_ne_legacy h.bound with hdeny | ⟨conversation, agent, hfound⟩
    · exact Or.inl hdeny
    refine Or.inr ⟨conversation, agent, hfound, ?_⟩
    by_cases hdeny : classifyCall call = .hardDeny
    · exact Or.inl hdeny
    have hauthorize := authorizeToolCall_of_found hfound hinternal hdeny
    refine Or.inr ⟨?_, ?_⟩
    · intro hordinary hallow ref href
      have hc := (hallow conversation (by simp)).1
      have ha := (hallow agent (by simp)).1
      rw [if_neg (by simp [hc, ha])] at hauthorize
      have hexecute : (authorizeToolCall b call).answer = .execute := by
        rw [hauthorize, decideCall_eq_execute_iff hc ha hfound.bound]
        exact ⟨by simp [hordinary], fun gate hgate => (hallow gate hgate).2⟩
      obtain ⟨service, hresolve, hmem⟩ := (h.execute hexecute).2 ref href
      rw [hauthorize] at hmem
      exact ⟨service, hresolve, mem_gates_decideCall hmem⟩
    · -- Without the broken gate of the agent the conversation's would have denied.
      rintro rfl service rfl hsettle
      have hbound : normalizeRef b.conversation ≠ none := by
        intro hnone
        have hc := hfound.conversation
        unfold Bindings.conversationRef at hc
        rw [hnone] at hc
        simp [Registry.resolveRef] at hc
      have hle := h.tightens hbound
      have hwithout := Bindings.found_of_bound (Bindings.resolveGates_without_agent hfound) (by simp)
      rw [authorizeToolCall_of_found hwithout hinternal hdeny, if_neg (by simp),
        decideCall_conversation, hauthorize, if_pos (by simp), hsettle] at hle
      simp [answerOf, Answer.severity] at hle
  · rintro (⟨hdeny, heffects⟩ | ⟨conversation, agent, hfound, hguard⟩)
    · exact failsClosed_of_deny (congrArg _ (authorizeToolCall_of_effects hdeny heffects)) hdeny
    by_cases hdeny : classifyCall call = .hardDeny
    · exact failsClosed_of_deny (congrArg _ (authorizeToolCall_of_hardDeny hfound hdeny)) hdeny
    obtain ⟨hleads, hhides⟩ := hguard.resolve_left hdeny
    have hauthorize := authorizeToolCall_of_found hfound hinternal hdeny
    refine ⟨?_, ?_, fun h => absurd h hdeny, ?_, fun _ => tightens_of_found hfound hinternal hdeny hhides⟩
    · rw [hauthorize]
      split
      · simp
      · exact answerOf_ne_legacy
    · intro hexecute
      rw [hauthorize] at hexecute ⊢
      split at hexecute
      · simp at hexecute
      · rename_i hbroken
        rw [not_or] at hbroken
        rw [if_neg (by simp [hbroken])]
        obtain ⟨hconfirm, hallow⟩ :=
          (decideCall_eq_execute_iff hbroken.1 hbroken.2 hfound.bound).mp hexecute
        have hordinary : classifyCall call = .ordinary := by
          cases hclass : classifyCall call <;> simp_all
        refine ⟨hordinary, ?_⟩
        intro ref href
        obtain ⟨service, hresolve, hgate⟩ := hleads hordinary (by simp_all) ref href
        exact ⟨service, hresolve, mem_gates_of_allow hallow hgate⟩
    · intro hconfirm
      rw [hauthorize]
      split
      · simp
      · rename_i hbroken
        rw [not_or] at hbroken
        intro hexecute
        exact ((decideCall_eq_execute_iff hbroken.1 hbroken.2 hfound.bound).mp hexecute).1 hconfirm

end

def scriptGate (scope id : String) (decision : Decision) : Service where
  key := (scope, id)
  hasPrompt := false
  scripts := some [some ⟨none, true, true, .answer (some decision)⟩]

/-- Gates of these scopes and ids; the first one is what a bare id leads to. -/
def registryOf (gates : List Service) : Registry where
  definition scope id := .ok ((gates.find? fun gate => gate.key = (scope, id)).map fun gate =>
    ⟨true, true, true, .ok (some gate)⟩)
  resolve id := .ok ((gates.find? fun gate => gate.key.2 = id).map fun gate =>
    ⟨true, true, true, .ok (some gate)⟩)
  linked := .ok true

/-- A gate of the conversation and one of the agent, both of them seen. -/
theorem failsClosed_iff_guarded_scriptGate :
    FailsClosed ⟨.scoped "user" "g", .bare "h", .fine, .fine,
      registryOf [scriptGate "user" "g" .allow, scriptGate "conv" "h" .deny]⟩ { name := "bash" } := by
  refine (failsClosed_iff_guarded _ _ (by decide)).mpr (Or.inr ?_)
  refine ⟨.gate (scriptGate "user" "g" .allow), .gate (scriptGate "conv" "h" .deny),
    ⟨by decide, by decide +kernel, by decide +kernel, by decide +kernel⟩, Or.inr ⟨?_, by simp⟩⟩
  intro _ hallow
  have hdeny := (hallow (.gate (scriptGate "conv" "h" .deny)) (by simp)).2 _ rfl
  exact absurd hdeny (by decide +kernel)

/-- A denying gate is passed over when a bare id is also the conversation's; a lookup that raises
lets the older rules decide; and a broken gate of the agent hides a gate that denies. -/
theorem not_failsClosed :
    let call : Call := { name := "bash" }
    let passed : Bindings := ⟨.scoped "user" "g", .bare "g", .fine, .fine,
      registryOf [scriptGate "conv" "g" .deny, scriptGate "user" "g" .allow]⟩
    let raising : Bindings := ⟨.scoped "user" "g", .absent, .fine, .fine,
      { registryOf [] with definition := fun _ _ => .error () }⟩
    let masked : Bindings := ⟨.scoped "user" "g", .bare "h", .fine, .fine,
      registryOf [scriptGate "user" "g" .deny]⟩
    ((authorizeToolCall passed call).answer = .execute ∧ ¬ FailsClosed passed call) ∧
    ((authorizeToolCall raising call).answer = .legacy ∧ ¬ FailsClosed raising call) ∧
    ((authorizeToolCall { masked with agent := .absent } call).answer = .deny ∧
      (authorizeToolCall masked call).answer = .ask ∧ ¬ FailsClosed masked call) := by
  intro call passed raising masked
  refine ⟨⟨by decide +kernel, fun h => ?_⟩, ⟨by decide +kernel, fun h => ?_⟩, by decide +kernel,
    by decide +kernel, fun h => ?_⟩
  · obtain ⟨-, hgates⟩ := h.execute (by decide +kernel)
    obtain ⟨service, hresolve, hmem⟩ := hgates ⟨"", "g"⟩ (by decide +kernel)
    have hservice : passed.registry.resolveRef (some ⟨"", "g"⟩) =
        .ok (.gate (scriptGate "conv" "g" .deny)) := by decide +kernel
    obtain rfl : scriptGate "conv" "g" .deny = service := by
      rw [hservice] at hresolve
      simpa using hresolve
    revert hmem
    decide +kernel
  · exact h.bound (by decide +kernel)
  · have hle := h.tightens (by decide +kernel)
    revert hle
    decide +kernel

end PawFlow.Gating
