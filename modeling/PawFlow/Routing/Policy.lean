import Mathlib.Data.List.Rotate
import Mathlib.Data.List.Sort
import Mathlib.Data.String.Basic

/-!
# Route selection

`core/llm_routing_policy.py`: the candidates of an LLM router are filtered by their health and put
in the order in which one turn will try them. The data types are those of
`core/llm_routing_types.py`.
-/

namespace PawFlow.Routing

abbrev Time := Int

/-- `ResolvedServiceRef.key`: scope, scope id and service id. -/
abbrev ServiceKey := String × String × String

/-- `ResolvedServiceRef`. -/
structure ServiceRef where
  scope : String
  scopeId : String
  serviceId : String
  definitionRevision : String
deriving DecidableEq

def ServiceRef.key (ref : ServiceRef) : ServiceKey := (ref.scope, ref.scopeId, ref.serviceId)

structure CandidateDefinition where
  serviceId : String
  priority : Int
  enabled : Bool := true
deriving DecidableEq

structure ResolvedCandidate where
  definition : CandidateDefinition
  service : ServiceRef
  model : String
  position : Nat
deriving DecidableEq

inductive HealthState
  | unknown
  | healthy
  | degraded
  | cooldown
  | locked
deriving DecidableEq

/-- One row of `router_health`. -/
structure HealthRecord where
  state : HealthState := .unknown
  consecutiveFailures : Nat := 0
  lastSuccessAt : Time := 0
  lastFailureAt : Time := 0
  cooldownUntil : Time := 0
  lastFailureKind : String := ""
  lastStatus : Int := 0
  updatedAt : Time := 0
  revision : Nat := 0
deriving DecidableEq

/-- One row of `router_affinity`, under its key. -/
structure AffinityRecord where
  child : ServiceRef
  successfulTurns : Nat
  lastSelectedAt : Time
  expiresAt : Time
deriving DecidableEq

inductive ExclusionReason
  | disabled
  | locked
  | cooldown
deriving DecidableEq

structure CandidateExclusion where
  child : ServiceRef
  reasonCode : ExclusionReason
  retryAt : Time := 0
deriving DecidableEq

inductive Strategy
  | ordered
  | roundRobin
  | stickyRoundRobin
  | leastRecentlyUsed
deriving DecidableEq

inductive ReasonCode
  | strategy (s : Strategy)
  | stickyAffinity
  | stickyRotate
deriving DecidableEq

structure SelectionResult where
  ordered : List ResolvedCandidate
  excluded : List CandidateExclusion
  reasonCode : ReasonCode
deriving DecidableEq

/-! ## Filtering -/

/-- Why a candidate is not eligible. -/
def exclusion? (health : ServiceKey → Option HealthRecord) (now : Time)
    (candidate : ResolvedCandidate) : Option CandidateExclusion :=
  if !candidate.definition.enabled then some ⟨candidate.service, .disabled, 0⟩
  else
    match health candidate.service.key with
    | none => none
    | some record =>
      match record.state with
      | .locked => some ⟨candidate.service, .locked, 0⟩
      | .cooldown =>
        if now < record.cooldownUntil then
          some ⟨candidate.service, .cooldown, record.cooldownUntil⟩
        else none
      | _ => none

def eligible (health : ServiceKey → Option HealthRecord) (now : Time)
    (candidates : List ResolvedCandidate) : List ResolvedCandidate :=
  candidates.filter fun c => (exclusion? health now c).isNone

/-! ## Ordering -/

/-- The sort key `(priority, position, scope, scope_id, service_id)`, compared as a tuple. -/
def sortsBefore (a b : ResolvedCandidate) : Bool :=
  let strings := fun c : ResolvedCandidate => [c.service.scope, c.service.scopeId, c.service.serviceId]
  decide (a.definition.priority < b.definition.priority) ||
    (a.definition.priority == b.definition.priority &&
      (decide (a.position < b.position) ||
        (a.position == b.position && decide (strings a < strings b))))

/-- `sorted(candidates, key=…)`. -/
def sortCandidates (candidates : List ResolvedCandidate) : List ResolvedCandidate :=
  candidates.insertionSort fun a b => !sortsBefore b a

def sortByLastSelected (lastSelected : ServiceKey → Time) (candidates : List ResolvedCandidate) :
    List ResolvedCandidate :=
  candidates.insertionSort fun a b =>
    !(decide (lastSelected b.service.key < lastSelected a.service.key) ||
      (lastSelected b.service.key == lastSelected a.service.key && sortsBefore b a))

/-- The place of the affinity target among the candidates, while it may be reused. -/
def stickyIndex? (base : List ResolvedCandidate) (affinity : Option AffinityRecord)
    (stickyLimit : Nat) (now : Time) : Option Nat :=
  match affinity with
  | some a =>
    if now < a.expiresAt ∧ a.successfulTurns < stickyLimit then
      base.findIdx? fun c => c.service = a.child
    else none
  | none => none

def selectCandidates (candidates : List ResolvedCandidate) (strategy : Strategy)
    (health : ServiceKey → Option HealthRecord) (counter : Nat)
    (affinity : Option AffinityRecord) (stickySuccessfulTurns : Nat)
    (lastSelected : ServiceKey → Time) (now : Time) : SelectionResult :=
  let excluded := candidates.filterMap (exclusion? health now)
  let base := sortCandidates (eligible health now candidates)
  match strategy with
  | .ordered => ⟨base, excluded, .strategy strategy⟩
  | .roundRobin => ⟨base.rotate counter, excluded, .strategy strategy⟩
  | .stickyRoundRobin =>
    match stickyIndex? base affinity (max 1 stickySuccessfulTurns) now with
    | some i => ⟨base.drop i ++ base.take i, excluded, .stickyAffinity⟩
    | none => ⟨base.rotate counter, excluded, .stickyRotate⟩
  | .leastRecentlyUsed => ⟨sortByLastSelected lastSelected base, excluded, .strategy strategy⟩

/-! ## Nothing is lost -/

section

variable {candidates : List ResolvedCandidate} {strategy : Strategy}
  {health : ServiceKey → Option HealthRecord} {counter : Nat} {affinity : Option AffinityRecord}
  {stickySuccessfulTurns : Nat} {lastSelected : ServiceKey → Time} {now : Time}

theorem exclusion?_child {c : ResolvedCandidate} {e : CandidateExclusion}
    (h : exclusion? health now c = some e) : e.child = c.service := by
  unfold exclusion? at h
  split at h
  · rw [← Option.some.inj h]
  · split at h
    · contradiction
    · split at h
      · rw [← Option.some.inj h]
      · split at h
        · rw [← Option.some.inj h]
        · contradiction
      · contradiction

theorem ordered_perm_eligible :
    (selectCandidates candidates strategy health counter affinity stickySuccessfulTurns
      lastSelected now).ordered.Perm (eligible health now candidates) := by
  have hbase : (sortCandidates (eligible health now candidates)).Perm
      (eligible health now candidates) := List.perm_insertionSort _ _
  cases strategy with
  | ordered => exact hbase
  | roundRobin => exact (List.rotate_perm _ counter).trans hbase
  | stickyRoundRobin =>
    simp only [selectCandidates]
    split
    · next i _ =>
      refine List.perm_append_comm.trans ?_
      rw [List.take_append_drop]
      exact hbase
    · exact (List.rotate_perm _ counter).trans hbase
  | leastRecentlyUsed => exact (List.perm_insertionSort _ _).trans hbase

theorem excluded_eq :
    (selectCandidates candidates strategy health counter affinity stickySuccessfulTurns
      lastSelected now).excluded = candidates.filterMap (exclusion? health now) := by
  cases strategy with
  | stickyRoundRobin =>
    simp only [selectCandidates]
    split <;> rfl
  | _ => rfl

theorem eligible_append_excluded_perm :
    ((eligible health now candidates).map ResolvedCandidate.service ++
        (candidates.filterMap (exclusion? health now)).map CandidateExclusion.child).Perm
      (candidates.map ResolvedCandidate.service) := by
  induction candidates with
  | nil => exact .refl _
  | cons c rest ih =>
    cases hc : exclusion? health now c with
    | none =>
      have heligible : eligible health now (c :: rest) = c :: eligible health now rest := by
        simp [eligible, hc]
      rw [heligible, List.filterMap_cons_none hc]
      exact ih.cons _
    | some e =>
      have heligible : eligible health now (c :: rest) = eligible health now rest := by
        simp [eligible, hc]
      rw [heligible, List.filterMap_cons_some hc, List.map_cons, List.map_cons,
        exclusion?_child hc]
      exact List.perm_middle.trans (ih.cons _)

theorem ordered_append_excluded_perm :
    let selected := selectCandidates candidates strategy health counter affinity
      stickySuccessfulTurns lastSelected now
    (selected.ordered.map ResolvedCandidate.service ++
        selected.excluded.map CandidateExclusion.child).Perm
      (candidates.map ResolvedCandidate.service) := by
  intro selected
  rw [excluded_eq]
  exact ((ordered_perm_eligible.map _).append_right _).trans eligible_append_excluded_perm

end

end PawFlow.Routing
