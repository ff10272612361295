import PawFlow.Routing.Rotation

/-!
# Attempts and health

`_run` and `_record_failure` of `services/llm_router.py`: the planned candidates are tried in turn,
successes and failures are written to the health table, and the next plan reads that table. The
written key takes its model from the client that failed, the read key from the definition.
-/

namespace PawFlow.Routing

/-- A client of a candidate. -/
structure Client where
  provider : String
  defaultModel : String
deriving DecidableEq

/-- What the outside does to one call of `_run`: `connect` and `call` are the results of creating
the client of an attempt and of calling it. -/
structure Answers where
  aborted : Nat → Bool
  connect : Nat → Except Exc Client
  call : Nat → Except Exc Unit
  /-- The call comes from an agent loop, which hands over itself. -/
  agentCtx : Bool
  /-- `time.time()` of `_record_failure`, and the store's clock, at an attempt. -/
  now : Nat → Time
  clock : Nat → Time

inductive RunResult
  | response
  | cancelled
  | raised (exc : Exc)
  | handoff (nextAttempt : Nat)
  | exhausted (failures : List Failure)
deriving DecidableEq

/-- The mutable part of a client during `_run`; `tried` is the history of attempts. -/
structure RunState where
  store : Store
  attempt : Nat
  failures : List Failure
  clients : Nat → Option Client
  tried : List Nat

/-- Signals that are raised again untouched. -/
def Exc.passes : Exc → Bool
  | .controlFlow | .base => true
  | _ => false

/-- The health key a failure is written under: an attempt without a client has no model. -/
def RouterConfig.failureKey (cfg : RouterConfig) (ref : ServiceRef) (client : Option Client) :
    CandidateKey :=
  cfg.candidateKey ref ((client.map Client.defaultModel).getD "")

def typedFailure (client : Option Client) (exc : Exc) : LLMCallError :=
  classifyCliError ((client.map Client.provider).getD "") exc

/-- `_record_failure`: what becomes of the store. -/
def RouterConfig.recordFailure (cfg : RouterConfig) (store : Store) (ref : ServiceRef)
    (client : Option Client) (exc : Exc) (now clock : Time) : Store :=
  let typed := typedFailure client exc
  if typed.penalizes then
    let cooldownUntil := if typed.retryAfterSeconds = 0 then 0 else now + typed.retryAfterSeconds
    store.recordFailure (cfg.failureKey ref client) typed.category.text typed.providerStatus
      cooldownUntil
      (typed.category ∈ [Category.authInvalid, .billingExhausted, .modelUnavailable]) clock
  else store

/-- The client of an attempt, once it has answered: kept from an earlier call or created now. -/
def Answers.clientAt (w : Answers) (clients : Nat → Option Client) (i : Nat) : Option Client :=
  (clients i).or (w.connect i).toOption

/-- How an attempt ends. -/
def Answers.answer (w : Answers) (clients : Nat → Option Client) (i : Nat) : Except Exc Client :=
  match clients i with
  | some client => (w.call i).map fun _ => client
  | none => (w.connect i).bind fun client => (w.call i).map fun _ => client

namespace RunState

variable (cfg : RouterConfig) (plan : List ServiceRef) (w : Answers)

/-- One turn of the loop of `_run`; without a result the loop goes on. -/
def attemptStep (s : RunState) : RunState × Option RunResult :=
  match plan[s.attempt]? with
  | none => (s, some (.exhausted s.failures))
  | some ref =>
    if w.aborted s.attempt then (s, some .cancelled)
    else
      let client := w.clientAt s.clients s.attempt
      let s' := { s with
        clients := Function.update s.clients s.attempt client
        tried := s.tried ++ [s.attempt] }
      match w.answer s.clients s.attempt with
      | .ok client =>
        ({ s' with
          store := s.store.recordSuccess (cfg.candidateKey ref client.defaultModel)
            (w.clock s.attempt) }, some .response)
      | .error exc =>
        if exc.passes then (s', some (.raised exc))
        else
          let typed := typedFailure client exc
          let failures := s.failures ++ [.ofError ref.serviceId typed]
          let s' := { s' with
            store := cfg.recordFailure s.store ref client exc (w.now s.attempt)
              (w.clock s.attempt)
            failures }
          if !typed.penalizes then (s', some (.raised exc))
          else if plan.length ≤ s.attempt + 1 then (s', some (.exhausted failures))
          else if w.agentCtx then (s', some (.handoff (s.attempt + 1)))
          else ({ s' with attempt := s.attempt + 1 }, none)

/-- The loop of `_run`, with a bound on its turns. -/
def loop : (fuel : Nat) → RunState → RunState × RunResult
  | 0, s => (s, .exhausted s.failures)
  | fuel + 1, s =>
    match s.attemptStep cfg plan w with
    | (s, some result) => (s, result)
    | (s, none) => loop fuel s

/-- `_run`: at most one turn for each candidate. -/
def run (s : RunState) : RunState × RunResult := loop cfg plan w plan.length s

end RunState

/-! ## What one attempt does -/

section

variable {cfg : RouterConfig} {plan : List ServiceRef} {w : Answers} {s : RunState}

/-- The attempt fails and the next candidate is tried: the failure is charged to this one. -/
def Answers.Advances (w : Answers) (clients : Nat → Option Client) (i : Nat) : Prop :=
  ∃ exc, w.answer clients i = .error exc ∧ exc.passes = false ∧
    (typedFailure (w.clientAt clients i) exc).penalizes

/-- The attempt is charged or credited to its candidate. -/
def Answers.Counts (w : Answers) (clients : Nat → Option Client) (i : Nat) : Prop :=
  (∃ client, w.answer clients i = .ok client) ∨ w.Advances clients i

/-- A change of the health table. -/
def SameHealth (cfg : RouterConfig) (store store' : Store) (ref : ServiceRef) : Prop :=
  ∀ key, store'.health key ≠ store.health key → key.router = cfg.routerKey ∧ key.child = ref.key

variable {ref : ServiceRef} {key : CandidateKey}

theorem recordFailure_health {store : Store} {client : Option Client}
    {exc : Exc} {now clock : Time} :
    SameHealth cfg store (cfg.recordFailure store ref client exc now clock) ref := by
  intro key hkey
  simp only [RouterConfig.recordFailure] at hkey
  split at hkey
  · by_cases heq : key = cfg.failureKey ref client
    · rw [heq]
      exact ⟨rfl, rfl⟩
    · exact absurd (Function.update_of_ne heq _ _) hkey
  · exact absurd rfl hkey

/-- Everything one turn of the loop can do. -/
theorem attemptStep_cases (s : RunState) :
    (∃ result, s.attemptStep cfg plan w = (s, some result)) ∨
      ∃ ref s' result, plan[s.attempt]? = some ref ∧ s.attemptStep cfg plan w = (s', result) ∧
        s'.tried = s.tried ++ [s.attempt] ∧
        (∀ i ≠ s.attempt, s'.clients i = s.clients i) ∧
        SameHealth cfg s.store s'.store ref ∧
        (s'.store.health ≠ s.store.health → w.Counts s.clients s.attempt) ∧
        (result = none → s'.attempt = s.attempt + 1 ∧ w.Advances s.clients s.attempt) ∧
        (∀ exc, w.answer s.clients s.attempt = .error exc →
          ¬ w.Advances s.clients s.attempt → result = some (.raised exc)) := by
  unfold RunState.attemptStep
  split
  · exact .inl ⟨_, rfl⟩
  next ref href =>
  split
  · exact .inl ⟨_, rfl⟩
  right
  have hclients : ∀ i ≠ s.attempt, Function.update s.clients s.attempt
      (w.clientAt s.clients s.attempt) i = s.clients i := fun i hi => Function.update_of_ne hi _ _
  split
  · next client hanswer =>
    refine ⟨ref, _, _, href, rfl, rfl, hclients, ?_, fun _ => .inl ⟨client, hanswer⟩, by simp, ?_⟩
    · intro key hkey
      by_cases heq : key = cfg.candidateKey ref client.defaultModel
      · rw [heq]
        exact ⟨rfl, rfl⟩
      · exact absurd (Function.update_of_ne heq _ _) hkey
    · intro exc hexc
      rw [hanswer] at hexc
      contradiction
  next exc hanswer =>
  split
  · next hpasses =>
    refine ⟨ref, _, _, href, rfl, rfl, hclients, fun _ hkey => absurd rfl hkey,
      fun hstore => absurd rfl hstore, by simp, ?_⟩
    intro exc' hexc' _
    rw [hanswer] at hexc'
    rw [Except.error.inj hexc']
  next hpasses =>
  have hpass : exc.passes = false := by simpa using hpasses
  have hadvances : (typedFailure (w.clientAt s.clients s.attempt) exc).penalizes = true →
      w.Advances s.clients s.attempt := fun hpen => ⟨exc, hanswer, hpass, hpen⟩
  cases hpen : (typedFailure (w.clientAt s.clients s.attempt) exc).penalizes with
  | false =>
    simp only [hpen, Bool.not_false, if_true]
    refine ⟨ref, _, _, href, rfl, rfl, hclients, recordFailure_health, ?_, by simp, ?_⟩
    · intro hstore
      simp [RouterConfig.recordFailure, hpen] at hstore
    · intro exc' hexc' _
      rw [hanswer] at hexc'
      rw [Except.error.inj hexc']
  | true =>
    have hadv := hadvances hpen
    simp only [hpen, Bool.not_true, Bool.false_eq_true, if_false]
    by_cases hlast : plan.length ≤ s.attempt + 1
    · simp only [hlast, if_true]
      exact ⟨ref, _, _, href, rfl, rfl, hclients, recordFailure_health, fun _ => .inr hadv,
        by simp, fun _ _ h => absurd hadv h⟩
    · simp only [hlast, if_false]
      cases hctx : w.agentCtx with
      | true =>
        simp only [if_true]
        exact ⟨ref, _, _, href, rfl, rfl, hclients, recordFailure_health, fun _ => .inr hadv,
          by simp, fun _ _ h => absurd hadv h⟩
      | false =>
        simp only [Bool.false_eq_true, if_false]
        exact ⟨ref, _, _, href, rfl, rfl, hclients, recordFailure_health, fun _ => .inr hadv,
          fun _ => ⟨rfl, hadv⟩, fun _ _ h => absurd hadv h⟩

/-! ## What a run does -/

/-- What `_run` did between two states with `n` attempts, counted from the current one on. -/
structure Ran (cfg : RouterConfig) (plan : List ServiceRef) (w : Answers) (s s' : RunState)
    (result : RunResult) (n : Nat) : Prop where
  /-- Every candidate at most once, in the order of the plan. -/
  tried : s'.tried = s.tried ++ List.range' s.attempt n
  inPlan : ∀ i, s.attempt ≤ i → i < s.attempt + n → i < plan.length
  health : ∀ key, s'.store.health key ≠ s.store.health key →
    ∃ i ref, s.attempt ≤ i ∧ i < s.attempt + n ∧ plan[i]? = some ref ∧
      key.router = cfg.routerKey ∧ key.child = ref.key ∧ w.Counts s.clients i
  /-- An attempt is followed by another one only if its failure is charged. -/
  advances : ∀ i, s.attempt ≤ i → i + 1 < s.attempt + n → w.Advances s.clients i
  /-- Any other failure is the result of the run. -/
  raises : ∀ i exc, i + 1 = s.attempt + n → s.attempt ≤ i → w.answer s.clients i = .error exc →
    ¬ w.Advances s.clients i → result = .raised exc

variable {clients clients' : Nat → Option Client}

variable {i : Nat}

theorem Answers.answer_congr
    (h : clients' i = clients i) : w.answer clients' i = w.answer clients i := by
  simp only [Answers.answer, h]

theorem Answers.advances_congr
    (h : clients' i = clients i) : w.Advances clients' i ↔ w.Advances clients i := by
  simp only [Answers.Advances, Answers.answer_congr h, Answers.clientAt, h]

theorem Answers.counts_congr
    (h : clients' i = clients i) : w.Counts clients' i ↔ w.Counts clients i := by
  simp only [Answers.Counts, Answers.answer_congr h, Answers.advances_congr h]

theorem Ran.refl (s : RunState) (result : RunResult) : Ran cfg plan w s s result 0 where
  tried := (List.append_nil _).symm
  inPlan := by omega
  health := fun _ h => absurd rfl h
  advances := by omega
  raises := by omega

theorem Ran.cons {s s₁ s₂ : RunState} {ref : ServiceRef} {result : RunResult} {n : Nat}
    (href : plan[s.attempt]? = some ref) (htried : s₁.tried = s.tried ++ [s.attempt])
    (hclients : ∀ i ≠ s.attempt, s₁.clients i = s.clients i)
    (hhealth : SameHealth cfg s.store s₁.store ref)
    (hcounts : s₁.store.health ≠ s.store.health → w.Counts s.clients s.attempt)
    (hattempt : s₁.attempt = s.attempt + 1) (hadvances : w.Advances s.clients s.attempt)
    (hran : Ran cfg plan w s₁ s₂ result n) : Ran cfg plan w s s₂ result (n + 1) where
  tried := by
    rw [hran.tried, htried, hattempt, List.append_assoc, List.range'_succ, List.singleton_append]
  inPlan := by
    intro i hle hlt
    rcases Nat.eq_or_lt_of_le hle with rfl | hgt
    · exact (List.getElem?_eq_some_iff.1 href).1
    · exact hran.inPlan i (by omega) (by omega)
  health := by
    intro key hkey
    by_cases hsame : s₂.store.health key = s₁.store.health key
    · have hfirst : s₁.store.health key ≠ s.store.health key := hsame ▸ hkey
      obtain ⟨hrouter, hchild⟩ := hhealth key hfirst
      exact ⟨s.attempt, ref, le_rfl, by omega, href, hrouter, hchild,
        hcounts fun h => hfirst (congrFun h key)⟩
    · obtain ⟨i, ref', hle, hlt, hplan, hrouter, hchild, hcount⟩ := hran.health key hsame
      exact ⟨i, ref', by omega, by omega, hplan, hrouter, hchild,
        (Answers.counts_congr (hclients i (by omega))).1 hcount⟩
  advances := by
    intro i hle hlt
    rcases Nat.eq_or_lt_of_le hle with rfl | hgt
    · exact hadvances
    · exact (Answers.advances_congr (hclients i (by omega))).1
        (hran.advances i (by omega) (by omega))
  raises := by
    intro i exc hlast hle hanswer hnot
    rcases Nat.eq_or_lt_of_le hle with rfl | hgt
    · exact absurd hadvances hnot
    · have hclient := hclients i (by omega)
      exact hran.raises i exc (by omega) (by omega) (Answers.answer_congr hclient ▸ hanswer)
        fun h => hnot ((Answers.advances_congr hclient).1 h)

theorem Ran.single {s s₁ : RunState} {result : RunResult}
    (href : plan[s.attempt]? = some ref) (htried : s₁.tried = s.tried ++ [s.attempt])
    (hhealth : SameHealth cfg s.store s₁.store ref)
    (hcounts : s₁.store.health ≠ s.store.health → w.Counts s.clients s.attempt)
    (hraises : ∀ exc, w.answer s.clients s.attempt = .error exc →
      ¬ w.Advances s.clients s.attempt → result = .raised exc) :
    Ran cfg plan w s s₁ result 1 where
  tried := htried
  inPlan := by
    intro i hle hlt
    obtain rfl : i = s.attempt := by omega
    exact (List.getElem?_eq_some_iff.1 href).1
  health := by
    intro key hkey
    obtain ⟨hrouter, hchild⟩ := hhealth key hkey
    exact ⟨s.attempt, ref, le_rfl, by omega, href, hrouter, hchild,
      hcounts fun h => hkey (congrFun h key)⟩
  advances := by omega
  raises := by
    intro i exc hlast hle
    obtain rfl : i = s.attempt := by omega
    exact hraises exc

theorem loop_ran (fuel : Nat) (s : RunState) :
    ∃ n, Ran cfg plan w s (s.loop cfg plan w fuel).1 (s.loop cfg plan w fuel).2 n := by
  induction fuel generalizing s with
  | zero => exact ⟨0, .refl s _⟩
  | succ fuel ih =>
    rcases attemptStep_cases s with ⟨result, hstep⟩ |
      ⟨ref, s₁, result, href, hstep, htried, hclients, hhealth, hcounts, hnext, hraises⟩
    · rw [RunState.loop, hstep]
      exact ⟨0, .refl s _⟩
    · rw [RunState.loop, hstep]
      cases result with
      | none =>
        obtain ⟨hattempt, hadvances⟩ := hnext rfl
        obtain ⟨n, hran⟩ := ih s₁
        exact ⟨n + 1, .cons href htried hclients hhealth hcounts hattempt hadvances hran⟩
      | some result =>
        exact ⟨1, .single href htried hhealth hcounts
          fun exc hexc hnot => Option.some.inj (hraises exc hexc hnot)⟩

/-! ## Where the health is written -/

/-- The model a failure is written under is the one the plan reads. -/
def ReportsPlannedModel (client : Option Client) (c : ResolvedCandidate) : Prop :=
  (client.map Client.defaultModel).getD "" = c.model

/-- A failure counts for its candidate: the next plan reads one failure more, and from the
threshold on leaves the candidate out until the cooldown ends. -/
def FailureCounts (cfg : RouterConfig) (registry : String → Option ServiceDef)
    (store store' : Store) (c : ResolvedCandidate) (clock : Time) : Prop :=
  ∃ row, cfg.healthMap store' (cfg.resolved registry) c.service.key = some row ∧
    row.consecutiveFailures =
      (store.getHealth (cfg.candidateKey c.service c.model)).consecutiveFailures + 1 ∧
    (Store.transientThreshold ≤ row.consecutiveFailures →
      (row.state = .locked ∨ row.state = .cooldown ∧ clock < row.cooldownUntil) ∧
      ∀ key lastSelected now plan, (row.state = .cooldown → now < row.cooldownUntil) →
        (cfg.ensurePlan registry store' key lastSelected now).1 = .ok plan →
        c.service ∉ plan.ordered ∧ ∃ e ∈ plan.excluded, e.child = c.service)

/-- Definitions are stored by their key. -/
def KeyedRegistry (registry : String → Option ServiceDef) : Prop :=
  ∀ id id' sdef sdef', registry id = some sdef → registry id' = some sdef' →
    sdef.ref.key = sdef'.ref.key → sdef = sdef'

variable {registry : String → Option ServiceDef} {store : Store} {c c' : ResolvedCandidate}
  {client : Option Client} {exc : Exc} {now clock : Time}

theorem definition_of_resolved (hc : c ∈ cfg.resolved registry) :
    ∃ id sdef, registry id = some sdef ∧ c.service = sdef.ref ∧
      c.model = resolveDefaultModel cfg.defaultModels
        (if sdef.provider = "" then "openai" else sdef.provider) sdef.defaultModel := by
  obtain ⟨⟨definition, position⟩, -, hresolved⟩ := List.mem_filterMap.1 hc
  simp only [RouterConfig.resolvedCandidate] at hresolved
  split at hresolved
  · contradiction
  next sdef hsdef =>
  split at hresolved
  · rw [← Option.some.inj hresolved]
    exact ⟨_, sdef, hsdef, rfl, rfl⟩
  · contradiction

theorem model_eq_of_key_eq (hreg : KeyedRegistry registry) (hc : c ∈ cfg.resolved registry)
    (hc' : c' ∈ cfg.resolved registry) (hkey : c.service.key = c'.service.key) :
    c.model = c'.model := by
  obtain ⟨id, sdef, hsdef, hservice, hmodel⟩ := definition_of_resolved hc
  obtain ⟨id', sdef', hsdef', hservice', hmodel'⟩ := definition_of_resolved hc'
  have heq : sdef = sdef' := hreg id id' sdef sdef' hsdef hsdef' 
    (by rw [← hservice, ← hservice', hkey])
  rw [hmodel, hmodel', heq]

theorem healthMap_of_mem (hreg : KeyedRegistry registry) (hc : c ∈ cfg.resolved registry) :
    cfg.healthMap store (cfg.resolved registry) c.service.key =
      some (store.getHealth (cfg.candidateKey c.service c.model)) := by
  have hsome : ((cfg.resolved registry).reverse.find? fun c' =>
      decide (c'.service.key = c.service.key)).isSome := by
    rw [List.find?_isSome]
    exact ⟨c, List.mem_reverse.2 hc, by simp⟩
  obtain ⟨c', hfind⟩ := Option.isSome_iff_exists.1 hsome
  have hkey : c'.service.key = c.service.key := by simpa using List.find?_some hfind
  have hmem : c' ∈ cfg.resolved registry := List.mem_reverse.1 (List.mem_of_find?_eq_some hfind)
  rw [RouterConfig.healthMap, hfind, Option.map_some, RouterConfig.candidateKey,
    RouterConfig.candidateKey, hkey, model_eq_of_key_eq hreg hmem hc hkey]

theorem failureState_of_threshold {failures : Nat} {cooldownUntil : Time} {locked : Bool}
    (h : Store.transientThreshold ≤ failures) :
    Store.failureState failures cooldownUntil locked clock = .locked ∨
      Store.failureState failures cooldownUntil locked clock = .cooldown ∧
        clock < Store.failureCooldown failures cooldownUntil locked clock := by
  cases locked with
  | true => exact .inl rfl
  | false =>
    have hstate : Store.failureState failures cooldownUntil false clock = .cooldown := by
      simp [Store.failureState, h]
    refine .inr ⟨hstate, ?_⟩
    unfold Store.failureCooldown
    by_cases hpast : cooldownUntil ≤ clock
    · rw [if_pos ⟨hstate, hpast⟩]
      have hpow : (0 : Int) < 2 ^ (failures - Store.transientThreshold) := by positivity
      have hpos : (0 : Int) < min Store.maxCooldownSeconds
          (Store.baseCooldownSeconds * 2 ^ (failures - Store.transientThreshold)) :=
        lt_min (by decide) (Int.mul_pos (by decide) hpow)
      exact lt_add_of_pos_right clock hpos
    · rw [if_neg fun hand => hpast hand.2]
      exact not_le.1 hpast

theorem exclusion?_isSome {health : ServiceKey → Option HealthRecord} {row : HealthRecord}
    (hrow : health c.service.key = some row)
    (hstate : row.state = .locked ∨ row.state = .cooldown ∧ now < row.cooldownUntil) :
    (exclusion? health now c).isSome := by
  unfold exclusion?
  split
  · rfl
  · rw [hrow]
    rcases hstate with hlocked | ⟨hcooldown, hnow⟩
    · simp [hlocked]
    · simp [hcooldown, hnow]

theorem ensurePlan_leaves_out {key : AffinityKey} {lastSelected : ServiceKey → Time}
    {plan : RoutePlan} (hc : c ∈ cfg.resolved registry)
    (hout : ∀ c' ∈ cfg.resolved registry, c'.service = c.service →
      (exclusion? (cfg.healthMap store (cfg.resolved registry)) now c').isSome)
    (hplan : (cfg.ensurePlan registry store key lastSelected now).1 = .ok plan) :
    c.service ∉ plan.ordered ∧ ∃ e ∈ plan.excluded, e.child = c.service := by
  simp only [RouterConfig.ensurePlan] at hplan
  split at hplan
  · contradiction
  -- The counter only chooses the order.
  generalize (if cfg.rotates then store.nextCounter cfg.routerKey else (0, store)) = next at hplan
  split at hplan
  · contradiction
  obtain rfl := Except.ok.inj hplan
  constructor
  · intro hmem
    obtain ⟨c', hc', hservice⟩ := List.mem_map.1 hmem
    have heligible := (ordered_perm_eligible.mem_iff).1 hc'
    obtain ⟨hc', hnone⟩ := List.mem_filter.1 heligible
    have hsome := hout c' hc' hservice
    rw [Option.isNone_iff_eq_none.1 hnone] at hsome
    contradiction
  · obtain ⟨e, he⟩ := Option.isSome_iff_exists.1 (hout c hc rfl)
    refine ⟨e, ?_, exclusion?_child he⟩
    rw [excluded_eq]
    exact List.mem_filterMap.2 ⟨c, hc, he⟩

theorem recordFailure_row (store : Store) (now clock : Time)
    (hpen : (typedFailure client exc).penalizes) (hkey : cfg.failureKey c.service client = key) :
    ∃ cooldownUntil locked row,
      (cfg.recordFailure store c.service client exc now clock).getHealth key = row ∧
      row.consecutiveFailures = (store.getHealth key).consecutiveFailures + 1 ∧
      row.state = Store.failureState row.consecutiveFailures cooldownUntil locked clock ∧
      row.cooldownUntil =
        Store.failureCooldown row.consecutiveFailures cooldownUntil locked clock := by
  subst hkey
  simp only [RouterConfig.recordFailure, hpen, if_true, Store.recordFailure, Store.getHealth,
    Function.update_self, Option.getD_some]
  exact ⟨_, _, _, rfl, rfl, rfl, rfl⟩

theorem recordFailure_other (hkey : cfg.failureKey c.service client ≠ key) :
    (cfg.recordFailure store c.service client exc now clock).getHealth key =
      store.getHealth key := by
  have hsame : (cfg.recordFailure store c.service client exc now clock).health key =
      store.health key := by
    simp only [RouterConfig.recordFailure]
    split
    · exact Function.update_of_ne (Ne.symm hkey) _ _
    · rfl
  rw [Store.getHealth, Store.getHealth, hsame]

/-- A charged failure counts for its candidate just when the model it is written under is the
planned one. -/
theorem failureCounts_iff (hreg : KeyedRegistry registry) (hc : c ∈ cfg.resolved registry)
    (hpen : (typedFailure client exc).penalizes) :
    FailureCounts cfg registry store
        (cfg.recordFailure store c.service client exc now clock) c clock ↔
      ReportsPlannedModel client c := by
  have hkeys : cfg.failureKey c.service client = cfg.candidateKey c.service c.model ↔
      ReportsPlannedModel client c := by
    constructor
    · exact fun h => congrArg CandidateKey.model h
    · intro h
      rw [RouterConfig.failureKey, h]
  rw [← hkeys]
  constructor
  · rintro ⟨row, hrow, hfailures, -⟩
    by_contra hne
    rw [healthMap_of_mem hreg hc, recordFailure_other hne] at hrow
    rw [← Option.some.inj hrow] at hfailures
    omega
  · intro hkey
    obtain ⟨cooldownUntil, locked, row, hrow, hfailures, hstate, hcooldown⟩ :=
      recordFailure_row store now clock hpen hkey
    have hread : ∀ c' ∈ cfg.resolved registry, c'.service.key = c.service.key →
        cfg.healthMap (cfg.recordFailure store c.service client exc now clock)
          (cfg.resolved registry) c'.service.key = some row := by
      intro c' hc' hsame
      rw [hsame, healthMap_of_mem hreg hc, hrow]
    refine ⟨row, hread c hc rfl, hfailures, fun hthreshold => ?_⟩
    have hout := hstate ▸ hcooldown ▸ failureState_of_threshold hthreshold
    refine ⟨hout, fun key lastSelected now' plan hnow hplan => ?_⟩
    refine ensurePlan_leaves_out hc (fun c' hc' hservice => ?_) hplan
    refine exclusion?_isSome (hread c' hc' (by rw [hservice])) ?_
    exact hout.imp_right fun h => ⟨h.1, hnow h.1⟩

end

/-! ## Clients that cannot be created -/

theorem sampleRegistry_keyed : KeyedRegistry sampleRegistry := by
  rintro id id' sdef sdef' ⟨rfl⟩ ⟨rfl⟩ hkey
  have hid : id = id' := congrArg (fun key => key.2.2) hkey
  rw [hid]

def sampleCandidate : ResolvedCandidate := ⟨⟨"a", 10, true⟩, sampleRef "a", "m", 0⟩

/-- The client of the first candidate answers as `first` says, the others do answer. -/
def sampleAnswers (first : Except Exc Client) : Answers where
  aborted := fun _ => false
  connect := fun i => if i = 0 then first else .ok ⟨"openai", "m"⟩
  call := fun i => if i = 0 then .error (.other "boom") else .ok ()
  agentCtx := false
  now := fun _ => 100
  clock := fun _ => 100

/-- A turn over both candidates. -/
def sampleTurn (first : Except Exc Client) (store : Store) : RunState × RunResult :=
  RunState.run (sampleConfig .ordered 1) [sampleRef "a", sampleRef "b"] (sampleAnswers first)
    ⟨store, 0, [], fun _ => none, []⟩

/-- The order of the next plan, after `n` turns. -/
def sampleOrder (first : Except Exc Client) (n : Nat) : Option (List String) :=
  let store := (fun store => (sampleTurn first store).1.store)^[n] .empty
  ((sampleConfig .ordered 1).ensurePlan sampleRegistry store sampleKey (fun _ => 0) 110).1.toOption.map
    fun plan => plan.ordered.map ServiceRef.serviceId

end PawFlow.Routing
