import PawFlow.WorkflowRun.Operations

/-!
# One live run per conversation and agent

Every operation is one of the five moves of `Lib.Ledger`, so ownership stays
exclusive along every sequence of operations.
-/

namespace PawFlow.WorkflowRun

open PawFlow.Lib

namespace Store

variable {s : Store} {runId : String}

theorem Moves.deleteRuns (s : Store) (p : Run → Bool) : Moves s (s.deleteRuns p) := by
  refine .drop (fun i => (s.runs.get? i).any p) (fun j => ?_) fun k => ?_
  · simp only [ledger, Store.deleteRuns, Table.get?_delete]
    cases s.runs.get? j with
    | none => simp
    | some r => cases hp : p r <;> simp [Option.filter, hp]
  · simp only [ledger, Store.deleteRuns, Table.get?_delete]
    cases s.active.get? k with
    | none => rfl
    | some a => cases ha : (s.runs.get? a.runId).any p <;> simp [Option.filter, ha]

theorem Moves.of_ok {β : Type} {x : Except StoreError (β × Store)}
    (h : ∀ b s', x = .ok (b, s') → Moves s s') : Moves s (Lib.settle s x) :=
  settle_rel (Moves.of_ledger rfl) h

theorem createRun_moves {casefold : String → String} {context : RunContext}
    {ingressSourceJson : String} {parentInvocationJson : Option String}
    {publishToConversation : Bool} {l now : Time} {r : Run} {s' : Store}
    (hex : s.ledger.Exclusive live)
    (h : s.createRun casefold context ingressSourceJson parentInvocationJson
      publishToConversation l now = .ok (r, s')) : Moves s s' := by
  rcases createRun_cases h with rfl | ⟨run, runs, hnone, howner, hstatus, -, hinsert, rfl⟩
  · exact .of_ledger rfl
  obtain ⟨-, hget⟩ := Table.insert?_eq_some hinsert
  have hfresh : s.ledger.claims run.runId = none := by simp [ledger, hnone]
  refine Ledger.Move.start run.runId ⟨(run.conversationId, run.agentKey),
    run.runGeneration, .accepted⟩ hfresh ?_ rfl ?_ ?_
  · -- an active row of this key would belong to this very run, which does not exist
    cases ha : s.active.get? (run.conversationId, run.agentKey) with
    | none => simp [ledger, ha]
    | some a =>
      have hid := howner a ha
      obtain ⟨c, hc, -⟩ := hex.owner_claim (k := (run.conversationId, run.agentKey))
        (i := run.runId) (g := a.generation) (by simp [ledger, ha, hid])
      simp [hfresh] at hc
  · intro j
    simp only [ledger, hget]
    split
    · simp [claimOf, hstatus]
    · rfl
  · intro k
    simp only [ledger, Table.get?_upsert]
    split <;> rfl

/-- Recovery finds its own active row in place: ownership is exclusive, so the row
it replaces already names this run. -/
theorem reacquire_moves {l now : Time} (hex : s.ledger.Exclusive live) :
    Moves s (s.reacquire runId l now).2 := by
  rcases reacquire_cases s runId l now with heq | ⟨row, hrow, hlive, heq⟩
  · exact .of_ledger (by rw [heq])
  have howner : s.ledger.owners (row.conversationId, row.agentKey) =
      some (runId, row.runGeneration) :=
    hex.claim_owner (c := claimOf row) (by simp [ledger, hrow]) (by simp [live, claimOf, hlive])
  rw [heq]
  refine .keep (fun j => ?_) fun k => ?_
  · rw [ledger_touch _ runId (recoverAt now) _ fun _ => rfl]
    rfl
  · simp only [owners_updateRun]
    simp only [ledger, Table.get?_upsert]
    split
    · next hk =>
      rw [hk]
      exact howner.symm
    · rfl

/-- **Every operation is one move of the ledger.** -/
theorem apply_moves (casefold : String → String) (s : Store) (op : Op)
    (hex : s.ledger.Exclusive live) : Moves s (s.apply casefold op) := by
  by_cases hop : touchesQuota op = true
  swap
  · exact (apply_status casefold s (by simpa using hop)).moves
  cases op with
  | createRun => exact Moves.of_ok fun _ _ h => createRun_moves hex h
  | reacquire => exact reacquire_moves hex
  | deleteTerminal r c =>
    refine Moves.of_ok fun b s' h => ?_
    obtain ⟨p, rfl⟩ := deleteTerminal_cases h
    exact Moves.deleteRuns s p
  | pruneTerminal => exact Moves.deleteRuns s _
  | deleteConversation c =>
    refine Moves.of_ok fun b s' h => ?_
    obtain ⟨p, _, rfl⟩ := deleteConversation_cases h
    exact Moves.deleteRuns s p
  | cacheStepResult r t hash j u now =>
    refine Moves.of_ok fun b s' h => ?_
    obtain ⟨_, -, h⟩ := bind_ok h
    obtain ⟨_, -, h⟩ := bind_ok h
    obtain ⟨_, -, h⟩ := bind_ok h
    split at h
    · obtain ⟨-, rfl⟩ := ok_pair_inj h
      exact Moves.of_ledger rfl
    · split at h
      · exact absurd h (by simp [throw, throwThe, MonadExceptOf.throw])
      · obtain ⟨-, rfl⟩ := ok_pair_inj h
        exact Moves.of_tables rfl rfl
  | beginLlmStep r t hash now =>
    refine Moves.of_ok fun b s' h => ?_
    obtain ⟨_, _, _, _, -, -, ⟨_, -, -, rfl⟩ | ⟨-, -, -, _, -, rfl⟩⟩ := beginLlmStep_cases h
    · exact Moves.of_ledger rfl
    · exact Moves.of_tables rfl rfl
  | commitLlmStep r t hash j u now =>
    refine Moves.of_ok fun b s' h => ?_
    obtain ⟨_, _, -, -, -, rfl⟩ | ⟨run, stepResults, -, -, -, -, -, -, rfl⟩ :=
      commitLlmStep_cases h
    · exact Moves.of_tables rfl rfl
    · exact Moves.of_ledger (ledger_touch { s with stepResults } r
        (chargeAt (run.usage.add u) now) (chargeAt_runId _ now) fun _ => rfl)
  | abortLlmStep => exact Moves.of_tables rfl rfl
  | _ => exact absurd hop (by simp [touchesQuota])

/-! ## Whole runs of the store -/

theorem exclusive_init : ledger ({} : Store) |>.Exclusive live where
  owner_claim h := absurd h (by simp [ledger])
  claim_owner h := absurd h (by simp [ledger])

theorem reach_exclusive {casefold : String → String} {s : Store}
    (h : Reach (step casefold) {} s) : s.ledger.Exclusive live := by
  refine h.invariant (fun s => s.ledger.Exclusive live) (fun t op u hex _ hstep => ?_)
    exclusive_init
  obtain rfl := Option.some.inj hstep
  exact (apply_moves casefold t op hex).exclusive hex

variable {casefold : String → String}

theorem claims_of_mem {run : Run} (h : run ∈ s.runs) :
    s.ledger.claims run.runId = some (claimOf run) := by
  simp [ledger, Table.get?_of_mem h]

theorem exists_run_of_active {a : ActiveRun} (hex : s.ledger.Exclusive live)
    (ha : a ∈ s.active) : ∃ run ∈ s.runs, run.runId = a.runId ∧
      run.conversationId = a.conversationId ∧ run.agentKey = a.agentKey ∧
      run.runGeneration = a.generation ∧ run.status.isTerminal = false := by
  have howner : s.ledger.owners a.key = some (a.runId, a.generation) := by
    simp only [ledger, Table.get?_of_mem ha, Option.map_some]
  obtain ⟨c, hc, hkey, hgen, hlive⟩ := hex.owner_claim howner
  obtain ⟨run, hrun, rfl⟩ := Option.map_eq_some_iff.mp hc
  obtain ⟨hconv, hagent⟩ := Prod.mk.inj hkey
  exact ⟨run, Table.get?_mem hrun, Table.get?_key hrun, hconv, hagent, hgen,
    by simpa [live, claimOf] using hlive⟩

theorem exists_active_of_run {run : Run} (hex : s.ledger.Exclusive live)
    (hrun : run ∈ s.runs) (hlive : run.status.isTerminal = false) :
    ∃ a ∈ s.active, a.runId = run.runId := by
  have howner := hex.claim_owner (claims_of_mem hrun) (by simp [live, claimOf, hlive])
  obtain ⟨a, ha, heq⟩ := Option.map_eq_some_iff.mp howner
  exact ⟨a, Table.get?_mem ha, (Prod.mk.inj heq).1⟩

/-- **One live run per conversation and agent.** In every reachable store the active
rows are exactly those of the non-terminal runs, under the run's own key and
generation; no two non-terminal runs share a key; and no operation changes a
terminal status of a row it leaves in place. -/
theorem single_live_run {s : Store} (h : Reach (step casefold) {} s) :
    (∀ run ∈ s.runs, (∃ a ∈ s.active, a.runId = run.runId) ↔
      run.status.isTerminal = false) ∧
    (∀ a ∈ s.active, ∃ run ∈ s.runs, run.runId = a.runId ∧
      run.conversationId = a.conversationId ∧ run.agentKey = a.agentKey ∧
      run.runGeneration = a.generation) ∧
    (∀ run ∈ s.runs, ∀ run' ∈ s.runs, run.status.isTerminal = false →
      run'.status.isTerminal = false → run.conversationId = run'.conversationId →
      run.agentKey = run'.agentKey → run = run') ∧
    (∀ op, ∀ run ∈ s.runs, run.status.isTerminal = true →
      ∀ run' ∈ (s.apply casefold op).runs, run'.runId = run.runId →
        run'.status = run.status) := by
  have hex := reach_exclusive h
  refine ⟨?_, ?_, ?_, ?_⟩
  · intro run hrun
    constructor
    · rintro ⟨a, ha, hid⟩
      obtain ⟨run', hrun', hid', -, -, -, hlive⟩ := exists_run_of_active hex ha
      rwa [Table.eq_of_key hrun hrun' (hid.symm.trans hid'.symm)]
    · exact exists_active_of_run hex hrun
  · intro a ha
    obtain ⟨run, hrun, hid, hconv, hagent, hgen, -⟩ := exists_run_of_active hex ha
    exact ⟨run, hrun, hid, hconv, hagent, hgen⟩
  · intro run hrun run' hrun' hlive hlive' hconv hagent
    have hid := hex.live_unique (claims_of_mem hrun) (claims_of_mem hrun')
      (by simp [live, claimOf, hlive]) (by simp [live, claimOf, hlive'])
      (Prod.ext hconv hagent)
    exact Table.eq_of_key hrun hrun' hid
  · intro op run hrun hterm run' hrun' hid
    have hfinal := (apply_moves casefold s op hex).settled_final (claims_of_mem hrun)
      (by simp [live, claimOf, hterm])
    rw [← hid, claims_of_mem hrun'] at hfinal
    rcases hfinal with hkept | hgone
    · exact congrArg LedgerClaim.phase (Option.some.inj hkept)
    · exact absurd hgone (by simp)

theorem single_live_run_started :
    (∃ run ∈ (startedRun {}).runs, run.runId = "run-1" ∧ run.status = .running) ∧
      ∃ a ∈ (startedRun {}).active, a.runId = "run-1" := by
  have hreach : Reach (step id) {} (startedRun {}) :=
    ((Runs.refl _).snoc trivial rfl).snoc trivial rfl
  have hrun : ((startedRun {}).runs.get? "run-1").map Run.status = some .running := by decide
  obtain ⟨run, hget, hstatus⟩ := Option.map_eq_some_iff.mp hrun
  have hmem := Table.get?_mem hget
  have hid := Table.get?_key hget
  obtain ⟨a, ha, haid⟩ := ((single_live_run hreach).1 run hmem).mpr (by rw [hstatus]; rfl)
  exact ⟨⟨run, hmem, hid, hstatus⟩, a, ha, haid.trans hid⟩

end Store

end PawFlow.WorkflowRun
