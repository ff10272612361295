import PawFlow.WorkflowRun.Operations

/-!
# The LLM call budget

`begin_llm_step` reserves one call, `commit_llm_step` turns the reservation into a
step result and adds its usage to the run, `abort_llm_step` and recovery give the
reservation back. Every operation is one move of `Lib.Quota`, provided the step
results are written by `commit_llm_step` alone and each commit reports at most one
call.
-/

namespace PawFlow.WorkflowRun

open PawFlow.Lib

namespace Store

/-- Calls that keep to the budget protocol: no `cache_step_result`, and at most one
LLM call per commit. -/
def oneCallPerCommit : Op → Bool
  | .cacheStepResult .. => false
  | .commitLlmStep _ _ _ _ usage _ => usage.llmCalls ≤ 1
  | _ => true

/-- One operation changes the quota by one move. -/
abbrev QuotaMoves (s s' : Store) : Prop :=
  Quota.Move {} Usage.add Usage.llmCalls s.quota s'.quota

/-- The quota is sound: usage is the sum of the step results, and calls made and
reserved stay within the limit. -/
abbrev QuotaSound (s : Store) : Prop :=
  s.quota.Sound {} Usage.add Usage.llmCalls

variable {s : Store}

variable {s' : Store} {now : Time}

theorem QuotaMoves.of_quota (h : s'.quota = s.quota) : QuotaMoves s s' :=
  .release (fun i => by rw [h]) (by rw [h]) (by rw [h])

theorem QuotaMoves.of_ok {β : Type} {x : Except StoreError (β × Store)}
    (h : ∀ b s', x = .ok (b, s') → QuotaMoves s s') : QuotaMoves s (Lib.settle s x) :=
  settle_rel (QuotaMoves.of_quota rfl) h

theorem quota_held (s : Store) (runId : String) : s.quota.held runId = s.outstanding runId := by
  simp only [Quota.held, quota, outstanding, Table.count, List.countP_map]
  rfl

theorem holds_release (s : Store) (k : StepKey) :
    (s.release k).quota.holds = s.quota.holds.filter (· ≠ k) := by
  simp only [quota, release, Table.delete, List.filter_map]
  congr 1
  apply List.filter_congr
  intro r _
  simp

theorem release_moves (s : Store) (k : StepKey) : QuotaMoves s (s.release k) := by
  refine .release (fun _ => rfl) ?_ rfl
  rw [holds_release]
  exact List.filter_sublist

theorem deleteRuns_quotaMoves (s : Store) (p : Run → Bool) : QuotaMoves s (s.deleteRuns p) := by
  refine .close (fun i => (s.runs.get? i).any p) (fun j => ?_) ?_ ?_
  · simp only [quota, Store.deleteRuns, Table.get?_delete]
    cases s.runs.get? j with
    | none => simp
    | some r => cases hp : p r <;> simp [Option.filter, hp]
  · simp only [quota, Store.deleteRuns, Table.delete, List.filter_map]
    rfl
  · simp only [quota, Store.deleteRuns, Table.delete, List.filter_map]
    rfl

theorem createRun_quotaMoves {casefold : String → String} {context : RunContext}
    {ingressSourceJson : String} {parentInvocationJson : Option String}
    {publishToConversation : Bool} {l : Time} {r : Run}
    (h : s.createRun casefold context ingressSourceJson parentInvocationJson
      publishToConversation l now = .ok (r, s')) : QuotaMoves s s' := by
  rcases createRun_cases h with rfl | ⟨run, runs, hnone, -, -, husage, hinsert, rfl⟩
  · exact QuotaMoves.of_quota rfl
  obtain ⟨-, hget⟩ := Table.insert?_eq_some hinsert
  refine .openAccount run.runId run.limits.maxLlmCalls (by simp [quota, hnone]) ?_ rfl rfl
  intro j
  simp only [quota, hget]
  split
  · simp [accountOf, husage]
  · rfl

variable {runId : String}

theorem reacquire_quotaMoves {l : Time} :
    QuotaMoves s (s.reacquire runId l now).2 := by
  rcases reacquire_cases s runId l now with heq | ⟨row, -, -, heq⟩
  · exact QuotaMoves.of_quota (by rw [heq])
  rw [heq, QuotaMoves, quota_touch _ runId (recoverAt now) _ fun _ => rfl]
  refine .release (fun _ => rfl) ?_ rfl
  exact List.filter_sublist.map _

theorem beginLlmStep_quotaMoves {r t h : String} {c : Option StepResult}
    (hok : s.beginLlmStep r t h now = .ok (c, s')) : QuotaMoves s s' := by
  obtain ⟨runId, taskId, inputHash, run, hrun, -, hcase⟩ := beginLlmStep_cases hok
  rcases hcase with ⟨_, -, -, rfl⟩ | ⟨-, -, hroom, reservations, hinsert, rfl⟩
  · exact QuotaMoves.of_quota rfl
  refine .hold runId (taskId, inputHash) (accountOf run) (by simp [quota, hrun]) ?_
    (fun _ => rfl) ?_ rfl
  · rw [quota_held]
    exact hroom
  · simp only [quota, Table.insert?_rows hinsert, List.map_append, List.map_singleton]

theorem commitLlmStep_quotaMoves {taskId inputHash resultJson : String}
    {usage : Usage} {c : CommitResult} (hcalls : usage.llmCalls ≤ 1)
    (hok : s.commitLlmStep runId taskId inputHash resultJson usage now = .ok (c, s')) :
    QuotaMoves s s' := by
  rcases commitLlmStep_cases hok with ⟨_, _, -, -, -, rfl⟩ |
    ⟨run, stepResults, -, hrun, -, hreserved, hinsert, -, rfl⟩
  · exact release_moves s _
  obtain ⟨reservation, hget⟩ := Option.isSome_iff_exists.mp hreserved
  refine .charge runId (taskId, inputHash) usage (accountOf run) (by simp [quota, hrun])
    ?_ ?_ ?_ ?_ ?_
  · exact List.mem_map.mpr ⟨reservation, Table.get?_mem hget, Table.get?_key hget⟩
  · show run.usage.llmCalls + usage.llmCalls ≤ run.usage.llmCalls + 1
    omega
  · intro j
    simp only [quota, release, get?_updateRun]
    split
    · next hj =>
      subst hj
      simp only [hrun, Option.map_some]
      rfl
    · rfl
  · rw [holds_release]
    rfl
  · simp only [quota, release, updateRun, Table.insert?_rows hinsert, List.map_append,
      List.map_singleton]

theorem apply_quotaMoves (casefold : String → String) (s : Store) (op : Op)
    (hop : oneCallPerCommit op = true) : QuotaMoves s (s.apply casefold op) := by
  by_cases htouch : touchesQuota op = true
  swap
  · exact .of_quota (apply_status casefold s (by simpa using htouch)).quota
  cases op with
  | createRun => exact .of_ok fun _ _ h => createRun_quotaMoves h
  | reacquire => exact reacquire_quotaMoves
  | deleteTerminal r c =>
    refine .of_ok fun b s' h => ?_
    obtain ⟨p, rfl⟩ := deleteTerminal_cases h
    exact deleteRuns_quotaMoves s p
  | pruneTerminal => exact deleteRuns_quotaMoves s _
  | deleteConversation c =>
    refine .of_ok fun b s' h => ?_
    obtain ⟨p, _, rfl⟩ := deleteConversation_cases h
    exact deleteRuns_quotaMoves s p
  | cacheStepResult => exact absurd hop (by simp [oneCallPerCommit])
  | beginLlmStep => exact .of_ok fun _ _ h => beginLlmStep_quotaMoves h
  | commitLlmStep => exact .of_ok fun _ _ h => commitLlmStep_quotaMoves (of_decide_eq_true hop) h
  | abortLlmStep r t h => exact release_moves s (r, t, h)
  | _ => exact absurd htouch (by simp [touchesQuota])

/-! ## Whole runs of the budget protocol -/

variable {casefold : String → String}

theorem quotaSound_init : QuotaSound {} where
  spent_eq h := absurd h (by simp [quota])
  within h := absurd h (by simp [quota])
  hold_account h := absurd h (by simp [quota, Table.empty])
  charge_account h := absurd h (by simp [quota, Table.empty])

theorem runs_quotaSound {s : Store} (h : Runs (step casefold) (fun _ op => oneCallPerCommit op) {} s) :
    QuotaSound s := by
  refine h.invariant QuotaSound (fun t op u hsound hop hstep => ?_) quotaSound_init
  obtain rfl := Option.some.inj hstep
  exact (apply_quotaMoves casefold t op hop).sound rfl hsound

def stepsOf (s : Store) (runId : String) : List StepResult :=
  s.stepResults.rows.filter fun r => r.runId = runId

def totalUsage (steps : List StepResult) : Usage :=
  (steps.map StepResult.usage).foldl Usage.add {}

theorem quota_charged (s : Store) (runId : String) :
    s.quota.charged {} Usage.add runId = totalUsage (s.stepsOf runId) := by
  simp only [Quota.charged, quota, totalUsage, stepsOf, List.filter_map, List.map_map]
  rfl

theorem release_of_none {k : StepKey} (h : s.reservations.get? k = none) : s.release k = s := by
  have hrows : (s.reservations.delete fun r => r.key = k) = s.reservations := by
    have hkeep : s.reservations.rows.filter (fun r => !decide (r.key = k)) =
        s.reservations.rows := by
      rw [List.filter_eq_self]
      intro r hr
      have hne := Table.get?_eq_none.mp h
      simp only [Bool.not_eq_true', decide_eq_false_iff_not]
      rintro rfl
      exact hne (List.mem_map_of_mem hr)
    rcases hres : s.reservations with ⟨rows, hunique⟩
    rw [hres] at hkeep
    simp only [Table.delete, Table.mk.injEq]
    exact hkeep
  rw [release, hrows]

theorem stepsOf_nodup (s : Store) (runId : String) :
    ((s.stepsOf runId).map fun r => (r.taskId, r.inputHash)).Nodup := by
  have hsub : (s.stepsOf runId).Nodup :=
    (List.Nodup.of_map _ s.stepResults.unique).filter _
  refine hsub.map_on ?_
  intro x hx y hy hxy
  obtain ⟨hx, hxid⟩ := List.mem_filter.mp hx
  obtain ⟨hy, hyid⟩ := List.mem_filter.mp hy
  refine Table.eq_of_key hx hy ?_
  obtain ⟨htask, hhash⟩ := Prod.mk.inj hxy
  have hid : x.runId = y.runId := (of_decide_eq_true hxid).trans (of_decide_eq_true hyid).symm
  rw [StepResult.key, StepResult.key, hid, htask, hhash]

/-- **The call budget holds and every step is charged once.** Along every run of the
budget protocol: calls made and reserved stay within a positive limit; the usage of a
run is the sum of the usages of its step results, whose keys are distinct; and a commit
without a reservation leaves the store as it is, returning the cached result when there
is one. -/
theorem llm_budget {s : Store} (h : Runs (step casefold) (fun _ op => oneCallPerCommit op) {} s) :
    (∀ run ∈ s.runs, 0 < run.limits.maxLlmCalls →
      run.usage.llmCalls + s.outstanding run.runId ≤ run.limits.maxLlmCalls) ∧
    (∀ run ∈ s.runs, run.usage = totalUsage (s.stepsOf run.runId) ∧
      ((s.stepsOf run.runId).map fun r => (r.taskId, r.inputHash)).Nodup) ∧
    (∀ runId taskId inputHash resultJson usage now,
      s.reservations.get? (runId, taskId, inputHash) = none →
      settle s (s.commitLlmStep runId taskId inputHash resultJson usage now) = s ∧
      ∀ cached, s.stepResults.get? (runId, taskId, inputHash) = some cached →
        ∃ run ∈ s.runs, run.runId = runId ∧
          s.commitLlmStep runId taskId inputHash resultJson usage now =
            .ok (⟨false, cached.resultJson, cached.usage, run.usage⟩, s)) := by
  have hsound := runs_quotaSound h
  have haccount : ∀ run ∈ s.runs, s.quota.accounts run.runId = some (accountOf run) := by
    intro run hrun
    simp [quota, Table.get?_of_mem hrun]
  refine ⟨?_, ?_, ?_⟩
  · intro run hrun hpos
    have hwithin := hsound.within (haccount run hrun) hpos
    rwa [quota_held] at hwithin
  · intro run hrun
    refine ⟨?_, stepsOf_nodup s run.runId⟩
    rw [← quota_charged]
    exact hsound.spent_eq (haccount run hrun)
  · intro runId taskId inputHash resultJson usage now hnone
    refine ⟨?_, ?_⟩
    · refine settle_rel (R := fun s s' => s' = s) rfl fun c s' hok => ?_
      rcases commitLlmStep_cases hok with ⟨_, _, -, -, -, rfl⟩ | ⟨_, _, -, -, -, hres, -⟩
      · exact release_of_none hnone
      · rw [hnone] at hres
        exact absurd hres (by simp)
    · intro cached hcached
      have hmem : ((runId, taskId, inputHash), cached.usage) ∈ s.quota.charges :=
        List.mem_map.mpr ⟨cached, Table.get?_mem hcached, by rw [Table.get?_key hcached]⟩
      obtain ⟨account, hacc⟩ := Option.isSome_iff_exists.mp (hsound.charge_account hmem)
      obtain ⟨run, hrun, -⟩ := Option.map_eq_some_iff.mp hacc
      refine ⟨run, Table.get?_mem hrun, Table.get?_key hrun, ?_⟩
      simp only [commitLlmStep, hcached, hrun, release_of_none hnone]

/-- A run of one call that has made it, and reports it a second time. -/
def chargedRun : Store :=
  (((startedRun { maxLlmCalls := 1 }).apply id (.beginLlmStep "run-1" "task" "hash" 2)).apply
    id (.commitLlmStep "run-1" "task" "hash" "null" { llmCalls := 1 } 3)).apply
    id (.commitLlmStep "run-1" "task" "hash" "null" { llmCalls := 1 } 4)

theorem llm_budget_charged :
    (∃ run ∈ chargedRun.runs, run.limits.maxLlmCalls = 1 ∧
      run.usage.llmCalls + chargedRun.outstanding run.runId ≤ 1) ∧
    ∃ run ∈ chargedRun.runs, chargedRun.commitLlmStep "run-1" "task" "hash" "late" {} 5 =
      .ok (⟨false, "null", { llmCalls := 1 }, run.usage⟩, chargedRun) := by
  have hruns : Runs (step id) (fun _ op => oneCallPerCommit op) {} chargedRun :=
    .snoc (.snoc (.snoc (.snoc (.snoc (.refl _) rfl rfl) rfl rfl) rfl rfl) rfl rfl) rfl rfl
  obtain ⟨hwithin, -, hcommit⟩ := llm_budget hruns
  have hlimit : (chargedRun.runs.get? "run-1").map (fun r => r.limits.maxLlmCalls) =
      some 1 := by decide
  obtain ⟨run, hget, hone⟩ := Option.map_eq_some_iff.mp hlimit
  have hmem := Table.get?_mem hget
  obtain ⟨run', hmem', -, hresult⟩ := (hcommit "run-1" "task" "hash" "late" {} 5
    (Option.isNone_iff_eq_none.mp (by decide))).2
    ⟨"run-1", "task", "hash", "null", { llmCalls := 1 }, 3⟩ rfl
  refine ⟨⟨run, hmem, hone, ?_⟩, run', hmem', hresult⟩
  have hle := hwithin run hmem (by rw [hone]; decide)
  rwa [hone] at hle

end Store

end PawFlow.WorkflowRun
