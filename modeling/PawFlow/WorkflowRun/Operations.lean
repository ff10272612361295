import PawFlow.Lib.Ledger
import PawFlow.Lib.Quota
import PawFlow.Lib.Runs
import PawFlow.WorkflowRun.Store

/-!
# The operations of the store and two views of them

`Op` lists the operations of the store and `Store.apply` runs one of them as a
transaction. Two views of the store carry the invariants: `ledger` (a run's claim is
its conversation, agent key, generation and status; the owner table is
`workflow_active_runs`) and `quota` (a run's call limit and usage, its reservations
and its step results). `apply_status` says once, for both views, what the operations
on statuses do.
-/

namespace PawFlow.WorkflowRun

open PawFlow.Lib

/-- A call of the store, with the clock reading it makes. -/
inductive Op
  | reserveGeneration (conversationId agentName : String) (now : Time)
  | createRun (context : Store.RunContext) (ingressSourceJson : String)
      (parentInvocationJson : Option String) (publishToConversation : Bool)
      (leaseSeconds now : Time)
  | transition (runId : String) (expected current : WorkflowRunStatus)
      (reason : Option String) (now : Time)
  | resumeWait (runId taskId flowfileJson : String) (leaseSeconds now : Time)
  | clearResume (runId : String)
  | pauseRetryableFailure (runId : String) (error : Store.RunError)
      (taskId flowfileJson : String) (leaseSeconds now : Time)
  | retryFailure (runId : String) (leaseSeconds now : Time)
  | recordError (runId : String) (error : Store.RunError)
  | fail (runId reason : String) (now : Time)
  | supersede (runId reason : String) (now : Time)
  | forceStop (runId reason : String) (now : Time)
  | markBudgetExceeded (runId reason : String) (now : Time)
  | stageTerminal (runId : String) (result : Store.TerminalResult)
      (payload : Store.TerminalPayload) (now : Time)
  | markMessageCommitted (runId : String) (now : Time)
  | markInboxAcknowledged (runId : String) (now : Time)
  | recordOutboxAttempt (eventId : String) (delivered : Bool) (now : Time)
  | complete (runId : String) (now : Time)
  | reacquire (runId : String) (leaseSeconds now : Time)
  | deleteTerminal (runId conversationId : String)
  | pruneTerminal (retentionSeconds now : Time)
  | deleteConversation (conversationId : String)
  | cacheStepResult (runId taskId inputHash resultJson : String) (usage : Usage)
      (now : Time)
  | beginLlmStep (runId taskId inputHash : String) (now : Time)
  | commitLlmStep (runId taskId inputHash resultJson : String) (usage : Usage)
      (now : Time)
  | abortLlmStep (runId taskId inputHash : String)

namespace Store

def apply (casefold : String → String) (s : Store) : Op → Store
  | .reserveGeneration c a now => settle s (s.reserveGeneration casefold c a now)
  | .createRun ctx i p pub l now => settle s (s.createRun casefold ctx i p pub l now)
  | .transition r e c reason now => settle s (s.transition r e c reason now)
  | .resumeWait r t f l now => settle s (s.resumeWait r t f l now)
  | .clearResume r => s.clearResume r
  | .pauseRetryableFailure r e t f l now =>
    settle s (s.pauseRetryableFailure r e t f l now)
  | .retryFailure r l now => (s.retryFailure r l now).2
  | .recordError r e => settle s (s.recordError r e)
  | .fail r reason now => settle s (s.fail r reason now)
  | .supersede r reason now => settle s (s.supersede r reason now)
  | .forceStop r reason now => settle s (s.forceStop r reason now)
  | .markBudgetExceeded r reason now => settle s (s.markBudgetExceeded r reason now)
  | .stageTerminal r res p now => settle s (s.stageTerminal r res p now)
  | .markMessageCommitted r now => (s.markMessageCommitted r now).2
  | .markInboxAcknowledged r now => (s.markInboxAcknowledged r now).2
  | .recordOutboxAttempt e d now => (s.recordOutboxAttempt e d now).2
  | .complete r now => (s.complete r now).2
  | .reacquire r l now => (s.reacquire r l now).2
  | .deleteTerminal r c => settle s (s.deleteTerminal r c)
  | .pruneTerminal ret now => (s.pruneTerminal ret now).2
  | .deleteConversation c => settle s (s.deleteConversation c)
  | .cacheStepResult r t h j u now => settle s (s.cacheStepResult r t h j u now)
  | .beginLlmStep r t h now => settle s (s.beginLlmStep r t h now)
  | .commitLlmStep r t h j u now => settle s (s.commitLlmStep r t h j u now)
  | .abortLlmStep r t h => (s.abortLlmStep r t h).2

/-- The store as a transition system: every call is enabled. -/
def step (casefold : String → String) (s : Store) (op : Op) : Option Store :=
  some (s.apply casefold op)

def startedRun (limits : Limits) : Store :=
  (({} : Store).apply id (.createRun
    { runId := "run-1", conversationId := "conv-1", agentName := "agent",
      userId := "user", channel := "web", permissionMode := "default",
      rootTurnId := "turn-1", runGeneration := 1, flowRefJson := "\x7b\x7d",
      deadlineAt := none, limits } "\x7b\x7d" none true (30 * second) 0)).apply id
    (.transition "run-1" .accepted .running none 1)

/-! ## The two views -/

def claimOf (r : Run) : LedgerClaim (String × String) Int WorkflowRunStatus :=
  ⟨(r.conversationId, r.agentKey), r.runGeneration, r.status⟩

def ledger (s : Store) : Ledger String (String × String) Int WorkflowRunStatus where
  claims i := (s.runs.get? i).map claimOf
  owners k := (s.active.get? k).map fun a => (a.runId, a.generation)

def live (status : WorkflowRunStatus) : Bool := !status.isTerminal

def accountOf (r : Run) : Account Usage := ⟨r.limits.maxLlmCalls, r.usage⟩

def quota (s : Store) : Quota String (String × String) Usage where
  accounts i := (s.runs.get? i).map accountOf
  holds := s.reservations.rows.map Reservation.key
  charges := s.stepResults.rows.map fun r => (r.key, r.usage)

/-- One operation changes the ledger by one move. -/
abbrev Moves (s s' : Store) : Prop := Ledger.Move live s.ledger s'.ledger

variable {s' : Store} {now : Time}

theorem Moves.of_tables {s : Store} (hr : s'.runs = s.runs)
    (ha : s'.active = s.active) : Moves s s' :=
  .keep (fun i => by simp only [ledger, hr]) fun k => by simp only [ledger, ha]

variable {s : Store} {runId : String} {f : Run → Run}
  {hf : ∀ r, (f r).runId = r.runId}

theorem get?_updateRun (s : Store) (runId : String) (f : Run → Run)
    (hf : ∀ r, (f r).runId = r.runId) (j : String) :
    (s.updateRun runId f hf).runs.get? j =
      if j = runId then (s.runs.get? j).map f else s.runs.get? j := by
  rw [updateRun, Table.get?_update]
  cases hrow : s.runs.get? j with
  | none => simp
  | some r =>
    have hid := Table.get?_key hrow
    by_cases hj : j = runId <;> simp [hid, hj]

theorem claims_updateRun (s : Store) (runId : String) (f : Run → Run)
    (hf : ∀ r, (f r).runId = r.runId) (j : String) :
    (s.updateRun runId f hf).ledger.claims j =
      if j = runId then (s.runs.get? j).map (claimOf ∘ f) else s.ledger.claims j := by
  simp only [ledger, get?_updateRun]
  split <;> simp [Option.map_map]

@[simp] theorem owners_updateRun : (s.updateRun runId f hf).ledger.owners = s.ledger.owners := rfl

variable {l : Time}

@[simp] theorem claims_renewLease :
    (s.renewLease runId l now).ledger.claims = s.ledger.claims := rfl

@[simp] theorem owners_renewLease : (s.renewLease runId l now).ledger.owners = s.ledger.owners := by
  funext k
  simp only [ledger, renewLease]
  rw [Table.get?_update, Option.map_map]
  congr 1
  funext a
  simp only [Function.comp_apply]
  split <;> rfl

@[simp] theorem claims_deleteActive : (s.deleteActive runId).ledger.claims = s.ledger.claims := rfl

theorem owners_deleteActive (s : Store) (runId : String) (k : String × String) :
    (s.deleteActive runId).ledger.owners k =
      (s.ledger.owners k).filter fun o => o.1 ≠ runId := by
  simp only [ledger, deleteActive, Table.get?_delete]
  cases s.active.get? k with
  | none => rfl
  | some a => by_cases ha : a.runId = runId <;> simp [Option.filter, ha]

theorem ledger_touch (s : Store) (runId : String) (f : Run → Run)
    (hf : ∀ r, (f r).runId = r.runId) (hclaim : ∀ r, claimOf (f r) = claimOf r) :
    (s.updateRun runId f hf).ledger = s.ledger := by
  have hclaims : (s.updateRun runId f hf).ledger.claims = s.ledger.claims := by
    funext j
    have hcomp : claimOf ∘ f = claimOf := funext hclaim
    rw [claims_updateRun, hcomp]
    split <;> rfl
  exact congrArg (Ledger.mk · s.ledger.owners) hclaims

theorem quota_touch (s : Store) (runId : String) (f : Run → Run)
    (hf : ∀ r, (f r).runId = r.runId) (hacc : ∀ r, accountOf (f r) = accountOf r) :
    (s.updateRun runId f hf).quota = s.quota := by
  have haccounts : (s.updateRun runId f hf).quota.accounts = s.quota.accounts := by
    funext j
    have hcomp : accountOf ∘ f = accountOf := funext hacc
    simp only [quota, get?_updateRun]
    split
    · rw [Option.map_map, hcomp]
    · rfl
  exact congrArg (Quota.mk · s.quota.holds s.quota.charges) haccounts

/-- **What an operation on statuses does**: one move of the ledger, and nothing to
the quota. -/
structure StatusMove (s s' : Store) : Prop where
  moves : Moves s s'
  quota : s'.quota = s.quota

theorem Moves.of_ledger {s : Store} (h : s'.ledger = s.ledger) : Moves s s' :=
  .keep (fun i => by rw [h]) fun k => by rw [h]

theorem StatusMove.refl (s : Store) : StatusMove s s := ⟨.of_ledger rfl, rfl⟩

theorem StatusMove.of_views {s : Store} (hl : s'.ledger = s.ledger)
    (hq : s'.quota = s.quota) : StatusMove s s' := ⟨.of_ledger hl, hq⟩

theorem StatusMove.touch (s : Store) (runId : String) (f : Run → Run)
    (hf : ∀ r, (f r).runId = r.runId) (hclaim : ∀ r, claimOf (f r) = claimOf r)
    (hacc : ∀ r, accountOf (f r) = accountOf r) : StatusMove s (s.updateRun runId f hf) :=
  .of_views (ledger_touch s runId f hf hclaim) (quota_touch s runId f hf hacc)

theorem StatusMove.advance {row : Run} (f : Run → Run)
    (hf : ∀ r, (f r).runId = r.runId) (p : WorkflowRunStatus)
    (hrow : s.runs.get? runId = some row) (hlive : live row.status = true)
    (hlive' : live p = true) (hclaim : claimOf (f row) = { claimOf row with phase := p })
    (hc : s'.ledger.claims = (s.updateRun runId f hf).ledger.claims)
    (ho : s'.ledger.owners = s.ledger.owners)
    (hacc : ∀ r, accountOf (f r) = accountOf r)
    (hq : s'.quota = (s.updateRun runId f hf).quota) : StatusMove s s' := by
  refine ⟨?_, hq.trans (quota_touch s runId f hf hacc)⟩
  refine Ledger.Move.advance runId (claimOf row) p (by simp [ledger, hrow]) hlive hlive'
    (fun j => ?_) fun k => by rw [ho]
  rw [hc, claims_updateRun]
  split
  · next hj => simp [hj, hrow, hclaim]
  · rfl

theorem StatusMove.settle {row : Run} (f : Run → Run)
    (hf : ∀ r, (f r).runId = r.runId) (p : WorkflowRunStatus)
    (hrow : s.runs.get? runId = some row) (hlive : live row.status = true)
    (hdead : live p = false) (hclaim : claimOf (f row) = { claimOf row with phase := p })
    (hc : s'.ledger.claims = (s.updateRun runId f hf).ledger.claims)
    (ho : s'.ledger.owners = (s.deleteActive runId).ledger.owners)
    (hacc : ∀ r, accountOf (f r) = accountOf r)
    (hq : s'.quota = (s.updateRun runId f hf).quota) : StatusMove s s' := by
  refine ⟨?_, hq.trans (quota_touch s runId f hf hacc)⟩
  refine Ledger.Move.settle runId (claimOf row) p (by simp [ledger, hrow]) hlive hdead
    (fun j => ?_) fun k => ?_
  · rw [hc, claims_updateRun]
    split
    · next hj => simp [hj, hrow, hclaim]
    · rfl
  · rw [ho, owners_deleteActive]

/-! ## The operations on statuses -/

theorem ledger_forgetResume (s : Store) (runId : String) (c : Prop) [Decidable c] :
    (if c then s.updateRun runId forgetResume forgetResume_runId else s).ledger = s.ledger := by
  split
  · exact ledger_touch s runId forgetResume _ fun _ => rfl
  · rfl

theorem quota_forgetResume (s : Store) (runId : String) (c : Prop) [Decidable c] :
    (if c then s.updateRun runId forgetResume forgetResume_runId else s).quota = s.quota := by
  split
  · exact quota_touch s runId forgetResume _ fun _ => rfl
  · rfl

variable {b : Bool}

theorem transition_status {expected current : WorkflowRunStatus} {reason : Option String}
    (h : s.transition runId expected current reason now = .ok (b, s')) : StatusMove s s' := by
  obtain ⟨_, hvalid, h⟩ := bind_ok h
  have hexpected := not_isTerminal_of_validate hvalid
  split at h
  · obtain ⟨-, rfl⟩ := ok_pair_inj h
    exact StatusMove.refl s
  next row hrow =>
    split at h
    · obtain ⟨-, rfl⟩ := ok_pair_inj h
      exact StatusMove.refl s
    next hstatus =>
      obtain ⟨-, rfl⟩ := ok_pair_inj h
      have hlive : live row.status = true := by
        rw [not_not] at hstatus
        simp [live, hstatus, hexpected]
      by_cases hterm : current.isTerminal = true
      · refine StatusMove.settle (enter current reason now) (enter_runId current reason now)
          current hrow hlive (by simp [live, hterm]) rfl ?_ ?_ (fun _ => rfl) ?_
        · rw [ledger_forgetResume, if_pos hterm, claims_deleteActive]
        · rw [ledger_forgetResume, if_pos hterm]
          rfl
        · rw [quota_forgetResume, if_pos hterm]
          rfl
      · refine StatusMove.advance (enter current reason now) (enter_runId current reason now)
          current hrow hlive (by simp [live, hterm]) rfl ?_ ?_ (fun _ => rfl) ?_
        · rw [ledger_forgetResume, if_neg hterm]
        · rw [ledger_forgetResume, if_neg hterm, owners_updateRun]
        · rw [quota_forgetResume, if_neg hterm]

variable {flowfileJson taskId : String}

theorem resumeWait_status
    (h : s.resumeWait runId taskId flowfileJson l now = .ok (b, s')) : StatusMove s s' := by
  obtain ⟨runId, -, h⟩ := bind_ok h
  obtain ⟨taskId, -, h⟩ := bind_ok h
  split at h
  · obtain ⟨-, rfl⟩ := ok_pair_inj h
    exact StatusMove.refl s
  next row hrow =>
    split at h
    · obtain ⟨-, rfl⟩ := ok_pair_inj h
      exact StatusMove.refl s
    next hstatus =>
      split at h
      · obtain ⟨-, rfl⟩ := ok_pair_inj h
        exact StatusMove.refl s
      · obtain ⟨-, rfl⟩ := ok_pair_inj h
        rw [not_not] at hstatus
        exact StatusMove.advance _ (resumeAt_runId _ taskId flowfileJson now) .running hrow
          (by rw [hstatus]; rfl) rfl rfl claims_renewLease (by simp)
          (fun _ => rfl) rfl

theorem pauseRetryableFailure_status {error : RunError}
    (h : s.pauseRetryableFailure runId error taskId flowfileJson l now = .ok (b, s')) :
    StatusMove s s' := by
  unfold pauseRetryableFailure at h
  split at h
  · exact absurd h (by simp)
  obtain ⟨taskId, -, h⟩ := bind_ok h
  split at h
  · obtain ⟨-, rfl⟩ := ok_pair_inj h
    exact StatusMove.refl s
  next row hrow =>
    split at h
    · next hcond =>
      obtain ⟨-, rfl⟩ := ok_pair_inj h
      have hstatus : row.status = .running :=
        of_decide_eq_true (Bool.and_eq_true_iff.mp hcond).1
      exact StatusMove.advance _ (pauseAt_runId error taskId flowfileJson now)
        .retryableFailed hrow (by rw [hstatus]; rfl) rfl rfl claims_renewLease (by simp)
        (fun _ => rfl) rfl
    · obtain ⟨-, rfl⟩ := ok_pair_inj h
      exact StatusMove.refl s

theorem retryFailure_status : StatusMove s (s.retryFailure runId l now).2 := by
  unfold retryFailure
  split
  · exact StatusMove.refl s
  next row hrow =>
    split
    · exact StatusMove.refl s
    next hguard =>
      split
      · exact StatusMove.refl s
      · have hstatus : row.status = .retryableFailed := by
          by_contra hne
          exact hguard (by simp [hne])
        exact StatusMove.advance _ (retryAt_runId _ now) .running hrow
          (by rw [hstatus]; rfl) rfl rfl claims_renewLease (by simp)
          (fun _ => rfl) rfl

theorem transitionBy_status {target : WorkflowRunStatus → Option WorkflowRunStatus}
    {reason : String}
    (h : s.transitionBy target runId reason now = .ok (b, s')) : StatusMove s s' := by
  unfold transitionBy at h
  split at h
  · obtain ⟨-, rfl⟩ := ok_pair_inj h
    exact StatusMove.refl s
  · split at h
    · obtain ⟨-, rfl⟩ := ok_pair_inj h
      exact StatusMove.refl s
    · exact transition_status h

theorem stageTerminal_status {result : TerminalResult} {payload : TerminalPayload} {r : Run}
    (h : s.stageTerminal runId result payload now = .ok (r, s')) : StatusMove s s' := by
  obtain ⟨assistantMsgId, -, h⟩ := bind_ok h
  obtain ⟨eventId, -, h⟩ := bind_ok h
  split at h
  · exact absurd h (by simp [throw, throwThe, MonadExceptOf.throw])
  next terminalStatus _ =>
  split at h
  · exact absurd h (by simp [throw, throwThe, MonadExceptOf.throw])
  next row hrow =>
  split at h
  · split at h
    · obtain ⟨-, rfl⟩ := ok_pair_inj h
      exact StatusMove.refl s
    · exact absurd h (by simp [throw, throwThe, MonadExceptOf.throw])
  split at h
  · exact absurd h (by simp [throw, throwThe, MonadExceptOf.throw])
  next hstatus =>
  rw [not_not] at hstatus
  -- whether or not the outbox row is new, the run itself moves to `committing`
  have hadvance : ∀ outbox : Table String OutboxRow OutboxRow.eventId,
      StatusMove s { s.updateRun runId
        (stageAt result payload assistantMsgId eventId terminalStatus now)
        (stageAt_runId result payload assistantMsgId eventId terminalStatus now) with
        outbox } := by
    intro outbox
    exact StatusMove.advance _ (stageAt_runId _ _ _ _ _ _) .committing hrow
      (by rw [hstatus]; rfl) rfl rfl rfl rfl (fun _ => rfl) rfl
  dsimp only at h
  split at h
  · obtain ⟨-, rfl⟩ := ok_pair_inj h
    exact hadvance _
  · split at h
    · exact absurd h (by simp [throw, throwThe, MonadExceptOf.throw])
    · obtain ⟨-, rfl⟩ := ok_pair_inj h
      exact hadvance _

theorem markCommitting_status (set : Run → Run) {hset : ∀ r, (set r).runId = r.runId}
    (hclaim : ∀ r, claimOf (set r) = claimOf r) (hacc : ∀ r, accountOf (set r) = accountOf r) :
    StatusMove s (s.markCommitting runId set hset now).2 := by
  unfold markCommitting
  split
  · exact StatusMove.refl s
  · split
    · exact StatusMove.touch s runId _ _ (fun r => hclaim r) fun r => hacc r
    · exact StatusMove.refl s

theorem complete_status : StatusMove s (s.complete runId now).2 := by
  unfold complete
  split
  · exact StatusMove.refl s
  next row hrow =>
    split
    · exact StatusMove.refl s
    next hstatus =>
      rw [not_not] at hstatus
      dsimp only
      split
      · exact StatusMove.refl s
      · split
        · exact StatusMove.refl s
        next hterminal =>
          exact StatusMove.settle _ (completeAt_runId row.terminalStatus now) row.terminalStatus
            hrow (by rw [hstatus]; rfl) (by simpa [live] using hterminal) rfl rfl rfl
            (fun _ => rfl) rfl

/-- Operations that create or delete runs, or work on the budget tables. -/
def touchesQuota : Op → Bool
  | .createRun .. | .reacquire .. | .deleteTerminal .. | .pruneTerminal ..
  | .deleteConversation .. | .cacheStepResult .. | .beginLlmStep ..
  | .commitLlmStep .. | .abortLlmStep .. => true
  | _ => false

theorem StatusMove.of_ok {β : Type} {x : Except StoreError (β × Store)}
    (h : ∀ b s', x = .ok (b, s') → StatusMove s s') : StatusMove s (Lib.settle s x) :=
  settle_rel (StatusMove.refl s) h

/-- **All other operations only move statuses.** -/
theorem apply_status (casefold : String → String) (s : Store) {op : Op}
    (hop : touchesQuota op = false) : StatusMove s (s.apply casefold op) := by
  cases op with
  | reserveGeneration c a now =>
    refine StatusMove.of_ok fun b s' h => ?_
    obtain ⟨_, -, h⟩ := bind_ok h
    obtain ⟨_, -, h⟩ := bind_ok h
    obtain ⟨-, rfl⟩ := ok_pair_inj h
    exact StatusMove.of_views rfl rfl
  | transition => exact StatusMove.of_ok fun _ _ h => transition_status h
  | resumeWait => exact StatusMove.of_ok fun _ _ h => resumeWait_status h
  | clearResume r => exact StatusMove.touch s r _ _ (fun _ => rfl) fun _ => rfl
  | pauseRetryableFailure =>
    exact StatusMove.of_ok fun _ _ h => pauseRetryableFailure_status h
  | retryFailure => exact retryFailure_status
  | recordError r e =>
    refine StatusMove.of_ok fun b s' h => ?_
    unfold recordError at h
    split at h
    · exact absurd h (by simp)
    · obtain ⟨-, rfl⟩ := ok_pair_inj h
      exact StatusMove.touch s r _ _ (fun _ => rfl) fun _ => rfl
  | fail => exact StatusMove.of_ok fun _ _ h => transitionBy_status h
  | supersede => exact StatusMove.of_ok fun _ _ h => transitionBy_status h
  | forceStop => exact StatusMove.of_ok fun _ _ h => transitionBy_status h
  | markBudgetExceeded => exact StatusMove.of_ok fun _ _ h => transitionBy_status h
  | stageTerminal => exact StatusMove.of_ok fun _ _ h => stageTerminal_status h
  | markMessageCommitted r now =>
    exact markCommitting_status (fun r => { r with messageCommitted := true })
      (fun _ => rfl) fun _ => rfl
  | markInboxAcknowledged r now =>
    exact markCommitting_status (fun r => { r with inboxAcknowledged := true })
      (fun _ => rfl) fun _ => rfl
  | recordOutboxAttempt => exact StatusMove.of_views rfl rfl
  | complete => exact complete_status
  | _ => exact absurd hop (by simp [touchesQuota])

end Store

end PawFlow.WorkflowRun
