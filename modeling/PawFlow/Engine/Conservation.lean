import PawFlow.Engine.Sends

/-!
# What becomes of a FlowFile that a task took

`_execute_task` removes its input from the queue before it runs the task. `Accounted` lists the
places where the FlowFile, or what the task made of it, may be when the call returns. The call
loses it where it returns on a stop event, where an exception leaves the attempts, and where a
full connection refuses it and nobody looks at the answer; `Conserves` is the exact condition.
-/

namespace PawFlow.Engine

open PawFlow.Lib PawFlow.Core

namespace Executor

/-- Where a result is once the task committed it in attempt `k`: in `_exit_results` when the
task has no outgoing connection, else for each matching connection in its queue or back in the
source connection, as itself or as a clone. -/
def Placed (e : Executor) (taskId : String) (k : Nat) (src : ConnId) (s : State) (x : Ref) :
    Prop :=
  if e.outgoing s taskId = [] then x ∈ s.exitResults
  else ∀ c ∈ matching s (e.outgoing s taskId) x, Got k src x c s

/-- The FlowFile `i`, which the call took from `src`, is accounted for at its end. -/
inductive Accounted (e : Executor) (taskId : String) (i : Ref) (src : ConnId)
    (before after : State) (exit : Exit) : Prop
  /-- Every result of the task is placed. -/
  | results {k : Nat} {results : List Ref} (hexit : exit = .committed k results)
      (hplaced : ∀ x ∈ results, Placed e taskId k src after x)
  /-- The input is queued in every failure connection. -/
  | failed {c : ConnId} {cs : List ConnId} (hconns : e.failureConns after taskId = c :: cs)
      (hfirst : after.Holds c i)
      (hrest : ∀ d ∈ cs, ∃ r, (r = i ∨ ∃ k u, r = .clone i k u) ∧ after.Holds d r)
  | recorded {entry : FailureCheckpoint} {u : Nat}
      (hrecord : after.failureCheckpoints = before.failureCheckpoints ++ [entry])
      (hclone : entry.flowfile = some (.clone i 0 u))
  /-- It is back in a queue. -/
  | queued (hqueued : after.Queued i)

variable {e : Executor} {w : Call} {taskId : String} {task : Task} {src : ConnId} {n : Nat}
  {before s t : State} {exit : Exit}

variable {i : Ref} {fuel : Nat}

theorem accounted_iff :
    Accounted e taskId i src before t exit ↔
      (∃ k results, exit = .committed k results ∧ ∀ x ∈ results, Placed e taskId k src t x) ∨
      (∃ entry u, t.failureCheckpoints = before.failureCheckpoints ++ [entry] ∧
        entry.flowfile = some (.clone i 0 u)) ∨ t.Queued i := by
  constructor
  · intro h
    cases h with
    | results hexit hplaced => exact .inl ⟨_, _, hexit, hplaced⟩
    | failed _ hfirst _ => exact .inr (.inr ⟨_, hfirst⟩)
    | recorded hrecord hclone => exact .inr (.inl ⟨_, _, hrecord, hclone⟩)
    | queued hqueued => exact .inr (.inr hqueued)
  · rintro (⟨k, results, hexit, hplaced⟩ | ⟨entry, u, hrecord, hclone⟩ | hqueued)
    · exact .results hexit hplaced
    · exact .recorded hrecord hclone
    · exact .queued hqueued

theorem accounted_iff_queued (hexit : ∀ k results, exit ≠ .committed k results)
    (hsame : t.failureCheckpoints = before.failureCheckpoints) :
    Accounted e taskId i src before t exit ↔ t.Queued i := by
  rw [accounted_iff]
  constructor
  · rintro (⟨k, results, heq, -⟩ | ⟨entry, u, hrecord, -⟩ | hqueued)
    · exact absurd heq (hexit k results)
    · rw [hsame] at hrecord
      simp at hrecord
    · exact hqueued
  · exact fun hqueued => .inr (.inr hqueued)

/-! ## The condition -/

/-- A commit keeps the input: the task has no outgoing connection, or every offer of a result
fits at its turn, or the input itself stands in a queue already or is among the results and
finds room. -/
def CommitKeeps (e : Executor) (w : Call) (k : Nat) (taskId : String) (i : Ref) (src : ConnId)
    (results : List Ref) (s : State) : Prop :=
  e.outgoing s taskId = [] ∨ ResultsFit e w k src (e.outgoing s taskId) results s ∨
    s.Queued i ∨ OwnFits e w k src (e.outgoing s taskId) i results s

/-- A rollback keeps the input: the first failure connection, if there is one, has room. -/
def RollbackKeeps (e : Executor) (taskId : String) (i : Ref) (s : State) : Prop :=
  s.Queued i ∨ ∀ c ∈ (e.failureConns s taskId).head?, s.admits c i

/-- The attempts from `k` on keep the input. Where the call returns on a stop event or on an
exception of the progress callback, it does so only if the same object is queued already. -/
def AttemptsKeep (e : Executor) (w : Call) (taskId : String) (task : Task) (i : Ref)
    (src : ConnId) (attempts : Int) : Nat → Nat → State → Prop
  | 0, _, _ => True
  | fuel + 1, k, s =>
    let s := s.observe (w.attempt k).stopBefore
    if s.stopEvent then s.Queued i
    else
      match e.tryOnce w k taskId task (some src) s with
      | (_, .ok results) => CommitKeeps e w k taskId i src results (e.execute w k taskId task s).1
      | (s, .error x) =>
        if (w.attempt k).failedProgress.isSome then s.Queued i
        else if (attempts ≤ 0 ∨ k < attempts) ∧ x.isRetryable then
          let s := s.observe (w.attempt k).stopInWait
          if s.stopEvent then s.Queued i
          else AttemptsKeep e w taskId task i src attempts fuel (k + 1) s
        else RollbackKeeps e taskId i s

/-- The call keeps its input, from the state in which it took it. -/
def Conserves (e : Executor) (w : Call) (fuel : Nat) (taskId : String) (task : Task) (i : Ref)
    (src : ConnId) (s : State) : Prop :=
  match w.debugger, w.workflowRun, e.attemptsBound task with
  | none, none, .ok attempts | none, some (.ok _), .ok attempts =>
    AttemptsKeep e w taskId task i src attempts fuel 1
      (keepCheckpoint w (some i) (e.restoreReserved (some i) s)).2
  | _, _, _ => s.Queued i

/-! ## What the steps leave alone -/

theorem checkpoints_queueCall (s : State) (call : QueueCall) :
    (e.queueCall taskId s call).failureCheckpoints = s.failureCheckpoints := by
  have hfold : ∀ {α : Type} (f : State → α → ConnId × Connection Ref) (xs : List α) (s : State),
      (xs.foldl (fun s x => s.setConn (f s x).1 (f s x).2) s).failureCheckpoints =
        s.failureCheckpoints := by
    intro α f xs
    induction xs with
    | nil => exact fun _ => rfl
    | cons x xs ih => exact fun s => ih _
  cases call with
  | drainPending => exact hfold (fun s c => (c, _)) _ s
  | requeueFlowfiles flowfiles =>
    simp only [queueCall]
    split
    · rfl
    · next c cs _ => exact hfold (fun s r => (c, (s.conns c).requeue s.heap r)) _ s

theorem checkpoints_execute (e : Executor) (w : Call) (taskId : String) (task : Task) (k : Nat)
    (s : State) : (e.execute w k taskId task s).1.failureCheckpoints = s.failureCheckpoints := by
  have hcalls : ∀ (calls : List QueueCall) (s : State),
      (calls.foldl (e.queueCall taskId) s).failureCheckpoints = s.failureCheckpoints := by
    intro calls
    induction calls with
    | nil => exact fun _ => rfl
    | cons call calls ih => exact fun s => (ih _).trans (checkpoints_queueCall s call)
  unfold execute
  dsimp only
  split
  · rfl
  · have hdrain : (if task.drains then (w.attempt k).queueCalls.foldl (e.queueCall taskId) s
        else s).failureCheckpoints = s.failureCheckpoints := by
      split
      · exact hcalls _ s
      · rfl
    split
    · exact hdrain
    · split <;> exact hdrain

variable {k : Nat}

variable {results : List Ref}

theorem execute_before
    (h : e.execute w k taskId task s = (t, .ok results)) : ∀ x ∈ results, x.Before k := by
  unfold execute at h
  dsimp only at h
  split at h
  · exact absurd (Prod.mk.inj h).2 (by simp)
  · split at h
    · exact absurd (Prod.mk.inj h).2 (by simp)
    · next hoks houtcome =>
      split at h
      · exact absurd (Prod.mk.inj h).2 (by simp)
      · obtain rfl := Except.ok.inj (Prod.mk.inj h).2
        cases hoks with
        | none => simp
        | some results => exact (w.attempt k).existing results houtcome

theorem checkpoints_commit {o : Option Exn} (hbefore : ∀ x ∈ results, x.Before k)
    (h : e.commit w k taskId (some src) results s = (t, o)) :
    t.failureCheckpoints = s.failureCheckpoints := by
  unfold commit at h
  dsimp only at h
  split at h
  · obtain rfl := (Prod.mk.inj h).1
    rfl
  · split at h <;> obtain rfl := (Prod.mk.inj h).1
    · next hsends => exact (commitResults_grows hbefore hsends).checkpoints
    · next hsends => exact (commitResults_grows hbefore hsends).checkpoints

theorem checkpoints_tryOnce :
    (e.tryOnce w k taskId task (some src) s).1.failureCheckpoints = s.failureCheckpoints := by
  have hexecute := checkpoints_execute e w taskId task k s
  unfold tryOnce
  split
  · next s₁ x hrun => rwa [hrun] at hexecute
  · next s₁ results hrun =>
    rw [hrun] at hexecute
    split <;> next s₂ hcommit =>
      exact (checkpoints_commit (execute_before hrun) hcommit).trans hexecute

/-! ## The ends of a call -/

/-- **Commit.** -/
theorem accounted_commit
    (hbefore : ∀ x ∈ results, x.Before k) (hsame : s.failureCheckpoints = before.failureCheckpoints)
    (h : e.commit w k taskId (some src) results s = (t, none)) :
    Accounted e taskId (.obj n) src before (afterCommit taskId results t) (.committed k results) ↔
      CommitKeeps e w k taskId (.obj n) src results s := by
  have hcheckpoints : t.failureCheckpoints = before.failureCheckpoints :=
    (checkpoints_commit hbefore h).trans hsame
  have haccounted : Accounted e taskId (.obj n) src before (afterCommit taskId results t)
      (.committed k results) ↔ (∀ x ∈ results, Placed e taskId k src t x) ∨ t.Queued (.obj n) := by
    rw [accounted_iff]
    constructor
    · rintro (⟨k', results', heq, hplaced⟩ | ⟨entry, u, hrecord, -⟩ | hqueued)
      · obtain ⟨rfl, rfl⟩ := Exit.committed.inj heq
        exact .inl hplaced
      · replace hrecord : t.failureCheckpoints = before.failureCheckpoints ++ [entry] := hrecord
        rw [hcheckpoints] at hrecord
        simp at hrecord
      · exact .inr hqueued
    · rintro (hplaced | hqueued)
      · exact .inl ⟨k, results, rfl, hplaced⟩
      · exact .inr (.inr hqueued)
  rw [haccounted, CommitKeeps]
  unfold commit at h
  dsimp only at h
  split at h
  · next hempty =>
    rw [List.isEmpty_iff] at hempty
    obtain rfl := (Prod.mk.inj h).1
    have hexits : ∀ x ∈ results, Placed e taskId k src
        { s with exitResults := s.exitResults ++ results } x := by
      intro x hx
      have hout : e.outgoing { s with exitResults := s.exitResults ++ results } taskId = [] :=
        hempty
      simp only [Placed, hout, if_true]
      exact List.mem_append_right _ hx
    exact iff_of_true (.inl hexits) (.inl hempty)
  · next hne =>
    rw [List.isEmpty_iff] at hne
    split at h
    · exact absurd (Prod.mk.inj h).2 (by simp)
    · next s₁ hsends =>
      obtain rfl := (Prod.mk.inj h).1
      have hout := (commitResults_grows hbefore hsends).outgoing_eq e taskId
      have hplaced : (∀ x ∈ results, Placed e taskId k src s₁ x) ↔
          ResultsFit e w k src (e.outgoing s taskId) results s := by
        rw [← commitResults_got hbefore hsends]
        simp only [Placed, hout, if_neg hne]
      have hinput : Ref.Before k (.obj n) := trivial
      rw [hplaced, commitResults_queued hinput hsends]
      simp [hne]

theorem queued_sendFailures (cs : List ConnId) (s : State) :
    (sendFailures w k (.obj n) false cs s).Queued (.obj n) ↔ s.Queued (.obj n) := by
  induction cs generalizing s with
  | nil => exact Iff.rfl
  | cons c cs ih =>
    have hclone : (s.clone w k (.obj n)).2.Queued (.obj n) ↔ s.Queued (.obj n) := Iff.rfl
    unfold sendFailures
    simp only [Bool.false_eq_true, if_false]
    rw [ih, ← hclone]
    have hother : ∀ d, ((s.clone w k (.obj n)).2.enqueue w c
        (s.clone w k (.obj n)).1).2.Holds d (.obj n) ↔
          (s.clone w k (.obj n)).2.Holds d (.obj n) := by
      intro d
      rw [State.holds_enqueue]
      simp [State.clone]
    simp only [State.Queued, hother]

theorem checkpoints_sendFailures (first : Bool) (cs : List ConnId)
    (s : State) : (sendFailures w k i first cs s).failureCheckpoints = s.failureCheckpoints := by
  induction cs generalizing first s with
  | nil => rfl
  | cons c cs ih =>
    unfold sendFailures
    cases first <;> exact ih _ _

/-- **Rollback.** -/
theorem accounted_giveUp {u : Nat} {x : Exn}
    (hsame : s.failureCheckpoints = before.failureCheckpoints)
    (h : e.giveUp w k taskId (some (.obj n)) (some (.clone (.obj n) 0 u)) x s = (exit, t)) :
    Accounted e taskId (.obj n) src before t exit ↔ RollbackKeeps e taskId (.obj n) s := by
  unfold giveUp rollback at h
  cases hconns : e.failureConns s taskId with
  | nil =>
    rw [hconns] at h
    obtain rfl := (Prod.mk.inj h).2
    have hrespond : (e.respondError w taskId (.obj n) x s).failureCheckpoints =
        before.failureCheckpoints := by
      rw [← hsame]
      unfold respondError
      dsimp only
      split
      · split <;> rfl
      · rfl
    obtain ⟨entry, hrecord, hclone⟩ : ∃ entry,
        (e.discard taskId (some (.clone (.obj n) 0 u)) x
          (e.respondError w taskId (.obj n) x s)).failureCheckpoints =
            before.failureCheckpoints ++ [entry] ∧
        entry.flowfile = some (.clone (.obj n) 0 u) := by
      rw [← hrespond]
      unfold discard
      dsimp only
      split <;> exact ⟨_, rfl, rfl⟩
    exact iff_of_true (.recorded hrecord hclone) (.inr (by simp [hconns]))
  | cons c cs =>
    rw [hconns] at h
    obtain ⟨rfl, rfl⟩ := Prod.mk.inj h
    have hmark : ∀ d, (markFailed taskId (.obj n) x s).admits d (.obj n) ↔
        s.admits d (.obj n) := by
      intro d
      unfold markFailed State.admits
      dsimp only
      split <;> simp only [State.size_setAttribute] <;> rfl
    have hconns' : (markFailed taskId (.obj n) x s).conns = s.conns := by
      unfold markFailed
      dsimp only
      split <;> rfl
    have hcheckpoints : (markFailed taskId (.obj n) x s).failureCheckpoints =
        s.failureCheckpoints := by
      unfold markFailed
      dsimp only
      split <;> rfl
    rw [accounted_iff_queued (by simp)
      ((checkpoints_sendFailures true _ _).trans (hcheckpoints.trans hsame)), RollbackKeeps,
      hconns]
    unfold sendFailures
    simp only [if_true]
    rw [queued_sendFailures]
    simp only [State.Queued, State.holds_enqueue, hmark, List.head?_cons, Option.mem_def,
      Option.some.injEq, forall_eq']
    have hholds : ∀ d, (markFailed taskId (.obj n) x s).Holds d (.obj n) ↔
        s.Holds d (.obj n) := by
      intro d
      rw [State.Holds, State.Holds, hconns']
    simp only [hholds, and_true]
    constructor
    · rintro ⟨d, hold | ⟨-, hroom⟩⟩
      · exact .inl ⟨d, hold⟩
      · exact .inr hroom
    · rintro (⟨d, hold⟩ | hroom)
      · exact ⟨d, .inl hold⟩
      · exact ⟨c, .inr ⟨rfl, hroom⟩⟩

/-- **The attempts.** -/
theorem accounted_attemptLoop {u : Nat} {attempts : Int}
    (hsame : s.failureCheckpoints = before.failureCheckpoints)
    (h : e.attemptLoop w taskId task (some src) (some (.obj n)) (some (.clone (.obj n) 0 u))
      attempts fuel k s = some (exit, t)) :
    Accounted e taskId (.obj n) src before t exit ↔
      AttemptsKeep e w taskId task (.obj n) src attempts fuel k s := by
  induction fuel generalizing k s with
  | zero => exact absurd h (by simp [attemptLoop])
  | succ fuel ih =>
    unfold attemptLoop at h
    unfold AttemptsKeep
    dsimp only at h ⊢
    split at h
    · next hstop =>
      obtain ⟨rfl, rfl⟩ := Prod.mk.inj (Option.some.inj h)
      rw [if_pos hstop]
      exact accounted_iff_queued (by simp) hsame
    · next hstop =>
      rw [if_neg hstop]
      have htry : (e.tryOnce w k taskId task (some src)
          (s.observe (w.attempt k).stopBefore)).1.failureCheckpoints =
            before.failureCheckpoints := checkpoints_tryOnce.trans hsame
      cases hrun : e.tryOnce w k taskId task (some src)
          (s.observe (w.attempt k).stopBefore) with
      | mk s₁ outcome =>
        rw [hrun] at h htry
        cases outcome with
        | ok results =>
          obtain ⟨rfl, rfl⟩ := Prod.mk.inj (Option.some.inj h)
          -- the commit that went through started where `execute` ended
          unfold tryOnce at hrun
          split at hrun
          · exact absurd (Prod.mk.inj hrun).2 (by simp)
          · next s₂ results' hexecute =>
            split at hrun
            · exact absurd (Prod.mk.inj hrun).2 (by simp)
            · next s₃ hcommit =>
              obtain ⟨rfl, hok⟩ := Prod.mk.inj hrun
              obtain rfl := Except.ok.inj hok
              have hs₂ : s₂.failureCheckpoints = before.failureCheckpoints := by
                have hkept := checkpoints_execute e w taskId task k
                  (s.observe (w.attempt k).stopBefore)
                rw [hexecute] at hkept
                exact hkept.trans hsame
              simp only [hexecute]
              exact accounted_commit (execute_before hexecute) hs₂ hcommit
        | error x =>
          dsimp only at h ⊢
          cases hprogress : (w.attempt k).failedProgress with
          | some y =>
            rw [hprogress] at h
            obtain ⟨rfl, rfl⟩ := Prod.mk.inj (Option.some.inj h)
            exact accounted_iff_queued (by simp) htry
          | none =>
            rw [hprogress] at h
            simp only [Option.isSome_none, Bool.false_eq_true, if_false]
            dsimp only at h
            split at h
            · next hretry =>
              rw [if_pos hretry]
              split at h
              · next hwait =>
                obtain ⟨rfl, rfl⟩ := Prod.mk.inj (Option.some.inj h)
                rw [if_pos hwait]
                exact accounted_iff_queued (by simp) htry
              · next hwait =>
                rw [if_neg hwait]
                exact ih htry h
            · next hretry =>
              rw [if_neg hretry]
              exact accounted_giveUp htry (Option.some.inj h)

/-! ## The call -/

theorem checkpoints_dequeueFirst (cs : List ConnId) (s : State) :
    (dequeueFirst cs s).2.failureCheckpoints = s.failureCheckpoints := by
  induction cs generalizing s with
  | nil => rfl
  | cons c cs ih =>
    unfold dequeueFirst
    split
    · rfl
    · exact ih _

theorem checkpoints_takeInput (e : Executor) (taskId : String) (task : Task) (s : State) :
    (e.takeInput taskId task s).2.failureCheckpoints = s.failureCheckpoints := by
  unfold takeInput
  dsimp only
  split_ifs
  · rfl
  · rfl
  · split
    · exact checkpoints_dequeueFirst _ s
    · split
      · rfl
      · rfl
      · split <;> rfl

theorem restoreReserved_frame (i : Ref) :
    (e.restoreReserved (some i) s).conns = s.conns ∧
      (e.restoreReserved (some i) s).failureCheckpoints = s.failureCheckpoints := by
  have hfold : ∀ (attrs : List (String × String)) (s : State),
      (attrs.foldl (fun s a => s.setAttribute i a.1 a.2) s).conns = s.conns ∧
      (attrs.foldl (fun s a => s.setAttribute i a.1 a.2) s).failureCheckpoints =
        s.failureCheckpoints := by
    intro attrs
    induction attrs with
    | nil => exact fun _ => ⟨rfl, rfl⟩
    | cons a attrs ih => exact fun s => ih _
  exact hfold _ s

theorem accounted_start (hsame : s.failureCheckpoints = before.failureCheckpoints)
    (h : e.start w fuel taskId task (some (.obj n)) (some src) s = some (exit, t)) :
    Accounted e taskId (.obj n) src before t exit ↔
      match e.attemptsBound task with
      | .ok attempts => AttemptsKeep e w taskId task (.obj n) src attempts fuel 1
          (keepCheckpoint w (some (.obj n)) (e.restoreReserved (some (.obj n)) s)).2
      | .error _ => s.Queued (.obj n) := by
  obtain ⟨hconns, hcheckpoints⟩ := restoreReserved_frame (e := e) (s := s) (.obj n)
  unfold start at h
  dsimp only at h
  split at h
  · next x hbound =>
    obtain ⟨rfl, rfl⟩ := Prod.mk.inj (Option.some.inj h)
    rw [hbound]
    -- neither the checkpoint nor the error of the task touches a queue
    have hqueued : (e.restoreReserved (some (.obj n)) s).Queued (.obj n) ↔ s.Queued (.obj n) := by
      simp only [State.Queued, State.Holds, hconns]
    refine Iff.trans ?_ hqueued
    exact accounted_iff_queued (by simp) (hcheckpoints.trans hsame)
  · next attempts hbound =>
    rw [hbound]
    exact accounted_attemptLoop (hcheckpoints.trans hsame) h

theorem accounted_process (hsame : s.failureCheckpoints = before.failureCheckpoints)
    (h : e.process w fuel taskId task (some (.obj n)) (some src) s = some (exit, t))
    (hstale : exit ≠ .stale) (hdropped : exit ≠ .dropped) :
    Accounted e taskId (.obj n) src before t exit ↔
      Conserves e w fuel taskId task (.obj n) src s := by
  unfold process at h
  unfold Conserves
  cases hdebugger : w.debugger with
  | some x =>
    rw [hdebugger] at h
    obtain ⟨rfl, rfl⟩ := Prod.mk.inj (Option.some.inj h)
    exact accounted_iff_queued (by simp) hsame
  | none =>
    rw [hdebugger] at h
    dsimp only at h
    split at h
    · obtain ⟨rfl, rfl⟩ := Prod.mk.inj (Option.some.inj h)
      exact absurd rfl hstale
    · cases hrun : w.workflowRun with
      | none =>
        rw [hrun] at h
        rw [accounted_start hsame h]
        cases e.attemptsBound task <;> exact Iff.rfl
      | some run =>
        rw [hrun] at h
        cases run with
        | error x =>
          obtain ⟨rfl, rfl⟩ := Prod.mk.inj (Option.some.inj h)
          cases e.attemptsBound task <;> exact accounted_iff_queued (by simp) hsame
        | ok status =>
          dsimp only at h
          split at h
          · rw [accounted_start hsame h]
            cases e.attemptsBound task <;> exact Iff.rfl
          · obtain ⟨rfl, rfl⟩ := Prod.mk.inj (Option.some.inj h)
            exact absurd rfl hdropped

theorem accounted_inFlight (inFlight : PyDict String Nat) :
    Accounted e taskId i src before { t with inFlight } exit ↔
      Accounted e taskId i src before t exit := by
  rw [accounted_iff, accounted_iff]
  exact Iff.rfl

/-- **FlowFile conservation.** A FlowFile that a call took from a queue, and that was neither
stale nor dropped with its workflow run, is accounted for at the end of the call if and only
if the call conserves it. -/
theorem conserved_iff {fuel : Nat} (htask : e.tasks.get? taskId = some task)
    (htake : e.takeInput taskId task before = (.ok (.input (.obj n) src), s))
    (hcall : e.executeTask w fuel taskId before = some (exit, t))
    (hstale : exit ≠ .stale) (hdropped : exit ≠ .dropped) :
    Accounted e taskId (.obj n) src before t exit ↔
      Conserves e w fuel taskId task (.obj n) src s := by
  have hsame : s.failureCheckpoints = before.failureCheckpoints := by
    have hkept := checkpoints_takeInput e taskId task before
    rwa [htake] at hkept
  unfold executeTask at hcall
  simp only [htask, htake, Option.map_eq_some_iff, Prod.mk.injEq, Prod.exists] at hcall
  obtain ⟨exit', s', hprocess, rfl, rfl⟩ := hcall
  rw [accounted_inFlight, accounted_process hsame hprocess hstale hdropped]

/-! ## A small setting -/

/-- One task, fed by connection 0; connection 1 leads from it with the given relationship and
has room for no FlowFile. -/
def blockedState (relationship : String) : State where
  heap _ := { processId := "p" }
  conns c :=
    if c = 0 then
      { sourceId := "in", targetId := "work",
        queue := { type := .fifo, maxSize := 1, items := [.obj 0] } }
    else
      { sourceId := "work", targetId := "out", relationship,
        queue := { type := .fifo, maxSize := 0 } }

/-- The same once the task took its input. -/
def emptied (relationship : String) : State :=
  (blockedState relationship).setConn 0
    { sourceId := "in", targetId := "work", queue := { type := .fifo, maxSize := 1 } }

def oneTask : Executor where
  tasks := [("work", {})]
  connections := [0, 1]

/-- The stop event is set before the first attempt. -/
def stopCall : Call where
  attempt _ := { stopBefore := true, outcome := .ok none, existing := by simp }

/-- The task returns two new FlowFiles. -/
def twoResults : Call where
  attempt _ := {
    outcome := .ok (some [.obj 1, .obj 2])
    existing := by
      intro results h r hr
      obtain rfl := Option.some.inj (Except.ok.inj h)
      rcases List.mem_cons.mp hr with rfl | hr
      · trivial
      · obtain rfl := List.mem_singleton.mp hr
        trivial }

/-- The task fails for good. -/
def fatalCall : Call where
  attempt _ := {
    outcome := .error { message := "no", retryable := some false }
    existing := by simp }

/-- A FlowFile that is nowhere when the call has ended. -/
def Lost (w : Call) (before : State) : Prop :=
  ∃ s t exit, oneTask.takeInput "work" {} before = (.ok (.input (.obj 0) 0), s) ∧
    oneTask.executeTask w 1 "work" before = some (exit, t) ∧
    exit ≠ .stale ∧ exit ≠ .dropped ∧ ¬ Accounted oneTask "work" (.obj 0) 0 before t exit

theorem lost_of_not_conserves {relationship : String}
    (hprocess : oneTask.process w 1 "work" {} (some (.obj 0)) (some 0) (emptied relationship) =
      some (exit, t))
    (hstale : exit ≠ .stale) (hdropped : exit ≠ .dropped)
    (hnot : ¬ Conserves oneTask w 1 "work" {} (.obj 0) 0 (emptied relationship)) :
    Lost w (blockedState relationship) := by
  have htake : oneTask.takeInput "work" {} (blockedState relationship) =
      (.ok (.input (.obj 0) 0), emptied relationship) := rfl
  have hcall : oneTask.executeTask w 1 "work" (blockedState relationship) = some (exit,
      { t with inFlight := t.inFlight.set "work" ((t.inFlight.get? "work").getD 1 - 1) }) := by
    have htask : oneTask.tasks.get? "work" = some {} := rfl
    unfold executeTask
    simp only [htask, htake, hprocess, Option.map_some]
  refine ⟨emptied relationship, _, exit, htake, hcall, hstale, hdropped, ?_⟩
  have hsame : (emptied relationship).failureCheckpoints =
      (blockedState relationship).failureCheckpoints := rfl
  rw [accounted_inFlight, accounted_process hsame hprocess hstale hdropped]
  exact hnot

/-- A FlowFile is lost when the stop event is seen after it was dequeued, when a result finds
both its connection and the source connection full, and when the failure connection is full. -/
theorem flowfile_lost : Lost stopCall (blockedState "success") ∧
    Lost twoResults (blockedState "success") ∧ Lost fatalCall (blockedState "failure") := by
  have hqueued : ∀ relationship, ¬ (emptied relationship).Queued (.obj 0) := by
    rintro relationship ⟨c, hc⟩
    by_cases h : c = 0 <;>
      simp [State.Holds, emptied, blockedState, State.setConn, h, Connection.flowfiles,
        PrioritizedQueue.flowfiles] at hc
  refine ⟨lost_of_not_conserves rfl (by decide) (by decide) (hqueued "success"),
    lost_of_not_conserves rfl (by decide) (by decide) ?_,
    lost_of_not_conserves rfl (by decide) (by decide) ?_⟩
  · rintro (hout | hfits | hold | hown)
    · exact absurd hout (by decide)
    · -- the first result went back into the source connection, which is full now
      obtain ⟨-, ⟨hsecond, -⟩, -⟩ := hfits
      rcases hsecond with ⟨r, rfl | ⟨u, rfl⟩, hc | hsrc⟩ | hc | hsrc
      · exact absurd hc (by decide)
      · exact absurd hsrc (by decide)
      · exact absurd (show _ ∈ ([] : List Ref) from hc) (by simp)
      · exact absurd (show _ ∈ [Ref.obj 1] from hsrc) (by simp)
      · exact absurd hc (by decide)
      · exact absurd hsrc (by decide)
    · exact hqueued "success" hold
    · rcases hown with ⟨h, -⟩ | ⟨h, -⟩ | h
      · exact absurd h (by decide)
      · exact absurd h (by decide)
      · exact h
  · rintro (hold | hroom)
    · exact hqueued "failure" hold
    · exact absurd (hroom 1 rfl) (by decide)

/-- A call whose single result finds room in the source connection. -/
def oneResult : Call where
  attempt _ := {
    outcome := .ok (some [.obj 1])
    existing := by
      intro results h r hr
      obtain rfl := Option.some.inj (Except.ok.inj h)
      obtain rfl := List.mem_singleton.mp hr
      trivial }

theorem conserved_iff_one_result : ∃ t,
    oneTask.executeTask oneResult 1 "work" (blockedState "success") =
      some (.committed 1 [.obj 1], t) ∧
    Accounted oneTask "work" (.obj 0) 0 (blockedState "success") t (.committed 1 [.obj 1]) := by
  have htask : oneTask.tasks.get? "work" = some {} := rfl
  have htake : oneTask.takeInput "work" {} (blockedState "success") =
      (.ok (.input (.obj 0) 0), emptied "success") := rfl
  obtain ⟨t, hcall⟩ : ∃ t, oneTask.executeTask oneResult 1 "work" (blockedState "success") =
      some (.committed 1 [.obj 1], t) := ⟨_, rfl⟩
  refine ⟨t, hcall, (conserved_iff htask htake hcall (by decide) (by decide)).mpr ?_⟩
  have hroom : (emptied "success").admits 0 (.obj 1) := by decide
  exact .inr (.inl ⟨⟨.inr (.inr hroom), trivial⟩, trivial⟩)

end Executor

end PawFlow.Engine
