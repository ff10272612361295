import PawFlow.Core.Accounting
import PawFlow.Engine.Conservation

/-!
# Running a task once

`run_once` of the executor control (`engine/_continuous_exec_control.py`) shares `_commit` with
`_execute_task`. It looks at its input with `peek` and leaves it where it is, so the scheduler finds
the same FlowFile again.
-/

namespace PawFlow.Engine

open PawFlow.Lib PawFlow.Core
open scoped List

/-! ## What sends add -/

namespace State

/-- Every queue keeps its FlowFiles and may have got some of the given kind. -/
def Adds (P : Ref → Prop) (s t : State) : Prop :=
  ∀ c, ∃ new, (t.conns c).flowfiles ~ (s.conns c).flowfiles ++ new ∧ ∀ x ∈ new, P x

variable {P Q : Ref → Prop} {s t u : State}

theorem Adds.of_conns (P : Ref → Prop) (h : t.conns = s.conns) : s.Adds P t := by
  intro c
  rw [h]
  exact ⟨[], by rw [List.append_nil], fun _ hx => absurd hx List.not_mem_nil⟩

theorem Adds.trans (hst : s.Adds P t) (htu : t.Adds P u) : s.Adds P u := by
  intro c
  obtain ⟨xs, hxs, hP⟩ := hst c
  obtain ⟨ys, hys, hP'⟩ := htu c
  refine ⟨xs ++ ys, ?_, fun x hx => (List.mem_append.mp hx).elim (hP x) (hP' x)⟩
  rw [← List.append_assoc]
  exact hys.trans (hxs.append_right ys)

theorem Adds.mono (h : s.Adds P t) (hPQ : ∀ x, P x → Q x) : s.Adds Q t := by
  intro c
  obtain ⟨new, hnew, hP⟩ := h c
  exact ⟨new, hnew, fun x hx => hPQ x (hP x hx)⟩

theorem Adds.count_le (h : s.Adds P t) (c : ConnId) (x : Ref) :
    (s.conns c).flowfiles.count x ≤ (t.conns c).flowfiles.count x := by
  obtain ⟨new, hnew, -⟩ := h c
  rw [hnew.count_eq, List.count_append]
  exact Nat.le_add_right _ _

theorem adds_enqueue (w : Call) (s : State) (c : ConnId) {r : Ref} (hr : P r) :
    s.Adds P (s.enqueue w c r).2 := by
  intro d
  by_cases hd : d = c
  · subst hd
    have hconn : ((s.enqueue w d r).2.conns d) = ((s.conns d).enqueue s.heap w.now r).2 :=
      Function.update_self ..
    rw [hconn]
    cases hadmits : (s.conns d).admits (s.heap r).size with
    | false =>
      rw [Connection.enqueue_refused hadmits]
      exact ⟨[], by rw [List.append_nil], fun _ hx => absurd hx List.not_mem_nil⟩
    | true =>
      refine ⟨[r], ?_, fun x hx => List.mem_singleton.mp hx ▸ hr⟩
      rw [Connection.flowfiles, (Connection.enqueue_admitted hadmits).1]
      exact PrioritizedQueue.perm_flowfiles_push s.heap _ r
  · have hconn : (s.enqueue w c r).2.conns d = s.conns d := Function.update_of_ne hd _ _
    rw [hconn]
    exact ⟨[], by rw [List.append_nil], fun _ hx => absurd hx List.not_mem_nil⟩

end State

namespace Executor

variable {e : Executor} {w : Call} {k : Nat} {source : Option ConnId} {s s' t u : State}
  {o : Option Exn}

variable {x : Ref}

theorem adds_send {first : Bool} {c : ConnId}
    (h : e.send w k source x first c s = (t, o)) : s.Adds (IsCopy k x) t := by
  obtain ⟨copy, s₁, hpair, hcopy, hconns⟩ : ∃ copy s₁,
      (if first then (x, s) else s.clone w k x) = (copy, s₁) ∧ IsCopy k x copy ∧
        s₁.conns = s.conns := by
    cases first with
    | true => exact ⟨x, s, rfl, .inl rfl, rfl⟩
    | false => exact ⟨_, _, rfl, .inr ⟨s.uuids, rfl⟩, rfl⟩
  have hsame : s.Adds (IsCopy k x) s₁ := .of_conns _ hconns
  unfold send at h
  rw [hpair] at h
  dsimp only at h
  split at h
  · obtain rfl := (Prod.mk.inj h).1
    exact hsame
  · next prio _ =>
    obtain ⟨s₂, hs₂, hconns₂⟩ : ∃ s₂,
        (if prio ≠ 0 then s₁.setAttribute copy "priority" (toString prio) else s₁) = s₂ ∧
          s₂.conns = s₁.conns := by
      by_cases hzero : prio ≠ 0
      · exact ⟨_, rfl, by rw [if_pos hzero]; rfl⟩
      · exact ⟨_, rfl, by rw [if_neg hzero]⟩
    rw [hs₂] at h
    have hfirst : s.Adds (IsCopy k x) (s₂.enqueue w c copy).2 :=
      (hsame.trans (.of_conns _ hconns₂)).trans (State.adds_enqueue w s₂ c hcopy)
    split at h
    · obtain rfl := (Prod.mk.inj h).1
      exact hfirst
    · split at h
      · obtain rfl := (Prod.mk.inj h).1
        exact hfirst
      · obtain rfl := (Prod.mk.inj h).1
        exact hfirst.trans (State.adds_enqueue w _ _ hcopy)

theorem adds_sendAll {first : Bool} {cs : List ConnId}
    (h : e.sendAll w k source x first cs s = (t, o)) : s.Adds (IsCopy k x) t := by
  induction cs generalizing first s with
  | nil =>
    obtain rfl := (Prod.mk.inj h).1
    exact .of_conns _ rfl
  | cons c cs ih =>
    unfold sendAll at h
    split at h
    · next hsend =>
      obtain rfl := (Prod.mk.inj h).1
      exact adds_send hsend
    · next hsend => exact (adds_send hsend).trans (ih h)

variable {outgoing : List ConnId}

theorem adds_commitResult
    (h : e.commitResult w k source outgoing x s = (t, o)) : s.Adds (IsCopy k x) t := by
  refine State.Adds.trans (.of_conns _ ?_) (adds_sendAll h)
  unfold tag
  split <;> rfl

def OfResults (k : Nat) (results : List Ref) (r : Ref) : Prop := ∃ x ∈ results, IsCopy k x r

theorem adds_commitResults {results : List Ref}
    (h : e.commitResults w k source outgoing results s = (t, o)) :
    s.Adds (OfResults k results) t := by
  induction results generalizing s with
  | nil =>
    obtain rfl := (Prod.mk.inj h).1
    exact .of_conns _ rfl
  | cons x results ih =>
    have hhead : ∀ y, IsCopy k x y → OfResults k (x :: results) y := fun y hy =>
      ⟨x, List.mem_cons_self, hy⟩
    have htail : ∀ y, OfResults k results y → OfResults k (x :: results) y :=
      fun y ⟨z, hz, hy⟩ => ⟨z, List.mem_cons_of_mem _ hz, hy⟩
    unfold commitResults at h
    split at h
    · next hresult =>
      obtain rfl := (Prod.mk.inj h).1
      exact (adds_commitResult hresult).mono hhead
    · next hresult => exact ((adds_commitResult hresult).mono hhead).trans ((ih h).mono htail)

theorem adds_commit {taskId : String} {results : List Ref}
    (h : e.commit w k taskId source results s = (t, o)) : s.Adds (OfResults k results) t := by
  unfold commit at h
  dsimp only at h
  split at h
  · obtain rfl := (Prod.mk.inj h).1
    exact .of_conns _ rfl
  · split at h
    · next hsends =>
      obtain rfl := (Prod.mk.inj h).1
      exact adds_commitResults hsends
    · next hsends =>
      obtain rfl := (Prod.mk.inj h).1
      exact adds_commitResults hsends

/-- The task returned these results in attempt `k`. -/
def Returned (w : Call) (k : Nat) (results : List Ref) : Prop :=
  ∃ oks, (w.attempt k).outcome = .ok oks ∧ results = oks.getD []

/-! ## `run_once` -/

section RunOnce

variable (e : Executor) (w : Call) (taskId : String) (s : State)

def firstInput : Option (ConnId × Ref) :=
  (e.incoming s taskId).findSome? fun c => (s.conns c).queue.peek.map fun r => (c, r)

/-- The state in which `run_once` commits: the task has run. -/
def ran : State := { s with heap := (w.attempt 1).effect s.heap }

/-- `run_once`. The queue callbacks of the task are not connected here. -/
def runOnce : Except Exn (List Ref) × State :=
  match e.tasks.get? taskId with
  | none => (.error { message := "Task '" ++ taskId ++ "' not found", typeName := "FlowError" }, s)
  | some _ =>
    let source := (e.firstInput taskId s).map Prod.fst
    match (w.attempt 1).outcome with
    | .error x => (.error x, ran w s)
    | .ok results =>
      match e.commit w 1 taskId source (results.getD []) (ran w s) with
      | (s, some x) => (.error x, s)
      | (s, none) => (.ok (results.getD []), s)

/-- How many times the FlowFile left its queue between two states. -/
def departures (c : ConnId) (r : Ref) (s t : State) : Nat :=
  (s.conns c).flowfiles.count r - (t.conns c).flowfiles.count r

/-- `run_once` is one execution by the scheduler: the FlowFile it looked at leaves its queue once,
before the commit or during it, and where an execution succeeds the queues and the exit results are
the same. -/
def RunOnceAgrees (fuel : Nat) : Prop :=
  ∃ c r results t, e.firstInput taskId s = some (c, r) ∧ e.runOnce w taskId s = (.ok results, t) ∧
    departures c r s (ran w s) + departures c r (ran w s) t = 1 ∧
    ∀ k results' u, e.executeTask w fuel taskId s = some (.committed k results', u) →
      (∀ d, (t.conns d).flowfiles = (u.conns d).flowfiles) ∧ t.exitResults = u.exitResults

end RunOnce

variable {taskId : String} {task : Task} {results : List Ref} {c : ConnId} {r : Ref}

theorem runOnce_commits (h : e.runOnce w taskId s = (.ok results, t)) :
    Returned w 1 results ∧
      e.commit w 1 taskId ((e.firstInput taskId s).map Prod.fst) results (ran w s) = (t, none) := by
  unfold runOnce at h
  dsimp only at h
  split at h
  · cases (Prod.mk.inj h).1
  · split at h
    · cases (Prod.mk.inj h).1
    · next oks houtcome =>
      split at h
      · cases (Prod.mk.inj h).1
      · next hcommit =>
        obtain ⟨hresults, rfl⟩ := Prod.mk.inj h
        obtain rfl := Except.ok.inj hresults
        exact ⟨⟨oks, houtcome, rfl⟩, hcommit⟩

/-! ## The scheduler -/

/-! ## No agreement -/

/-- The scheduler sends the result on and leaves an empty queue, `run_once` leaves the input where
it was and a second one sends the result again. -/
def openState : State where
  heap _ := { processId := "p" }
  conns c :=
    if c = 0 then
      { sourceId := "in", targetId := "work",
        queue := { type := .fifo, maxSize := 1, items := [.obj 0] } }
    else
      { sourceId := "work", targetId := "out", queue := { type := .fifo, maxSize := 9 } }

end Executor

end PawFlow.Engine
