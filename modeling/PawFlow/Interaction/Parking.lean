import PawFlow.Interaction.Calls

/-!
# What `park_wait` leaves in the table

`park_wait` returns a wait id and its caller lets go of the FlowFile. The id is a hash of signal,
instance, task and process id, and a row that has it is taken for the wait, whatever became of it.
-/

namespace PawFlow.Interaction

open PawFlow.Lib PawFlow.Core

/-- Same process id, content and attributes. -/
structure SameData (f g : FlowFile) : Prop where
  processId : f.processId = g.processId
  content : f.content = g.content
  attributes : ∀ key, f.getAttribute key = g.getAttribute key

theorem SameData.refl (f : FlowFile) : SameData f f := ⟨rfl, rfl, fun _ => rfl⟩

namespace Store

variable (P : Platform)

/-- The row of the returned wait id still has the FlowFile to deliver. -/
def Kept (s : Store) (park : Park) : Prop :=
  ∃ w, s.waits.get? (waitIdOf P park) = some w ∧ w.status ≠ .delivered ∧
    SameData w.flowfile park.flowfile

/-- The wait id is free, or stands for the same FlowFile, which is not delivered yet. -/
def Parkable (s : Store) (park : Park) : Prop :=
  ∀ w, s.waits.get? (waitIdOf P park) = some w →
    w.status ≠ .delivered ∧ SameData w.flowfile park.flowfile

/-- The label lets a call of `park_wait` return a wait id. -/
def ParksAt (p : System) (a : PoolLabel Task Env) (park : Park) : Prop :=
  ∃ i env, a = .advance i env ∧ p.next i = some (.parkInsert park) ∧ park.flowfile.processId ≠ ""

/-- No step of the run drops the FlowFile of a wait id that it returns. -/
def NeverDropped (p : System) (a : PoolLabel Task Env) : Prop :=
  ∀ park p', ParksAt p a park → step P p a = some p' → Kept P p'.state park

/-- Every wait id that a step returns is free, or stands for the same undelivered FlowFile. -/
def ParksFresh (p : System) (a : PoolLabel Task Env) : Prop :=
  ∀ park, ParksAt p a park → Parkable P p.state park

section

variable {P} {s : Store} {park : Park}

theorem get?_execParkInsert (now : Time) (hid : park.flowfile.processId ≠ "") :
    (s.execParkInsert P park now).1.waits.get? (waitIdOf P park) =
      some ((s.waits.get? (waitIdOf P park)).getD (parkedWait P park now)) := by
  have hwaits : (s.execParkInsert P park now).1.waits =
      (s.insertWait (parkedWait P park now)).waits := by
    simp [execParkInsert, hid, record]
  rw [hwaits, insertWait]
  split
  · next waits hinsert =>
    obtain ⟨hnone, hget⟩ := Table.insert?_eq_some hinsert
    have hfree : s.waits.get? (waitIdOf P park) = none := hnone
    rw [hget, hfree]
    exact if_pos rfl
  · next hinsert =>
    obtain ⟨w, hw⟩ := Option.ne_none_iff_exists'.mp (Table.insert?_eq_none hinsert)
    have htaken : s.waits.get? (waitIdOf P park) = some w := hw
    rw [htaken]
    rfl

theorem kept_execParkInsert (now : Time) (hid : park.flowfile.processId ≠ "") :
    Kept P (s.execParkInsert P park now).1 park ↔ Parkable P s park := by
  unfold Kept Parkable
  rw [get?_execParkInsert now hid]
  cases hget : s.waits.get? (waitIdOf P park) with
  | none =>
    refine iff_of_true ⟨_, rfl, ?_, SameData.refl _⟩ (by simp)
    show WaitStatus.waiting ≠ .delivered
    decide
  | some w => simp

end

theorem state_of_parksAt {p p' : System} {a : PoolLabel Task Env} {park : Park}
    (hpark : ParksAt p a park) (hstep : step P p a = some p') :
    ∃ now, p'.state = (p.state.execParkInsert P park now).1 := by
  obtain ⟨i, env, rfl, hnext, -⟩ := hpark
  rcases Pool.step_cases hstep with ⟨t, hentry, hstate, hpending⟩ |
    ⟨j, t, env', rest, heq, hnext', hstate, -, -⟩
  · simp only [step, Pool.step] at hstep
    split at hstep
    · next t' ts hcall =>
      obtain rfl := Option.some.inj hstep
      have ht : t' = .parkInsert park := by simpa [Pool.next, hcall] using hnext
      exact ⟨env.now, by rw [ht]; rfl⟩
    · exact absurd hstep (by simp)
  · obtain ⟨rfl, rfl⟩ : i = j ∧ env = env' := by simpa using heq
    obtain rfl : Task.parkInsert park = t := Option.some.inj (hnext.symm.trans hnext')
    exact ⟨env.now, hstate⟩

/-- **Parked waits are never dropped** exactly where every returned wait id was free or stood for
the same FlowFile, still to be delivered: over every history of the store. -/
theorem parked_never_dropped (labels : List (PoolLabel Task Env)) :
    AllSteps (step P) (NeverDropped P) initial labels ↔
      AllSteps (step P) (ParksFresh P) initial labels := by
  refine allSteps_congr (fun _ => True) (fun p a p' _ hstep => ⟨trivial, ?_⟩) trivial
  constructor
  · intro h park hpark
    obtain ⟨now, hstate⟩ := state_of_parksAt P hpark hstep
    have hkept := h park p' hpark hstep
    rw [hstate, kept_execParkInsert now hpark.choose_spec.choose_spec.2.2] at hkept
    exact hkept
  · intro h park q hpark hq
    obtain ⟨now, hstate⟩ := state_of_parksAt P hpark hq
    rw [hstate, kept_execParkInsert now hpark.choose_spec.choose_spec.2.2]
    exact h park hpark

/-- A FlowFile of a loop: it waits, is released, and waits again. -/
def loopingPark : Park where
  signalId := "go"
  instanceId := "flow-1"
  taskId := "wait"
  flowfile := { processId := "ff-1" }
  timeout := 0

/-- It waits, its signal is notified, it is delivered, and it is about to wait again. -/
def loopedBack : List (PoolLabel Task Env) :=
  [.start (.parkWait loopingPark), .advance 0 {}, .advance 0 {},
    .start (.notifySignal none "go" (.int 1)), .advance 1 {}, .advance 1 {}, .advance 1 {},
    .advance 1 {}, .start (.parkWait loopingPark), .advance 2 {}]

/-- The second wait gets the id of the delivered row, and the FlowFile is gone. -/
theorem not_never_dropped_loopedBack :
    ¬ ∀ labels, AllSteps (step plainPlatform) (NeverDropped plainPlatform) initial labels := by
  intro h
  obtain ⟨p, p', hp, hlast, hnext, hstatus⟩ : ∃ p p', loopedBack.foldlM (step plainPlatform)
      initial = some p ∧ step plainPlatform p (.advance 2 {}) = some p' ∧
      p.next 2 = some (.parkInsert loopingPark) ∧
      (p'.state.waits.get? (waitIdOf plainPlatform loopingPark)).map Wait.status =
        some .delivered := ⟨_, _, rfl, rfl, rfl, by decide⟩
  have hnever := (h (loopedBack ++ [.advance 2 {}])).at_last hp hlast
  obtain ⟨w, hw, hundelivered, -⟩ := hnever loopingPark p' ⟨2, {}, rfl, hnext, by decide⟩ hlast
  rw [hw] at hstatus
  exact hundelivered (Option.some.inj hstatus)

end Store

end PawFlow.Interaction
