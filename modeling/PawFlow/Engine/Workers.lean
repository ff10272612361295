import PawFlow.Lib.PyDict
import PawFlow.Lib.Runs

/-!
# Workers in flight

How the continuous executor counts its workers: the submitting part of `_scheduler_loop` and the
`finally` of `_execute_task` (`engine/_continuous_exec_run.py`), `start` and `stop`
(`engine/continuous_executor.py`). Their threads take turns; `stop` sets its event and waits for
the scheduler, ten seconds at most, before it shuts the pools down.
-/

namespace PawFlow.Engine.Workers

open PawFlow.Lib

/-- What the loop finds for a task that may run. -/
inductive Input
  | nothing
  | queued (n : Nat)
  | source

/-- A scheduler thread, and how many slots of a task it still has to fill. -/
structure Scheduler where
  taskId : String := ""
  slots : Nat := 0
deriving DecidableEq

structure Executor where
  maxInstances : PyDict String Int
  inFlight : PyDict String Nat := []
  stopEvent : Bool := false
  /-- `_pool` and `_interactive_pool` are set. -/
  pools : Bool := false
  schedulers : List Scheduler := []
  /-- The tasks of the submitted workers that have not started. -/
  submitted : List String := []
  /-- The same in pools that a later start has replaced. -/
  replaced : List String := []
  running : List String := []
deriving DecidableEq

inductive Op
  | start
  | setStopEvent
  | shutdown
  | look (i : Nat) (taskId : String) (input : Input)
  | submit (i : Nat) (hasInput : Bool)
  | leave (i : Nat) (autoStop : Bool)
  | begin (taskId : String)
  | beginReplaced (taskId : String)
  | finish (taskId : String)

namespace Executor

variable (e : Executor) (taskId : String)

def current : Nat := (e.inFlight.get? taskId).getD 0

def maxOf : Int := (e.maxInstances.get? taskId).getD 1

/-- The workers of a task that have neither finished nor been cancelled. -/
def live : Nat := (e.submitted ++ e.replaced ++ e.running).count taskId

def acquire : Executor := { e with inFlight := e.inFlight.set taskId (e.current taskId + 1) }

def release : Executor :=
  { e with inFlight := e.inFlight.set taskId ((e.inFlight.get? taskId).getD 1 - 1) }

/-- How many workers a cycle submits for a task. -/
def slots : Input → Nat
  | .nothing => 0
  | .queued n => min (e.maxOf taskId - e.current taskId).toNat n
  | .source => min (e.maxOf taskId - e.current taskId).toNat 1

def submit (i : Nat) (s : Scheduler) (hasInput : Bool) : Executor :=
  if !hasInput then { e with schedulers := e.schedulers.set i {} }
  else if e.pools then
    { e.acquire s.taskId with
      submitted := e.submitted ++ [s.taskId]
      schedulers := e.schedulers.set i { s with slots := s.slots - 1 } }
  else { (e.acquire s.taskId).release s.taskId with schedulers := e.schedulers.set i {} }

def step : Op → Option Executor
  | .start => some { e with
      stopEvent := false
      pools := true
      schedulers := e.schedulers ++ [{}]
      submitted := []
      replaced := e.replaced ++ e.submitted }
  | .setStopEvent => some { e with stopEvent := true }
  -- `shutdown(wait=False, cancel_futures=True)`: no cancelled worker reaches its `finally`.
  | .shutdown => some { e with pools := false, submitted := [] }
  | .look i taskId input => (e.schedulers[i]?.filter (·.slots = 0)).map fun _ =>
      { e with schedulers := e.schedulers.set i ⟨taskId, e.slots taskId input⟩ }
  | .submit i hasInput => (e.schedulers[i]?.filter (·.slots ≠ 0)).map (e.submit i · hasInput)
  | .leave i autoStop =>
    if e.stopEvent || autoStop then (e.schedulers[i]?.filter (·.slots = 0)).map fun _ =>
      { e with stopEvent := true, schedulers := e.schedulers.eraseIdx i }
    else none
  | .begin taskId =>
    if taskId ∈ e.submitted then
      some { e with submitted := e.submitted.erase taskId, running := e.running ++ [taskId] }
    else none
  | .beginReplaced taskId =>
    if taskId ∈ e.replaced then
      some { e with replaced := e.replaced.erase taskId, running := e.running ++ [taskId] }
    else none
  | .finish taskId =>
    if taskId ∈ e.running then some { e.release taskId with running := e.running.erase taskId }
    else none

/-- The workers a step cancels before they start. -/
def cancelled : Op → List String
  | .shutdown => e.submitted
  | _ => []

def cancelledIn : Executor → List Op → List String
  | _, [] => []
  | e, op :: ops => e.cancelled op ++ ((e.step op).map (cancelledIn · ops)).getD []

structure Accounted : Prop where
  books : ∀ t, e.current t = e.live t
  cap : ∀ t, (e.current t : Int) ≤ e.maxOf t
  eligible : ∀ t n, e.live t = 0 → 0 < n → 0 < e.slots t (.queued n)

def starts : Op → Bool
  | .start => true
  | _ => false

/-- No worker is cancelled, and no scheduler is left over at a start. -/
def Orderly (op : Op) : Prop := e.cancelled op = [] ∧ (starts op → e.schedulers = [])

instance (op : Op) : Decidable (e.Orderly op) := inferInstanceAs (Decidable (_ ∧ (_ → _)))

/-- One scheduler at most, whose open slots still fit. -/
structure Inv : Prop where
  books : ∀ t, e.current t = e.live t
  cap : ∀ t, (e.current t : Int) ≤ e.maxOf t
  positive : ∀ t, 1 ≤ e.maxOf t
  one : e.schedulers.length ≤ 1
  room : ∀ s ∈ e.schedulers, (e.current s.taskId + s.slots : Int) ≤ e.maxOf s.taskId

variable {e} {e' : Executor} {t : String} {s : Scheduler} {i : Nat}

theorem count_one : [taskId].count t = if t = taskId then 1 else 0 := by
  simp only [List.count_singleton, beq_iff_eq, @eq_comm _ taskId t]

theorem count_erase_add {l : List String} (h : taskId ∈ l) (t : String) :
    (l.erase taskId).count t + [taskId].count t = l.count t := by
  have hpos := List.count_pos_iff.mpr h
  rw [count_one]
  split_ifs with ht
  · rw [ht, List.count_erase_self]
    omega
  · exact List.count_erase_of_ne ht

theorem current_acquire : (e.acquire taskId).current t = e.current t + [taskId].count t := by
  unfold acquire
  rw [current, count_one]
  split_ifs with ht
  · rw [ht, PyDict.get?_set_self, Option.getD_some]
  · rw [PyDict.get?_set_of_ne _ _ ht, add_zero]
    rfl

theorem current_release (hpos : e.current taskId ≠ 0) :
    (e.release taskId).current t = e.current t - [taskId].count t := by
  unfold release
  rw [current, count_one]
  split_ifs with ht
  · rw [ht, PyDict.get?_set_self, Option.getD_some, current]
    cases hget : e.inFlight.get? taskId with
    | none => exact absurd (by rw [current, hget]; rfl) hpos
    | some n => rfl
  · rw [PyDict.get?_set_of_ne _ _ ht, Nat.sub_zero]
    rfl

theorem current_release_acquire (t : String) :
    ((e.acquire taskId).release taskId).current t = e.current t := by
  rw [current_release _ (by simp [current_acquire]), current_acquire, Nat.add_sub_cancel]

theorem current_ne_zero (hmem : taskId ∈ e.running) (hle : ∀ t, e.live t ≤ e.current t) :
    e.current taskId ≠ 0 := by
  have hpos := List.count_pos_iff.mpr hmem
  have := hle taskId
  simp only [live, List.count_append] at this
  omega

/-- **What a step does to the books**: they drift by the cancelled workers, and by nothing else. -/
theorem books_step {op : Op} (hs : e.step op = some e') (hle : ∀ t, e.live t ≤ e.current t)
    (t : String) :
    e'.current t + e.live t = e.current t + e'.live t + (e.cancelled op).count t := by
  cases op with
  | setStopEvent =>
    obtain rfl := Option.some.inj hs
    rfl
  | start | shutdown =>
    obtain rfl := Option.some.inj hs
    show e.current t + _ = e.current t + _ + _
    simp only [live, cancelled, List.count_append, List.count_nil]
    omega
  | look i taskId input =>
    obtain ⟨s, -, rfl⟩ := Option.map_eq_some_iff.mp hs
    rfl
  | submit i hasInput =>
    obtain ⟨s, -, rfl⟩ := Option.map_eq_some_iff.mp hs
    unfold Executor.submit
    split_ifs
    · rfl
    · show (e.acquire s.taskId).current t + _ = _
      rw [current_acquire]
      simp only [live, acquire, cancelled, List.count_append, List.count_nil]
      omega
    · show ((e.acquire s.taskId).release s.taskId).current t + _ = _
      rw [current_release_acquire]
      rfl
  | leave i autoStop =>
    simp only [Executor.step] at hs
    split_ifs at hs
    obtain ⟨s, -, rfl⟩ := Option.map_eq_some_iff.mp hs
    rfl
  | begin taskId | beginReplaced taskId =>
    simp only [Executor.step] at hs
    split_ifs at hs with hmem
    obtain rfl := Option.some.inj hs
    have := count_erase_add taskId hmem t
    show e.current t + _ = e.current t + _ + _
    simp only [live, cancelled, List.count_append, List.count_nil]
    omega
  | finish taskId =>
    simp only [Executor.step] at hs
    split_ifs at hs with hmem
    obtain rfl := Option.some.inj hs
    have := count_erase_add taskId hmem t
    have hcovers := hle t
    show (e.release taskId).current t + _ = _
    rw [current_release _ (current_ne_zero taskId hmem hle)]
    simp only [live, Executor.release, cancelled, List.count_append, List.count_nil] at hcovers ⊢
    omega

theorem books_run {ops : List Op} (hle : ∀ t, e.live t ≤ e.current t)
    (hrun : ops.foldlM step e = some e') (t : String) :
    e'.current t + e.live t = e.current t + e'.live t + (cancelledIn e ops).count t := by
  induction ops generalizing e with
  | nil =>
    obtain rfl := Option.some.inj hrun
    rfl
  | cons op ops ih =>
    obtain ⟨u, hs, hrest⟩ := Option.bind_eq_some_iff.mp hrun
    have hstep := books_step hs hle
    have hle' : ∀ t, u.live t ≤ u.current t := by
      intro t
      have := hstep t
      have := hle t
      omega
    have hlater := ih hle' hrest
    have := hstep t
    simp only [cancelledIn, hs, Option.map_some, Option.getD_some, List.count_append]
    omega

variable {maxInstances : PyDict String Int}

theorem Inv.accounted (h : Inv e) : e.Accounted := by
  refine ⟨h.books, h.cap, fun t n hlive hn => ?_⟩
  have hzero : e.current t = 0 := (h.books t).trans hlive
  have hmax := h.positive t
  simp only [slots, hzero]
  omega

theorem Inv.only (h : Inv e) (hs : e.schedulers[i]? = some s) : e.schedulers = [s] ∧ i = 0 := by
  obtain ⟨hi, rfl⟩ := List.getElem?_eq_some_iff.mp hs
  obtain rfl : i = 0 := by
    have := h.one
    omega
  obtain ⟨x, hx⟩ := List.length_eq_one_iff.mp (le_antisymm h.one hi)
  simp [hx]

theorem Inv.look (h : Inv e) (i : Nat) (taskId : String) (input : Input) :
    Inv { e with schedulers := e.schedulers.set i ⟨taskId, e.slots taskId input⟩ } where
  books := h.books
  cap := h.cap
  positive := h.positive
  one := by
    rw [List.length_set]
    exact h.one
  room s hs := by
    rcases List.mem_or_eq_of_mem_set hs with hs | rfl
    · exact h.room s hs
    · have hcap := h.cap taskId
      show (e.current taskId + e.slots taskId input : Int) ≤ e.maxOf taskId
      cases input <;> simp only [slots] <;> omega

theorem Inv.idle (h : Inv e) (i : Nat) : Inv { e with schedulers := e.schedulers.set i {} } :=
  h.look i "" .nothing

theorem Inv.submit (h : Inv e) (hs : e.schedulers[i]? = some s) (hslots : s.slots ≠ 0)
    {hasInput : Bool} (hbooks : ∀ t, (e.submit i s hasInput).current t =
      (e.submit i s hasInput).live t) : Inv (e.submit i s hasInput) := by
  obtain ⟨honly, rfl⟩ := h.only hs
  have hroom := h.room s (by simp [honly])
  unfold Executor.submit at hbooks ⊢
  split_ifs at hbooks ⊢ with hnone hpools
  · exact h.idle 0
  · refine ⟨hbooks, fun t => ?_, h.positive, by simp [honly], fun s' hs' => ?_⟩
    · have hcap := h.cap t
      show ((e.acquire s.taskId).current t : Int) ≤ e.maxOf t
      rw [current_acquire, count_one]
      split_ifs with ht
      · subst ht
        omega
      · exact hcap
    · obtain rfl : s' = { s with slots := s.slots - 1 } := by simpa [honly] using hs'
      show ((e.acquire s.taskId).current s.taskId + (s.slots - 1 : Nat) : Int) ≤ e.maxOf s.taskId
      rw [current_acquire, List.count_singleton_self]
      omega
  · have hsame := fun t => current_release_acquire (e := e) s.taskId t
    have hidle := h.idle 0
    exact ⟨hbooks, fun t => hsame t ▸ h.cap t, h.positive, hidle.one,
      fun s' hs' => hsame s'.taskId ▸ hidle.room s' hs'⟩

theorem Inv.step {op : Op} (h : Inv e) (hok : e.Orderly op) (hs : e.step op = some e') :
    Inv e' := by
  have hle : ∀ t, e.live t ≤ e.current t := fun t => (h.books t).ge
  have hbooks : ∀ t, e'.current t = e'.live t := by
    intro t
    have hdrift := books_step hs hle t
    rw [hok.1, List.count_nil, h.books] at hdrift
    omega
  cases op with
  | start =>
    obtain rfl := Option.some.inj hs
    have hleft : e.schedulers = [] := hok.2 rfl
    refine ⟨hbooks, h.cap, h.positive, by simp [hleft], fun s hs => ?_⟩
    obtain rfl : s = {} := by simpa [hleft] using hs
    exact (Int.add_zero _).trans_le (h.cap "")
  | setStopEvent | shutdown =>
    obtain rfl := Option.some.inj hs
    exact ⟨hbooks, h.cap, h.positive, h.one, h.room⟩
  | look i taskId input =>
    obtain ⟨s, -, rfl⟩ := Option.map_eq_some_iff.mp hs
    exact h.look i taskId input
  | submit i hasInput =>
    obtain ⟨s, hget, rfl⟩ := Option.map_eq_some_iff.mp hs
    obtain ⟨hget, hslots⟩ := Option.filter_eq_some_iff.mp hget
    exact h.submit hget (by simpa using hslots) hbooks
  | leave i autoStop =>
    simp only [Executor.step] at hs
    split_ifs at hs
    obtain ⟨s, -, rfl⟩ := Option.map_eq_some_iff.mp hs
    have hsub := List.eraseIdx_sublist e.schedulers i
    exact ⟨hbooks, h.cap, h.positive, hsub.length_le.trans h.one,
      fun s hs => h.room s (hsub.mem hs)⟩
  | begin taskId | beginReplaced taskId =>
    simp only [Executor.step] at hs
    split_ifs at hs
    obtain rfl := Option.some.inj hs
    exact ⟨hbooks, h.cap, h.positive, h.one, h.room⟩
  | finish taskId =>
    simp only [Executor.step] at hs
    split_ifs at hs with hmem
    obtain rfl := Option.some.inj hs
    have hless : ∀ t, (e.release taskId).current t ≤ e.current t := fun t =>
      (current_release _ (current_ne_zero taskId hmem hle)).trans_le (Nat.sub_le _ _)
    exact ⟨hbooks, fun t => (Int.ofNat_le.mpr (hless t)).trans (h.cap t), h.positive, h.one,
      fun s hs => (Int.add_le_add_right (Int.ofNat_le.mpr (hless _)) _).trans (h.room s hs)⟩

theorem inv_init (hmax : ∀ i ∈ maxInstances, 1 ≤ i.2) : Inv { maxInstances } := by
  have hpositive : ∀ t, 1 ≤ (maxInstances.get? t).getD 1 := by
    intro t
    cases hget : maxInstances.get? t with
    | none => exact le_rfl
    | some n => exact hmax (t, n) (PyDict.mem_of_get? hget)
  refine ⟨fun _ => rfl, fun t => ?_, hpositive, Nat.zero_le 1, fun s hs => by cases hs⟩
  exact Int.le_of_lt (hpositive t)

/-- **Workers are counted right** in every run without leftovers. -/
theorem accounted_of_orderly (hmax : ∀ i ∈ maxInstances, 1 ≤ i.2)
    (hrun : Runs step Orderly { maxInstances } e) : e.Accounted :=
  (hrun.invariant Inv (fun _ _ _ h hok hs => h.step hok hs) (inv_init hmax)).accounted

def submitOne : List Op := [.start, .look 0 "t" (.queued 1), .submit 0 true]

def restart : List Op := [.setStopEvent, .leave 0 false, .shutdown, .start]

/-- The executor after these runs. -/
def restarted (count : Nat) : Executor where
  maxInstances := [("t", 1)]
  inFlight := [("t", count)]
  pools := true
  schedulers := [{}]

theorem accounted_of_orderly_finished : (restarted 0).Accounted := by
  have hrun : follow step Orderly { maxInstances := [("t", 1)] }
    (submitOne ++ [.begin "t", .finish "t"] ++ restart) = some (restarted 0) := by decide
  exact accounted_of_orderly (by decide) (runs_of_follow hrun)

end Executor

end PawFlow.Engine.Workers
