import PawFlow.Interaction.Calls

/-!
# What one step does

Each lemma says once, for every task, what its step can do to one part of the store: to
the log (`exec_emits`), to the tasks that come next (`exec_pushes`), to the waits (`exec_waits`) and to the stored signal values
(`exec_values`). The invariants of the following modules are derived from these.
-/

namespace PawFlow.Interaction

open PawFlow.Lib

namespace Store

variable {P : Platform} {s : Store} {t : Task} {env : Env}

/-! ## The log -/

/-- The entries a task may write to the log. -/
inductive Emits (P : Platform) (s : Store) : Task → Event → Prop
  | raised {t : Task} (message : String) : Emits P s t (.raised message)
  | responded {t : Task} (requestId : String) : Emits P s t (.responded requestId)
  | cancelled {t : Task} (requestId : String) (done : Bool) :
      Emits P s t (.cancelled requestId done)
  | notified {cause : Option String} {signalId : String} {value : Json}
      (resolved : List String) (hsig : signalId ≠ "") :
      Emits P s (.notifySignal cause signalId value) (.notified cause signalId value resolved)
  | passed (park : Park) (f : Core.FlowFile) :
      Emits P s (.parkWait park) (.passed park.signalId f)
  | discarded (park : Park) (row : SignalValue)
      (hrow : s.values.get? park.signalId = some row) (hnull : row.value.isNull = true) :
      Emits P s (.parkWait park) (.discarded park.signalId)
  | parked (park : Park) :
      Emits P s (.parkInsert park) (.parked park.signalId (waitIdOf P park))
  | injected (w : Wait) (f : Core.FlowFile) :
      Emits P s (.deliverWait w) (.injected w.waitId f)

@[simp] theorem log_insertWait (s : Store) (w : Wait) : (s.insertWait w).log = s.log := by
  unfold insertWait
  split <;> rfl

@[simp] theorem log_notifySignal (s : Store) (signalId : String) (value : Json) (now : Time) :
    (s.notifySignal signalId value now).2.log = s.log := by
  unfold notifySignal
  dsimp only
  split <;> rfl

/-- The task writes a new timer at most. -/
def minor : Task → Bool
  | .respond .. | .cancel _ | .sweepRead _ | .parkTimer .. | .importTimer .. | .deliverResolved
  | .deliverWait _ => true
  | _ => false

/-- What such a task leaves behind. -/
inductive Minor (P : Platform) (s : Store) (t : Task) : Store → Prop
  | same : Minor P s t s
  | logged {e : Event} (h : Emits P s t e) : Minor P s t (s.record e)
  | timer {w : Wait} (hkind : w.kind = .timer) (hstatus : w.status = .waiting) :
      Minor P s t (s.insertWait w)

theorem exec_minor (h : minor t = true) : Minor P s t (exec P s t env).1 := by
  cases t with
  | respond requestId answer answeredBy =>
    simp only [exec, execRespond]
    split
    · exact .logged (.raised _)
    · split
      · exact .logged (.raised _)
      · split
        · exact .same
        · split
          · exact .logged (.raised _)
          · exact .same
  | cancel requestId =>
    simp only [exec, execCancel]
    split
    · split
      · exact .same
      · exact .logged (.cancelled _ _)
    · exact .logged (.cancelled _ _)
  | sweepRead requestId =>
    simp only [exec, execSweepRead]
    split <;> exact .same
  | parkTimer uuid instanceId taskId flowfile deadlineAt =>
    simp only [exec]
    split
    · exact .logged (.raised _)
    · split
      · exact .same
      · exact .timer rfl rfl
  | importTimer waitId instanceId taskId flowfile deadlineAt createdAt importMetadata =>
    simp only [exec, execImportTimer]
    split
    · exact .logged (.raised _)
    · split
      · exact .logged (.raised _)
      · exact .timer rfl rfl
  | deliverResolved => exact .same
  | deliverWait w =>
    simp only [exec, execDeliver]
    split
    · exact .same
    · split
      · exact .same
      · exact .logged (.injected w _)
  | _ => cases h

variable {s' : Store}

theorem Minor.emits (h : Minor P s t s') :
    s'.log = s.log ∨ ∃ e, s'.log = e :: s.log ∧ Emits P s t e := by
  cases h with
  | same => exact Or.inl rfl
  | logged he => exact Or.inr ⟨_, rfl, he⟩
  | timer => exact Or.inl (log_insertWait s _)

/-- A step leaves the log as it is or adds one entry of its task. -/
theorem exec_emits (P : Platform) (s : Store) (t : Task) (env : Env) :
    (exec P s t env).1.log = s.log ∨
      ∃ e, (exec P s t env).1.log = e :: s.log ∧ Emits P s t e := by
  by_cases hminor : minor t = true
  · exact (exec_minor hminor).emits
  cases t with
  | createInteraction row =>
    simp only [exec, createInteraction]
    split <;> exact Or.inl rfl
  | respondExpire requestId => exact Or.inr ⟨_, rfl, .raised _⟩
  | respondUpdate row normalized answeredBy =>
    simp only [exec, execRespondUpdate]
    split
    · split
      · exact Or.inr ⟨_, rfl, .responded _⟩
      · exact Or.inr ⟨_, rfl, .raised _⟩
    · exact Or.inr ⟨_, rfl, .raised _⟩
  | cancelWrite row => exact Or.inr ⟨_, rfl, .cancelled _ _⟩
  | sweepOnce => exact Or.inl rfl
  | notifySignal cause signalId value =>
    simp only [exec, execNotify]
    split
    · exact Or.inr ⟨_, rfl, .raised _⟩
    · next hsig =>
      refine Or.inr ⟨_, ?_, .notified (s.notifySignal signalId value env.now).1 hsig⟩
      simp only [record, log_notifySignal]
  | parkWait park =>
    simp only [exec]
    rcases execPark_cases P s park with ⟨-, h⟩ | ⟨-, h⟩ | ⟨row, hrow, hnull, h⟩ |
      ⟨row, -, -, h⟩
    · exact Or.inr ⟨_, by rw [h]; rfl, .raised _⟩
    · exact Or.inl (by rw [h])
    · exact Or.inr ⟨_, by rw [h]; rfl, .discarded park row hrow hnull⟩
    · exact Or.inr ⟨_, by rw [h]; rfl, .passed park _⟩
  | parkInsert park =>
    simp only [exec, execParkInsert]
    split
    · exact Or.inr ⟨_, rfl, .raised _⟩
    · refine Or.inr ⟨_, ?_, .parked park⟩
      simp only [record, log_insertWait]
  | deleteImportedWait waitId importMetadata =>
    simp only [exec, deleteImportedWait]
    split
    · exact Or.inl rfl
    · split
      · exact Or.inr ⟨_, rfl, .raised _⟩
      · split
        · exact Or.inr ⟨_, rfl, .raised _⟩
        · exact Or.inl rfl
  | cancelWait waitId => exact Or.inl rfl
  | markDelivered waitId => exact Or.inl rfl
  | _ => exact absurd rfl hminor

/-! ## The tasks that come next -/

/-- The tasks a task may push. -/
inductive Pushes (s : Store) (env : Env) : Task → Task → Prop
  | respondExpire (requestId : String) (answer : Json) (answeredBy : String) :
      Pushes s env (.respond requestId answer answeredBy) (.respondExpire requestId)
  | respondUpdate {requestId : String} (answer normalized : Json) (answeredBy : String)
      {row : Confirmation} (hrow : s.getConfirmation requestId = some row) :
      Pushes s env (.respond requestId answer answeredBy)
        (.respondUpdate row normalized answeredBy)
  | answered {row current : Confirmation} (normalized : Json) (answeredBy : String)
      (hrow : s.getConfirmation row.requestId = some current)
      (hpending : current.status = .pending) :
      Pushes s env (.respondUpdate row normalized answeredBy)
        (.notifySignal (some row.requestId) row.signal (answeredValue normalized answeredBy))
  | cancelWrite {requestId : String} {row : Confirmation}
      (hrow : s.getConfirmation requestId = some row) :
      Pushes s env (.cancel requestId) (.cancelWrite row)
  | cancelled (row : Confirmation) :
      Pushes s env (.cancelWrite row)
        (.notifySignal (some row.requestId) row.signal (closedValue .cancelled))
  | sweepRead {row : Confirmation} (hrow : row ∈ s.confirmations)
      (hoverdue : overdue env.now row = true) : Pushes s env .sweepOnce (.sweepRead row.requestId)
  | expired {requestId : String} {row : Confirmation}
      (hrow : s.getConfirmation requestId = some row) :
      Pushes s env (.sweepRead requestId)
        (.notifySignal (some row.requestId) row.signal (closedValue .expired))
  | deliverResolved (t : Task) : Pushes s env t .deliverResolved
  | parkInsert (park : Park) : Pushes s env (.parkWait park) (.parkInsert park)
  | deliverWait {w : Wait} (hw : w ∈ s.resolvedWaits) :
      Pushes s env .deliverResolved (.deliverWait w)
  | markDelivered (w : Wait) : Pushes s env (.deliverWait w) (.markDelivered w.waitId)

/-- **What a step pushes.** -/
theorem exec_pushes {t' : Task} (h : t' ∈ (exec P s t env).2) : Pushes s env t t' := by
  cases t with
  | respond requestId answer answeredBy =>
    simp only [exec, execRespond] at h
    split at h
    · exact absurd h (by simp)
    next row hrow =>
    split at h
    · exact absurd h (by simp)
    split at h
    · obtain rfl := List.mem_singleton.mp h
      exact .respondExpire requestId answer answeredBy
    · split at h
      · exact absurd h (by simp)
      · obtain rfl := List.mem_singleton.mp h
        exact .respondUpdate answer _ answeredBy hrow
  | respondUpdate row normalized answeredBy =>
    simp only [exec, execRespondUpdate] at h
    split at h
    · next current hcurrent =>
      split at h
      · next hpending =>
        obtain rfl := List.mem_singleton.mp h
        exact .answered normalized answeredBy hcurrent hpending
      · exact absurd h (by simp)
    · exact absurd h (by simp)
  | cancel requestId =>
    simp only [exec, execCancel] at h
    split at h
    · next row hrow =>
      split at h
      · obtain rfl := List.mem_singleton.mp h
        exact .cancelWrite hrow
      · exact absurd h (by simp)
    · exact absurd h (by simp)
  | cancelWrite row =>
    obtain rfl := List.mem_singleton.mp h
    exact .cancelled row
  | sweepOnce =>
    rcases List.mem_append.mp h with h | h
    · obtain ⟨requestId, hid, rfl⟩ := List.mem_map.mp h
      obtain ⟨row, hrow, rfl⟩ := List.mem_map.mp hid
      exact .sweepRead (List.mem_of_mem_filter hrow) (List.of_mem_filter hrow)
    · obtain rfl := List.mem_singleton.mp h
      exact .deliverResolved _
  | sweepRead requestId =>
    simp only [exec, execSweepRead] at h
    split at h
    · next row hrow =>
      obtain rfl := List.mem_singleton.mp h
      exact .expired hrow
    · exact absurd h (by simp)
  | notifySignal cause signalId value =>
    simp only [exec, execNotify] at h
    split at h
    · exact absurd h (by simp)
    · dsimp only at h
      split at h
      · exact absurd h (by simp)
      · obtain rfl := List.mem_singleton.mp h
        exact .deliverResolved _
  | parkWait park =>
    simp only [exec] at h
    rcases execPark_cases P s park with ⟨-, heq⟩ | ⟨-, heq⟩ | ⟨row, -, -, heq⟩ |
      ⟨row, -, -, heq⟩ <;> rw [heq] at h
    · exact absurd h (by simp)
    · obtain rfl := List.mem_singleton.mp h
      exact .parkInsert park
    · obtain rfl := List.mem_singleton.mp h
      exact .parkInsert park
    · exact absurd h (by simp)
  | parkInsert park =>
    simp only [exec, execParkInsert] at h
    split at h <;> exact absurd h (by simp)
  | parkTimer uuid instanceId taskId flowfile deadlineAt =>
    simp only [exec] at h
    split at h
    · exact absurd h (by simp)
    · split at h <;> exact absurd h (by simp)
  | importTimer waitId instanceId taskId flowfile deadlineAt createdAt importMetadata =>
    simp only [exec, execImportTimer] at h
    split at h
    · exact absurd h (by simp)
    · split at h <;> exact absurd h (by simp)
  | cancelWait waitId =>
    simp only [exec] at h
    split at h
    · obtain rfl := List.mem_singleton.mp h
      exact .deliverResolved _
    · exact absurd h (by simp)
  | deliverResolved =>
    obtain ⟨w, hw, rfl⟩ := List.mem_map.mp h
    exact .deliverWait hw
  | deliverWait w =>
    simp only [exec, execDeliver] at h
    split at h
    · exact absurd h (by simp)
    · split at h
      · exact absurd h (by simp)
      · obtain rfl := List.mem_singleton.mp h
        exact .markDelivered w
  | _ => exact absurd h (by simp [exec])

/-! ## The waits -/

/-- The columns of a wait that no step changes. -/
def SameWait (w w' : Wait) : Prop :=
  w'.waitId = w.waitId ∧ w'.signalId = w.signalId ∧ w'.kind = w.kind ∧
    w'.importMetadata = w.importMetadata

/-- What a step may do to the waits. -/
inductive WaitsStep (P : Platform) (s : Store) (t : Task) (s' : Store) : Prop
  | keep (h : s'.waits = s.waits)
  /-- Some waiting rows become ready for delivery. -/
  | settle (g : Wait → Wait) (hget : ∀ i, s'.waits.get? i = (s.waits.get? i).map g)
      (hg : ∀ w, g w = w ∨ (w.status = .waiting ∧ (g w).status.ready = true ∧
        SameWait w (g w)))
  /-- A new row waits; a signal wait comes from `park_wait`. -/
  | insert (w : Wait) (hstatus : w.status = .waiting) (hnew : s.waits.get? w.waitId = none)
      (hpark : w.kind = .signal → w.importMetadata = none ∧
        ∃ park, t = .parkInsert park ∧ w.signalId = park.signalId ∧ w.waitId = waitIdOf P park)
      (hget : ∀ i, s'.waits.get? i = if i = w.waitId then some w else s.waits.get? i)
  /-- An imported row that still waits is taken back. -/
  | delete (w : Wait) (hrow : s.waits.get? w.waitId = some w) (hstatus : w.status = .waiting)
      (himported : w.importMetadata ≠ none)
      (hget : ∀ i, s'.waits.get? i = if i = w.waitId then none else s.waits.get? i)
  | deliver (waitId : String) (ht : t = .markDelivered waitId)
      (hget : ∀ i, s'.waits.get? i = (s.waits.get? i).map fun w =>
        if w.waitId = waitId then { w with status := .delivered } else w)

theorem get?_setWaits (s : Store) (p : Wait → Bool) (status : WaitStatus) (i : String) :
    (s.setWaits p status).waits.get? i =
      (s.waits.get? i).map fun w => if p w then { w with status } else w :=
  Table.get?_update _ p (withWaitStatus status) (withWaitStatus_waitId status) i

theorem settle_of_setWaits {p : Wait → Bool} {status : WaitStatus}
    (hp : ∀ w, p w = true → w.status = .waiting) (hready : status.ready = true) (w : Wait) :
    (if p w then { w with status } else w) = w ∨ (w.status = .waiting ∧
      (if p w then { w with status } else w).status.ready = true ∧
      SameWait w (if p w then { w with status } else w)) := by
  split
  · next h => exact Or.inr ⟨hp w h, hready, rfl, rfl, rfl, rfl⟩
  · exact Or.inl rfl

theorem waitsStep_insertWait (P : Platform) (s : Store) (t : Task) (w : Wait) (s' : Store)
    (hs' : s'.waits = (s.insertWait w).waits) (hstatus : w.status = .waiting)
    (hpark : w.kind = .signal → w.importMetadata = none ∧
      ∃ park, t = .parkInsert park ∧ w.signalId = park.signalId ∧ w.waitId = waitIdOf P park) :
    WaitsStep P s t s' := by
  unfold insertWait at hs'
  split at hs'
  · next waits hinsert =>
    obtain ⟨hnone, hget⟩ := Table.insert?_eq_some hinsert
    exact .insert w hstatus hnone hpark (fun i => by rw [hs', hget])
  · exact .keep hs'

theorem get?_notifySignal (s : Store) (signalId : String) (value : Json) (now : Time)
    (i : String) : (s.notifySignal signalId value now).2.waits.get? i =
      (s.waits.get? i).map fun w => if waitsOn signalId w then resolveAt value now w else w := by
  have hwaits : (s.notifySignal signalId value now).2.waits = s.waits.update
      (waitsOn signalId) (resolveAt value now) (resolveAt_waitId value now) := by
    unfold notifySignal
    dsimp only
    split <;> rfl
  rw [hwaits]
  exact Table.get?_update _ _ _ _ i

theorem Minor.waits (h : Minor P s t s') : WaitsStep P s t s' := by
  cases h with
  | same => exact .keep rfl
  | logged => exact .keep rfl
  | timer hkind hstatus =>
    exact waitsStep_insertWait P s t _ _ rfl hstatus (by simp [hkind])

/-- **What a step does to the waits.** -/
theorem exec_waits (P : Platform) (s : Store) (t : Task) (env : Env) :
    WaitsStep P s t (exec P s t env).1 := by
  by_cases hminor : minor t = true
  · exact (exec_minor hminor).waits
  cases t with
  | createInteraction row =>
    simp only [exec, createInteraction]
    split <;> exact .keep rfl
  | respondExpire requestId => exact .keep rfl
  | respondUpdate row normalized answeredBy =>
    simp only [exec, execRespondUpdate]
    split
    · split <;> exact .keep rfl
    · exact .keep rfl
  | cancelWrite row => exact .keep rfl
  | sweepOnce =>
    -- timed out waits first, elapsed timers second; a wait is of one kind only
    refine .settle (fun w => if w.kind = .signal && w.status = .waiting &&
        0 < w.expiresAt && w.expiresAt < env.now then { w with status := .timeout }
      else if w.kind = .timer && w.status = .waiting && w.expiresAt ≤ env.now then
        { w with status := .elapsed } else w) (fun i => ?_) (fun w => ?_)
    · simp only [exec, sweep, get?_setWaits, Option.map_map]
      congr 1
      funext w
      simp only [Function.comp_apply]
      split
      · next h =>
        have hkind : w.kind = .signal := by
          simp only [Bool.and_eq_true, decide_eq_true_eq] at h
          exact h.1.1.1
        simp [hkind]
      · rfl
    · split
      · next h =>
        simp only [Bool.and_eq_true, decide_eq_true_eq] at h
        exact Or.inr ⟨h.1.1.2, rfl, rfl, rfl, rfl, rfl⟩
      · split
        · next h =>
          simp only [Bool.and_eq_true, decide_eq_true_eq] at h
          exact Or.inr ⟨h.1.2, rfl, rfl, rfl, rfl, rfl⟩
        · exact Or.inl rfl
  | notifySignal cause signalId value =>
    simp only [exec, execNotify]
    split
    · exact .keep rfl
    · refine .settle _ (get?_notifySignal s signalId value env.now) (fun w => ?_)
      split
      · next h =>
        simp only [waitsOn, Bool.and_eq_true, decide_eq_true_eq] at h
        exact Or.inr ⟨h.2, rfl, rfl, rfl, rfl, rfl⟩
      · exact Or.inl rfl
  | parkWait park =>
    simp only [exec]
    rcases execPark_cases P s park with ⟨-, h⟩ | ⟨-, h⟩ | ⟨row, -, -, h⟩ | ⟨row, -, -, h⟩
    · exact .keep (by rw [h]; rfl)
    · exact .keep (by rw [h])
    · exact .keep (by rw [h]; rfl)
    · exact .keep (by rw [h]; rfl)
  | parkInsert park =>
    simp only [exec, execParkInsert]
    split
    · exact .keep rfl
    · exact waitsStep_insertWait P s _ (parkedWait P park env.now) _ rfl rfl
        fun _ => ⟨rfl, park, rfl, rfl, rfl⟩
  | deleteImportedWait waitId importMetadata =>
    simp only [exec, deleteImportedWait]
    split
    · exact .keep rfl
    next w hget =>
    split
    · exact .keep rfl
    next hmeta =>
    split
    · exact .keep rfl
    next hstatus =>
    rw [not_not] at hmeta hstatus
    have hid : w.waitId = waitId := Table.get?_key hget
    subst hid
    refine .delete w hget hstatus (by simp [hmeta]) (fun i => ?_)
    show (s.waits.delete _).get? i = _
    rw [Table.get?_delete]
    cases hi : s.waits.get? i with
    | none => simp
    | some w' =>
      have hid' : w'.waitId = i := Table.get?_key hi
      by_cases h : i = w.waitId <;> simp [Option.filter, hid', h]
  | cancelWait waitId =>
    refine .settle _ (get?_setWaits s _ .cancelled)
      (settle_of_setWaits (fun w h => ?_) rfl)
    simp only [Bool.and_eq_true, decide_eq_true_eq] at h
    exact h.2
  | markDelivered waitId =>
    refine .deliver waitId rfl (fun i => ?_)
    exact (get?_setWaits s _ .delivered i).trans (by simp)
  | _ => exact absurd rfl hminor

/-! ## The stored values -/

/-- What a step may do to the stored signal values. -/
inductive ValuesStep (s : Store) (t : Task) (s' : Store) : Prop
  | keep (h : s'.values = s.values)
  | consume (park : Park) (ht : t = .parkWait park)
      (hget : ∀ g, s'.values.get? g = if g = park.signalId then none else s.values.get? g)
  | store (cause : Option String) (signalId : String) (value : Json) (now : Time)
      (ht : t = .notifySignal cause signalId value)
      (hnone : ∀ w ∈ s.waits, waitsOn signalId w = false)
      (hget : ∀ g, s'.values.get? g =
        if g = signalId then some ⟨signalId, value, now⟩ else s.values.get? g)

theorem get?_deleteValue (s : Store) (signalId g : String) :
    (s.values.delete fun v => v.signalId = signalId).get? g =
      if g = signalId then none else s.values.get? g := by
  rw [Table.get?_delete]
  cases hg : s.values.get? g with
  | none => simp
  | some v =>
    have hid : v.signalId = g := Table.get?_key hg
    by_cases h : g = signalId <;> simp [Option.filter, hid, h]

theorem values_insertWait (s : Store) (w : Wait) : (s.insertWait w).values = s.values := by
  unfold insertWait
  split <;> rfl

theorem Minor.values (h : Minor P s t s') : s'.values = s.values := by
  cases h with
  | same => rfl
  | logged => rfl
  | timer => exact values_insertWait s _

/-- **What a step does to the stored values.** -/
theorem exec_values (P : Platform) (s : Store) (t : Task) (env : Env) :
    ValuesStep s t (exec P s t env).1 := by
  by_cases hminor : minor t = true
  · exact .keep (exec_minor hminor).values
  cases t with
  | createInteraction row =>
    simp only [exec, createInteraction]
    split <;> exact .keep rfl
  | respondUpdate row normalized answeredBy =>
    simp only [exec, execRespondUpdate]
    split
    · split <;> exact .keep rfl
    · exact .keep rfl
  | notifySignal cause signalId value =>
    simp only [exec, execNotify]
    split
    · exact .keep rfl
    · by_cases hrows : (s.waits.rows.filter (waitsOn signalId)).isEmpty = true
      · refine .store cause signalId value env.now rfl ?_ (fun g => ?_)
        · rw [List.isEmpty_iff, List.filter_eq_nil_iff] at hrows
          exact fun w hw => by simpa using hrows w hw
        · simp only [notifySignal, if_pos hrows, record]
          exact Table.get?_upsert _ _ _
      · refine .keep ?_
        simp only [notifySignal, if_neg hrows, record]
  | parkWait park =>
    simp only [exec]
    rcases execPark_cases P s park with ⟨-, h⟩ | ⟨-, h⟩ | ⟨row, -, -, h⟩ | ⟨row, -, -, h⟩
    · exact .keep (by rw [h]; rfl)
    · exact .keep (by rw [h])
    · exact .consume park rfl (fun g => by rw [h]; exact get?_deleteValue s _ g)
    · exact .consume park rfl (fun g => by rw [h]; exact get?_deleteValue s _ g)
  | parkInsert park =>
    simp only [exec, execParkInsert]
    split
    · exact .keep rfl
    · exact .keep (values_insertWait s _)
  | deleteImportedWait waitId importMetadata =>
    simp only [exec, deleteImportedWait]
    split
    · exact .keep rfl
    · split
      · exact .keep rfl
      · split <;> exact .keep rfl
  | respondExpire requestId => exact .keep rfl
  | cancelWrite row => exact .keep rfl
  | sweepOnce => exact .keep rfl
  | cancelWait waitId => exact .keep rfl
  | markDelivered waitId => exact .keep rfl
  | _ => exact absurd rfl hminor

end Store

end PawFlow.Interaction
