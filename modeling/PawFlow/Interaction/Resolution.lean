import PawFlow.Interaction.Steps

/-!
# Interactions resolve once

A request leaves `pending` by an answer, a cancellation or the sweeper, and its signal
is then to be notified once. `notices` counts the notifications a request has caused or
is about to cause; the invariant is that this count is 0 while the row is pending and 1
afterwards.

Two writes of the source do not look at the status they overwrite: `_set_status` in
`cancel` and in the expiry branch of `respond`. `resolvesOnce` is the condition under
which they do no harm.
-/

namespace PawFlow.Interaction

open PawFlow.Lib

def Task.owes : Task → Option String
  | .notifySignal cause _ _ => cause
  | .sweepRead requestId => some requestId
  | _ => none

/-- The request a log entry is a notification for. -/
def Event.notice : Event → Option String
  | .notified cause _ _ _ => cause
  | _ => none

namespace Store

def noticed (s : Store) (requestId : String) : Nat :=
  s.log.countP fun e => e.notice = some requestId

def owed (m : Multiset Task) (requestId : String) : Nat :=
  m.countP fun t => t.owes = some requestId

/-- Notifications a request has caused or is about to cause. -/
def notices (p : System) (requestId : String) : Nat :=
  p.state.noticed requestId + owed p.pending requestId

/-- How many notifications the status of a request calls for. -/
def due (s : Store) (requestId : String) : Nat :=
  match s.getConfirmation requestId with
  | some row => if row.status = .pending then 0 else 1
  | none => 0

/-- The condition on the two unconditional writes: a cancellation finds its row still
pending, and an answer that comes too late finds its row expired by the sweeper. -/
def resolvesOnce (s : Store) (_ : Multiset Task) (t : Task) (_ : Env) : Bool :=
  match t with
  | .cancelWrite row => (s.getConfirmation row.requestId).all fun c => c.status = .pending
  | .respondExpire requestId => (s.getConfirmation requestId).all fun c => c.status = .expired
  | _ => true

/-! ## Settled rows stay as they are -/

/-- A settled request keeps its status and answer; every request keeps its signal. -/
def Frozen (s s' : Store) : Prop :=
  ∀ requestId row, s.getConfirmation requestId = some row →
    ∃ row', s'.getConfirmation requestId = some row' ∧ row'.signal = row.signal ∧
      (row.status ≠ .pending → row'.status = row.status ∧ row'.answer = row.answer ∧
        row'.answeredBy = row.answeredBy)

variable {s' : Store} {requestId : String} {row : Confirmation}

theorem Frozen.of_eq {s : Store} (h : s'.confirmations = s.confirmations) : Frozen s s' := by
  intro requestId row hrow
  refine ⟨row, ?_, rfl, fun _ => ⟨rfl, rfl, rfl⟩⟩
  rw [getConfirmation, h]
  exact hrow

theorem Frozen.trans {s t u : Store} (hst : Frozen s t) (htu : Frozen t u) : Frozen s u := by
  intro requestId row hrow
  obtain ⟨row₁, hrow₁, hsig₁, hkeep₁⟩ := hst requestId row hrow
  obtain ⟨row₂, hrow₂, hsig₂, hkeep₂⟩ := htu requestId row₁ hrow₁
  refine ⟨row₂, hrow₂, hsig₂.trans hsig₁, fun hsettled => ?_⟩
  obtain ⟨hstatus, hanswer, hby⟩ := hkeep₁ hsettled
  obtain ⟨hstatus₂, hanswer₂, hby₂⟩ := hkeep₂ (hstatus ▸ hsettled)
  exact ⟨hstatus₂.trans hstatus, hanswer₂.trans hanswer, hby₂.trans hby⟩

theorem Frozen.update {s : Store} {p : Confirmation → Bool}
    {f : Confirmation → Confirmation} (hf : ∀ c, (f c).requestId = c.requestId)
    (h : s'.confirmations = s.confirmations.update p f hf) (hsig : ∀ c, (f c).signal = c.signal)
    (hkeep : ∀ c ∈ s.confirmations, p c = true → c.status ≠ .pending → f c = c) : Frozen s s' := by
  intro requestId row hrow
  refine ⟨if p row then f row else row, ?_, ?_, ?_⟩
  · have hrow' : s.confirmations.get? requestId = some row := hrow
    rw [getConfirmation, h, Table.get?_update, hrow']
    rfl
  · split
    · exact hsig row
    · rfl
  · intro hsettled
    split
    · next hp =>
      rw [hkeep row (Table.get?_mem hrow) hp hsettled]
      exact ⟨rfl, rfl, rfl⟩
    · exact ⟨rfl, rfl, rfl⟩

theorem frozen_createInteraction (s : Store) (row : Confirmation) :
    Frozen s (s.createInteraction row) := by
  unfold createInteraction
  split
  · next confirmations hinsert =>
    obtain ⟨hnone, hget⟩ := Table.insert?_eq_some hinsert
    intro requestId old hold
    refine ⟨old, ?_, rfl, fun _ => ⟨rfl, rfl, rfl⟩⟩
    have hold' : s.confirmations.get? requestId = some old := hold
    have hne : requestId ≠ row.requestId := by
      rintro rfl
      exact absurd (hold'.symm.trans hnone) (by simp)
    show confirmations.get? requestId = some old
    rw [hget, if_neg hne, hold']
  · exact Frozen.of_eq rfl

/-- Tasks that write `confirmations`. -/
def writesConfirmations : Task → Bool
  | .createInteraction _ | .respondExpire _ | .respondUpdate .. | .cancelWrite _
  | .sweepOnce => true
  | _ => false

variable {P : Platform} {s : Store} {m : Multiset Task} {t : Task} {env : Env}

theorem confirmations_notifySignal (s : Store) (signalId : String) (value : Json)
    (now : Time) : (s.notifySignal signalId value now).2.confirmations = s.confirmations := by
  unfold notifySignal
  dsimp only
  split <;> rfl

theorem confirmations_insertWait (s : Store) (w : Wait) :
    (s.insertWait w).confirmations = s.confirmations := by
  unfold insertWait
  split <;> rfl

theorem Minor.confirmations (h : Minor P s t s') : s'.confirmations = s.confirmations := by
  cases h with
  | same => rfl
  | logged => rfl
  | timer => exact confirmations_insertWait s _

/-- The other tasks leave the table of requests alone. -/
theorem confirmations_exec (h : writesConfirmations t = false) :
    (exec P s t env).1.confirmations = s.confirmations := by
  by_cases hminor : minor t = true
  · exact (exec_minor hminor).confirmations
  cases t with
  | notifySignal cause signalId value =>
    simp only [exec, execNotify]
    split
    · rfl
    · exact confirmations_notifySignal s signalId value env.now
  | parkWait park =>
    simp only [exec]
    rcases execPark_cases P s park with ⟨-, h⟩ | ⟨-, h⟩ | ⟨row, -, -, h⟩ | ⟨row, -, -, h⟩ <;>
      rw [h] <;> rfl
  | parkInsert park =>
    simp only [exec, execParkInsert]
    split
    · rfl
    · exact confirmations_insertWait s _
  | deleteImportedWait waitId importMetadata =>
    simp only [exec, deleteImportedWait]
    split
    · rfl
    · split
      · rfl
      · split <;> rfl
  | cancelWait waitId => rfl
  | markDelivered waitId => rfl
  | _ => simp [minor, writesConfirmations] at h hminor

/-- **Under the condition on the unconditional writes, no step changes a settled
request.** -/
theorem exec_frozen (hok : resolvesOnce s m t env = true) : Frozen s (exec P s t env).1 := by
  by_cases hwrites : writesConfirmations t = true
  swap
  · exact Frozen.of_eq (confirmations_exec (by simpa using hwrites))
  cases t with
  | createInteraction row => exact frozen_createInteraction s row
  | respondExpire requestId =>
    refine Frozen.update (withStatus_requestId .expired) rfl (fun _ => rfl) ?_
    intro c hc hp _
    have hid : c.requestId = requestId := of_decide_eq_true hp
    have hget : s.getConfirmation requestId = some c := hid ▸ Table.get?_of_mem hc
    have hexpired : c.status = .expired := by simpa [resolvesOnce, hget] using hok
    rw [withStatus, ← hexpired]
  | respondUpdate row normalized answeredBy =>
    simp only [exec, execRespondUpdate]
    split
    · split
      · refine Frozen.update (answerAt_requestId normalized answeredBy env.now) rfl
          (fun _ => rfl) ?_
        intro c _ hp hsettled
        exact absurd (of_decide_eq_true (Bool.and_eq_true_iff.mp hp).2) hsettled
      · exact Frozen.of_eq rfl
    · exact Frozen.of_eq rfl
  | cancelWrite row =>
    refine Frozen.update (withStatus_requestId .cancelled) rfl (fun _ => rfl) ?_
    intro c hc hp hsettled
    have hid : c.requestId = row.requestId := of_decide_eq_true hp
    have hget : s.getConfirmation row.requestId = some c := hid ▸ Table.get?_of_mem hc
    have hpending : c.status = .pending := by simpa [resolvesOnce, hget] using hok
    exact absurd hpending hsettled
  | sweepOnce =>
    refine Frozen.update (p := overdue env.now) (withStatus_requestId .expired) rfl
      (fun _ => rfl) ?_
    intro c _ hp hsettled
    simp only [overdue, Bool.and_eq_true, decide_eq_true_eq] at hp
    exact absurd hp.1.1 hsettled
  | _ => exact absurd hwrites (by simp [writesConfirmations])

/-! ## What is notified is what the row says -/

def Carries (s : Store) (requestId signalId : String) (value : Json) : Prop :=
  ∃ row, s.getConfirmation requestId = some row ∧ row.status ≠ .pending ∧
    signalId = row.signal ∧ value.get? "status" = some (.str row.status.text)

/-- The row a task read earlier is still there, under the same signal. -/
def StillThere (s : Store) (row : Confirmation) : Prop :=
  ∃ current, s.getConfirmation row.requestId = some current ∧ current.signal = row.signal

/-- What a pending task may rely on. -/
def TaskOk (s : Store) : Task → Prop
  | .notifySignal (some requestId) signalId value => s.Carries requestId signalId value
  | .sweepRead requestId =>
    ∃ row, s.getConfirmation requestId = some row ∧ row.status = .expired
  | .respondUpdate row _ _ => s.StillThere row
  | .cancelWrite row => s.StillThere row
  | _ => True

/-- What a logged notification says. -/
def EventOk (s : Store) : Event → Prop
  | .notified (some requestId) signalId value _ => s.Carries requestId signalId value
  | _ => True

theorem Carries.frozen {signalId : String} {value : Json}
    (hf : Frozen s s') (h : s.Carries requestId signalId value) :
    s'.Carries requestId signalId value := by
  obtain ⟨row, hrow, hsettled, hsig, hvalue⟩ := h
  obtain ⟨row', hrow', hsig', hkeep⟩ := hf requestId row hrow
  obtain ⟨hstatus, -, -⟩ := hkeep hsettled
  exact ⟨row', hrow', hstatus ▸ hsettled, hsig.trans hsig'.symm, hstatus ▸ hvalue⟩

theorem StillThere.frozen (hf : Frozen s s') (h : s.StillThere row) : s'.StillThere row := by
  obtain ⟨current, hcurrent, hsig⟩ := h
  obtain ⟨current', hcurrent', hsig', -⟩ := hf _ current hcurrent
  exact ⟨current', hcurrent', hsig'.trans hsig⟩

theorem TaskOk.frozen (hf : Frozen s s') (h : s.TaskOk t) : s'.TaskOk t := by
  cases t with
  | notifySignal cause signalId value =>
    cases cause with
    | none => trivial
    | some requestId => exact Carries.frozen hf h
  | sweepRead requestId =>
    obtain ⟨row, hrow, hexpired⟩ := h
    obtain ⟨row', hrow', -, hkeep⟩ := hf requestId row hrow
    have hsettled : row.status ≠ .pending := by rw [hexpired]; decide
    exact ⟨row', hrow', (hkeep hsettled).1.trans hexpired⟩
  | respondUpdate row normalized answeredBy => exact StillThere.frozen hf h
  | cancelWrite row => exact StillThere.frozen hf h
  | _ => trivial

variable {e : Event}

theorem EventOk.frozen (hf : Frozen s s') (h : s.EventOk e) : s'.EventOk e := by
  cases e with
  | notified cause signalId value resolved =>
    cases cause with
    | none => trivial
    | some requestId => exact Carries.frozen hf h
  | _ => trivial

theorem taskOk_of_isCall (h : t.isCall = true) : s.TaskOk t ∧ t.owes = none := by
  cases t with
  | notifySignal cause signalId value =>
    cases cause with
    | none => exact ⟨trivial, rfl⟩
    | some requestId => exact absurd h (by simp [Task.isCall])
  | sweepRead => exact absurd h (by simp [Task.isCall])
  | respondUpdate => exact absurd h (by simp [Task.isCall])
  | cancelWrite => exact absurd h (by simp [Task.isCall])
  | _ => exact ⟨trivial, rfl⟩

theorem signal_ne_empty (row : Confirmation) : row.signal ≠ "" := by
  unfold Confirmation.signal
  split
  · intro h
    have hlen := congrArg String.length h
    rw [String.length_append] at hlen
    exact absurd hlen (by simp)
  · assumption

theorem getConfirmation_setStatus (s : Store) (requestId : String)
    (status : ConfirmationStatus) (j : String) :
    (s.setStatus requestId status).getConfirmation j =
      if j = requestId then (s.getConfirmation j).map (withStatus status)
      else s.getConfirmation j := by
  simp only [getConfirmation, setStatus, Table.get?_update]
  cases hget : s.confirmations.get? j with
  | none => simp
  | some row =>
    have hid : row.requestId = j := Table.get?_key hget
    by_cases hj : j = requestId <;> simp [hid, hj]

theorem getConfirmation_answer
    (h : s.getConfirmation requestId = some row) (hpending : row.status = .pending)
    (answer : Json) (answeredBy : String) (now : Time) (j : String) :
    (s.answer requestId answer answeredBy now).getConfirmation j =
      if j = requestId then some (answerAt answer answeredBy now row)
      else s.getConfirmation j := by
  simp only [getConfirmation, Store.answer, Table.get?_update]
  by_cases hj : j = requestId
  · subst hj
    have hget : s.confirmations.get? j = some row := h
    have hid : row.requestId = j := Table.get?_key hget
    simp [hget, hid, hpending]
  · cases hget : s.confirmations.get? j with
    | none => simp [hj]
    | some other =>
      have hid : other.requestId = j := Table.get?_key hget
      simp [hid, hj]

theorem getConfirmation_sweep (s : Store) (now : Time) (j : String) :
    (s.sweep now).2.getConfirmation j =
      (s.getConfirmation j).map fun c => if overdue now c then withStatus .expired c else c :=
  Table.get?_update _ (overdue now) (withStatus .expired) (withStatus_requestId .expired) j

theorem notice_of_emits (h : Emits P s t e) : e.notice = none ∨
    ∃ cause signalId value resolved, t = .notifySignal cause signalId value ∧
      e = .notified cause signalId value resolved := by
  cases h with
  | notified resolved hsig => exact Or.inr ⟨_, _, _, resolved, rfl, rfl⟩
  | _ => exact Or.inl rfl

/-- The tasks a step pushes may rely on what they need. -/
theorem exec_taskOk (ht : s.TaskOk t) :
    ∀ t' ∈ (exec P s t env).2, (exec P s t env).1.TaskOk t' := by
  intro t' ht'
  -- a row read by this step is there in the store it leaves
  have hthere : ∀ {requestId row}, s.getConfirmation requestId = some row →
      (exec P s t env).1.confirmations = s.confirmations →
      (exec P s t env).1.StillThere row := by
    intro requestId row hrow hkeep
    refine ⟨row, ?_, rfl⟩
    rw [getConfirmation, hkeep, Table.get?_key hrow]
    exact hrow
  cases exec_pushes ht' with
  | respondExpire => trivial
  | respondUpdate answer normalized answeredBy hrow =>
    exact hthere hrow (confirmations_exec rfl)
  | cancelWrite hrow => exact hthere hrow (confirmations_exec rfl)
  | answered normalized answeredBy hcurrent hpending =>
    next row current =>
    obtain ⟨current', hcurrent', hsig⟩ := ht
    obtain rfl := Option.some.inj (hcurrent.symm.trans hcurrent')
    refine ⟨answerAt normalized answeredBy env.now current, ?_, by simp [answerAt],
      hsig.symm, rfl⟩
    simp only [exec, execRespondUpdate, hcurrent, hpending]
    exact (getConfirmation_answer hcurrent hpending _ _ _ _).trans (if_pos rfl)
  | cancelled row =>
    obtain ⟨current, hcurrent, hsig⟩ := ht
    refine ⟨withStatus .cancelled current, ?_, by simp [withStatus], hsig.symm, rfl⟩
    exact (getConfirmation_setStatus s _ _ _).trans (by rw [if_pos rfl, hcurrent]; rfl)
  | sweepRead hrow hoverdue =>
    next row =>
    have hget : s.getConfirmation row.requestId = some row := Table.get?_of_mem hrow
    refine ⟨withStatus .expired row, ?_, rfl⟩
    exact (getConfirmation_sweep s env.now _).trans (by simp [hget, hoverdue])
  | expired hrow =>
    next requestId row =>
    obtain ⟨row', hrow', hexpired⟩ := ht
    obtain rfl := Option.some.inj (hrow.symm.trans hrow')
    have hid : row.requestId = requestId := Table.get?_key hrow
    refine ⟨row, ?_, by simp [hexpired], rfl, by rw [hexpired]; rfl⟩
    rw [getConfirmation, confirmations_exec rfl, hid]
    exact hrow
  | deliverResolved => trivial
  | parkInsert => trivial
  | deliverWait => trivial
  | markDelivered => trivial

/-! ## The notification account -/

theorem due_eq (h : s'.getConfirmation requestId = s.getConfirmation requestId) :
    s'.due requestId = s.due requestId := by
  rw [due, due, h]

theorem due_some (h : s.getConfirmation requestId = some row) :
    s.due requestId = if row.status = .pending then 0 else 1 := by
  simp only [due, h]

theorem due_settle
    (row' : Confirmation) (hget : s.getConfirmation requestId = some row) (hpending : row.status = .pending)
    (hsettled : row'.status ≠ .pending)
    (h : ∀ j, s'.getConfirmation j =
      if j = requestId then some row' else s.getConfirmation j) (j : String) :
    s'.due j = (if requestId = j then 1 else 0) + s.due j := by
  by_cases hj : j = requestId
  · subst hj
    have hafter := (h j).trans (if_pos rfl)
    rw [due_some hget, due_some hafter, if_neg hsettled, if_pos hpending, if_pos rfl]
  · rw [due_eq ((h j).trans (if_neg hj)), if_neg (fun e => hj e.symm), zero_add]

theorem due_createInteraction (s : Store) (row : Confirmation) (requestId : String) :
    (s.createInteraction row).due requestId = s.due requestId := by
  unfold createInteraction
  split
  · next confirmations hinsert =>
    obtain ⟨hnone, hget⟩ := Table.insert?_eq_some hinsert
    by_cases hid : requestId = row.requestId
    · subst hid
      have hbefore : s.getConfirmation row.requestId = none := hnone
      have hafter : ({ s with confirmations } : Store).getConfirmation row.requestId = some
          { row with status := .pending, answer := none, answeredBy := "", answeredAt := 0 } :=
        (hget _).trans (if_pos rfl)
      rw [due_some hafter, due, hbefore]
      rfl
    · exact due_eq ((hget _).trans (if_neg hid))
  · rfl

theorem noticed_of_log (h : s'.log = e :: s.log)
    (requestId : String) : s'.noticed requestId =
      s.noticed requestId + if e.notice = some requestId then 1 else 0 := by
  rw [noticed, noticed, h, List.countP_cons]
  simp

theorem noticed_exec (hnotify : ∀ cause signalId value, t ≠ .notifySignal cause signalId value)
    (requestId : String) : (exec P s t env).1.noticed requestId = s.noticed requestId := by
  rcases exec_emits P s t env with h | ⟨e, h, hemits⟩
  · rw [noticed, h, noticed]
  rcases notice_of_emits hemits with hnone | ⟨cause, signalId, value, _, ht, -⟩
  · rw [noticed_of_log h, hnone]
    simp
  · exact absurd ht (hnotify cause signalId value)

theorem owed_singleton (t : Task) (requestId : String) :
    owed ([t] : List Task) requestId = if t.owes = some requestId then 1 else 0 := by
  rw [owed, Multiset.coe_countP, List.countP_singleton]
  simp

/-- The sweeper owes one notification to each request it expires. -/
theorem owed_sweep (s : Store) (now : Time) (requestId : String) :
    owed (((s.sweep now).1.map Task.sweepRead ++ [.deliverResolved] : List Task)) requestId +
      s.due requestId = (s.sweep now).2.due requestId := by
  have howed : owed (((s.sweep now).1.map Task.sweepRead ++ [.deliverResolved] : List Task))
      requestId = (s.sweep now).1.count requestId := by
    rw [owed, Multiset.coe_countP, List.countP_append, List.countP_map, List.count]
    simp only [List.countP_singleton, Task.owes, reduceCtorEq, decide_false, Bool.false_eq_true,
      if_false, add_zero]
    congr 1
    funext j
    simp [Function.comp_apply, beq_eq_decide]
  have hnodup : (s.sweep now).1.Nodup :=
    s.confirmations.unique.sublist (List.filter_sublist.map _)
  rw [howed, hnodup.count]
  cases hget : s.getConfirmation requestId with
  | none =>
    have hnot : requestId ∉ (s.sweep now).1 := by
      intro hmem
      obtain ⟨row, hrow, rfl⟩ := List.mem_map.mp hmem
      have hsome := Table.get?_of_mem (List.mem_of_mem_filter hrow)
      exact absurd (hsome.symm.trans hget) (by simp)
    have hafter : (s.sweep now).2.getConfirmation requestId = s.getConfirmation requestId := by
      rw [getConfirmation_sweep, hget]
      rfl
    rw [if_neg hnot, due_eq hafter, zero_add]
  | some row =>
    have hid : row.requestId = requestId := Table.get?_key hget
    have hmem : requestId ∈ (s.sweep now).1 ↔ overdue now row = true := by
      constructor
      · intro hmem
        obtain ⟨row', hrow', hid'⟩ := List.mem_map.mp hmem
        have hsome := Table.get?_of_mem (List.mem_of_mem_filter hrow')
        have hsame : row' = row := by
          rw [hid'] at hsome
          exact Option.some.inj (hsome.symm.trans hget)
        exact hsame ▸ List.of_mem_filter hrow'
      · intro hoverdue
        exact List.mem_map.mpr ⟨row, List.mem_filter.mpr ⟨Table.get?_mem hget, hoverdue⟩, hid⟩
    have hafter := (getConfirmation_sweep s now requestId).trans
      (congrArg (Option.map _) hget)
    rw [due_some hget, due_some hafter]
    dsimp only
    by_cases hoverdue : overdue now row = true
    · have hpending : row.status = .pending := by
        simp only [overdue, Bool.and_eq_true, decide_eq_true_eq] at hoverdue
        exact hoverdue.1.1
      simp [hmem.mpr hoverdue, hoverdue, hpending, withStatus]
    · simp [mt hmem.mp hoverdue, hoverdue]

theorem owed_exec (ht : s.TaskOk t) (hwrites : writesConfirmations t = false)
    (hnotify : ¬ ∃ cause signalId value, t = .notifySignal cause signalId value)
    (requestId : String) :
    owed (exec P s t env).2 requestId = if t.owes = some requestId then 1 else 0 := by
  by_cases hsweep : ∃ r, t = .sweepRead r
  · obtain ⟨r, rfl⟩ := hsweep
    obtain ⟨row, hrow, -⟩ := ht
    have hid : row.requestId = r := Table.get?_key hrow
    simp only [exec, execSweepRead, hrow, owed_singleton, notifyFor, hid]
    rfl
  have howes : t.owes = none := by
    cases t with
    | notifySignal cause signalId value => exact absurd ⟨cause, signalId, value, rfl⟩ hnotify
    | sweepRead r => exact absurd ⟨r, rfl⟩ hsweep
    | _ => rfl
  rw [if_neg (by simp [howes]), owed, Multiset.countP_eq_zero]
  intro t' ht'
  cases exec_pushes (Multiset.mem_coe.mp ht') with
  | answered => exact absurd hwrites (by simp [writesConfirmations])
  | cancelled => exact absurd hwrites (by simp [writesConfirmations])
  | sweepRead => exact absurd hwrites (by simp [writesConfirmations])
  | expired => exact absurd ⟨_, rfl⟩ hsweep
  | _ => simp [Task.owes]

/-- **The account balances**: a step adds a notification, made or owed, exactly when it
settles the request. -/
theorem exec_balance (hok : resolvesOnce s m t env = true) (ht : s.TaskOk t) (requestId : String) :
    (exec P s t env).1.noticed requestId + owed (exec P s t env).2 requestId +
      s.due requestId =
    s.noticed requestId + (if t.owes = some requestId then 1 else 0) +
      (exec P s t env).1.due requestId := by
  by_cases hnotify : ∃ cause signalId value, t = .notifySignal cause signalId value
  · -- the owed notification is made
    obtain ⟨cause, signalId, value, rfl⟩ := hnotify
    have hdue : (exec P s (.notifySignal cause signalId value) env).1.due requestId =
        s.due requestId :=
      due_eq (by rw [getConfirmation, confirmations_exec rfl, getConfirmation])
    have howed : owed (exec P s (.notifySignal cause signalId value) env).2 requestId = 0 := by
      simp only [exec, execNotify]
      split
      · rfl
      · dsimp only
        split <;> rfl
    rw [hdue, howed]
    by_cases hsig : signalId = ""
    · cases cause with
      | none => simp [exec, execNotify, hsig, Task.owes, noticed, record, Event.notice]
      | some r =>
        obtain ⟨row, -, -, hrow, -⟩ := ht
        exact absurd (hrow.symm.trans hsig) (signal_ne_empty row)
    · have hlog : ∃ resolved, (exec P s (.notifySignal cause signalId value) env).1.log =
          .notified cause signalId value resolved :: s.log := by
        simp only [exec, execNotify, notifySignal, if_neg hsig]
        split <;> exact ⟨_, rfl⟩
      obtain ⟨resolved, hlog⟩ := hlog
      rw [noticed_of_log hlog, add_zero]
      rfl
  rw [noticed_exec (fun c g v h => hnotify ⟨c, g, v, h⟩)]
  suffices hsuff : owed (exec P s t env).2 requestId + s.due requestId =
      (if t.owes = some requestId then 1 else 0) + (exec P s t env).1.due requestId by
    omega
  by_cases hwrites : writesConfirmations t = true
  · cases t with
    | createInteraction row =>
      rw [if_neg (by simp [Task.owes]), zero_add]
      show owed ([] : List Task) requestId + s.due requestId =
        (s.createInteraction row).due requestId
      rw [due_createInteraction]
      exact zero_add _
    | respondExpire r =>
      -- the row is expired already, so writing the status again changes nothing
      have hdue : (s.setStatus r .expired).due requestId = s.due requestId := by
        apply due_eq
        rw [getConfirmation_setStatus]
        split
        · next hid =>
          subst hid
          cases hget : s.getConfirmation requestId with
          | none => rfl
          | some row =>
            have hexpired : row.status = .expired := by
              simpa [resolvesOnce, hget] using hok
            rw [Option.map_some, withStatus, ← hexpired]
        · rfl
      show owed ([] : List Task) requestId + s.due requestId =
        0 + (s.setStatus r .expired).due requestId
      rw [hdue]
      rfl
    | respondUpdate row normalized answeredBy =>
      obtain ⟨current, hcurrent, -⟩ := ht
      rw [if_neg (by simp [Task.owes]), zero_add]
      simp only [exec, execRespondUpdate, hcurrent]
      split
      · next hpending =>
        rw [owed_singleton]
        simp only [notifyFor, Task.owes, Option.some.injEq]
        exact (due_settle _ hcurrent hpending (by simp [answerAt])
          (getConfirmation_answer hcurrent hpending normalized answeredBy env.now)
          requestId).symm
      · simp [owed]
        rfl
    | cancelWrite row =>
      obtain ⟨current, hcurrent, -⟩ := ht
      have hpending : current.status = .pending := by
        simpa [resolvesOnce, hcurrent] using hok
      rw [if_neg (by simp [Task.owes]), zero_add]
      show owed ([notifyFor row (closedValue .cancelled)] : List Task) requestId +
        s.due requestId = (s.setStatus row.requestId .cancelled).due requestId
      rw [owed_singleton]
      simp only [notifyFor, Task.owes, Option.some.injEq]
      refine (due_settle (withStatus .cancelled current) hcurrent hpending
        (by simp [withStatus]) (fun j => ?_) requestId).symm
      rw [getConfirmation_setStatus]
      split
      · next hj => rw [hj, hcurrent, Option.map_some]
      · rfl
    | sweepOnce =>
      rw [if_neg (by simp [Task.owes]), zero_add]
      exact owed_sweep s env.now requestId
    | _ => exact absurd hwrites (by simp [writesConfirmations])
  · have hdue : (exec P s t env).1.due requestId = s.due requestId :=
      due_eq (by rw [getConfirmation, confirmations_exec (by simpa using hwrites),
        getConfirmation])
    rw [hdue]
    congr 1
    exact owed_exec ht (by simpa using hwrites) hnotify requestId

/-! ## Whole runs -/

/-- The account balances, and tasks and log agree with the rows. -/
structure ResolvedOnce (s : Store) (m : Multiset Task) : Prop where
  account : ∀ requestId, s.noticed requestId + owed m requestId = s.due requestId
  tasks : ∀ t ∈ m, s.TaskOk t
  log : ∀ e ∈ s.log, s.EventOk e

theorem resolvedOnce_start (ht : t.isCall = true) (h : ResolvedOnce s m) :
    ResolvedOnce s (t ::ₘ m) := by
  obtain ⟨htask, howes⟩ := taskOk_of_isCall (s := s) ht
  refine ⟨fun requestId => ?_, ?_, h.log⟩
  · rw [owed, Multiset.countP_cons_of_neg _ (by simp [howes])]
    exact h.account requestId
  · intro t' ht'
    rcases Multiset.mem_cons.mp ht' with rfl | ht'
    · exact htask
    · exact h.tasks t' ht'

theorem resolvedOnce_exec (h : ResolvedOnce s (t ::ₘ m))
    (hok : resolvesOnce s (t ::ₘ m) t env = true) :
    ResolvedOnce (exec P s t env).1 ((exec P s t env).2 + m) := by
  have ht : s.TaskOk t := h.tasks t (Multiset.mem_cons_self t m)
  have hfrozen : Frozen s (exec P s t env).1 := exec_frozen hok
  refine ⟨fun requestId => ?_, ?_, ?_⟩
  · have hbalance := exec_balance (P := P) hok ht requestId
    have hbefore := h.account requestId
    rw [owed, Multiset.countP_cons] at hbefore
    rw [owed, Multiset.countP_add]
    simp only [owed] at hbalance
    omega
  · intro t' ht'
    rcases Multiset.mem_add.mp ht' with ht' | ht'
    · exact exec_taskOk ht t' (Multiset.mem_coe.mp ht')
    · exact (h.tasks t' (Multiset.mem_cons_of_mem ht')).frozen hfrozen
  · intro e he
    rcases exec_emits P s t env with hlog | ⟨e', hlog, hemits⟩
    · rw [hlog] at he
      exact (h.log e he).frozen hfrozen
    rw [hlog] at he
    rcases List.mem_cons.mp he with rfl | he
    · rcases notice_of_emits hemits with hnone | ⟨cause, signalId, value, resolved, rfl, rfl⟩
      · cases e with
        | notified cause signalId value resolved =>
          simp only [Event.notice] at hnone
          subst hnone
          trivial
        | _ => trivial
      · cases cause with
        | none => trivial
        | some requestId => exact Carries.frozen hfrozen ht
    · exact (h.log e he).frozen hfrozen

theorem runs_resolvedOnce {p : System} (h : RunsUnder P resolvesOnce initial p) :
    ResolvedOnce p.state p.pending := by
  refine Pool.invariant ResolvedOnce (fun s m t => resolvedOnce_start)
    (fun s m t env => resolvedOnce_exec) h ?_
  refine ⟨fun requestId => rfl, ?_, ?_⟩
  · intro t ht
    exact absurd ht (by simp [initial, Pool.pending])
  · intro e he
    exact absurd he (by simp [initial])

theorem runs_frozen {p q : System} (h : RunsUnder P resolvesOnce p q) : Frozen p.state q.state := by
  refine h.preserves (fun _ => True) (fun p q => Frozen p.state q.state)
    (fun p => Frozen.of_eq rfl) (fun p q r => Frozen.trans) (fun _ _ _ _ _ _ => trivial)
    (fun p a q _ hok hstep => ?_) trivial
  rcases Pool.step_cases hstep with ⟨t, -, hstate, -⟩ |
    ⟨i, t, env, rest, rfl, hnext, hstate, -, -⟩
  · exact Frozen.of_eq (by rw [hstate])
  · rw [hstate]
    apply exec_frozen (m := p.pending)
    simpa [Pool.guarded, hnext] using hok

/-- **Every interaction resolves once.** In every run whose unconditional status writes
find the row they expect: a settled request keeps its status, answer and author for the
rest of the run; a request has caused, or is about to cause, no notification while it is
pending and exactly one afterwards (made, once no call is in progress); and a notification
goes to the signal of its request and carries the status of its row. -/
theorem interaction_resolves_once {p q : System} (hp : RunsUnder P resolvesOnce initial p)
    (hq : RunsUnder P resolvesOnce p q) :
    (∀ requestId row, p.state.getConfirmation requestId = some row →
      row.status ≠ .pending → ∃ row', q.state.getConfirmation requestId = some row' ∧
        row'.status = row.status ∧ row'.answer = row.answer ∧
        row'.answeredBy = row.answeredBy) ∧
    (∀ requestId row, p.state.getConfirmation requestId = some row →
      notices p requestId = (if row.status = .pending then 0 else 1) ∧
      (p.pending = 0 →
        p.state.noticed requestId = if row.status = .pending then 0 else 1)) ∧
    (∀ requestId signalId value resolved,
      .notified (some requestId) signalId value resolved ∈ p.state.log →
      ∃ row, p.state.getConfirmation requestId = some row ∧ row.status ≠ .pending ∧
        signalId = row.signal ∧ value.get? "status" = some (.str row.status.text)) := by
  have hinv := runs_resolvedOnce hp
  refine ⟨?_, ?_, ?_⟩
  · intro requestId row hrow hsettled
    obtain ⟨row', hrow', -, hkeep⟩ := runs_frozen hq requestId row hrow
    exact ⟨row', hrow', hkeep hsettled⟩
  · intro requestId row hrow
    have haccount := hinv.account requestId
    rw [due_some hrow] at haccount
    refine ⟨haccount, fun hidle => ?_⟩
    rw [hidle] at haccount
    exact haccount
  · intro requestId signalId value resolved hmem
    exact hinv.log _ hmem

/-- A yes-or-no request that expires at time 10. -/
def question : Confirmation where
  requestId := "req-1"
  conversationId := "conv-1"
  kind := "confirm"
  options := .arr []
  responseSchema := .obj []
  signalId := "interaction:req-1"
  expiresAt := 10
  status := .pending
  answer := none
  answeredBy := ""
  answeredAt := 0

/-- The request is asked, answered in time, and its signal notified. -/
def answeredInTime : List (PoolLabel Task Env) :=
  [.start (.createInteraction question), .advance 0 { now := 1 },
    .start (.respond "req-1" (.str "yes") "user"), .advance 1 { now := 2 },
    .advance 1 { now := 2 }, .advance 1 { now := 2 }]

theorem interaction_resolves_once_in_time :
    ∃ p : System, RunsUnder plainPlatform resolvesOnce initial p ∧
      (p.state.getConfirmation "req-1").map Confirmation.status = some .answered ∧
      p.pending = 0 ∧ p.state.noticed "req-1" = 1 := by
  obtain ⟨p, hfollow, hstatus, hidle⟩ : ∃ p, follow (step plainPlatform)
      (fun p a => Pool.guarded resolvesOnce p a = true) initial answeredInTime = some p ∧
      (p.state.getConfirmation "req-1").map Confirmation.status = some .answered ∧
      p.pending = 0 := ⟨_, rfl, by decide, rfl⟩
  have hrun : RunsUnder plainPlatform resolvesOnce initial p := runs_of_follow hfollow
  obtain ⟨row, hrow, hanswered⟩ := Option.map_eq_some_iff.mp hstatus
  obtain ⟨-, hnotices, -⟩ := interaction_resolves_once hrun (.refl p)
  refine ⟨p, hrun, hstatus, hidle, ?_⟩
  rw [(hnotices "req-1" row hrow).2 hidle, hanswered]
  rfl

/-- A cancellation reads the pending row before the answer is written. -/
def cancelRace : List (PoolLabel Task Env) :=
  [.start (.createInteraction question), .advance 0 { now := 1 },
    .start (.respond "req-1" (.str "yes") "user"), .advance 1 { now := 2 },
    .start (.cancel "req-1"), .advance 2 { now := 2 }, .advance 1 { now := 3 }]

/-- The cancellation is then written, and both calls notify. -/
def cancelRaceEnd : List (PoolLabel Task Env) :=
  [.advance 2 { now := 4 }, .advance 1 { now := 5 }, .advance 2 { now := 6 }]

/-- An answer arrives after the deadline and before the next sweep. -/
def lateAnswer : List (PoolLabel Task Env) :=
  [.start (.createInteraction question), .advance 0 { now := 1 },
    .start (.respond "req-1" (.str "yes") "user"), .advance 1 { now := 11 },
    .advance 1 { now := 11 }]

/-- Without the condition an answered request is turned into a cancelled one and notified
twice, and a late answer settles its request without any notification. -/
theorem interaction_resolves_twice_or_never :
    (∃ p q : System, Reach (step plainPlatform) initial p ∧ Reach (step plainPlatform) p q ∧
      (p.state.getConfirmation "req-1").map Confirmation.status = some .answered ∧
      (q.state.getConfirmation "req-1").map Confirmation.status = some .cancelled ∧
      q.pending = 0 ∧ q.state.noticed "req-1" = 2) ∧
    (∃ p : System, Reach (step plainPlatform) initial p ∧
      (p.state.getConfirmation "req-1").map Confirmation.status = some .expired ∧
      p.pending = 0 ∧ p.state.noticed "req-1" = 0) := by
  constructor
  · obtain ⟨p, q, hp, hq, hfacts⟩ : ∃ p q, follow (step plainPlatform) (fun _ _ => True)
        initial cancelRace = some p ∧ follow (step plainPlatform) (fun _ _ => True)
        p cancelRaceEnd = some q ∧
        (p.state.getConfirmation "req-1").map Confirmation.status = some .answered ∧
        (q.state.getConfirmation "req-1").map Confirmation.status = some .cancelled ∧
        q.pending = 0 ∧ q.state.noticed "req-1" = 2 :=
      ⟨_, _, rfl, rfl, by decide, by decide, rfl, by decide⟩
    exact ⟨p, q, runs_of_follow hp, runs_of_follow hq, hfacts⟩
  · obtain ⟨p, hp, hfacts⟩ : ∃ p, follow (step plainPlatform) (fun _ _ => True)
        initial lateAnswer = some p ∧
        (p.state.getConfirmation "req-1").map Confirmation.status = some .expired ∧
        p.pending = 0 ∧ p.state.noticed "req-1" = 0 :=
      ⟨_, rfl, by decide, rfl, by decide⟩
    exact ⟨p, runs_of_follow hp, hfacts⟩

end Store

end PawFlow.Interaction
