import PawFlow.DurableTasks.Flow

/-!
# Why a durable task releases a FlowFile

Every row of `durable_waits` belongs to the FlowFile it was inserted for, and its status has a reason
that arose after this FlowFile entered. Rows keep their reasons when a `deliver_resolved` takes them,
and pass them on to the FlowFile they restore. The stored values are the remembered ones of the log.
-/

namespace PawFlow.DurableTasks

open PawFlow.Lib PawFlow.Core PawFlow.Interaction PawFlow.Interaction.Store

variable {P : Platform} {R : Parsers} {s : State}

/-! ## Since a FlowFile entered -/

variable {e : Entry} {count : Nat} {log l' : List Event} {w : Wait}

variable {n : Nat}

theorem since_entered (h : e.number ≠ n) (log : List Event) :
    since n (.entered e :: log) = .entered e :: since n log := if_neg h

/-- Nothing that happened since one of the first `count` FlowFiles entered is forgotten. -/
def Grows (count : Nat) (log log' : List Event) : Prop :=
  ∀ n < count, ∀ ev ∈ since n log, ev ∈ since n log'

theorem grows_entered (h : e.number = count) (log : List Event) :
    Grows count log (.entered e :: log) := by
  intro n hn ev hev
  rw [since_entered (by omega)]
  exact List.mem_cons_of_mem _ hev

theorem grows_cons (count : Nat) (ev : Event)
    (h : ∀ n, since n (ev :: log) = ev :: since n log) : Grows count log (ev :: log) := by
  intro n _ ev' hev'
  rw [h n]
  exact List.mem_cons_of_mem _ hev'

variable {l : List Event} {f : FlowFile}

theorem Cancelled.mono (h : Cancelled n l) (hl : ∀ ev ∈ l, ev ∈ l') : Cancelled n l' := by
  obtain ⟨waitId, expiresAt, hparked, hcancelled⟩ := h
  exact ⟨waitId, expiresAt, hl _ hparked, hl _ hcancelled⟩

theorem TimedOut.mono (h : TimedOut n l) (hl : ∀ ev ∈ l, ev ∈ l') : TimedOut n l' := by
  obtain ⟨waitId, expiresAt, now, hparked, hclock, hpos, hlt⟩ := h
  exact ⟨waitId, expiresAt, now, hl _ hparked, hl _ hclock, hpos, hlt⟩

theorem Reached.mono {c : TimerTask} (h : Reached R c e l)
    (hl : ∀ ev ∈ l, ev ∈ l') : Reached R c e l' := by
  obtain ⟨deadlineAt, now, hdeadline, hclock, hle⟩ := h
  exact ⟨deadlineAt, now, hdeadline, hl _ hclock, hle⟩

variable {log' : List Event}

theorem Grounds.mono (h : Grounds R log e f)
    (hl : ∀ ev ∈ since e.number log, ev ∈ since e.number log') : Grounds R log' e f := by
  unfold Grounds at h ⊢
  split at h
  · intro hfresh
    rcases h hfresh with ⟨hstatus, value, found, hmem, hvalue⟩ | ⟨hstatus, hout⟩ | ⟨hstatus, hcan⟩
    · exact .inl ⟨hstatus, value, found, hl _ hmem, hvalue⟩
    · exact .inr (.inl ⟨hstatus, hout.mono hl⟩)
    · exact .inr (.inr ⟨hstatus, hcan.mono hl⟩)
  · intro hfresh
    rcases h hfresh with ⟨hstatus, hreached⟩ | ⟨hstatus, hcan⟩ |
      ⟨hstatus, waitId, expiresAt, value, found, hparked, hmem⟩
    · exact .inl ⟨hstatus, hreached.mono hl⟩
    · exact .inr (.inl ⟨hstatus, hcan.mono hl⟩)
    · exact .inr (.inr ⟨hstatus, waitId, expiresAt, value, found, hl _ hparked, hl _ hmem⟩)

/-! ## Rows -/

/-- The reason of the status of a row. -/
def StatusOk (events : List Event) (w : Wait) : Prop :=
  match w.status with
  | .waiting => w.resolution = none
  | .resolved => ∃ value now found, w.resolution = some (value, now) ∧
      .notified w.signalId value found ∈ events
  | .timeout => w.kind = .signal ∧ w.resolution = none ∧
      ∃ now, .clock now ∈ events ∧ 0 < w.expiresAt ∧ w.expiresAt < now
  | .elapsed => w.kind = .timer ∧ ∃ now, .clock now ∈ events ∧ w.expiresAt ≤ now
  | .cancelled => w.resolution = none ∧ .cancelled w.waitId ∈ events
  | .delivered => True

/-- A row inserted for a FlowFile. -/
structure RowOk (R : Parsers) (count : Nat) (log : List Event) (e : Entry) (w : Wait) : Prop where
  number : e.number < count
  parked : .parked e.number w.waitId w.expiresAt ∈ since e.number log
  task : match w.kind with
    | .signal => ∃ c, e.task = .wait c ∧ w.signalId = c.signalOf e.file
    | .timer => ∃ c, e.task = .timer c ∧ c.deadline R e.now = .ok w.expiresAt ∧
        w.signalId = w.waitId
  status : StatusOk (since e.number log) w

theorem StatusOk.mono (h : StatusOk l w) (hl : ∀ ev ∈ l, ev ∈ l') : StatusOk l' w := by
  unfold StatusOk at h ⊢
  split at h
  · exact h
  · obtain ⟨value, now, found, hres, hmem⟩ := h
    exact ⟨value, now, found, hres, hl _ hmem⟩
  · obtain ⟨hkind, hres, now, hclock, hpos, hlt⟩ := h
    exact ⟨hkind, hres, now, hl _ hclock, hpos, hlt⟩
  · obtain ⟨hkind, now, hclock, hle⟩ := h
    exact ⟨hkind, now, hl _ hclock, hle⟩
  · exact ⟨h.1, hl _ h.2⟩
  · trivial

theorem RowOk.mono {count' : Nat}
    (h : RowOk R count log e w) (hcount : count ≤ count') (hgrows : Grows count log log') :
    RowOk R count' log' e w where
  number := Nat.lt_of_lt_of_le h.number hcount
  parked := hgrows _ h.number _ h.parked
  task := h.task
  status := h.status.mono (hgrows _ h.number)

theorem RowOk.withStatus (h : RowOk R count log e w) {status : WaitStatus}
    (hstatus : StatusOk (since e.number log) { w with status }) :
    RowOk R count log e { w with status } where
  number := h.number
  parked := h.parked
  task := h.task
  status := hstatus

/-! ## Restored FlowFiles -/

theorem attr_stampInteractionResolution (f : FlowFile) (signalId : String) (value : Json)
    {key : String} (hstatus : key ≠ "interaction.status") (hanswer : key ≠ "interaction.answer") :
    (stampInteractionResolution P f signalId value).attr key = f.attr key := by
  unfold stampInteractionResolution
  split
  · rfl
  · dsimp only
    split
    · exact f.attr_setAttribute_of_ne _ hstatus
    · rw [FlowFile.attr_setAttribute_of_ne _ _ hanswer, f.attr_setAttribute_of_ne _ hstatus]
    · rw [FlowFile.attr_setAttribute_of_ne _ _ hanswer, f.attr_setAttribute_of_ne _ hstatus]

theorem attr_restored_timer (h : w.kind = .timer) (now : Time) :
    (restoredFlowFile P w now).attr "durable.timer.status" = w.status.text := by
  unfold restoredFlowFile
  rw [h]
  dsimp only
  rw [FlowFile.attr_setAttribute_of_ne _ _ (by decide), FlowFile.attr_setAttribute_of_ne _ _
    (by decide), FlowFile.attr_setAttribute_of_ne _ _ (by decide), FlowFile.attr_setAttribute_self]

/-- The status a wait leaves on its FlowFile. -/
def statusText : WaitStatus → String
  | .timeout => "timeout"
  | .cancelled => "cancelled"
  | _ => "signaled"

theorem attr_restored_signal (h : w.kind = .signal) (now : Time) :
    (restoredFlowFile P w now).attr "durable.wait.status" = statusText w.status := by
  have hset : ∀ f : FlowFile, ((f.setAttribute "durable.wait.status"
      (statusText w.status)).setAttribute "durable.wait.signal_id" w.signalId).attr
        "durable.wait.status" = statusText w.status := fun f => by
    rw [FlowFile.attr_setAttribute_of_ne _ _ (by decide), FlowFile.attr_setAttribute_self]
  unfold restoredFlowFile
  rw [h]
  dsimp only
  split
  · rw [attr_stampInteractionResolution _ _ _ (by decide) (by decide),
      FlowFile.attr_setAttribute_of_ne _ _ (by decide)]
    exact hset w.flowfile
  · split
    · rw [FlowFile.attr_setAttribute_of_ne _ _ (by decide)]
      exact hset w.flowfile
    · exact hset w.flowfile

theorem attr_restored_value (h : w.kind = .signal) {value : Json} {at' : Time}
    (hres : w.resolution = some (value, at')) (now : Time) :
    (restoredFlowFile P w now).attr "durable.wait.value" = value.dumps := by
  unfold restoredFlowFile
  rw [h, hres]
  dsimp only
  rw [attr_stampInteractionResolution _ _ _ (by decide) (by decide),
    FlowFile.attr_setAttribute_self]

def HasStatus (e : Entry) (f : FlowFile) : Prop :=
  match e.task with
  | .wait _ => f.attr "durable.wait.status" ≠ ""
  | .timer _ => f.attr "durable.timer.status" ≠ ""

/-- **Delivery.** A FlowFile restored from a row that is ready carries a status and has the reason of
the row. -/
theorem RowOk.restored (h : RowOk R count log e w) (hready : w.status.ready = true) (now : Time) :
    HasStatus e (restoredFlowFile P w now) ∧ Grounds R log e (restoredFlowFile P w now) := by
  have htask := h.task
  have hstatus := h.status
  have hparked := h.parked
  cases hkind : w.kind with
  | signal =>
    rw [hkind] at htask
    obtain ⟨c, hc, hsignal⟩ := htask
    have htext := attr_restored_signal (P := P) hkind now
    have hvalue : ∀ value at', w.resolution = some (value, at') →
        (restoredFlowFile P w now).attr "durable.wait.value" = value.dumps :=
      fun value at' hres => attr_restored_value hkind hres now
    simp only [HasStatus, Grounds, hc, htext]
    unfold StatusOk at hstatus
    cases hs : w.status with
    | waiting | delivered => simp [hs, WaitStatus.ready] at hready
    | resolved =>
      rw [hs] at hstatus
      obtain ⟨value, at', found, hres, hmem⟩ := hstatus
      refine ⟨by decide, fun _ => .inl ⟨rfl, value, found, hsignal ▸ hmem, hvalue _ _ hres⟩⟩
    | timeout =>
      rw [hs] at hstatus
      obtain ⟨-, -, t, hclock, hpos, hlt⟩ := hstatus
      exact ⟨by decide, fun _ => .inr (.inl ⟨rfl, _, _, t, hparked, hclock, hpos, hlt⟩)⟩
    | elapsed =>
      rw [hs] at hstatus
      rw [hkind] at hstatus
      exact absurd hstatus.1 (by decide)
    | cancelled =>
      rw [hs] at hstatus
      exact ⟨by decide, fun _ => .inr (.inr ⟨rfl, _, _, hparked, hstatus.2⟩)⟩
  | timer =>
    rw [hkind] at htask
    obtain ⟨c, hc, hdeadline, hsignal⟩ := htask
    have htext := attr_restored_timer (P := P) hkind now
    simp only [HasStatus, Grounds, hc, htext]
    unfold StatusOk at hstatus
    cases hs : w.status with
    | waiting | delivered => simp [hs, WaitStatus.ready] at hready
    | resolved =>
      rw [hs] at hstatus
      obtain ⟨value, at', found, hres, hmem⟩ := hstatus
      exact ⟨by decide, fun _ => .inr (.inr ⟨rfl, _, _, value, found, hparked, hsignal ▸ hmem⟩)⟩
    | timeout =>
      rw [hs, hkind] at hstatus
      exact absurd hstatus.1 (by decide)
    | elapsed =>
      rw [hs] at hstatus
      obtain ⟨-, t, hclock, hle⟩ := hstatus
      exact ⟨by decide, fun _ => .inl ⟨rfl, _, t, hdeadline, hclock, hle⟩⟩
    | cancelled =>
      rw [hs] at hstatus
      exact ⟨by decide, fun _ => .inr (.inl ⟨rfl, _, _, hparked, hstatus.2⟩)⟩

/-! ## The invariant -/

def CallOk (R : Parsers) (count : Nat) : Call → Prop
  | .consume e park | .insert e park =>
    e.number < count ∧ ∃ c, e.task = .wait c ∧ park.signalId = c.signalOf e.file
  | .timer e _ _ _ deadlineAt =>
    e.number < count ∧ ∃ c, e.task = .timer c ∧ c.deadline R e.now = .ok deadlineAt

variable {call : Call}

theorem CallOk.mono {count' : Nat} (h : CallOk R count call)
    (hcount : count ≤ count') : CallOk R count' call := by
  cases call with
  | consume | insert | timer => exact ⟨Nat.lt_of_lt_of_le h.1 hcount, h.2⟩

structure Inv (R : Parsers) (s : State) : Prop where
  calls : ∀ call ∈ s.calls, CallOk R s.count call
  rows : ∀ w ∈ s.store.waits, RowOk R s.count s.log (s.owner w.waitId) w
  taken : ∀ w ∈ s.taken, w.status.ready = true ∧ (∃ w', s.store.waits.get? w.waitId = some w') ∧
    RowOk R s.count s.log (s.owner w.waitId) w
  resumed : ∀ p ∈ s.resumed, p.1.number < s.count ∧ HasStatus p.1 p.2 ∧ Grounds R s.log p.1 p.2
  stored : ∀ g, (s.store.values.get? g).map SignalValue.value = remembered g s.log
  grounded : AllGrounded R s.log

theorem Inv.init : Inv R {} where
  calls _ h := absurd h List.not_mem_nil
  rows _ h := absurd h (Table.not_mem_empty _)
  taken _ h := absurd h List.not_mem_nil
  resumed _ h := absurd h List.not_mem_nil
  stored _ := rfl
  grounded := trivial

theorem Inv.extend (h : Inv R s) (hcount : s.count ≤ count)
    (hgrows : Grows s.count s.log log) (hstored : ∀ g, remembered g log = remembered g s.log)
    (hgrounded : AllGrounded R log) : Inv R { s with count, log } where
  calls call hcall := (h.calls call hcall).mono hcount
  rows w hw := (h.rows w hw).mono hcount hgrows
  taken w hw := ⟨(h.taken w hw).1, (h.taken w hw).2.1, (h.taken w hw).2.2.mono hcount hgrows⟩
  resumed p hp := by
    obtain ⟨hnumber, hstatus, hgrounds⟩ := h.resumed p hp
    exact ⟨Nat.lt_of_lt_of_le hnumber hcount, hstatus, hgrounds.mono (hgrows _ hnumber)⟩
  stored g := (h.stored g).trans (hstored g).symm
  grounded := hgrounded

theorem Inv.released (h : Inv R s) (hgrounds : Grounds R s.log e f) :
    Inv R (s.record (.released e f)) :=
  h.extend (Nat.le_refl _) (grows_cons _ _ fun _ => rfl) (fun _ => rfl) ⟨hgrounds, h.grounded⟩

theorem Inv.clock (h : Inv R s) (now : Time) : Inv R (s.record (.clock now)) :=
  h.extend (Nat.le_refl _) (grows_cons _ _ fun _ => rfl) (fun _ => rfl) h.grounded

theorem Inv.addCall (h : Inv R s) (hcall : CallOk R s.count call) :
    Inv R { s with calls := s.calls ++ [call] } where
  calls call' hcall' := by
    rcases List.mem_append.mp hcall' with hcall' | hcall'
    · exact h.calls call' hcall'
    · exact List.mem_singleton.mp hcall' ▸ hcall
  rows := h.rows
  taken := h.taken
  resumed := h.resumed
  stored := h.stored
  grounded := h.grounded

theorem Inv.settle (h : Inv R s) {store : Store} {g : Wait → Wait}
    (hid : ∀ w, (g w).waitId = w.waitId)
    (hwaits : ∀ i, store.waits.get? i = (s.store.waits.get? i).map g)
    (hvalues : ∀ i, store.values.get? i = s.store.values.get? i)
    (hok : ∀ w, RowOk R s.count s.log (s.owner w.waitId) w →
      RowOk R s.count s.log (s.owner w.waitId) (g w)) : Inv R { s with store } where
  calls := h.calls
  rows w hw := by
    obtain ⟨w', hw', rfl⟩ := Option.map_eq_some_iff.mp ((hwaits _).symm.trans (Table.get?_of_mem hw))
    rw [hid]
    exact hok w' (h.rows w' (Table.get?_mem hw'))
  taken w hw := by
    obtain ⟨hready, ⟨w', hw'⟩, hrow⟩ := h.taken w hw
    refine ⟨hready, ⟨g w', ?_⟩, hrow⟩
    show store.waits.get? w.waitId = _
    rw [hwaits, hw', Option.map_some]
  resumed := h.resumed
  stored i := by
    show (store.values.get? i).map _ = _
    rw [hvalues]
    exact h.stored i
  grounded := h.grounded

theorem Inv.setWaits (h : Inv R s) (p : Wait → Bool) (status : WaitStatus)
    (hok : ∀ w, p w = true → RowOk R s.count s.log (s.owner w.waitId) w →
      StatusOk (since (s.owner w.waitId).number s.log) { w with status }) :
    Inv R { s with store := s.store.setWaits p status } := by
  refine h.settle (g := fun w => if p w then { w with status } else w) (fun w => ?_)
    (get?_setWaits s.store p status) (fun _ => rfl) (fun w hw => ?_)
  · split <;> rfl
  · split
    · next hp => exact hw.withStatus (hok w hp hw)
    · exact hw

/-! ## Steps -/

theorem grounds_setRelationship (value : String)
    (h : Grounds R log e f) : Grounds R log e (f.setAttribute "route.relationship" value) := by
  unfold Grounds at h ⊢
  have hwait : (f.setAttribute "route.relationship" value).attr "durable.wait.status" =
      f.attr "durable.wait.status" := f.attr_setAttribute_of_ne value (by decide)
  have htimer : (f.setAttribute "route.relationship" value).attr "durable.timer.status" =
      f.attr "durable.timer.status" := f.attr_setAttribute_of_ne value (by decide)
  have hvalue : (f.setAttribute "route.relationship" value).attr "durable.wait.value" =
      f.attr "durable.wait.value" := f.attr_setAttribute_of_ne value (by decide)
  rw [hwait, htimer, hvalue]
  exact h

theorem WaitTask.execute_cases (R : Parsers) (c : WaitTask) (f : FlowFile) :
    (∃ message, c.execute R f = .raised message) ∨
    (f.attr "durable.wait.status" ≠ "" ∧ c.execute R f = .released f) ∨
    (∃ park, c.execute R f = .parkWait park ∧ park.signalId = c.signalOf f) := by
  unfold WaitTask.execute
  split
  · next hstatus => exact .inr (.inl ⟨hstatus, rfl⟩)
  · split
    · exact .inl ⟨_, rfl⟩
    · split
      · exact .inl ⟨_, rfl⟩
      · exact .inl ⟨_, rfl⟩
      · exact .inr (.inr ⟨_, rfl, rfl⟩)

theorem TimerTask.execute_cases (P : Platform) (R : Parsers) (c : TimerTask) (f : FlowFile)
    (now : Time) :
    (∃ message, c.execute P R f now = .raised message) ∨
    (f.attr "durable.timer.status" ≠ "" ∧ ∃ value,
      c.execute P R f now = .released (f.setAttribute "route.relationship" value)) ∨
    (∃ instanceId taskId f' deadlineAt,
      c.execute P R f now = .parkTimer instanceId taskId f' deadlineAt ∧
      c.deadline R now = .ok deadlineAt) := by
  unfold TimerTask.execute
  split
  · next hstatus => exact .inr (.inl ⟨hstatus, _, rfl⟩)
  · split
    · exact .inl ⟨_, rfl⟩
    · exact .inl ⟨_, rfl⟩
    · next hdeadline _ => exact .inr (.inr ⟨_, _, _, _, rfl, hdeadline⟩)

theorem Inv.execute_of_hasStatus (h : Inv R s) (hstatus : HasStatus e f)
    (hgrounds : Grounds R s.log e f) (now : Time) : Inv R (s.execute P R e f now) := by
  unfold State.execute DurableTask.execute
  unfold HasStatus at hstatus
  cases htask : e.task with
  | wait c =>
    rw [htask] at hstatus
    simp only [WaitTask.execute, if_pos hstatus]
    exact h.released hgrounds
  | timer c =>
    rw [htask] at hstatus
    simp only [TimerTask.execute, if_pos hstatus]
    exact h.released (grounds_setRelationship _ hgrounds)

theorem Inv.execute_entry (h : Inv R s) (hnumber : e.number < s.count) :
    Inv R (s.execute P R e e.file e.now) := by
  unfold State.execute DurableTask.execute
  cases htask : e.task with
  | wait c =>
    dsimp only
    rcases c.execute_cases R e.file with ⟨message, heq⟩ | ⟨hstatus, heq⟩ | ⟨park, heq, hsignal⟩
    · rw [heq]
      exact h
    · rw [heq]
      refine h.released ?_
      simp only [Grounds, htask]
      exact fun hfresh => absurd hfresh hstatus
    · rw [heq]
      exact h.addCall ⟨hnumber, c, htask, hsignal⟩
  | timer c =>
    dsimp only
    rcases c.execute_cases P R e.file e.now with ⟨message, heq⟩ | ⟨hstatus, value, heq⟩ |
      ⟨instanceId, taskId, f', deadlineAt, heq, hdeadline⟩
    · rw [heq]
      exact h
    · rw [heq]
      refine h.released ?_
      simp only [Grounds, htask]
      exact fun hfresh => absurd hfresh hstatus
    · rw [heq]
      exact h.addCall ⟨hnumber, c, htask, hdeadline⟩

/-- A row for a FlowFile whose call is in progress. -/
theorem Inv.insert (h : Inv R s) (hnumber : e.number < s.count)
    (hwaiting : w.status = .waiting) (hresolution : w.resolution = none)
    (htask : match w.kind with
      | .signal => ∃ c, e.task = .wait c ∧ w.signalId = c.signalOf e.file
      | .timer => ∃ c, e.task = .timer c ∧ c.deadline R e.now = .ok w.expiresAt ∧
          w.signalId = w.waitId) : Inv R (s.insert e w) := by
  unfold State.insert
  split
  · exact h
  next waits hinsert =>
  obtain ⟨hnew, hget⟩ := Table.insert?_eq_some hinsert
  have hext := h.extend (Nat.le_refl _)
    (grows_cons s.count (.parked e.number w.waitId w.expiresAt) fun _ => rfl) (fun _ => rfl)
    h.grounded
  have howner : ∀ {i w'}, s.store.waits.get? i = some w' →
      Function.update s.owner w.waitId e i = s.owner i := by
    intro i w' hi
    refine Function.update_of_ne ?_ e s.owner
    rintro rfl
    exact absurd (hi.symm.trans hnew) (by simp)
  exact {
    calls := hext.calls
    rows := by
      intro w' hw'
      have hget' : waits.get? w'.waitId = some w' := Table.get?_of_mem hw'
      rw [hget] at hget'
      split at hget'
      · obtain rfl := Option.some.inj hget'
        show RowOk R s.count _ (Function.update s.owner w.waitId e w.waitId) w
        rw [Function.update_self]
        exact ⟨hnumber, List.mem_cons_self, htask, by simp only [StatusOk, hwaiting, hresolution]⟩
      · show RowOk R s.count _ (Function.update s.owner w.waitId e w'.waitId) w'
        rw [howner hget']
        exact hext.rows w' (Table.get?_mem hget')
    taken := by
      intro w' hw'
      obtain ⟨hready, ⟨w'', hw''⟩, hrow⟩ := hext.taken w' hw'
      refine ⟨hready, ⟨w'', ?_⟩, ?_⟩
      · show waits.get? w'.waitId = _
        rw [hget, if_neg, hw'']
        intro hid
        rw [hid] at hw''
        exact absurd (hw''.symm.trans hnew) (by simp)
      · show RowOk R s.count _ (Function.update s.owner w.waitId e w'.waitId) w'
        rw [howner hw'']
        exact hrow
    resumed := hext.resumed
    stored := hext.stored
    grounded := hext.grounded }

theorem Inv.takeValue (h : Inv R s) {signalId : String} (ev : Event)
    (hsince : ∀ n, since n (ev :: s.log) = ev :: since n s.log)
    (hremembered : ∀ g, remembered g (ev :: s.log) =
      if g = signalId then none else remembered g s.log)
    (hgrounded : AllGrounded R (ev :: s.log)) :
    Inv R { s with
      store := { s.store with values := s.store.values.delete fun v => v.signalId = signalId }
      log := ev :: s.log } where
  calls := h.calls
  rows w hw := (h.rows w hw).mono (Nat.le_refl _) (grows_cons _ _ hsince)
  taken w hw := ⟨(h.taken w hw).1, (h.taken w hw).2.1,
    (h.taken w hw).2.2.mono (Nat.le_refl _) (grows_cons _ _ hsince)⟩
  resumed p hp := ⟨(h.resumed p hp).1, (h.resumed p hp).2.1,
    (h.resumed p hp).2.2.mono (grows_cons _ _ hsince _ (h.resumed p hp).1)⟩
  stored g := by
    show ((s.store.values.delete fun v => v.signalId = signalId).get? g).map _ = _
    rw [get?_deleteValue, hremembered]
    split
    · rfl
    · exact h.stored g
  grounded := hgrounded

theorem Inv.consume (h : Inv R s) {park : Park}
    (hcall : CallOk R s.count (.insert e park)) : Inv R (s.consume P e park) := by
  unfold State.consume consumeSignalValue
  have hstored := h.stored park.signalId
  cases hget : s.store.values.get? park.signalId with
  | none => exact h.addCall hcall
  | some row =>
    rw [hget] at hstored
    dsimp only
    split
    · exact (h.takeValue (.discarded park.signalId) (fun _ => rfl)
        (fun g => by simp only [remembered, eq_comm]) h.grounded).addCall hcall
    · refine h.takeValue _ (fun _ => rfl) (fun g => by simp only [remembered, eq_comm])
        ⟨?_, h.grounded⟩
      obtain ⟨c, hc, hsignal⟩ := hcall.2
      refine ⟨⟨c, hc, hsignal.symm⟩, row.value, hstored.symm, ?_, ?_⟩
      · rw [passThrough, attr_stampInteractionResolution _ _ _ (by decide) (by decide),
          FlowFile.attr_setAttribute_of_ne _ _ (by decide), FlowFile.attr_setAttribute_self]
      · rw [passThrough, attr_stampInteractionResolution _ _ _ (by decide) (by decide),
          FlowFile.attr_setAttribute_self]

theorem get?_values_notifySignal (store : Store) (signalId : String) (value : Json) (now : Time)
    (g : String) : (store.notifySignal signalId value now).2.values.get? g =
      if store.waits.rows.any (waitsOn signalId) = false ∧ g = signalId then
        some ⟨signalId, value, now⟩
      else store.values.get? g := by
  have hany : (store.waits.rows.filter (waitsOn signalId)).isEmpty =
      !store.waits.rows.any (waitsOn signalId) := by
    rw [Bool.eq_iff_iff]
    simp [List.filter_eq_nil_iff]
  unfold notifySignal
  dsimp only
  rw [hany]
  cases store.waits.rows.any (waitsOn signalId) with
  | true => simp
  | false => simp [Table.get?_upsert]

theorem Inv.notify (h : Inv R s) (signalId : String) (value : Json) (now : Time) :
    Inv R (s.notify signalId value now) := by
  unfold State.notify
  split
  · exact h
  dsimp only
  set found := s.store.waits.rows.any (waitsOn signalId) with hfound
  have hgrows : Grows s.count s.log (.notified signalId value found :: s.log) :=
    grows_cons _ _ fun _ => rfl
  -- The rows are resolved by the notification.
  exact {
    calls := h.calls
    rows := by
      intro w hw
      obtain ⟨w', hw', rfl⟩ := Option.map_eq_some_iff.mp
        ((get?_notifySignal s.store signalId value now _).symm.trans (Table.get?_of_mem hw))
      have hrow := (h.rows w' (Table.get?_mem hw')).mono (Nat.le_refl _) hgrows
      by_cases hon : waitsOn signalId w' = true
      · simp only [if_pos hon]
        have hsignal : w'.signalId = signalId := by
          simp only [waitsOn, Bool.and_eq_true, decide_eq_true_eq] at hon
          exact hon.1
        refine ⟨hrow.number, hrow.parked, hrow.task, ?_⟩
        exact ⟨value, now, found, rfl, by rw [← hsignal]; exact List.mem_cons_self⟩
      · simp only [if_neg hon]
        exact hrow
    taken := by
      intro w hw
      obtain ⟨hready, ⟨w', hw'⟩, hrow⟩ := h.taken w hw
      exact ⟨hready, ⟨_, (get?_notifySignal s.store signalId value now _).trans (by rw [hw']; rfl)⟩,
        hrow.mono (Nat.le_refl _) hgrows⟩
    resumed := fun p hp => ⟨(h.resumed p hp).1, (h.resumed p hp).2.1,
      (h.resumed p hp).2.2.mono (hgrows _ (h.resumed p hp).1)⟩
    stored := by
      intro g
      have hg := h.stored g
      show ((s.store.notifySignal signalId value now).2.values.get? g).map _ =
        remembered g (.notified signalId value found :: s.log)
      rw [get?_values_notifySignal, ← hfound]
      cases found with
      | true => exact hg
      | false =>
        simp only [remembered, eq_comm (a := signalId)]
        by_cases hsame : g = signalId
        · rw [if_pos hsame]
          simp [hsame]
        · rw [if_neg hsame]
          simpa [hsame] using hg
    grounded := h.grounded }

theorem Inv.sweep (h : Inv R s) (now : Time) :
    Inv R ({ s with store := (s.store.sweep now).2 }.record (.clock now)) := by
  have hconf : ∀ {s : State} (confirmations), Inv R s →
      Inv R { s with store := { s.store with confirmations } } := fun _ h =>
    ⟨h.calls, h.rows, h.taken, h.resumed, h.stored, h.grounded⟩
  have hclock := hconf (s.store.confirmations.update (overdue now) (withStatus .expired)
      (withStatus_requestId .expired)) (h.clock now)
  have htimeout := hclock.setWaits (fun w => w.kind = .signal && w.status = .waiting &&
    0 < w.expiresAt && w.expiresAt < now) .timeout (fun w hp hrow => by
      simp only [Bool.and_eq_true, decide_eq_true_eq] at hp
      obtain ⟨⟨⟨hkind, hwaiting⟩, hpos⟩, hlt⟩ := hp
      have hstatus := hrow.status
      rw [StatusOk, hwaiting] at hstatus
      exact ⟨hkind, hstatus, now, List.mem_cons_self, hpos, hlt⟩)
  have helapsed := htimeout.setWaits (fun w => w.kind = .timer && w.status = .waiting &&
    w.expiresAt ≤ now) .elapsed (fun w hp hrow => by
      simp only [Bool.and_eq_true, decide_eq_true_eq] at hp
      exact ⟨hp.1.1, now, List.mem_cons_self, hp.2⟩)
  exact helapsed

theorem Inv.cancel (h : Inv R s) (waitId : String) :
    Inv R ({ s with store := (s.store.cancelWait waitId).2 }.record (.cancelled waitId)) := by
  have hlog := h.extend (Nat.le_refl _) (grows_cons s.count (.cancelled waitId) fun _ => rfl)
    (fun _ => rfl) h.grounded
  refine hlog.setWaits _ _ fun w hp hrow => ?_
  simp only [Bool.and_eq_true, decide_eq_true_eq] at hp
  have hstatus := hrow.status
  rw [StatusOk, hp.2] at hstatus
  exact ⟨hstatus, by rw [hp.1]; exact List.mem_cons_self⟩

theorem Inv.advance (h : Inv R s) (hcall : CallOk R s.count call) (now : Time)
    (uuid : String) : Inv R (s.advance P now uuid call) := by
  cases call with
  | consume e park => exact h.consume hcall
  | insert e park =>
    simp only [State.advance]
    split
    · exact h
    · exact h.insert hcall.1 rfl rfl hcall.2
  | timer e instanceId taskId f deadlineAt =>
    obtain ⟨hnumber, c, hc, hdeadline⟩ := hcall
    simp only [State.advance]
    split
    · exact h
    split
    · next hpassed =>
      refine (h.clock now).released ?_
      simp only [Grounds, hc]
      refine fun _ => .inl ⟨?_, deadlineAt, now, hdeadline, List.mem_cons_self, hpassed⟩
      rw [State.elapsed, FlowFile.attr_setAttribute_of_ne _ _ (by decide),
        FlowFile.attr_setAttribute_of_ne _ _ (by decide), FlowFile.attr_setAttribute_self]
    · exact h.insert hnumber rfl rfl ⟨c, hc, hdeadline, rfl⟩

theorem Inv.of_step {a : Act} {t : State} (h : Inv R s) (hstep : step P R s a = some t) :
    Inv R t := by
  cases a with
  | enter task f now =>
    obtain rfl := Option.some.inj hstep
    let e : Entry := ⟨s.count, task, f, now⟩
    have hentered : Inv R { s with count := s.count + 1, log := .entered e :: s.log } :=
      h.extend (Nat.le_succ _) (grows_entered (e := e) rfl _) (fun _ => rfl) h.grounded
    exact hentered.execute_entry (e := e) (Nat.lt_succ_self _)
  | advance k now uuid =>
    obtain ⟨call, hcall, rfl⟩ := Option.map_eq_some_iff.mp hstep
    have hrest : Inv R { s with calls := s.calls.eraseIdx k } :=
      ⟨fun c hc => h.calls c (List.mem_of_mem_eraseIdx hc), h.rows, h.taken, h.resumed, h.stored,
        h.grounded⟩
    exact hrest.advance (h.calls call (List.mem_of_getElem? hcall)) now uuid
  | notify signalId value now =>
    obtain rfl := Option.some.inj hstep
    exact h.notify signalId value now
  | sweep now =>
    obtain rfl := Option.some.inj hstep
    exact h.sweep now
  | cancel waitId =>
    obtain rfl := Option.some.inj hstep
    exact h.cancel waitId
  | take =>
    obtain rfl := Option.some.inj hstep
    refine ⟨h.calls, h.rows, fun w hw => ?_, h.resumed, h.stored, h.grounded⟩
    rcases List.mem_append.mp hw with hw | hw
    · exact h.taken w hw
    · obtain ⟨hrow, hready⟩ := List.mem_filter.mp hw
      exact ⟨hready, ⟨w, Table.get?_of_mem hrow⟩, h.rows w hrow⟩
  | deliver k now accepted =>
    obtain ⟨w, hw, rfl⟩ := Option.map_eq_some_iff.mp hstep
    have hrest : ∀ w ∈ s.taken.eraseIdx k, w ∈ s.taken := fun w hw => List.mem_of_mem_eraseIdx hw
    unfold State.deliver
    split
    · refine ⟨h.calls, h.rows, fun w hw => h.taken w (hrest w hw), fun p hp => ?_, h.stored,
        h.grounded⟩
      rcases List.mem_append.mp hp with hp | hp
      · exact h.resumed p hp
      · obtain rfl := List.mem_singleton.mp hp
        obtain ⟨hready, -, hrow⟩ := h.taken w (List.mem_of_getElem? hw)
        exact ⟨hrow.number, hrow.restored hready now⟩
    · exact ⟨h.calls, h.rows, fun w hw => h.taken w (hrest w hw), h.resumed, h.stored, h.grounded⟩
  | mark k =>
    obtain ⟨waitId, -, rfl⟩ := Option.map_eq_some_iff.mp hstep
    have hmarked := h.setWaits (fun w => w.waitId = waitId) .delivered fun w _ _ => trivial
    exact ⟨hmarked.calls, hmarked.rows, hmarked.taken, hmarked.resumed, hmarked.stored,
      hmarked.grounded⟩
  | resume k now =>
    obtain ⟨p, hp, rfl⟩ := Option.map_eq_some_iff.mp hstep
    obtain ⟨-, hstatus, hgrounds⟩ := h.resumed p (List.mem_of_getElem? hp)
    have hrest : Inv R { s with resumed := s.resumed.eraseIdx k } :=
      ⟨h.calls, h.rows, h.taken, fun q hq => h.resumed q (List.mem_of_mem_eraseIdx hq), h.stored,
        h.grounded⟩
    exact hrest.execute_of_hasStatus hstatus hgrounds now

/-- A task that waits for the signal `go`, and a timer of ten microseconds. -/
def waitForGo : DurableTask := .wait { signalId := "go", ids := some ("flow", "wait") }

def tenTicks : DurableTask := .timer { duration := some "10", ids := some ("flow", "timer") }

def plainParsers : Parsers where
  parseTimeoutSeconds text := .ok (if text = "" then 0 else 10)
  parseUtcDeadline _ := .ok 10

def visitor : FlowFile := { processId := "ff" }

/-- A FlowFile is parked, its signal is notified, and it comes back. -/
def parkedThenNotified : List Act :=
  [.enter waitForGo visitor 0, .advance 0 1 "", .advance 0 2 "", .notify "go" (.int 1) 3, .take,
    .deliver 0 4 true, .mark 0, .resume 0 5]

/-- A value is remembered when the FlowFile enters. -/
def notifiedBefore : List Act :=
  [.notify "go" (.int 1) 0, .enter waitForGo visitor 1, .advance 0 2 ""]

/-- The id of a parked timer is notified. -/
def timerNotified : List Act :=
  [.enter tenTicks visitor 0, .advance 0 1 "a", .notify "timer_a" (.int 1) 2, .take,
    .deliver 0 3 true, .mark 0, .resume 0 4]

end PawFlow.DurableTasks
