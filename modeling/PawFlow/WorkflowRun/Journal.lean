import PawFlow.Lib.JsonSort
import PawFlow.Lib.Runs
import PawFlow.WorkflowRun.Store

/-!
# The event journal of runs

`append_event` and `append_event_once` of `core/workflow_run_store.py`, each one transaction on the
table of events and on the last sequence of each run. Events are stored as the text that
`json.dumps` writes and are read back by `json.loads`.
-/

namespace PawFlow.WorkflowRun

open PawFlow.Lib

/-- What the journal needs of a row of `workflow_runs`. -/
structure RunSequence where
  runId : String
  lastEventSequence : Nat := 0
  updatedAt : Time := 0

/-- A row of `workflow_run_events`. -/
structure EventRow where
  runId : String
  sequence : Nat
  eventId : String
  eventType : String
  eventJson : String
  createdAt : Time

def EventRow.key (row : EventRow) : String × Nat := (row.runId, row.sequence)

structure Journal where
  runs : Table String RunSequence RunSequence.runId := .empty
  events : Table (String × Nat) EventRow EventRow.key := .empty

/-- A dict of JSON values, as a caller hands it over. -/
structure EventData (readFloat : List Char → Option (FloatText × Int × Nat)) where
  fields : PyDict String Json
  wellFormed : Json.WellFormed readFloat (.obj fields)

/-- `payload["idempotency_key"] = key`. -/
def EventData.withKey {readFloat : List Char → Option (FloatText × Int × Nat)}
    (d : EventData readFloat) (key : String) : EventData readFloat where
  fields := d.fields.set "idempotency_key" (.str key)
  wellFormed := by
    refine ⟨PyDict.nodup_keys_set _ d.wellFormed.1, Json.wellFormedFields_iff.mpr ?_⟩
    intro i hi
    rcases PyDict.mem_of_mem_set hi with hold | rfl
    · exact Json.wellFormedFields_iff.mp d.wellFormed.2 i hold
    · trivial

/-- The arguments of `append_event`, with the fresh event id and the clock. -/
structure EventArgs (readFloat : List Char → Option (FloatText × Int × Nat)) where
  runId : String
  eventType : String
  data : EventData readFloat
  eventId : String
  now : Time

/-- The arguments of `append_event_once`. -/
structure OnceArgs (readFloat : List Char → Option (FloatText × Int × Nat)) extends
    EventArgs readFloat where
  idempotencyKey : String

/-- `existing["data"]` has this idempotency key. -/
def hasKey (key : String) (event : Json) : Bool :=
  match event.get? "data" with
  | some (.obj data) => ((PyDict.get? data "idempotency_key").getD .null).isStr key
  | _ => false

section

variable (readFloat : List Char → Option (FloatText × Int × Nat)) (utc : Time → String)

/-- The event that is returned and stored. -/
def eventOf (eventId runId : String) (sequence : Nat) (eventType : String) (now : Time)
    (data : PyDict String Json) : Json :=
  .obj [("event_id", .str eventId), ("run_id", .str runId), ("sequence", .int sequence),
    ("event_type", .str eventType), ("timestamp", .str (utc now)), ("data", .obj data)]

/-- `json.loads(row["event_json"])`. -/
def EventRow.event (row : EventRow) : Json :=
  (Json.loads readFloat row.eventJson.toList).getD .null

namespace Journal

/-- The two writes that end both transactions. -/
def insertEvent (j : Journal) (row : RunSequence) (eventId eventType : String)
    (data : PyDict String Json) (now : Time) : Except StoreError (Json × Journal) :=
  let sequence := row.lastEventSequence + 1
  let event := eventOf utc eventId row.runId sequence eventType now data
  if j.events.rows.any fun e => e.eventId = eventId then
    .error (.integrityError "UNIQUE constraint failed: workflow_run_events.event_id")
  else
    match j.events.insert? {
      runId := row.runId, sequence, eventId, eventType
      eventJson := event.canonical, createdAt := now } with
    | none => .error (.integrityError
        "UNIQUE constraint failed: workflow_run_events.run_id, workflow_run_events.sequence")
    | some events => .ok (event, {
        runs := j.runs.update (fun r => r.runId = row.runId)
          (fun r => { r with lastEventSequence := sequence, updatedAt := now }) fun _ => rfl
        events })

def appendEvent (j : Journal) (a : EventArgs readFloat) : Except StoreError (Json × Journal) :=
  (required a.runId "run_id").bind fun runId =>
  (required a.eventType "event_type").bind fun eventType =>
    match j.runs.get? runId with
    | none => .error (.keyError "workflow run does not exist")
    | some row => j.insertEvent utc row a.eventId eventType a.data.fields a.now

def existingRows (j : Journal) (runId eventType : String) : List EventRow :=
  (j.events.rows.filter fun e => e.runId = runId && e.eventType = eventType).insertionSort
    fun a b => a.sequence ≤ b.sequence

/-- `append_event_once`: the event, and whether it is new. -/
def appendEventOnce (j : Journal) (a : OnceArgs readFloat) :
    Except StoreError ((Json × Bool) × Journal) :=
  (required a.runId "run_id").bind fun runId =>
  (required a.eventType "event_type").bind fun eventType =>
  (required a.idempotencyKey "idempotency_key").bind fun key =>
    let payload := a.data.withKey key
    match j.runs.get? runId with
    | none => .error (.keyError "workflow run does not exist")
    | some row =>
      match (j.existingRows runId eventType).find? fun e => hasKey key (e.event readFloat) with
      | some e =>
        let existing := e.event readFloat
        if Json.pyEq ((existing.get? "data").getD .null) (.obj payload.fields) then
          .ok ((existing, false), j)
        else
          .error (.valueError "idempotency key already identifies a different event")
      | none =>
        (j.insertEvent utc row a.eventId eventType payload.fields a.now).map fun (event, j) =>
          ((event, true), j)

end Journal

inductive Call
  | append (a : EventArgs readFloat)
  | appendOnce (a : OnceArgs readFloat)

namespace Journal

/-- What a call returns, `True` for the event of `append_event`, which is always new. -/
def call (j : Journal) : Call readFloat → Except StoreError ((Json × Bool) × Journal)
  | .append a => (j.appendEvent readFloat utc a).map fun (event, j) => ((event, true), j)
  | .appendOnce a => j.appendEventOnce readFloat utc a

/-- The journal after a call, which is rolled back if it raises. -/
def after (j : Journal) (c : Call readFloat) : Journal := settle j (j.call readFloat utc c)

/-- The journal after any number of calls, one transaction after another. -/
def run (j : Journal) (calls : List (Call readFloat)) : Journal :=
  calls.foldl (fun j c => j.after readFloat utc c) j

end Journal

end

/-! ## What is read back -/

section

variable {readFloat : List Char → Option (FloatText × Int × Nat)} {utc : Time → String}

theorem get?_sortKeys {items : PyDict String Json} (hnodup : (items.map Prod.fst).Nodup)
    (k : String) :
    (Json.sortKeys (.obj items)).get? k = (PyDict.get? items k).map Json.sortKeys := by
  cases hget : PyDict.get? items k with
  | some v => exact Json.get?_sortKeys_obj hnodup (PyDict.mem_of_get? hget)
  | none =>
    obtain ⟨sorted, heq, hperm⟩ := Json.sortKeys_obj items
    rw [heq]
    refine PyDict.get?_eq_none_iff.mpr fun hk => PyDict.get?_eq_none_iff.mp hget ?_
    have hkeys : (sorted.map Prod.fst).Perm (items.map Prod.fst) := by
      simpa [Function.comp_def] using hperm.map Prod.fst
    exact hkeys.mem_iff.mp hk

variable {eventId eventType : String}

variable {now : Time} {runId : String} {sequence : Nat}

theorem nodup_eventOf (utc : Time → String)
    {data : PyDict String Json} {items : List (String × Json)}
    (h : eventOf utc eventId runId sequence eventType now data = .obj items) :
    (items.map Prod.fst).Nodup := by
  obtain rfl := Json.obj.inj h
  show ["event_id", "run_id", "sequence", "event_type", "timestamp", "data"].Nodup
  decide

theorem wellFormed_eventOf (data : EventData readFloat) :
    Json.WellFormed readFloat (eventOf utc eventId runId sequence eventType now data.fields) := by
  refine ⟨nodup_eventOf utc rfl, ?_⟩
  exact ⟨trivial, trivial, trivial, trivial, trivial, data.wellFormed, trivial⟩

theorem get?_data_eventOf (data : PyDict String Json) :
    (Json.sortKeys (eventOf utc eventId runId sequence eventType now data)).get? "data" =
      some (Json.sortKeys (.obj data)) := by
  rw [eventOf, get?_sortKeys (nodup_eventOf utc rfl)]
  rfl

theorem hasKey_eventOf {key : String} (data : EventData readFloat) :
    hasKey key (Json.sortKeys (eventOf utc eventId runId sequence eventType now data.fields)) =
      ((PyDict.get? data.fields "idempotency_key").getD .null).isStr key := by
  obtain ⟨sorted, heq, -⟩ := Json.sortKeys_obj data.fields
  have hget := get?_sortKeys data.wellFormed.1 "idempotency_key"
  rw [heq] at hget
  rw [hasKey, get?_data_eventOf, heq]
  show ((PyDict.get? sorted "idempotency_key").getD .null).isStr key = _
  rw [show PyDict.get? sorted "idempotency_key" = _ from hget]
  cases PyDict.get? data.fields "idempotency_key" with
  | none => rfl
  | some v => cases v <;> rfl

theorem isStr_withKey (data : EventData readFloat) (key key' : String) :
    ((PyDict.get? (data.withKey key).fields "idempotency_key").getD .null).isStr key' =
      (key == key') := by
  rw [EventData.withKey, PyDict.get?_set_self]
  rfl

theorem event_of_canonical {row : EventRow} {v : Json} (hv : Json.WellFormed readFloat v)
    (h : row.eventJson = v.canonical) : row.event readFloat = Json.sortKeys v := by
  rw [EventRow.event, h, Json.loads_canonical hv]
  rfl

/-! ## What a call does -/

/-- The identity `append_event_once` looks an event up by. -/
structure Identity where
  runId : String
  eventType : String
  key : String
deriving DecidableEq

def OnceArgs.identity (a : OnceArgs readFloat) : Identity :=
  ⟨strip a.runId, strip a.eventType, strip a.idempotencyKey⟩

def OnceArgs.payload (a : OnceArgs readFloat) : EventData readFloat :=
  a.data.withKey (strip a.idempotencyKey)

/-- `append_event` with data that carries the key of this identity. -/
def EventArgs.uses (a : EventArgs readFloat) (id : Identity) : Prop :=
  strip a.runId = id.runId ∧ strip a.eventType = id.eventType ∧
    ((PyDict.get? a.data.fields "idempotency_key").getD .null).isStr id.key = true

/-- The identity is used with `append_event_once` only. -/
def UsedOnce (id : Identity) (c : Call readFloat) : Prop := ∀ a, c = .append a → ¬ a.uses id

def EventRow.hasIdentity (readFloat : List Char → Option (FloatText × Int × Nat)) (id : Identity)
    (row : EventRow) : Bool :=
  row.runId = id.runId && row.eventType = id.eventType && hasKey id.key (row.event readFloat)

namespace Journal

variable (readFloat) in
def onceRows (j : Journal) (id : Identity) : List EventRow :=
  j.events.rows.filter (EventRow.hasIdentity readFloat id)

variable (readFloat utc) in
/-- One event is appended to a run. -/
structure Inserted (j j' : Journal) (row : RunSequence) (eventType : String)
    (data : EventData readFloat) (event : Json) : Prop where
  run : j.runs.get? row.runId = some row
  rows : ∃ eventId now,
    event = eventOf utc eventId row.runId (row.lastEventSequence + 1) eventType now data.fields ∧
    j'.events.rows = j.events.rows ++ [{
      runId := row.runId, sequence := row.lastEventSequence + 1, eventId, eventType
      eventJson := event.canonical, createdAt := now }]
  runs : ∀ runId, (j'.runs.get? runId).map RunSequence.lastEventSequence =
    if runId = row.runId then some (row.lastEventSequence + 1)
    else (j.runs.get? runId).map RunSequence.lastEventSequence

variable {eventType : String} {j j' : Journal} {a : OnceArgs readFloat}

variable {data : EventData readFloat} {row : RunSequence} {r : Json × Bool}

theorem insertEvent_eq_ok {eventId : String} {now : Time} {event : Json}
    (hrow : j.runs.get? row.runId = some row)
    (h : j.insertEvent utc row eventId eventType data.fields now = .ok (event, j')) :
    Inserted readFloat utc j j' row eventType data event := by
  unfold insertEvent at h
  simp only at h
  split at h
  · exact absurd h (by simp)
  · split at h
    · exact absurd h (by simp)
    · next events hinsert =>
      obtain ⟨rfl, rfl⟩ := ok_pair_inj h
      refine ⟨hrow, ⟨eventId, now, rfl, Table.insert?_rows hinsert⟩, fun runId => ?_⟩
      have hget := Table.get?_update_at j.runs (fun r : RunSequence =>
        { r with lastEventSequence := row.lastEventSequence + 1, updatedAt := now })
        (fun _ => rfl) row.runId runId
      simp only [hget]
      split
      · next heq => rw [heq, hrow]; rfl
      · rfl

variable (utc) in
/-- What a call that returns does: it finds the event of its identity, or appends one. -/
inductive Returned (j : Journal) : Call readFloat → Json × Bool → Journal → Prop
  | found {a : OnceArgs readFloat} {e : EventRow} :
      e ∈ j.onceRows readFloat a.identity →
      Json.pyEq (((e.event readFloat).get? "data").getD .null) (.obj a.payload.fields) →
      Returned j (.appendOnce a) (e.event readFloat, false) j
  | appended {a : EventArgs readFloat} {row : RunSequence} {event : Json} {j' : Journal} :
      row.runId = strip a.runId →
      Inserted readFloat utc j j' row (strip a.eventType) a.data event →
      Returned j (.append a) (event, true) j'
  | appendedOnce {a : OnceArgs readFloat} {row : RunSequence} {event : Json} {j' : Journal} :
      j.onceRows readFloat a.identity = [] → row.runId = a.identity.runId →
      Inserted readFloat utc j j' row a.identity.eventType a.payload event →
      Returned j (.appendOnce a) (event, true) j'

theorem required_eq_ok {value name text : String} (h : required value name = .ok text) :
    text = strip value := by
  unfold required at h
  split at h
  · exact absurd h (by simp)
  · exact (Except.ok.inj h).symm

variable {e : EventRow} {id : Identity}

theorem mem_existingRows {runId : String} :
    e ∈ j.existingRows runId eventType ↔
      e ∈ j.events.rows ∧ e.runId = runId ∧ e.eventType = eventType := by
  rw [existingRows, (List.perm_insertionSort _ _).mem_iff, List.mem_filter, Bool.and_eq_true,
    decide_eq_true_eq, decide_eq_true_eq]

theorem mem_onceRows :
    e ∈ j.onceRows readFloat id ↔ e ∈ j.existingRows id.runId id.eventType ∧
      hasKey id.key (e.event readFloat) = true := by
  rw [mem_existingRows, onceRows, List.mem_filter, EventRow.hasIdentity, Bool.and_eq_true,
    Bool.and_eq_true, decide_eq_true_eq, decide_eq_true_eq, and_assoc, and_assoc, and_assoc]

variable {c : Call readFloat} {calls : List (Call readFloat)}

theorem call_eq_ok
    (h : j.call readFloat utc c = .ok (r, j')) : Returned utc j c r j' := by
  cases c with
  | append a =>
    cases happend : j.appendEvent readFloat utc a with
    | error e => simp [call, happend, Except.map] at h
    | ok result =>
      obtain ⟨event, j₁⟩ := result
      simp only [call, happend, Except.map] at h
      obtain ⟨rfl, rfl⟩ := ok_pair_inj h
      unfold appendEvent at happend
      obtain ⟨runId, hrunId, happend⟩ := bind_ok happend
      obtain ⟨eventType, htype, happend⟩ := bind_ok happend
      rw [required_eq_ok hrunId, required_eq_ok htype] at happend
      split at happend
      · exact absurd happend (by simp)
      · next row hrow =>
        have hid : row.runId = strip a.runId := Table.get?_key hrow
        exact .appended hid (insertEvent_eq_ok (hid ▸ hrow) happend)
  | appendOnce a =>
    unfold call appendEventOnce at h
    obtain ⟨runId, hrunId, h⟩ := bind_ok h
    obtain ⟨eventType, htype, h⟩ := bind_ok h
    obtain ⟨key, hkey, h⟩ := bind_ok h
    rw [required_eq_ok hrunId, required_eq_ok htype, required_eq_ok hkey] at h
    simp only at h
    split at h
    · exact absurd h (by simp)
    · next row hrow =>
      have hid : row.runId = a.identity.runId := Table.get?_key hrow
      split at h
      · next e hfind =>
        have hmem := List.mem_of_find?_eq_some hfind
        have hhas : hasKey (strip a.idempotencyKey) (e.event readFloat) = true := by
          simpa using List.find?_some hfind
        split at h
        · next heq =>
          obtain ⟨rfl, rfl⟩ := ok_pair_inj h
          exact .found (mem_onceRows.mpr ⟨hmem, hhas⟩) heq
        · exact absurd h (by simp)
      · next hnone =>
        have hempty : j.onceRows readFloat a.identity = [] := by
          rw [List.eq_nil_iff_forall_not_mem]
          intro e he
          obtain ⟨hmem, hhas⟩ := mem_onceRows.mp he
          exact List.find?_eq_none.mp hnone e hmem hhas
        cases hinsert : j.insertEvent utc row a.eventId (strip a.eventType)
            (a.data.withKey (strip a.idempotencyKey)).fields a.now with
        | error e => simp [hinsert, Except.map] at h
        | ok result =>
          obtain ⟨event, j₁⟩ := result
          simp only [hinsert, Except.map] at h
          obtain ⟨rfl, rfl⟩ := ok_pair_inj h
          exact .appendedOnce hempty hid (insertEvent_eq_ok (hid ▸ hrow) hinsert)

variable (utc) in
theorem after_cases (j : Journal) (c : Call readFloat) :
    j.after readFloat utc c = j ∨ ∃ r j', j.after readFloat utc c = j' ∧
      Returned utc j c r j' := by
  unfold after
  cases hcall : j.call readFloat utc c with
  | error e => exact Or.inl rfl
  | ok result => exact Or.inr ⟨result.1, result.2, rfl, call_eq_ok hcall⟩

/-! ## Every run of calls -/

theorem run_append (j : Journal) (calls : List (Call readFloat)) (c : Call readFloat) :
    j.run readFloat utc (calls ++ [c]) = (j.run readFloat utc calls).after readFloat utc c := by
  simp [run]

theorem run_invariant (Inv : Journal → Prop)
    (hstep : ∀ j, ∀ c ∈ calls, Inv j → Inv (j.after readFloat utc c)) (hj : Inv j) :
    Inv (j.run readFloat utc calls) := by
  induction calls using List.reverseRecOn with
  | nil => exact hj
  | append_singleton calls c ih =>
    rw [run_append]
    exact hstep _ c (by simp) (ih fun j c hc => hstep j c (by simp [hc]))

/-- The sequences stored for a run are `1`, …, up to its last one. -/
def Numbered (j : Journal) : Prop :=
  ∀ runId row, j.runs.get? runId = some row →
    ((j.events.rows.filter fun e => e.runId = runId).map EventRow.sequence) =
      List.range' 1 row.lastEventSequence

theorem Numbered.insert {event : Json} (hj : j.Numbered)
    (h : Inserted readFloat utc j j' row eventType data event) : j'.Numbered := by
  intro runId row' hrow'
  obtain ⟨eventId, now, -, hrows⟩ := h.rows
  have hlast := h.runs runId
  rw [hrow', Option.map_some] at hlast
  rw [hrows, List.filter_append, List.map_append]
  split at hlast
  · next heq =>
    have hold := hj runId row (heq ▸ h.run)
    rw [hold, Option.some.inj hlast, List.range'_1_concat]
    simp [heq, add_comm]
  · next hne =>
    obtain ⟨old, hold, heq⟩ := Option.map_eq_some_iff.mp hlast.symm
    have hother : ¬ row.runId = runId := fun h => hne h.symm
    rw [hj runId old hold, heq]
    simp [hother]

theorem Numbered.after (hj : j.Numbered) (c : Call readFloat) :
    (j.after readFloat utc c).Numbered := by
  rcases after_cases utc j c with hsame | ⟨r, j', hafter, hreturned⟩
  · rwa [hsame]
  · rw [hafter]
    cases hreturned with
    | found => exact hj
    | appended _ hinsert => exact hj.insert hinsert
    | appendedOnce _ _ hinsert => exact hj.insert hinsert

theorem onceRows_inserted {event : Json}
    (h : Inserted readFloat utc j j' row eventType data event) (id : Identity) :
    ∃ e : EventRow, e.event readFloat = Json.sortKeys event ∧
      j'.onceRows readFloat id = j.onceRows readFloat id ++
        if row.runId = id.runId ∧ eventType = id.eventType ∧
          ((PyDict.get? data.fields "idempotency_key").getD .null).isStr id.key = true
        then [e] else [] := by
  obtain ⟨eventId, now, hevent, hrows⟩ := h.rows
  have hread : (EventRow.event readFloat {
      runId := row.runId, sequence := row.lastEventSequence + 1, eventId, eventType
      eventJson := event.canonical, createdAt := now }) = Json.sortKeys event :=
    event_of_canonical (hevent ▸ wellFormed_eventOf data) rfl
  refine ⟨_, hread, ?_⟩
  rw [onceRows, hrows, List.filter_append, List.filter_singleton]
  congr 1
  simp only [EventRow.hasIdentity, hread]
  rw [hevent, hasKey_eventOf]
  simp only [cond_eq_ite, Bool.and_eq_true, decide_eq_true_eq, and_assoc]

variable (utc) in
def SucceedsIn (j : Journal) (c : Call readFloat) (id : Identity) : Prop :=
  ∃ a, c = .appendOnce a ∧ a.identity = id ∧ ∃ r, j.call readFloat utc c = .ok r

variable (utc) in
theorem onceRows_after (j : Journal) (hused : UsedOnce id c) :
    (j.after readFloat utc c).onceRows readFloat id = j.onceRows readFloat id ∨
    (j.onceRows readFloat id = [] ∧ j.SucceedsIn utc c id) := by
  unfold after
  cases hcall : j.call readFloat utc c with
  | error e => exact Or.inl rfl
  | ok result =>
    obtain ⟨r, j'⟩ := result
    show j'.onceRows readFloat id = _ ∨ _
    cases call_eq_ok hcall with
    | found => exact Or.inl rfl
    | @appended a row event _ hrun hinsert =>
      obtain ⟨e, -, hrows⟩ := onceRows_inserted hinsert id
      rw [if_neg fun h => hused a rfl ⟨hrun ▸ h.1, h.2⟩, List.append_nil] at hrows
      exact Or.inl hrows
    | @appendedOnce a row event _ hempty hrun hinsert =>
      obtain ⟨e, -, hrows⟩ := onceRows_inserted hinsert id
      by_cases hid : a.identity = id
      · exact Or.inr ⟨hid ▸ hempty, a, rfl, hid, _, hcall⟩
      · refine Or.inl ?_
        rw [if_neg, List.append_nil] at hrows
        · exact hrows
        · rintro ⟨hrunId, htype, hkey⟩
          rw [OnceArgs.payload, isStr_withKey, beq_iff_eq] at hkey
          have hrunId' : a.identity.runId = id.runId := hrun ▸ hrunId
          have hkey' : a.identity.key = id.key := hkey
          apply hid
          cases id
          simp_all [OnceArgs.identity]

theorem onceRows_of_succeeds (h : j.call readFloat utc (.appendOnce a) = .ok (r, j')) :
    (r.2 = false ∧ j' = j ∧ j.onceRows readFloat a.identity ≠ []) ∨
    (r.2 = true ∧ j.onceRows readFloat a.identity = [] ∧ ∃ e sequence eventId now,
      r.1 = eventOf utc eventId a.identity.runId sequence a.identity.eventType now
        a.payload.fields ∧
      j'.onceRows readFloat a.identity = [e] ∧ e.event readFloat = Json.sortKeys r.1) := by
  cases call_eq_ok h with
  | found hmem heq => exact Or.inl ⟨rfl, rfl, List.ne_nil_of_mem hmem⟩
  | @appendedOnce a row event _ hempty hrun hinsert =>
    obtain ⟨e, hread, hrows⟩ := onceRows_inserted hinsert a.identity
    obtain ⟨eventId, now, hevent, -⟩ := hinsert.rows
    refine Or.inr
      ⟨rfl, hempty, e, row.lastEventSequence + 1, eventId, now, hrun ▸ hevent, ?_, hread⟩
    have hkey : ((PyDict.get? a.payload.fields "idempotency_key").getD .null).isStr
        a.identity.key = true := (isStr_withKey _ _ _).trans (beq_self_eq_true _)
    rw [hrows, hempty, if_pos ⟨hrun, rfl, hkey⟩]
    rfl

theorem named_of_succeeds (h : j.call readFloat utc (.appendOnce a) = .ok (r, j')) :
    a.identity.runId ≠ "" ∧ a.identity.eventType ≠ "" ∧ a.identity.key ≠ "" ∧
      (j.runs.get? a.identity.runId).isSome := by
  have hrequired : ∀ value name text, required value name = .ok text → strip value ≠ "" := by
    intro value name text hok hempty
    rw [required, if_pos hempty] at hok
    exact absurd hok (by simp)
  unfold call appendEventOnce at h
  obtain ⟨runId, hrunId, h⟩ := bind_ok h
  obtain ⟨eventType, htype, h⟩ := bind_ok h
  obtain ⟨key, hkey, h⟩ := bind_ok h
  rw [required_eq_ok hrunId, required_eq_ok htype, required_eq_ok hkey] at h
  refine ⟨hrequired _ _ _ hrunId, hrequired _ _ _ htype, hrequired _ _ _ hkey, ?_⟩
  simp only at h
  split at h
  · exact absurd h (by simp)
  · next row hrow => exact Option.isSome_iff_exists.mpr ⟨row, hrow⟩

/-- Where there is one event of the identity, it is returned for an equal payload only. -/
theorem call_of_onceRows (honce : j.onceRows readFloat a.identity = [e])
    (hnamed : a.identity.runId ≠ "" ∧ a.identity.eventType ≠ "" ∧ a.identity.key ≠ "" ∧
      (j.runs.get? a.identity.runId).isSome) :
    j.call readFloat utc (.appendOnce a) =
      if Json.pyEq (((e.event readFloat).get? "data").getD .null) (.obj a.payload.fields) then
        .ok ((e.event readFloat, false), j)
      else .error (.valueError "idempotency key already identifies a different event") := by
  obtain ⟨hrunId, htype, hkey, hrun⟩ := hnamed
  obtain ⟨row, hrow⟩ := Option.isSome_iff_exists.mp hrun
  have hfind : (j.existingRows (strip a.runId) (strip a.eventType)).find?
      (fun e => hasKey (strip a.idempotencyKey) (e.event readFloat)) = some e := by
    cases hfound : (j.existingRows (strip a.runId) (strip a.eventType)).find?
        (fun e => hasKey (strip a.idempotencyKey) (e.event readFloat)) with
    | none =>
      have hmem : e ∈ j.onceRows readFloat a.identity := by
        rw [honce]
        exact List.mem_singleton.mpr rfl
      obtain ⟨hexisting, hhas⟩ := mem_onceRows.mp hmem
      exact absurd hhas (List.find?_eq_none.mp hfound e hexisting)
    | some e' =>
      have hhas : hasKey (strip a.idempotencyKey) (e'.event readFloat) = true := by
        simpa using List.find?_some hfound
      have hmem : e' ∈ j.onceRows readFloat a.identity :=
        mem_onceRows.mpr ⟨List.mem_of_find?_eq_some hfound, hhas⟩
      rw [honce] at hmem
      rw [List.mem_singleton.mp hmem]
  have hrequired : ∀ value name, strip value ≠ "" → required value name = .ok (strip value) :=
    fun _ _ h => if_neg h
  rw [call, appendEventOnce, hrequired _ _ hrunId, hrequired _ _ htype, hrequired _ _ hkey]
  have hrow' : j.runs.get? (strip a.runId) = some row := hrow
  simp only [Except.bind, hrow', hfind]
  rfl

theorem run_stays {runId : String} (c : Call readFloat)
    (h : (j.runs.get? runId).isSome) : ((j.after readFloat utc c).runs.get? runId).isSome := by
  have hinserted {j' : Journal} {row : RunSequence} {eventType : String}
      {data : EventData readFloat} {event : Json}
      (hinsert : Inserted readFloat utc j j' row eventType data event) :
      (j'.runs.get? runId).isSome := by
    have hlast := hinsert.runs runId
    rw [← Option.isSome_map (f := RunSequence.lastEventSequence), hlast]
    split
    · rfl
    · rwa [Option.isSome_map]
  rcases after_cases utc j c with hsame | ⟨r, j', hafter, hreturned⟩
  · rwa [hsame]
  · rw [hafter]
    cases hreturned with
    | found => exact h
    | appended _ hinsert => exact hinserted hinsert
    | appendedOnce _ _ hinsert => exact hinserted hinsert

/-- No events, and every run stands at sequence 0. -/
structure Fresh (j : Journal) : Prop where
  events : j.events.rows = []
  runs : ∀ runId row, j.runs.get? runId = some row → row.lastEventSequence = 0

theorem Fresh.numbered (h : j.Fresh) : j.Numbered := by
  intro runId row hrow
  rw [h.events, h.runs runId row hrow]
  rfl

variable (readFloat utc) in
def SucceededIn (j : Journal) (calls : List (Call readFloat)) (id : Identity) : Prop :=
  ∃ earlier c later, calls = earlier ++ c :: later ∧
    (j.run readFloat utc earlier).SucceedsIn utc c id

/-- An identity has an event exactly if a call for it was successful. -/
theorem onceRows_run (hj : j.Fresh)
    (hused : ∀ c ∈ calls, UsedOnce id c) :
    (j.run readFloat utc calls).onceRows readFloat id ≠ [] ↔
      j.SucceededIn readFloat utc calls id := by
  induction calls using List.reverseRecOn with
  | nil =>
    refine iff_of_false ?_ ?_
    · show ¬ j.onceRows readFloat id ≠ []
      rw [onceRows, hj.events]
      simp
    · rintro ⟨earlier, c, later, heq, -⟩
      simp at heq
  | append_singleton calls c ih =>
    have ih := ih fun c hc => hused c (by simp [hc])
    rw [run_append]
    constructor
    · intro hne
      rcases onceRows_after utc (j.run readFloat utc calls)
        (hused c (by simp)) with hsame | ⟨-, hsucceeds⟩
      · rw [hsame] at hne
        obtain ⟨earlier, c', later, rfl, hsucceeds⟩ := ih.mp hne
        exact ⟨earlier, c', later ++ [c], by simp, hsucceeds⟩
      · exact ⟨calls, c, [], rfl, hsucceeds⟩
    · rintro ⟨earlier, c', later, heq, hsucceeds⟩
      rcases List.eq_nil_or_concat later with rfl | ⟨later, c'', rfl⟩
      · obtain ⟨rfl, hc⟩ := List.append_inj' heq rfl
        obtain rfl := List.singleton_inj.mp hc
        obtain ⟨a, rfl, rfl, ⟨r, j'⟩, hcall⟩ := hsucceeds
        rw [after, hcall]
        rcases onceRows_of_succeeds hcall with ⟨-, rfl, hne⟩ | ⟨-, -, e, _, _, _, -, hrows, -⟩
        · exact hne
        · show j'.onceRows readFloat _ ≠ []
          rw [hrows]
          simp
      · rw [List.concat_eq_append, ← List.cons_append, ← List.append_assoc] at heq
        have hcalls : calls = earlier ++ c' :: later := (List.append_inj' heq rfl).1
        have hne := ih.mpr ⟨earlier, c', later, hcalls, hsucceeds⟩
        rcases onceRows_after utc (j.run readFloat utc calls)
          (hused c (by simp)) with hsame | ⟨hempty, -⟩
        · rwa [hsame]
        · exact absurd hempty hne

variable (readFloat utc) in
/-- What holds of a later call for an identity whose event has this payload: the event is
returned for an equal payload, and another payload is refused. -/
structure Settled (j : Journal) (a : OnceArgs readFloat) (event : Json) : Prop where
  one : ∃ e, j.onceRows readFloat a.identity = [e]
  same : ∀ a' : OnceArgs readFloat, a'.identity = a.identity →
    Json.pyEq (.obj a.payload.fields) (.obj a'.payload.fields) = true →
      ∃ existing, Json.pyEq existing event = true ∧
        j.call readFloat utc (.appendOnce a') = .ok ((existing, false), j)
  different : ∀ a' : OnceArgs readFloat, a'.identity = a.identity →
    Json.pyEq (.obj a.payload.fields) (.obj a'.payload.fields) = false →
      (∃ message, j.call readFloat utc (.appendOnce a') = .error (.valueError message)) ∧
        j.after readFloat utc (.appendOnce a') = j

theorem settled_after {j₁ : Journal} {event : Json}
    (h : j.call readFloat utc (.appendOnce a) = .ok ((event, true), j₁))
    {later : List (Call readFloat)} (hused : ∀ c ∈ later, UsedOnce a.identity c) :
    Settled readFloat utc (j₁.run readFloat utc later) a event := by
  obtain ⟨hrunId, htype, hkey, hrun⟩ := named_of_succeeds h
  have hrun₁ : (j₁.runs.get? a.identity.runId).isSome := by
    have hafter : ((j.after readFloat utc (.appendOnce a)).runs.get? a.identity.runId).isSome :=
      run_stays _ hrun
    rwa [after, h] at hafter
  rcases onceRows_of_succeeds h with
    ⟨hfalse, -⟩ | ⟨-, -, e, sequence, eventId, now, hevent, hrows, hread⟩
  · exact absurd hfalse (by simp)
  -- the event and the run stay through the later calls
  have hkept : (j₁.run readFloat utc later).onceRows readFloat a.identity = [e] ∧
      ((j₁.run readFloat utc later).runs.get? a.identity.runId).isSome := by
    refine run_invariant (fun j => j.onceRows readFloat a.identity = [e] ∧
      (j.runs.get? a.identity.runId).isSome) ?_ ⟨hrows, hrun₁⟩
    rintro j c hc ⟨honce, hrun⟩
    refine ⟨?_, run_stays c hrun⟩
    rcases onceRows_after utc j (hused c hc) with hsame | ⟨hempty, -⟩
    · rwa [hsame]
    · rw [hempty] at honce
      exact absurd honce (by simp)
  obtain ⟨honce, hstays⟩ := hkept
  have hdata : ∀ fields, Json.pyEq (((e.event readFloat).get? "data").getD .null) (.obj fields) =
      Json.pyEq (.obj a.payload.fields) (.obj fields) := by
    intro fields
    rw [hread]
    show Json.pyEq (((Json.sortKeys event).get? "data").getD .null) (.obj fields) = _
    rw [show event = _ from hevent, get?_data_eventOf]
    exact Json.pyEq_sortKeys_left _ _
  have hcall : ∀ a' : OnceArgs readFloat, a'.identity = a.identity →
      (j₁.run readFloat utc later).call readFloat utc (.appendOnce a') =
        if Json.pyEq (.obj a.payload.fields) (.obj a'.payload.fields) then
          .ok ((e.event readFloat, false), j₁.run readFloat utc later)
        else .error (.valueError "idempotency key already identifies a different event") := by
    intro a' hid
    rw [← hdata]
    exact call_of_onceRows (hid ▸ honce) (hid ▸ ⟨hrunId, htype, hkey, hstays⟩)
  refine ⟨⟨e, honce⟩, fun a' hid heq => ?_, fun a' hid hne => ?_⟩
  · refine ⟨e.event readFloat, ?_, by rw [hcall a' hid, if_pos heq]⟩
    rw [hread]
    have hwell : Json.WellFormed readFloat event := by
      rw [show event = _ from hevent]
      exact wellFormed_eventOf a.payload
    exact Json.pyEq_sortKeys event hwell
  · have hraises : (j₁.run readFloat utc later).call readFloat utc (.appendOnce a') = .error
        (.valueError "idempotency key already identifies a different event") := by
      rw [hcall a' hid, hne]
      rfl
    exact ⟨⟨_, hraises⟩, by rw [after, hraises]; rfl⟩

/-- In every run of calls, the sequences of each run are `1`, …, up to its last one. An identity
used with `append_event_once` only has one event from the first successful call for it on, and
this event answers every later call. -/
theorem event_journal {j₀ : Journal} (h₀ : j₀.Fresh) :
    (∀ calls, (j₀.run readFloat utc calls).Numbered) ∧
    ∀ (before : List (Call readFloat)) (a : OnceArgs readFloat) (event : Json) (created : Bool)
      (j₁ : Journal), (∀ c ∈ before, UsedOnce a.identity c) →
      (j₀.run readFloat utc before).call readFloat utc (.appendOnce a) =
        .ok ((event, created), j₁) →
      (created = true ↔ ¬ j₀.SucceededIn readFloat utc before a.identity) ∧
      (created = true → ∀ later, (∀ c ∈ later, UsedOnce a.identity c) →
        Settled readFloat utc (j₁.run readFloat utc later) a event) := by
  refine ⟨fun calls => run_invariant Numbered (fun j c _ hj => hj.after c) h₀.numbered, ?_⟩
  intro before a event created j₁ hused hcall
  constructor
  · rw [← onceRows_run h₀ hused, not_not]
    rcases onceRows_of_succeeds hcall with ⟨hfalse, -, hne⟩ | ⟨htrue, hempty, -⟩
    · exact iff_of_false (by rw [show created = false from hfalse]; simp) hne
    · exact iff_of_true htrue hempty
  · rintro rfl later hlater
    exact settled_after hcall hlater

/-- A run `r` that gets a `started` event with the key `k`. -/
theorem event_journal_started :
    let none_ : List Char → Option (FloatText × Int × Nat) := fun _ => none
    let j : Journal := { runs := ⟨[{ runId := "r" }], List.nodup_singleton _⟩ }
    let a : OnceArgs none_ := {
      runId := "r", eventType := "started", data := ⟨[], List.nodup_nil, trivial⟩
      eventId := "e", now := 0, idempotencyKey := "k" }
    ∃ event j₁, j.call none_ (fun _ => "") (.appendOnce a) = .ok ((event, true), j₁) ∧
      ¬ j.SucceededIn none_ (fun _ => "") [] a.identity ∧
      Settled none_ (fun _ => "") j₁ a event := by
  intro none_ j a
  have hj : j.Fresh := by
    refine ⟨rfl, fun runId row hrow => ?_⟩
    have hmem : row ∈ j.runs.rows := (Table.get?_eq_some.mp hrow).1
    rw [List.mem_singleton.mp hmem]
  have hrun : required "r" "run_id" = .ok "r" := by rw [required, if_neg] <;> decide +kernel
  have htype : required "started" "event_type" = .ok "started" := by
    rw [required, if_neg] <;> decide +kernel
  have hkey : required "k" "idempotency_key" = .ok "k" := by
    rw [required, if_neg] <;> decide +kernel
  have hnone : ((j.call none_ (fun _ => "") (.appendOnce a)).toOption.map fun r => r.1.2) =
      some true := by
    rw [call, appendEventOnce, hrun, htype, hkey]
    rfl
  obtain ⟨⟨⟨event, created⟩, j₁⟩, hsome, hcreated⟩ := Option.map_eq_some_iff.mp hnone
  obtain rfl : created = true := hcreated
  have hcall : j.call none_ (fun _ => "") (.appendOnce a) = .ok ((event, true), j₁) := by
    cases hresult : j.call none_ (fun _ => "") (.appendOnce a) with
    | error e => rw [hresult] at hsome; exact absurd hsome (by simp [Except.toOption])
    | ok r => rw [hresult] at hsome; exact congrArg _ (Option.some.inj hsome)
  have hused : ∀ c ∈ ([] : List (Call none_)), UsedOnce a.identity c := by simp
  obtain ⟨hnew, hsettled⟩ := (event_journal hj).2 [] a event true j₁ hused hcall
  exact ⟨event, j₁, hcall, hnew.mp rfl, hsettled rfl [] hused⟩

end Journal

end

end PawFlow.WorkflowRun
