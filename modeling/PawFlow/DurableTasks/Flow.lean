import PawFlow.Interaction.Steps
import PawFlow.Lib.Runs

/-!
# Durable tasks of a flow

`DurableWaitTask` and `DurableTimerTask` of `tasks/control/durable_confirm.py` over the store of
`Interaction.Store`. FlowFiles come to any such task with any attributes, as often as they like: what
lies between two of them does not matter. Answers, cancellations and expiries of an interaction reach
a wait as a `notify_signal` of its signal.
-/

namespace PawFlow.DurableTasks

open PawFlow.Lib PawFlow.Core PawFlow.Interaction PawFlow.Interaction.Store

/-- `parse_timeout_seconds` and `parse_utc_deadline`. -/
structure Parsers where
  parseTimeoutSeconds : String → Except String Time
  parseUtcDeadline : String → Except String Time

/-! ## Tasks -/

/-- The parameters of a durableWait with its expressions resolved; `ids` is what the run context or
`find_own_flow_ids` answers. -/
structure WaitTask where
  signalId : String := ""
  signalIdAttribute : String := "confirmation.signal_id"
  timeout : String := ""
  ids : Option (String × String)
deriving DecidableEq

structure TimerTask where
  duration : Option String := none
  «until» : Option String := none
  ids : Option (String × String)
deriving DecidableEq

/-- What `execute` does with a FlowFile. -/
inductive Outcome
  | raised (message : String)
  | released (f : FlowFile)
  | parkWait (park : Park)
  | parkTimer (instanceId taskId : String) (f : FlowFile) (deadlineAt : Time)

def WaitTask.signalOf (c : WaitTask) (f : FlowFile) : String :=
  if c.signalId = "" then f.attr c.signalIdAttribute else c.signalId

/-- `DurableWaitTask.execute` up to `park_wait`. -/
def WaitTask.execute (R : Parsers) (c : WaitTask) (f : FlowFile) : Outcome :=
  if f.attr "durable.wait.status" ≠ "" then .released f
  else if c.signalOf f = "" then
    .raised "durableWait needs 'signal_id' (or a FlowFile attribute named by 'signal_id_attribute')"
  else match R.parseTimeoutSeconds c.timeout, c.ids with
    | .error exc, _ => .raised s!"Invalid durableWait timeout: {exc}"
    | .ok _, none =>
      .raised ("durableWait requires a DEPLOYED continuous flow or a durable Workflow Agent " ++
        "run context")
    | .ok timeout, some (instanceId, taskId) =>
      .parkWait { signalId := c.signalOf f, instanceId, taskId, flowfile := f, timeout }

/-- `value is not None and str(value).strip() != ""`. -/
def given (value : Option String) : Option String := value.filter fun v => strip v ≠ ""

def TimerTask.deadline (R : Parsers) (c : TimerTask) (now : Time) : Except String Time :=
  match given c.duration, given c.until with
  | some duration, none =>
    match R.parseTimeoutSeconds duration with
    | .error exc => .error s!"Invalid durableTimer deadline: {exc}"
    | .ok seconds =>
      if seconds ≤ 0 then .error "Invalid durableTimer deadline: duration must be > 0"
      else .ok (now + seconds)
  | none, some until' =>
    (R.parseUtcDeadline until').mapError fun exc => s!"Invalid durableTimer deadline: {exc}"
  | _, _ => .error "durableTimer requires exactly one of 'duration' or 'until'"

/-- `DurableTimerTask.execute` up to `park_timer`. -/
def TimerTask.execute (P : Platform) (R : Parsers) (c : TimerTask) (f : FlowFile) (now : Time) :
    Outcome :=
  if f.attr "durable.timer.status" ≠ "" then
    .released (f.setAttribute "route.relationship" (f.attr "durable.timer.status"))
  else match c.deadline R now, c.ids with
    | .error exc, _ => .raised exc
    | .ok _, none =>
      .raised ("durableTimer requires a DEPLOYED continuous flow: the parked FlowFile must be " ++
        "re-injected after the deadline")
    | .ok deadlineAt, some (instanceId, taskId) =>
      .parkTimer instanceId taskId
        (f.setAttribute "durable.timer.scheduled_at" (P.isoformat deadlineAt)) deadlineAt

inductive DurableTask
  | wait (c : WaitTask)
  | timer (c : TimerTask)
deriving DecidableEq

def DurableTask.execute (P : Platform) (R : Parsers) (t : DurableTask) (f : FlowFile) (now : Time) :
    Outcome :=
  match t with
  | .wait c => c.execute R f
  | .timer c => c.execute P R f now

/-! ## Runs -/

/-- A FlowFile that came to a task, as it came, with the clock of this execution. The code does not
see the number. -/
structure Entry where
  number : Nat
  task : DurableTask
  file : FlowFile
  now : Time
deriving DecidableEq

/-- What happened, for the record. -/
inductive Event
  | entered (e : Entry)
  /-- A `notify_signal`; `found` if a wait was waiting. -/
  | notified (signalId : String) (value : Json) (found : Bool)
  /-- The store read the clock. -/
  | clock (now : Time)
  | cancelled (waitId : String)
  | parked (number : Nat) (waitId : String) (expiresAt : Time)
  /-- A remembered `null` was thrown away. -/
  | discarded (signalId : String)
  /-- The task let the FlowFile pass with a remembered value. -/
  | passed (e : Entry) (signalId : String) (f : FlowFile)
  | released (e : Entry) (f : FlowFile)

/-- A `park_wait` or `park_timer` in progress. -/
inductive Call
  | consume (e : Entry) (park : Park)
  | insert (e : Entry) (park : Park)
  | timer (e : Entry) (instanceId taskId : String) (f : FlowFile) (deadlineAt : Time)

structure State where
  store : Store := {}
  /-- How many FlowFiles entered. -/
  count : Nat := 0
  calls : List Call := []
  /-- Rows that a `deliver_resolved` read and has not handled yet. -/
  taken : List Wait := []
  /-- Delivered waits that are not marked yet. -/
  marks : List String := []
  /-- FlowFiles injected at the task they were parked by. -/
  resumed : List (Entry × FlowFile) := []
  /-- The FlowFile a row was inserted for. -/
  owner : String → Entry := fun _ => ⟨0, .wait { ids := none }, { processId := "" }, 0⟩
  /-- Newest first. -/
  log : List Event := []

inductive Act
  | enter (task : DurableTask) (f : FlowFile) (now : Time)
  /-- The next transaction of a call, with the digits of a fresh timer id. -/
  | advance (k : Nat) (now : Time) (uuid : String)
  | notify (signalId : String) (value : Json) (now : Time)
  | sweep (now : Time)
  | cancel (waitId : String)
  /-- The snapshot of `deliver_resolved`. -/
  | take
  /-- `_deliver_wait` up to the answer of the executor. -/
  | deliver (k : Nat) (now : Time) (accepted : Bool)
  | mark (k : Nat)
  /-- The task gets the injected FlowFile. -/
  | resume (k : Nat) (now : Time)

namespace State

def record (s : State) (ev : Event) : State := { s with log := ev :: s.log }

/-- `execute` of the task of an entry. -/
def execute (P : Platform) (R : Parsers) (s : State) (e : Entry) (f : FlowFile) (now : Time) :
    State :=
  match e.task.execute P R f now with
  | .raised _ => s
  | .released f => s.record (.released e f)
  | .parkWait park => { s with calls := s.calls ++ [.consume e park] }
  | .parkTimer instanceId taskId f deadlineAt =>
    { s with calls := s.calls ++ [.timer e instanceId taskId f deadlineAt] }

/-- The row of a parked FlowFile is inserted, unless its id is taken. -/
def insert (s : State) (e : Entry) (w : Wait) : State :=
  match s.store.waits.insert? w with
  | none => s
  | some waits =>
    { s with
      store := { s.store with waits }
      owner := Function.update s.owner w.waitId e
      log := .parked e.number w.waitId w.expiresAt :: s.log }

/-- `consume_signal_value` of `park_wait` and what follows up to the next transaction. -/
def consume (P : Platform) (s : State) (e : Entry) (park : Park) : State :=
  let stored := (s.store.values.get? park.signalId).isSome
  let (existing, store) := s.store.consumeSignalValue park.signalId
  let s := { s with store }
  if existing.isNull then
    let s := { s with calls := s.calls ++ [.insert e park] }
    if stored then s.record (.discarded park.signalId) else s
  else s.record (.passed e park.signalId (passThrough P park existing))

/-- A FlowFile whose deadline has passed already. -/
def elapsed (P : Platform) (f : FlowFile) (now : Time) : FlowFile :=
  let f := f.setAttribute "durable.timer.status" "elapsed"
  let f := f.setAttribute "durable.timer.elapsed_at" (P.isoformat now)
  f.setAttribute "route.relationship" "elapsed"

/-- The next transaction of a call. -/
def advance (P : Platform) (s : State) (now : Time) (uuid : String) : Call → State
  | .consume e park => s.consume P e park
  | .insert e park =>
    if park.flowfile.processId = "" then s else s.insert e (parkedWait P park now)
  | .timer e instanceId taskId f deadlineAt =>
    if instanceId = "" || taskId = "" then s
    else if deadlineAt ≤ now then (s.record (.clock now)).record (.released e (elapsed P f now))
    else s.insert e (timerWait ("timer_" ++ uuid) instanceId taskId f now deadlineAt none)

def notify (s : State) (signalId : String) (value : Json) (now : Time) : State :=
  if signalId = "" then s
  else
    let found := s.store.waits.rows.any (waitsOn signalId)
    { s with store := (s.store.notifySignal signalId value now).2 }.record
      (.notified signalId value found)

def deliver (P : Platform) (s : State) (w : Wait) (now : Time) (accepted : Bool) : State :=
  if accepted then
    { s with
      marks := s.marks ++ [w.waitId]
      resumed := s.resumed ++ [(s.owner w.waitId, restoredFlowFile P w now)] }
  else s

end State

def step (P : Platform) (R : Parsers) (s : State) : Act → Option State
  | .enter task f now =>
    let e : Entry := { number := s.count, task, file := f, now }
    some (({ s with count := s.count + 1 }.record (.entered e)).execute P R e f now)
  | .advance k now uuid => s.calls[k]?.map fun call =>
    { s with calls := s.calls.eraseIdx k }.advance P now uuid call
  | .notify signalId value now => some (s.notify signalId value now)
  | .sweep now => some ({ s with store := (s.store.sweep now).2 }.record (.clock now))
  | .cancel waitId =>
    some ({ s with store := (s.store.cancelWait waitId).2 }.record (.cancelled waitId))
  | .take => some { s with taken := s.taken ++ s.store.resolvedWaits }
  | .deliver k now accepted => s.taken[k]?.map fun w =>
    { s with taken := s.taken.eraseIdx k }.deliver P w now accepted
  | .mark k => s.marks[k]?.map fun waitId =>
    { s with marks := s.marks.eraseIdx k, store := s.store.markDelivered waitId }
  | .resume k now => s.resumed[k]?.map fun p =>
    { s with resumed := s.resumed.eraseIdx k }.execute P R p.1 p.2 now

/-! ## What a release rests on -/

/-- What happened since a FlowFile entered. -/
def since (number : Nat) : List Event → List Event
  | [] => []
  | ev :: log =>
    match ev with
    | .entered e => if e.number = number then [] else ev :: since number log
    | _ => ev :: since number log

/-- The value that `durable_signal_values` holds for a signal: the last one notified when nobody was
waiting, unless it was consumed. -/
def remembered (signalId : String) : List Event → Option Json
  | [] => none
  | .notified g value false :: log => if g = signalId then some value else remembered signalId log
  | .passed _ g _ :: log | .discarded g :: log =>
    if g = signalId then none else remembered signalId log
  | _ :: log => remembered signalId log

def Cancelled (number : Nat) (events : List Event) : Prop :=
  ∃ waitId expiresAt, .parked number waitId expiresAt ∈ events ∧ .cancelled waitId ∈ events

def TimedOut (number : Nat) (events : List Event) : Prop :=
  ∃ waitId expiresAt now, .parked number waitId expiresAt ∈ events ∧ .clock now ∈ events ∧
    0 < expiresAt ∧ expiresAt < now

/-- The deadline of this FlowFile passed. -/
def Reached (R : Parsers) (c : TimerTask) (e : Entry) (events : List Event) : Prop :=
  ∃ deadlineAt now, c.deadline R e.now = .ok deadlineAt ∧ .clock now ∈ events ∧ deadlineAt ≤ now

/-- The task had a reason to release the FlowFile that arose after it entered. -/
def Waited (R : Parsers) (log : List Event) (e : Entry) : Prop :=
  match e.task with
  | .wait c =>
    (∃ value found, .notified (c.signalOf e.file) value found ∈ since e.number log) ∨
      TimedOut e.number (since e.number log) ∨ Cancelled e.number (since e.number log)
  | .timer c => Reached R c e (since e.number log) ∨ Cancelled e.number (since e.number log)

/-- Every release had such a reason. -/
def AllWaited (R : Parsers) : List Event → Prop
  | [] => True
  | .passed e _ _ :: log | .released e _ :: log => Waited R log e ∧ AllWaited R log
  | _ :: log => AllWaited R log

/-- The reason of a release after the FlowFile was parked, which it carries as a status. Nothing is
said of a FlowFile that entered with one. -/
def Grounds (R : Parsers) (log : List Event) (e : Entry) (f : FlowFile) : Prop :=
  match e.task with
  | .wait c => e.file.attr "durable.wait.status" = "" →
      (f.attr "durable.wait.status" = "signaled" ∧ ∃ value found,
        .notified (c.signalOf e.file) value found ∈ since e.number log ∧
        f.attr "durable.wait.value" = value.dumps) ∨
      (f.attr "durable.wait.status" = "timeout" ∧ TimedOut e.number (since e.number log)) ∨
      (f.attr "durable.wait.status" = "cancelled" ∧ Cancelled e.number (since e.number log))
  | .timer c => e.file.attr "durable.timer.status" = "" →
      (f.attr "durable.timer.status" = "elapsed" ∧ Reached R c e (since e.number log)) ∨
      (f.attr "durable.timer.status" = "cancelled" ∧ Cancelled e.number (since e.number log)) ∨
      -- A timer waits on its own id, so a notification of that id ends it.
      (f.attr "durable.timer.status" = "resolved" ∧ ∃ waitId expiresAt value found,
        .parked e.number waitId expiresAt ∈ since e.number log ∧
        .notified waitId value found ∈ since e.number log)

def PassesWith (log : List Event) (e : Entry) (signalId : String) (f : FlowFile) : Prop :=
  (∃ c, e.task = .wait c ∧ c.signalOf e.file = signalId) ∧
    ∃ value, remembered signalId log = some value ∧ f.attr "durable.wait.status" = "signaled" ∧
      f.attr "durable.wait.value" = value.dumps

def AllGrounded (R : Parsers) : List Event → Prop
  | [] => True
  | .passed e signalId f :: log => PassesWith log e signalId f ∧ AllGrounded R log
  | .released e f :: log => Grounds R log e f ∧ AllGrounded R log
  | _ :: log => AllGrounded R log

end PawFlow.DurableTasks
