import PawFlow.Lib.Runs

/-!
# The conversation writer

`ConversationWriter` of `core/conversation_writer.py`, for one conversation: callers put items into
the queue of a writer, and the thread of the writer takes them out, writes them in batches and
publishes their events. A call tests whether the writer is running, and only then puts its item;
the thread leaves when it finds its queue empty after a while.

What the store answers is an input. Items are numbered in the order in which their calls put them;
the number stands for the message.
-/

namespace PawFlow.ConvWriter

open PawFlow.Lib

/-! ## Items -/

inductive Op where
  | appendMessage
  | appendMessageIfAbsent
  | appendMessagesIfAbsent
  | patchMessage
deriving DecidableEq

/-- An item that is written. The events of `append_messages_if_absent` are those of its rows. -/
structure Write where
  op : Op
  agentName : String := ""
  userId : String := ""
  ttl : Int := 0
  events : List String := []
deriving DecidableEq

inductive Item where
  | write (x : Write)
  | publishEvents (events : List String)
deriving DecidableEq

inductive Entry where
  | write (id : Nat) (x : Write)
  | publishEvents (id : Nat) (events : List String)
  | flush (call : Nat)
deriving DecidableEq

/-- An item whose call returned. -/
structure Accepted where
  writer : Nat
  caller : Nat
  item : Item
deriving DecidableEq

def Item.entry (id : Nat) : Item → Entry
  | .write x => .write id x
  | .publishEvents events => .publishEvents id events

/-- `item.get("sse_events")`; a list of messages carries the events inside. -/
def Write.hasEvents (x : Write) : Bool := x.op ≠ .appendMessagesIfAbsent && !x.events.isEmpty

/-! ## The loop of a writer -/

/-- Where the thread is: at the queue, filling a batch, or working through one. -/
inductive Phase where
  | waiting
  | collecting (batch : List (Nat × Write))
  | writing (todo : List (Nat × Write)) (post : List (Nat × List String)) (flushes : List Nat)
deriving DecidableEq

structure Writer where
  queue : List Entry := []
  alive : Bool := true
  phase : Phase := .waiting
deriving DecidableEq

/-- What others can see of a thread: calls of the store and publications. -/
inductive Effect where
  | write (writer : Nat) (ids : List Nat)
  | publish (writer : Nat) (id : Nat)
deriving DecidableEq

def batchMax : Nat := 64

def publishSseEvents (w id : Nat) (events : List String) : List Effect :=
  if events = [] then [] else [.publish w id]

/-- The items that go to the store together with `x`, in one call of `append_messages`. -/
def runAfter (x : Write) (rest : List (Nat × Write)) : List (Nat × Write) :=
  rest.takeWhile fun y => y.2.op = .appendMessage ∧ y.2.events = [] ∧
    (y.2.agentName, y.2.userId, y.2.ttl) = (x.agentName, x.userId, x.ttl)

/-- One turn of the loop over a batch: the items that are left, and the effects. `ok`: the store did
not raise; `inserted`: what it answered. -/
def writeItem (w id : Nat) (x : Write) (rest : List (Nat × Write)) (ok inserted : Bool) :
    List (Nat × Write) × List Effect :=
  match x.op with
  | .patchMessage => (rest, [.write w [id]])
  | .appendMessageIfAbsent | .appendMessagesIfAbsent =>
    (rest, .write w [id] :: if ok && inserted then publishSseEvents w id x.events else [])
  | .appendMessage =>
    if x.events = [] then
      -- A run that raised is taken up again behind its first item.
      (if ok then rest.drop (runAfter x rest).length else rest,
        [.write w (id :: (runAfter x rest).map Prod.fst)])
    else (rest, .write w [id] :: if ok then publishSseEvents w id x.events else [])

/-- What one turn of the thread leaves: the writer, the items it is through with, the flush calls
it wakes and its effects. -/
structure Turn where
  writer : Writer
  through : List Nat := []
  woken : List Nat := []
  effects : List Effect := []

def Writer.turn (x : Writer) (w : Nat) (ok inserted : Bool) : Option Turn :=
  match x.phase, x.queue with
  | .waiting, [] => none
  | .waiting, .flush call :: queue => some { writer := { x with queue }, woken := [call] }
  | .waiting, .publishEvents id events :: queue =>
    some
      { writer := { x with queue }, through := [id], effects := publishSseEvents w id events }
  | .waiting, .write id y :: queue =>
    some { writer := { x with queue, phase := .collecting [(id, y)] } }
  | .collecting batch, queue =>
    if batch.length < batchMax ∧ batch.head?.all (fun y => !y.2.hasEvents) then
      match queue with
      | [] => some { writer := { x with phase := .writing batch [] [] } }
      | .flush call :: queue =>
        some { writer := { x with queue, phase := .writing batch [] [call] } }
      | .publishEvents id events :: queue =>
        some { writer := { x with queue, phase := .writing batch [(id, events)] [] } }
      | .write id y :: queue =>
        let batch := batch ++ [(id, y)]
        let phase := if y.hasEvents then .writing batch [] [] else .collecting batch
        some { writer := { x with queue, phase } }
    else some { writer := { x with phase := .writing batch [] [] } }
  | .writing ((id, y) :: rest) post flushes, _ =>
    let (todo, effects) := writeItem w id y rest ok inserted
    some
      { writer := { x with phase := .writing todo post flushes }
        through := (((id, y) :: rest).take (rest.length + 1 - todo.length)).map Prod.fst
        effects }
  | .writing [] ((id, events) :: post) flushes, _ =>
    some
      { writer := { x with phase := .writing [] post flushes }
        through := [id]
        effects := publishSseEvents w id events }
  | .writing [] [] (call :: flushes), _ =>
    some { writer := { x with phase := .writing [] [] flushes }, woken := [call] }
  | .writing [] [] [], _ => some { writer := { x with phase := .waiting } }

/-! ## Callers -/

/-- Where a thread that calls is. -/
inductive Pc where
  | idle
  /-- `_ensure_can_accept_writes` returned. -/
  | checked (w : Nat) (item : Item)
  | flushing (w call : Nat)
  /-- `_drain` found the writer running. -/
  | draining (w call : Nat)
  | awaiting (call : Nat)
deriving DecidableEq

structure State where
  writers : Nat → Option Writer := fun _ => none
  /-- The next writer to be made. -/
  fresh : Nat := 0
  /-- The entry of the conversation in `_instances`. -/
  registered : Option Nat := none
  callers : Nat → Pc := fun _ => .idle
  accepted : List Accepted := []
  /-- The items the threads are through with, oldest first. -/
  through : List Nat := []
  log : List Effect := []
  /-- For each flush call, how many items were accepted before it. -/
  marks : List Nat := []
  /-- The flush calls whose event is set. -/
  woken : List Nat := []
  returned : List (Nat × Bool) := []

inductive Act where
  | forConversation
  | enqueue (caller w : Nat) (item : Item)
  | put (caller : Nat)
  | flush (caller w : Nat)
  | drain (caller : Nat)
  | putFlush (caller : Nat)
  | wake (caller : Nat)
  | timeout (caller : Nat)
  | turn (w : Nat) (ok inserted : Bool)
  | leave (w : Nat)
deriving DecidableEq

namespace State

variable (s : State)

def setWriter (w : Nat) (x : Writer) : State :=
  { s with writers := Function.update s.writers w (some x) }

def setPc (c : Nat) (pc : Pc) : State := { s with callers := Function.update s.callers c pc }

/-- The call is refused: `_ensure_can_accept_writes` takes a dead writer out and raises. -/
def refuse (w : Nat) : State :=
  { s with registered := if s.registered = some w then none else s.registered }

def forConversation : State :=
  if (s.registered.bind s.writers).any Writer.alive then s
  else { s.setWriter s.fresh {} with fresh := s.fresh + 1, registered := some s.fresh }

def put (c w : Nat) (item : Item) (x : Writer) : State :=
  { (s.setWriter w { x with queue := x.queue ++ [item.entry s.accepted.length] }).setPc c .idle with
    accepted := s.accepted ++ [⟨w, c, item⟩] }

def startFlush (c w : Nat) : State :=
  { s.setPc c (.flushing w s.marks.length) with marks := s.marks ++ [s.accepted.length] }

def giveBack (c call : Nat) (result : Bool) : State :=
  { s.setPc c .idle with returned := s.returned ++ [(call, result)] }

def applyTurn (w : Nat) (r : Turn) : State :=
  { s.setWriter w r.writer with
    through := s.through ++ r.through
    woken := s.woken ++ r.woken
    log := s.log ++ r.effects }

/-- The idle timeout: the thread leaves if its queue is empty. -/
def leave (w : Nat) (x : Writer) : State :=
  if x.queue = [] then { s.setWriter w { x with alive := false } with registered := none } else s

end State

def step (s : State) : Act → Option State
  | .forConversation => some s.forConversation
  | .enqueue c w item =>
    if s.callers c = .idle then
      (s.writers w).map fun x => if x.alive then s.setPc c (.checked w item) else s.refuse w
    else none
  | .put c =>
    match s.callers c with
    | .checked w item => (s.writers w).map (s.put c w item)
    | _ => none
  | .flush c w =>
    if s.callers c = .idle then
      (s.writers w).map fun x => if x.alive then s.startFlush c w else s.refuse w
    else none
  | .drain c =>
    match s.callers c with
    | .flushing w call => (s.writers w).map fun x =>
      if x.alive then s.setPc c (.draining w call) else s.giveBack c call x.queue.isEmpty
    | _ => none
  | .putFlush c =>
    match s.callers c with
    | .draining w call => (s.writers w).map fun x =>
      (s.setWriter w { x with queue := x.queue ++ [.flush call] }).setPc c (.awaiting call)
    | _ => none
  | .wake c =>
    match s.callers c with
    | .awaiting call => if call ∈ s.woken then some (s.giveBack c call true) else none
    | _ => none
  | .timeout c =>
    match s.callers c with
    | .awaiting call => some (s.giveBack c call false)
    | _ => none
  | .turn w ok inserted =>
    (s.writers w).bind fun x =>
      if x.alive then (x.turn w ok inserted).map (s.applyTurn w) else none
  | .leave w =>
    (s.writers w).bind fun x =>
      if x.alive ∧ x.phase = .waiting then some (s.leave w x) else none

/-- An item is put into the queue of a writer that is still running. -/
def InTime (s : State) : Act → Prop
  | .put c => ∀ w item, s.callers c = .checked w item → ∀ x ∈ s.writers w, x.alive = true
  | _ => True

/-! ## What is promised -/

def Entry.id? : Entry → Option Nat
  | .write id _ | .publishEvents id _ => some id
  | .flush _ => none

def writeEntry (y : Nat × Write) : Entry := .write y.1 y.2

def postEntry (y : Nat × List String) : Entry := .publishEvents y.1 y.2

/-- What the thread has taken out and is not through with, in order. -/
def Phase.held : Phase → List Entry
  | .waiting => []
  | .collecting batch => batch.map writeEntry
  | .writing todo post flushes =>
    todo.map writeEntry ++ post.map postEntry ++ flushes.map .flush

def Writer.held (x : Writer) : List Entry := x.phase.held ++ x.queue

def Attempted (log : List Effect) (id : Nat) : Prop := ∃ w ids, .write w ids ∈ log ∧ id ∈ ids

def IsWrite (accepted : List Accepted) (id : Nat) : Prop :=
  ∃ p ∈ accepted[id]?, ∃ x, p.item = .write x

def Effect.writer : Effect → Nat
  | .write w _ | .publish w _ => w

def Effect.ids : Effect → List Nat
  | .write _ ids => ids
  | .publish _ id => [id]

/-- An effect is in place behind the effects of `log`: it is one of the writer in whose queue the
items were put, and every earlier item was written before. -/
structure Fits (accepted : List Accepted) (log : List Effect) (e : Effect) : Prop where
  owner : ∀ id ∈ e.ids, ∃ p ∈ accepted[id]?, p.writer = e.writer
  earlier : ∀ id ∈ e.ids, ∀ j < id, IsWrite accepted j → Attempted log j ∨ j ∈ e.ids
  sorted : e.ids.Pairwise (· < ·)
  after_write : ∀ w id, e = .publish w id → IsWrite accepted id → Attempted log id

inductive InPlace (accepted : List Accepted) : List Effect → Prop where
  | nil : InPlace accepted []
  | snoc {log : List Effect} {e : Effect} :
      InPlace accepted log → Fits accepted log e → InPlace accepted (log ++ [e])

/-- The thread of `w` runs on its own; the outcomes are those of the store. -/
def turns (w n : Nat) (outcomes : Nat → Bool × Bool) : List Act :=
  (List.range n).map fun k => .turn w (outcomes k).1 (outcomes k).2

/-- What an enqueue call and a flush call promise. -/
structure Promises (s : State) : Prop where
  /-- The threads are through with the items in the order of their numbers. -/
  in_order : s.through <+: List.range s.accepted.length
  processed : ∀ id ∈ s.through, ∀ p ∈ s.accepted[id]?, match p.item with
    | .write _ => Attempted s.log id
    | .publishEvents events => events = [] ∨ .publish p.writer id ∈ s.log
  log_in_place : InPlace s.accepted s.log
  /-- Left to themselves, the threads get through with every item. -/
  completes : ∀ outcomes, ∃ w n, ∃ t, (turns w n outcomes).foldlM step s = some t ∧
    ∀ id < s.accepted.length, id ∈ t.through
  flushed : ∀ call, (call, true) ∈ s.returned →
    ∃ mark ∈ s.marks[call]?, ∀ id < mark, id ∈ s.through

end PawFlow.ConvWriter
