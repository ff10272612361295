import PawFlow.Core.Prioritizer

/-!
# Connections

A queue between two tasks with backpressure by count and by size (`core/connection.py`).
`enqueue` refuses an object when the bytes or the number of queued FlowFiles would pass a
limit, and its caller has to look at the answer; `requeue` does not tell whether the object
found a place. Every call reads the clock once (`now`).
-/

namespace PawFlow.Core

open PawFlow.Lib

structure Connection (α : Type*) where
  sourceId : String
  targetId : String
  relationship : String := "success"
  maxQueueBytes : Int := 100 * 1024 * 1024
  flowfileTtlSeconds : Int := 0
  queue : PrioritizedQueue α := { type := .priorityAttribute, maxSize := 10000 }
  totalBytes : Int := 0
  paused : Bool := false
  enqueueTimes : PyDict String Int := []

namespace Connection

variable {α : Type*} (view : α → FlowFile) (now : Int) (conn : Connection α)

/-- Both limits leave room for a FlowFile of `size` bytes. -/
def admits (size : Nat) : Bool :=
  conn.totalBytes + size ≤ conn.maxQueueBytes && !conn.queue.isFull

/-- The queued objects. -/
def flowfiles : List α := conn.queue.flowfiles

/-- `enqueue`: `false` when a backpressure threshold is reached. -/
def enqueue (x : α) : Bool × Connection α :=
  let contentSize := (view x).size
  if conn.maxQueueBytes < conn.totalBytes + contentSize then (false, conn)
  else
    let (placed, queue) := conn.queue.put view x
    if !placed then (false, { conn with queue })
    else (true, { conn with
      queue
      totalBytes := conn.totalBytes + contentSize
      enqueueTimes :=
        if 0 < conn.flowfileTtlSeconds then conn.enqueueTimes.set (view x).processId now
        else conn.enqueueTimes })

/-- What leaves the queue is taken off the books. -/
def release (queue : PrioritizedQueue α) (x : α) : Connection α :=
  { conn with
    queue
    totalBytes := conn.totalBytes - (view x).size
    enqueueTimes := conn.enqueueTimes.erase (view x).processId }

/-- `dequeue`: nothing while the queue is paused. -/
def dequeue : Option α × Connection α :=
  if conn.paused then (none, conn)
  else match conn.queue.get view with
    | (none, queue) => (none, { conn with queue })
    | (some x, queue) => (some x, conn.release view queue x)

/-- `requeue`: the answer of the queue is not looked at. -/
def requeue (x : α) : Connection α :=
  { conn with
    queue := (conn.queue.put view x).2
    totalBytes := conn.totalBytes + (view x).size }

def remove [DecidableEq α] (x : α) : Bool × Connection α :=
  match conn.queue.remove x with
  | (true, queue) => (true, conn.release view queue x)
  | (false, _) => (false, conn)

/-- `dequeue` until it returns nothing; `n` is at least the number of queued objects. -/
def drain : Nat → Connection α → Connection α
  | 0, conn => conn
  | n + 1, conn =>
    match conn.dequeue view with
    | (none, conn) => conn
    | (some _, conn) => drain n conn

/-- `items[index]`; `none` when it raises. -/
def pyGet? (items : List α) (index : Int) : Option α :=
  if 0 ≤ index then items[index.toNat]?
  else if 0 ≤ items.length + index then items[(items.length + index).toNat]? else none

/-- The FlowFile that `remove_by_index` addresses; `none` when the index raises. -/
def addressed (index : Int) : Option (Option α) :=
  let items := conn.queue.peekAll (index + 1)
  if index < items.length then (pyGet? items index).map some else some none

/-- `remove_by_index`, with what was removed; `none` when it raises. -/
def removeByIndex [DecidableEq α] (index : Int) : Option (Bool × Connection α) :=
  (conn.addressed index).map fun
    | none => (false, conn)
    | some x => conn.remove view x

def getFlowfile (processId : String) : Option α :=
  (conn.queue.peekAll conn.queue.size).find? fun x => (view x).processId = processId

def removeByProcessId [DecidableEq α] (processId : String) : Bool × Connection α :=
  match conn.getFlowfile view processId with
  | none => (false, conn)
  | some x => conn.remove view x

def pause : Connection α := { conn with paused := true }

def resume : Connection α := { conn with paused := false }

def clear : Connection α :=
  { conn with queue := conn.queue.clear, totalBytes := 0, enqueueTimes := [] }

/-! ### Expired FlowFiles -/

/-- `drain_expired` at work. It changes the FlowFiles it removes. -/
structure Drain (α : Type*) where
  view : α → FlowFile
  conn : Connection α
  expired : List α := []
  remaining : List α := []

/-- One FlowFile that `get` returned, with the queue it left. -/
def Drain.take [DecidableEq α] (now : Int) (d : Drain α) (x : α) (queue : PrioritizedQueue α) :
    Drain α :=
  let entered := (d.conn.enqueueTimes.get? (d.view x).processId).getD now
  if d.conn.flowfileTtlSeconds < now - entered then
    let marked := ((d.view x).setAttribute "expired" "true").setAttribute "expired.connection"
      (d.conn.sourceId ++ "->" ++ d.conn.targetId)
    { d with
      view := Function.update d.view x marked
      conn := d.conn.release d.view queue x
      expired := d.expired ++ [x] }
  else { d with conn := { d.conn with queue }, remaining := d.remaining ++ [x] }

/-- The loop over the queue; `none` when it does not end within the given number of rounds. -/
def Drain.loop [DecidableEq α] (now : Int) : Nat → Drain α → Option (Drain α)
  | fuel, d =>
    if d.conn.queue.isEmpty then some d
    else match fuel with
      | 0 => none
      | n + 1 =>
        match d.conn.queue.get d.view with
        | (none, queue) => loop now n { d with conn := { d.conn with queue } }
        | (some x, queue) => loop now n (d.take now x queue)

/-- What is not expired goes back into the queue. -/
def Drain.refill (d : Drain α) : Drain α :=
  let put (conn : Connection α) (x : α) := { conn with queue := (conn.queue.put d.view x).2 }
  { d with conn := d.remaining.foldl put d.conn }

def drainExpired [DecidableEq α] : Option (Drain α) :=
  if conn.flowfileTtlSeconds ≤ 0 then some { view, conn }
  else (Drain.loop now conn.queue.size.toNat { view, conn }).map Drain.refill

variable {view now conn}

theorem enqueue_fst (x : α) : (conn.enqueue view now x).1 = conn.admits (view x).size := by
  unfold enqueue admits PrioritizedQueue.put
  by_cases hbytes : conn.maxQueueBytes < conn.totalBytes + ((view x).size : Int)
  · simp [hbytes]
  · cases hfull : conn.queue.isFull <;> simp [hbytes, not_lt.mp hbytes]

variable {x : α}

theorem enqueue_refused (h : conn.admits (view x).size = false) :
    (conn.enqueue view now x).2 = conn := by
  unfold admits at h
  unfold enqueue PrioritizedQueue.put
  by_cases hbytes : conn.maxQueueBytes < conn.totalBytes + ((view x).size : Int)
  · simp [hbytes]
  · cases hfull : conn.queue.isFull with
    | true => simp [hbytes]
    | false =>
      simp only [not_lt] at hbytes
      simp [hbytes, hfull] at h

theorem enqueue_admitted (h : conn.admits (view x).size) :
    (conn.enqueue view now x).2.queue = conn.queue.push view x ∧
      (conn.enqueue view now x).2.totalBytes = conn.totalBytes + (view x).size := by
  unfold admits at h
  simp only [Bool.and_eq_true, decide_eq_true_eq, Bool.not_eq_true'] at h
  unfold enqueue PrioritizedQueue.put
  simp [not_lt.mpr h.1, h.2]

theorem mem_enqueue {y : α} :
    y ∈ (conn.enqueue view now x).2.flowfiles ↔
      y ∈ conn.flowfiles ∨ (conn.admits (view x).size ∧ y = x) := by
  cases h : conn.admits (view x).size with
  | false => simp [enqueue_refused h]
  | true => simp [flowfiles, (enqueue_admitted h).1, PrioritizedQueue.mem_push]

theorem maxQueueBytes_enqueue (x : α) :
    (conn.enqueue view now x).2.maxQueueBytes = conn.maxQueueBytes := by
  unfold enqueue
  dsimp only
  split_ifs <;> rfl

theorem relationship_enqueue (x : α) :
    (conn.enqueue view now x).2.relationship = conn.relationship := by
  unfold enqueue
  dsimp only
  split_ifs <;> rfl

theorem sourceId_enqueue (x : α) : (conn.enqueue view now x).2.sourceId = conn.sourceId := by
  unfold enqueue
  dsimp only
  split_ifs <;> rfl

theorem admits_of_enqueue {size : Nat}
    (h : (conn.enqueue view now x).2.admits size) : conn.admits size := by
  cases hx : conn.admits (view x).size with
  | false => rwa [enqueue_refused hx] at h
  | true =>
    have hqueue : (conn.enqueue view now x).2.queue = conn.queue.push view x :=
      (enqueue_admitted hx).1
    have hbytes : (conn.enqueue view now x).2.totalBytes = conn.totalBytes + (view x).size :=
      (enqueue_admitted hx).2
    simp only [admits, hqueue, hbytes, maxQueueBytes_enqueue, Bool.and_eq_true,
      decide_eq_true_eq, Bool.not_eq_true'] at h ⊢
    refine ⟨by omega, ?_⟩
    rw [Bool.eq_false_iff] at h ⊢
    exact fun hfull => h.2 (PrioritizedQueue.isFull_push hfull)

end Connection

end PawFlow.Core
