import PawFlow.Core.FlowFile
import PawFlow.Lib.PyString

/-!
# Prioritized queues

The queue inside a connection (`core/prioritizer.py`). A queue holds FlowFile *objects*: the
same object may be queued twice, and its attributes may change while it is queued. So the
queue is over an arbitrary type of objects, and every operation that looks into one takes the
present contents `view : α → FlowFile`.
-/

namespace PawFlow.Core

open PawFlow.Lib

inductive PrioritizerType
  | fifo
  | newestFirst
  | oldestFirst
  | priorityAttribute
deriving DecidableEq

structure PrioritizedQueue (α : Type*) where
  type : PrioritizerType
  maxSize : Int
  priorityAttribute : String := "priority"
  /-- One FIFO per priority level; used by `priorityAttribute` only. -/
  priorityQueues : PyDict Int (List α) := []
  total : Int := 0
  /-- The items of every other type. -/
  items : List α := []

namespace PrioritizedQueue

variable {α : Type*} (view : α → FlowFile) (q : PrioritizedQueue α)

/-- `_get_ff_priority`. -/
def ffPriority (x : α) : Int :=
  match (view x).getAttribute q.priorityAttribute with
  | none => 0
  | some val => if val = "" then 0 else (int? val).getD 0

def size : Int :=
  match q.type with
  | .priorityAttribute => q.total
  | _ => q.items.length

def isFull : Bool := q.maxSize ≤ q.size

/-- The queued objects. -/
def flowfiles : List α :=
  match q.type with
  | .priorityAttribute => q.priorityQueues.flatMap Prod.snd
  | _ => q.items

/-- The queue with an object appended, within its priority level if there are levels. -/
def push (x : α) : PrioritizedQueue α :=
  match q.type with
  | .priorityAttribute =>
    let prio := q.ffPriority view x
    { q with
      priorityQueues := q.priorityQueues.set prio ((q.priorityQueues.get? prio).getD [] ++ [x])
      total := q.total + 1 }
  | _ => { q with items := q.items ++ [x] }

/-- `put`: `false` when the queue is full. -/
def put (x : α) : Bool × PrioritizedQueue α :=
  if q.isFull then (false, q) else (true, q.push view x)

/-- Write back a priority level that lost one item; an empty level is deleted. -/
def setLevel (prio : Int) (rest : List α) : PrioritizedQueue α :=
  { q with
    priorityQueues :=
      if rest.isEmpty then q.priorityQueues.erase prio else q.priorityQueues.set prio rest
    total := q.total - 1 }

def popFirst : Option α × PrioritizedQueue α :=
  match q.items with
  | [] => (none, q)
  | x :: rest => (some x, { q with items := rest })

def timestamp (x : α) : String := ((view x).getAttribute "timestamp").getD ""

/-- `get`: the highest nonempty priority first, or the first item in the order of the type. The
sorts by timestamp stay in the list. -/
def get : Option α × PrioritizedQueue α :=
  match q.type with
  | .priorityAttribute =>
    if q.total = 0 then (none, q)
    else
      let levels := (q.priorityQueues.map Prod.fst).insertionSort (· ≥ ·)
      let next := levels.findSome? fun prio =>
        match (q.priorityQueues.get? prio).getD [] with
        | [] => none
        | x :: rest => some (prio, x, rest)
      match next with
      | none => (none, q)
      | some (prio, x, rest) => (some x, q.setLevel prio rest)
  | .fifo => q.popFirst
  | .newestFirst =>
    popFirst { q with
      items := q.items.insertionSort fun x y => ¬ timestamp view x < timestamp view y }
  | .oldestFirst =>
    popFirst { q with
      items := q.items.insertionSort fun x y => ¬ timestamp view y < timestamp view x }

/-- `remove`: the first occurrence of an object, compared by identity. -/
def remove [DecidableEq α] (x : α) : Bool × PrioritizedQueue α :=
  match q.type with
  | .priorityAttribute =>
    match q.priorityQueues.find? fun i => x ∈ i.2 with
    | none => (false, q)
    | some (prio, level) => (true, q.setLevel prio (level.erase x))
  | _ => if x ∈ q.items then (true, { q with items := q.items.erase x }) else (false, q)

def isEmpty : Bool := q.size = 0

/-- The priorities, the highest first. -/
def levels : List Int := (q.priorityQueues.map Prod.fst).insertionSort (· ≥ ·)

def level (prio : Int) : List α := (q.priorityQueues.get? prio).getD []

def peek : Option α :=
  match q.type with
  | .priorityAttribute => q.levels.findSome? fun prio => (q.level prio).head?
  | _ => q.items.head?

/-- `items[:limit]`. -/
def sliceTo (items : List α) (limit : Int) : List α :=
  items.take (if 0 ≤ limit then limit else items.length + limit).toNat

/-- `peek_all`. The loop over the levels takes an item before it looks at the limit. -/
def peekAll (limit : Int) : List α :=
  match q.type with
  | .priorityAttribute => (q.levels.flatMap q.level).take (max limit 1).toNat
  | _ => sliceTo q.items limit

def clear : PrioritizedQueue α :=
  match q.type with
  | .priorityAttribute => { q with priorityQueues := [], total := 0 }
  | _ => { q with items := [] }

variable {view q}

theorem perm_flowfiles_push (view : α → FlowFile) (q : PrioritizedQueue α) (x : α) :
    (q.push view x).flowfiles.Perm (q.flowfiles ++ [x]) := by
  unfold push flowfiles
  cases q.type with
  | priorityAttribute => exact PyDict.perm_flatMap_set_append _ _ _
  | fifo | newestFirst | oldestFirst => exact List.Perm.refl _

theorem mem_push {x y : α} : y ∈ (q.push view x).flowfiles ↔ y ∈ q.flowfiles ∨ y = x := by
  rw [(perm_flowfiles_push view q x).mem_iff, List.mem_append, List.mem_singleton]

theorem size_push (x : α) : (q.push view x).size = q.size + 1 := by
  unfold push size
  cases q.type <;> simp

theorem maxSize_push (x : α) : (q.push view x).maxSize = q.maxSize := by
  unfold push
  cases q.type <;> rfl

theorem isFull_push {x : α} (h : q.isFull) : (q.push view x).isFull := by
  simp only [isFull, size_push, maxSize_push, decide_eq_true_eq] at h ⊢
  omega

end PrioritizedQueue

end PawFlow.Core
