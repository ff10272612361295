import PawFlow.Core.Connection
import PawFlow.Core.DequeueOrder

/-!
# Connection accounting

The bytes and the number a connection reports are those of its queued FlowFiles, and these are the
ones that came in and did not leave, as long as `requeue` finds room.
-/

namespace PawFlow.Core

open PawFlow.Lib
open scoped List

variable {α : Type*}

/-! ## Queues -/

namespace PrioritizedQueue

variable {view : α → FlowFile} {q : PrioritizedQueue α}

/-- The number that a queue keeps is that of its FlowFiles. -/
structure Sound (q : PrioritizedQueue α) : Prop where
  keys : (q.priorityQueues.map Prod.fst).Nodup
  size : q.size = q.flowfiles.length

theorem flowfiles_of_priority (h : q.type = .priorityAttribute) :
    q.flowfiles = q.priorityQueues.flatMap Prod.snd := by
  rw [flowfiles, h]

theorem flowfiles_of_ne (h : q.type ≠ .priorityAttribute) : q.flowfiles = q.items := by
  unfold flowfiles
  cases ht : q.type with
  | priorityAttribute => exact absurd ht h
  | fifo | newestFirst | oldestFirst => rfl

theorem size_of_ne (h : q.type ≠ .priorityAttribute) : q.size = q.items.length := by
  unfold size
  cases ht : q.type with
  | priorityAttribute => exact absurd ht h
  | fifo | newestFirst | oldestFirst => rfl

theorem size_of_priority (h : q.type = .priorityAttribute) : q.size = q.total := by
  rw [size, h]

theorem sound_of_ne (h : q.type ≠ .priorityAttribute)
    (keys : (q.priorityQueues.map Prod.fst).Nodup) : q.Sound :=
  ⟨keys, by rw [size_of_ne h, flowfiles_of_ne h]⟩

theorem perm_level (keys : (q.priorityQueues.map Prod.fst).Nodup) (prio : Int) :
    (q.priorityQueues.flatMap Prod.snd).Perm
      (q.level prio ++ (q.priorityQueues.erase prio).flatMap Prod.snd) := by
  cases hget : q.priorityQueues.get? prio with
  | none =>
    rw [level, hget, PyDict.erase_of_get?_none hget]
    exact List.Perm.refl _
  | some items =>
    rw [level, hget]
    exact (PyDict.perm_cons_erase keys hget).flatMap_right Prod.snd

theorem Sound.push (hs : q.Sound) (x : α) : (q.push view x).Sound where
  keys := by
    unfold PrioritizedQueue.push
    cases q.type with
    | priorityAttribute => exact PyDict.nodup_keys_set _ hs.keys
    | fifo | newestFirst | oldestFirst => exact hs.keys
  size := by
    rw [size_push, hs.size, (perm_flowfiles_push view q x).length_eq, List.length_append]
    rfl

def pushAll (q : PrioritizedQueue α) (view : α → FlowFile) (xs : List α) : PrioritizedQueue α :=
  xs.foldl (fun q x => q.push view x) q

theorem Sound.pushAll (hs : q.Sound) (xs : List α) : (q.pushAll view xs).Sound := by
  induction xs generalizing q with
  | nil => exact hs
  | cons x xs ih => exact ih (hs.push x)

theorem sameKind_pushAll (view : α → FlowFile) (xs : List α) : SameKind q (q.pushAll view xs) := by
  induction xs generalizing q with
  | nil => exact ⟨rfl, rfl, rfl⟩
  | cons x xs ih =>
    have hpush := sameKind_push view q x
    have hrest := ih (q := q.push view x)
    exact ⟨hrest.type.trans hpush.type, hrest.key.trans hpush.key,
      hrest.maxSize.trans hpush.maxSize⟩

/-- A queue after one FlowFile was taken out of it. -/
structure TakenOut (q q' : PrioritizedQueue α) (x : α) : Prop where
  kind : SameKind q q'
  sound : q'.Sound
  perm : q.flowfiles ~ x :: q'.flowfiles

theorem Sound.setLevel (hs : q.Sound) (ht : q.type = .priorityAttribute) {prio : Int} {x : α}
    {rest : List α} (hx : q.level prio ~ x :: rest) : TakenOut q (q.setLevel prio rest) x := by
  have herase : (q.setLevel prio rest).priorityQueues.erase prio = q.priorityQueues.erase prio := by
    unfold PrioritizedQueue.setLevel
    dsimp only
    split_ifs
    · exact PyDict.erase_of_get?_none (by rw [PyDict.get?_erase, if_pos rfl])
    · exact PyDict.erase_set _ _ _
  have hperm : q.flowfiles ~ x :: (q.setLevel prio rest).flowfiles := by
    rw [flowfiles_of_priority ht, flowfiles_of_priority (show (q.setLevel prio rest).type = _ from ht)]
    calc q.priorityQueues.flatMap Prod.snd
        ~ q.level prio ++ (q.priorityQueues.erase prio).flatMap Prod.snd := perm_level hs.keys prio
      _ ~ x :: (rest ++ (q.priorityQueues.erase prio).flatMap Prod.snd) := hx.append_right _
      _ ~ x :: (q.setLevel prio rest).priorityQueues.flatMap Prod.snd := by
          have hlevel := perm_level (keys_setLevel hs.keys prio rest) prio
          rw [level_setLevel, if_pos rfl, herase] at hlevel
          exact hlevel.symm.cons x
  refine ⟨⟨rfl, rfl, rfl⟩, ⟨keys_setLevel hs.keys prio rest, ?_⟩, hperm⟩
  have hsize := hs.size
  rw [hperm.length_eq, size_of_priority ht, List.length_cons] at hsize
  rw [size_of_priority (show (q.setLevel prio rest).type = _ from ht)]
  show q.total - 1 = _
  omega

/-- `get` on an empty queue, and on any other. -/
theorem Sound.get (hs : q.Sound) (view : α → FlowFile) :
    (q.flowfiles = [] ∧ q.get view = (none, q)) ∨
      ∃ x q', q.get view = (some x, q') ∧ TakenOut q q' x := by
  by_cases ht : q.type = .priorityAttribute
  · rw [get_of_priority ht]
    have hsize : q.total = q.flowfiles.length := (size_of_priority ht).symm.trans hs.size
    split_ifs with hzero
    · exact .inl ⟨List.eq_nil_of_length_eq_zero (by omega), rfl⟩
    · split
      · next hnone =>
        refine .inl ⟨?_, rfl⟩
        rw [flowfiles_of_priority ht]
        refine List.flatMap_eq_nil_iff.mpr fun i hi => ?_
        have hlevel : q.level i.1 = i.2 := by
          rw [level, PyDict.get?_of_mem hs.keys hi]
          rfl
        have hi := List.findSome?_eq_none_iff.mp hnone i.1
          (mem_levels.mpr (List.mem_map_of_mem hi))
        rw [hlevel] at hi
        rcases h : i.2 with _ | ⟨x, rest⟩
        · rfl
        · rw [h] at hi
          cases hi
      · next prio x rest hsome =>
        obtain ⟨prio', -, hlevel⟩ := List.exists_of_findSome?_eq_some hsome
        rcases hprio : q.level prio' with _ | ⟨x', rest'⟩
        · rw [hprio] at hlevel
          cases hlevel
        · rw [hprio] at hlevel
          cases hlevel
          exact .inr ⟨x, _, rfl, hs.setLevel ht (hprio ▸ List.Perm.refl _)⟩
  · have hsorted : q.inOrder view q.items ~ q.flowfiles := by
      rw [flowfiles_of_ne ht]
      exact List.perm_insertionSort _ _
    rw [get_of_ne ht, popFirst]
    dsimp only
    rcases hitems : q.inOrder view q.items with _ | ⟨x, rest⟩
    · rw [hitems] at hsorted
      have hnil := hsorted.symm.eq_nil
      refine .inl ⟨hnil, ?_⟩
      rw [flowfiles_of_ne ht] at hnil
      dsimp only
      rw [← hnil]
    · rw [hitems] at hsorted
      refine .inr ⟨x, _, rfl, ⟨rfl, rfl, rfl⟩, sound_of_ne ht hs.keys, ?_⟩
      rw [flowfiles_of_ne (q := { q with items := rest }) ht]
      exact hsorted.symm

theorem Sound.remove [DecidableEq α] (hs : q.Sound) (x : α) :
    (x ∉ q.flowfiles ∧ q.remove x = (false, q)) ∨
      ∃ q', q.remove x = (true, q') ∧ TakenOut q q' x := by
  by_cases ht : q.type = .priorityAttribute
  · unfold PrioritizedQueue.remove
    rw [ht, flowfiles_of_priority ht]
    dsimp only
    split
    · next hnone =>
      refine .inl ⟨fun hx => ?_, rfl⟩
      obtain ⟨i, hi, hx⟩ := List.mem_flatMap.mp hx
      exact List.find?_eq_none.mp hnone i hi (by simpa using hx)
    · next prio items hsome =>
      have hlevel : q.level prio = items := by
        rw [level, PyDict.get?_of_mem hs.keys (List.mem_of_find?_eq_some hsome)]
        rfl
      have hx : x ∈ items := by simpa using List.find?_some hsome
      refine .inr ⟨_, rfl, hs.setLevel ht ?_⟩
      rw [hlevel]
      exact List.perm_cons_erase hx
  · rw [remove_of_ne ht, flowfiles_of_ne ht]
    split_ifs with hx
    · refine .inr ⟨_, rfl, ⟨rfl, rfl, rfl⟩, sound_of_ne ht hs.keys, ?_⟩
      rw [flowfiles_of_ne ht, flowfiles_of_ne (q := { q with items := q.items.erase x }) ht]
      exact List.perm_cons_erase hx
    · exact .inl ⟨hx, rfl⟩

theorem Sound.clear (hs : q.Sound) : SameKind q q.clear ∧ q.clear.Sound ∧ q.clear.flowfiles = [] := by
  obtain ⟨type, maxSize, key, queues, total, items⟩ := q
  cases type with
  | priorityAttribute => exact ⟨⟨rfl, rfl, rfl⟩, ⟨List.nodup_nil, rfl⟩, rfl⟩
  | fifo | newestFirst | oldestFirst => exact ⟨⟨rfl, rfl, rfl⟩, ⟨hs.keys, rfl⟩, rfl⟩

/-- It holds no more than it may. -/
structure Within (q : PrioritizedQueue α) : Prop extends Sound q where
  fits : q.flowfiles ≠ [] → (q.flowfiles.length : Int) ≤ q.maxSize

theorem Within.push (h : q.Within) (hroom : q.isFull = false) (x : α) : (q.push view x).Within where
  toSound := h.toSound.push x
  fits _ := by
    have hsize := h.size
    have hfull : ¬ q.maxSize ≤ q.size := by simpa [isFull] using hroom
    rw [(perm_flowfiles_push view q x).length_eq, maxSize_push, List.length_append,
      List.length_singleton]
    omega

theorem TakenOut.within {q' : PrioritizedQueue α} {x : α} (hq : TakenOut q q' x)
    (h : q.Within) : q'.Within where
  toSound := hq.sound
  fits _ := by
    have hlen := hq.perm.length_eq
    rw [List.length_cons] at hlen
    have hfits := h.fits (List.ne_nil_of_length_pos (by omega))
    rw [hq.kind.maxSize]
    omega

theorem Sound.isEmpty_iff (hs : q.Sound) : q.isEmpty = true ↔ q.flowfiles = [] := by
  rw [isEmpty, decide_eq_true_eq, hs.size, Int.natCast_eq_zero, List.length_eq_zero_iff]

end PrioritizedQueue

namespace Connection

/-! ## Books -/

/-- A connection with the FlowFiles that came in and did not leave. -/
structure Books (α : Type*) where
  view : α → FlowFile
  conn : Connection α
  ledger : List α := []

inductive Books.Act (α : Type*)
  | enqueue (x : α) (now : Int)
  | dequeue
  | requeue (x : α)
  | remove (x : α)
  | removeByIndex (index : Int)
  | removeByProcessId (processId : String)
  | drainExpired (now : Int)
  | pause
  | resume
  | clear
  /-- FlowFiles change, but not the contents of queued ones. -/
  | edit (view : α → FlowFile)

namespace Books

/-- A new connection. -/
def new (view : α → FlowFile) (sourceId targetId relationship : String)
    (maxQueueBytes flowfileTtlSeconds maxSize : Int) (type : PrioritizerType) (key : String) :
    Books α where
  view
  conn := { sourceId, targetId, relationship, maxQueueBytes, flowfileTtlSeconds,
            queue := { type, maxSize, priorityAttribute := key } }

def bytesOf (view : α → FlowFile) (xs : List α) : Int := (xs.map fun x => ((view x).size : Int)).sum

/-- `queue_bytes` and `queue_size` are right, and in the queue is what came in and did not leave. -/
structure Accounted (s : Books α) : Prop where
  bytes : s.conn.totalBytes = bytesOf s.view s.conn.flowfiles
  size : s.conn.queue.size = s.conn.flowfiles.length
  kept : s.conn.flowfiles ~ s.ledger

variable {view : α → FlowFile} {conn : Connection α} {s s' : Books α}

/-- The books are right, and the queue is within its bounds. -/
structure Inv (s : Books α) : Prop where
  within : s.conn.queue.Within
  bytes : s.conn.totalBytes = bytesOf s.view s.conn.flowfiles
  kept : s.conn.flowfiles ~ s.ledger

theorem Inv.accounted (h : Inv s) : Accounted s := ⟨h.bytes, h.within.size, h.kept⟩

theorem bytesOf_perm {xs ys : List α} (h : xs ~ ys) : bytesOf view xs = bytesOf view ys :=
  (h.map _).sum_eq

@[simp] theorem bytesOf_cons (x : α) (xs : List α) :
    bytesOf view (x :: xs) = (view x).size + bytesOf view xs := by
  simp [bytesOf]

@[simp] theorem bytesOf_append (xs ys : List α) :
    bytesOf view (xs ++ ys) = bytesOf view xs + bytesOf view ys := by
  simp [bytesOf]

theorem bytesOf_congr {view' : α → FlowFile} {xs : List α}
    (h : ∀ x ∈ xs, (view' x).size = (view x).size) : bytesOf view' xs = bytesOf view xs := by
  unfold bytesOf
  rw [List.map_congr_left fun x hx => congrArg (Nat.cast : Nat → Int) (h x hx)]

theorem Inv.push (h : Inv s) (x : α) {conn : Connection α}
    (hq : conn.queue = s.conn.queue.push s.view x)
    (hbytes : conn.totalBytes = s.conn.totalBytes + (s.view x).size)
    (hroom : s.conn.queue.isFull = false) : Inv { s with conn, ledger := s.ledger ++ [x] } := by
  have hperm : conn.flowfiles ~ s.conn.flowfiles ++ [x] := by
    rw [flowfiles, hq]
    exact PrioritizedQueue.perm_flowfiles_push s.view s.conn.queue x
  refine ⟨hq ▸ h.within.push hroom x, ?_, hperm.trans (h.kept.append_right _)⟩
  show conn.totalBytes = _
  rw [hbytes, h.bytes, bytesOf_perm hperm, bytesOf_append, bytesOf_cons]
  simp [bytesOf]

theorem foldl_put (view : α → FlowFile) (xs : List α) (conn : Connection α) (hs : conn.queue.Sound)
    (hroom : xs ≠ [] → (conn.flowfiles.length + xs.length : Int) ≤ conn.queue.maxSize) :
    xs.foldl (fun conn x => { conn with queue := (conn.queue.put view x).2 }) conn =
        { conn with queue := conn.queue.pushAll view xs } ∧
      (conn.queue.pushAll view xs).flowfiles ~ conn.flowfiles ++ xs := by
  induction xs generalizing conn with
  | nil =>
    rw [List.append_nil]
    exact ⟨rfl, .refl _⟩
  | cons x xs ih =>
    have hroom := hroom (List.cons_ne_nil _ _)
    have hlen : conn.queue.flowfiles.length = conn.flowfiles.length := rfl
    rw [List.length_cons] at hroom
    have hput : conn.queue.put view x = (true, conn.queue.push view x) := by
      have hsize := hs.size
      rw [PrioritizedQueue.put, if_neg]
      rw [PrioritizedQueue.isFull, decide_eq_true_eq]
      omega
    have hperm := PrioritizedQueue.perm_flowfiles_push view conn.queue x
    obtain ⟨hfold, hq⟩ := ih { conn with queue := conn.queue.push view x } (hs.push x) (fun _ => by
      show ((conn.queue.push view x).flowfiles.length + xs.length : Int) ≤
        (conn.queue.push view x).maxSize
      rw [hperm.length_eq, PrioritizedQueue.maxSize_push, List.length_append,
        List.length_singleton]
      omega)
    rw [List.foldl_cons, hput]
    refine ⟨hfold, hq.trans ?_⟩
    have happend := hperm.append_right xs
    rwa [List.append_assoc] at happend

variable [DecidableEq α]

/-- `x` leaves the ledger when it was removed. -/
def settle (s : Books α) (x : α) (done : Bool × Connection α) : Books α :=
  { s with conn := done.2, ledger := if done.1 then s.ledger.erase x else s.ledger }

def step (s : Books α) : Act α → Option (Books α)
  | .enqueue x now =>
    let (accepted, conn) := s.conn.enqueue s.view now x
    some { s with conn, ledger := if accepted then s.ledger ++ [x] else s.ledger }
  | .dequeue =>
    match s.conn.dequeue s.view with
    | (none, conn) => some { s with conn }
    | (some x, conn) => some { s with conn, ledger := s.ledger.erase x }
  | .requeue x => some { s with conn := s.conn.requeue s.view x, ledger := s.ledger ++ [x] }
  | .remove x => some (s.settle x (s.conn.remove s.view x))
  | .removeByIndex index =>
    match s.conn.addressed index, s.conn.removeByIndex s.view index with
    | some (some x), some done => some (s.settle x done)
    | _, some done => some { s with conn := done.2 }
    | _, none => some s
  | .removeByProcessId processId =>
    match s.conn.getFlowfile s.view processId with
    | some x => some (s.settle x (s.conn.removeByProcessId s.view processId))
    | none => some { s with conn := (s.conn.removeByProcessId s.view processId).2 }
  | .drainExpired now => (s.conn.drainExpired s.view now).map fun d =>
    { view := d.view, conn := d.conn, ledger := s.ledger.diff d.expired }
  | .pause => some { s with conn := s.conn.pause }
  | .resume => some { s with conn := s.conn.resume }
  | .clear => some { s with conn := s.conn.clear, ledger := [] }
  | .edit view =>
    if ∀ x ∈ s.conn.flowfiles, (view x).size = (s.view x).size then some { s with view } else none

/-- `requeue` finds room. -/
def HasRoom (s : Books α) : Act α → Prop
  | .requeue _ => s.conn.queue.isFull = false
  | _ => True

/-! ### What the operations do -/

variable {queue : PrioritizedQueue α}

theorem Inv.release (h : Inv s) {x : α}
    (hq : PrioritizedQueue.TakenOut s.conn.queue queue x) :
    Inv { s with conn := s.conn.release s.view queue x, ledger := s.ledger.erase x } := by
  have hperm : s.conn.flowfiles ~ x :: queue.flowfiles := hq.perm
  refine ⟨hq.within h.within, ?_, ?_⟩
  · show s.conn.totalBytes - (s.view x).size = bytesOf s.view queue.flowfiles
    rw [h.bytes, bytesOf_perm hperm, bytesOf_cons]
    omega
  · show queue.flowfiles ~ s.ledger.erase x
    have herase := (hperm.symm.trans h.kept).erase x
    rwa [List.erase_cons_head] at herase

theorem Inv.settle (h : Inv s) (x : α) : Inv (s.settle x (s.conn.remove s.view x)) := by
  unfold Books.settle Connection.remove
  rcases h.within.toSound.remove x with ⟨-, hno⟩ | ⟨q', hyes, hq⟩
  · rw [hno]
    exact h
  · rw [hyes]
    exact h.release hq

/-! ### Draining -/

@[simp] theorem queue_take (now : Int) (d : Drain α) (x : α) (queue : PrioritizedQueue α) :
    (d.take now x queue).conn.queue = queue := by
  unfold Drain.take
  dsimp only
  split_ifs <;> rfl

theorem loop_spec (now : Int) {P : Drain α → Prop} (hsound : ∀ d, P d → d.conn.queue.Sound)
    (hround : ∀ d x queue, P d → d.conn.queue.get d.view = (some x, queue) →
      P (d.take now x queue)) {fuel : Nat} {d : Drain α} (h : P d)
    (hfuel : d.conn.flowfiles.length ≤ fuel) :
    ∃ d', Drain.loop now fuel d = some d' ∧ P d' ∧ d'.conn.flowfiles = [] := by
  induction fuel generalizing d with
  | zero =>
    have hnil : d.conn.flowfiles = [] := List.eq_nil_of_length_eq_zero (by omega)
    refine ⟨d, ?_, h, hnil⟩
    rw [Drain.loop, if_pos ((hsound d h).isEmpty_iff.mpr hnil)]
  | succ fuel ih =>
    rw [Drain.loop]
    split_ifs with hempty
    · exact ⟨d, rfl, h, (hsound d h).isEmpty_iff.mp hempty⟩
    · rcases (hsound d h).get d.view with ⟨hnil, -⟩ | ⟨x, queue, hget, hq⟩
      · exact absurd ((hsound d h).isEmpty_iff.mpr hnil) hempty
      · dsimp only
        rw [hget]
        refine ih (hround d x queue h hget) ?_
        have hlen : d.conn.flowfiles.length = queue.flowfiles.length + 1 := hq.perm.length_eq
        rw [flowfiles, queue_take]
        omega

/-- What the loop keeps of the books. -/
structure Draining (s : Books α) (d : Drain α) : Prop where
  sound : d.conn.queue.Sound
  maxSize : d.conn.queue.maxSize = s.conn.queue.maxSize
  sizes : ∀ x, (d.view x).size = (s.view x).size
  bytes : d.conn.totalBytes = bytesOf s.view (d.remaining ++ d.conn.flowfiles)
  kept : d.expired ++ (d.remaining ++ d.conn.flowfiles) ~ s.ledger

theorem Draining.take {d : Drain α} (h : Draining s d) {x : α}
    (hq : PrioritizedQueue.TakenOut d.conn.queue queue x) (now : Int) :
    Draining s (d.take now x queue) := by
  have hperm : d.conn.flowfiles ~ x :: queue.flowfiles := hq.perm
  have hbytes : d.conn.totalBytes =
      bytesOf s.view d.remaining + ((s.view x).size + bytesOf s.view queue.flowfiles) := by
    rw [h.bytes, bytesOf_append, bytesOf_perm hperm, bytesOf_cons]
  have hkept : d.expired ++ (d.remaining ++ x :: queue.flowfiles) ~ s.ledger :=
    ((hperm.symm.append_left _).append_left _).trans h.kept
  unfold Drain.take
  dsimp only
  split_ifs
  · refine ⟨hq.sound, hq.kind.maxSize.trans h.maxSize, fun y => ?_, ?_, ?_⟩
    · show (Function.update d.view x _ y).size = (s.view y).size
      by_cases hy : y = x
      · subst hy
        rw [Function.update_self]
        exact h.sizes y
      · rw [Function.update_of_ne hy]
        exact h.sizes y
    · show d.conn.totalBytes - (d.view x).size = bytesOf s.view (d.remaining ++ queue.flowfiles)
      rw [hbytes, h.sizes, bytesOf_append]
      omega
    · show d.expired ++ [x] ++ (d.remaining ++ queue.flowfiles) ~ s.ledger
      have hmiddle : x :: (d.remaining ++ queue.flowfiles) ~ d.remaining ++ x :: queue.flowfiles :=
        List.perm_middle.symm
      rw [List.append_assoc]
      exact (hmiddle.append_left _).trans hkept
  · refine ⟨hq.sound, hq.kind.maxSize.trans h.maxSize, h.sizes, ?_, ?_⟩
    · show d.conn.totalBytes = bytesOf s.view (d.remaining ++ [x] ++ queue.flowfiles)
      rw [hbytes, bytesOf_append, bytesOf_append]
      simp [bytesOf, add_assoc]
    · show d.expired ++ (d.remaining ++ [x] ++ queue.flowfiles) ~ s.ledger
      rw [List.append_assoc]
      exact hkept

theorem Inv.drain (h : Inv s) (now : Int) :
    ∃ d, s.conn.drainExpired s.view now = some d ∧
      Inv { view := d.view, conn := d.conn, ledger := s.ledger.diff d.expired } := by
  unfold drainExpired
  split_ifs with httl
  · exact ⟨_, rfl, h⟩
  · have hfuel : s.conn.flowfiles.length ≤ s.conn.queue.size.toNat := by
      rw [h.within.size]
      exact Nat.le_refl _
    obtain ⟨d, hloop, hd, hnil⟩ := loop_spec now (P := Draining s) (d := { view := s.view, conn := s.conn })
      (fun d h => h.sound) (fun d x queue hd hget => by
        rcases hd.sound.get d.view with ⟨-, hnone⟩ | ⟨y, q', hsome, hq⟩
        · rw [hnone] at hget
          cases hget
        · rw [hsome] at hget
          cases hget
          exact hd.take hq now)
      ⟨h.within.toSound, rfl, fun _ => rfl, h.bytes, h.kept⟩ hfuel
    have hkept : d.expired ++ d.remaining ~ s.ledger := by
      have hkept := hd.kept
      rwa [hnil, List.append_nil] at hkept
    have hroom : d.remaining ≠ [] →
        (d.conn.flowfiles.length + d.remaining.length : Int) ≤ d.conn.queue.maxSize := by
      intro hne
      have hlen := hkept.length_eq
      have hlen' := h.kept.length_eq
      have hpos := List.length_pos_iff.mpr hne
      rw [List.length_append] at hlen
      have hfits := h.within.fits (List.ne_nil_of_length_pos (show 0 < s.conn.flowfiles.length by omega))
      have hlen'' : s.conn.queue.flowfiles.length = s.conn.flowfiles.length := rfl
      rw [hnil, hd.maxSize, List.length_nil]
      omega
    obtain ⟨hfold, hq⟩ := foldl_put d.view d.remaining d.conn hd.sound hroom
    rw [hnil, List.nil_append] at hq
    rw [hloop]
    refine ⟨d.refill, rfl, ?_⟩
    have hconn : d.refill.conn = { d.conn with queue := d.conn.queue.pushAll d.view d.remaining } :=
      hfold
    have hflow : d.refill.conn.flowfiles ~ d.remaining := by
      rw [hconn]
      exact hq
    refine ⟨⟨?_, fun hne => ?_⟩, ?_, ?_⟩
    · rw [hconn]
      exact hd.sound.pushAll d.remaining
    · have hne : d.remaining ≠ [] := fun hnil' => hne (by
        rw [hnil'] at hflow
        exact hflow.eq_nil)
      have hroom := hroom hne
      rw [hnil, List.length_nil] at hroom
      show (d.refill.conn.flowfiles.length : Int) ≤ d.refill.conn.queue.maxSize
      rw [hflow.length_eq, hconn]
      show _ ≤ (d.conn.queue.pushAll d.view d.remaining).maxSize
      rw [(PrioritizedQueue.sameKind_pushAll d.view d.remaining).maxSize]
      omega
    · have hbytes := hd.bytes
      rw [hnil, List.append_nil] at hbytes
      show d.refill.conn.totalBytes = bytesOf d.view d.refill.conn.flowfiles
      rw [bytesOf_perm hflow, bytesOf_congr fun x _ => hd.sizes x, ← hbytes, hconn]
    · have hdiff : s.ledger.diff d.expired ~ d.remaining := by
        refine (hkept.symm.diff_right d.expired).trans ?_
        rw [List.perm_iff_count]
        intro x
        rw [List.count_diff, List.count_append]
        omega
      exact hflow.trans hdiff.symm

/-! ### Runs -/

theorem Inv.enqueue (h : Inv s) (x : α) (now : Int) {s' : Books α}
    (hs : s.step (.enqueue x now) = some s') : Inv s' := by
  obtain rfl := Option.some.inj hs
  have hfst : (s.conn.enqueue s.view now x).1 = s.conn.admits (s.view x).size := enqueue_fst x
  show Inv { s with
    conn := (s.conn.enqueue s.view now x).2
    ledger := if (s.conn.enqueue s.view now x).1 then s.ledger ++ [x] else s.ledger }
  rw [hfst]
  cases hadmits : s.conn.admits (s.view x).size with
  | false =>
    rw [enqueue_refused hadmits]
    exact h
  | true =>
    obtain ⟨hqueue, hbytes⟩ : (s.conn.enqueue s.view now x).2.queue = s.conn.queue.push s.view x ∧
        (s.conn.enqueue s.view now x).2.totalBytes = s.conn.totalBytes + (s.view x).size :=
      enqueue_admitted hadmits
    have hroom : s.conn.queue.isFull = false := by
      simpa [admits] using And.right (show _ ∧ _ by simpa [admits] using hadmits)
    exact h.push x hqueue hbytes hroom

theorem Inv.dequeue (h : Inv s) {s' : Books α} (hs : s.step .dequeue = some s') : Inv s' := by
  simp only [step, Connection.dequeue] at hs
  by_cases hpaused : s.conn.paused = true
  · rw [if_pos hpaused] at hs
    exact Option.some.inj hs ▸ h
  · rw [if_neg hpaused] at hs
    rcases h.within.toSound.get s.view with ⟨-, hget⟩ | ⟨x, q', hget, hq⟩
    · rw [hget] at hs
      exact Option.some.inj hs ▸ h
    · rw [hget] at hs
      exact Option.some.inj hs ▸ h.release hq

theorem Inv.removeByIndex (h : Inv s) (index : Int) {s' : Books α}
    (hs : s.step (.removeByIndex index) = some s') : Inv s' := by
  simp only [step, Connection.removeByIndex] at hs
  rcases haddressed : s.conn.addressed index with _ | _ | x
  · rw [haddressed] at hs
    exact Option.some.inj hs ▸ h
  · rw [haddressed] at hs
    exact Option.some.inj hs ▸ h
  · rw [haddressed] at hs
    exact Option.some.inj hs ▸ h.settle x

theorem Inv.removeByProcessId (h : Inv s) (processId : String) {s' : Books α}
    (hs : s.step (.removeByProcessId processId) = some s') : Inv s' := by
  simp only [step, Connection.removeByProcessId] at hs
  rcases hfound : s.conn.getFlowfile s.view processId with _ | x
  · rw [hfound] at hs
    exact Option.some.inj hs ▸ h
  · rw [hfound] at hs
    exact Option.some.inj hs ▸ h.settle x

theorem step_inv {a : Act α} (h : Inv s) (hroom : HasRoom s a) {s' : Books α}
    (hs : s.step a = some s') : Inv s' := by
  cases a with
  | enqueue x now => exact h.enqueue x now hs
  | dequeue => exact h.dequeue hs
  | requeue x =>
    have hfull : s.conn.queue.isFull = false := hroom
    obtain rfl := Option.some.inj hs
    refine h.push x ?_ rfl hfull
    show (s.conn.queue.put s.view x).2 = _
    rw [PrioritizedQueue.put, hfull]
    rfl
  | remove x => exact Option.some.inj hs ▸ h.settle x
  | removeByIndex index => exact h.removeByIndex index hs
  | removeByProcessId processId => exact h.removeByProcessId processId hs
  | drainExpired now =>
    obtain ⟨d, hd, hinv⟩ := h.drain now
    simp only [step, hd, Option.map_some] at hs
    exact Option.some.inj hs ▸ hinv
  | pause | resume => exact Option.some.inj hs ▸ ⟨h.within, h.bytes, h.kept⟩
  | clear =>
    obtain rfl := Option.some.inj hs
    obtain ⟨-, hsound, hnil⟩ := h.within.toSound.clear
    have hnil : s.conn.clear.flowfiles = [] := hnil
    refine ⟨⟨hsound, fun hne => absurd hnil hne⟩, ?_, ?_⟩
    · show 0 = bytesOf s.view s.conn.clear.flowfiles
      rw [hnil]
      rfl
    · show s.conn.clear.flowfiles ~ []
      rw [hnil]
  | edit view =>
    simp only [step] at hs
    split_ifs at hs with hview
    obtain rfl := Option.some.inj hs
    exact ⟨h.within, h.bytes.trans (bytesOf_congr hview).symm, h.kept⟩

theorem Inv.not_accounted {a : Act α} (h : Inv s) (hroom : ¬ HasRoom s a) {s' : Books α}
    (hs : s.step a = some s') : ¬ Accounted s' := by
  cases a with
  | requeue x =>
    have hfull : s.conn.queue.isFull = true := by simpa [HasRoom] using hroom
    obtain rfl := Option.some.inj hs
    intro hbooks
    have hqueue : (s.conn.requeue s.view x).flowfiles = s.conn.flowfiles := by
      show (s.conn.queue.put s.view x).2.flowfiles = _
      rw [PrioritizedQueue.put, if_pos hfull]
      rfl
    have hlen := hbooks.kept.length_eq
    have hlen' := h.kept.length_eq
    have hledger : (s.ledger ++ [x]).length = s.ledger.length + 1 := List.length_append
    rw [hqueue] at hlen
    have hlen : s.conn.flowfiles.length = (s.ledger ++ [x]).length := hlen
    omega
  | enqueue | dequeue | remove | removeByIndex | removeByProcessId | drainExpired | pause | resume
  | clear | edit => exact absurd trivial hroom

omit [DecidableEq α] in
theorem inv_new (view : α → FlowFile) (sourceId targetId relationship : String)
    (maxQueueBytes ttl maxSize : Int) (type : PrioritizerType) (key : String) :
    Inv (new view sourceId targetId relationship maxQueueBytes ttl maxSize type key) := by
  have hnil : (new view sourceId targetId relationship maxQueueBytes ttl maxSize type
      key).conn.flowfiles = [] := by
    cases type <;> rfl
  refine ⟨⟨⟨List.nodup_nil, ?_⟩, fun hne => absurd hnil hne⟩, ?_, ?_⟩
  · cases type <;> rfl
  · rw [hnil]
    rfl
  · rw [hnil]
    exact .refl _

/-- The accounts of a connection are right throughout a run exactly if every `requeue` finds
room. -/
theorem accounted_iff_hasRoom (view : α → FlowFile) (sourceId targetId relationship : String)
    (maxQueueBytes ttl maxSize : Int) (type : PrioritizerType) (key : String) (acts : List (Act α)) :
    AllStates step Accounted
        (new view sourceId targetId relationship maxQueueBytes ttl maxSize type key) acts ↔
      AllSteps step HasRoom
        (new view sourceId targetId relationship maxQueueBytes ttl maxSize type key) acts := by
  refine allStates_iff_allSteps Inv (fun s h => h.accounted) ?_ ?_ (inv_new ..)
    (allSteps_of_forall fun _ _ => (trivial : True))
  · intro s a t h _ hroom hs
    exact step_inv h hroom hs
  · intro s a t h _ hroom hs
    exact h.not_accounted hroom hs

/-- One place; the FlowFile that was taken finds it taken. -/
def fullRun : List (Act Nat) := [.enqueue 0 0, .dequeue, .enqueue 1 0, .requeue 0]

theorem not_accounted_fullRun :
    ¬ AllStates step Accounted
      (new (fun n => { processId := toString n, content := [0] }) "a" "b" "success" 1000 0 1
        .priorityAttribute "priority") fullRun := by
  intro h
  have hrun : (fullRun.foldlM step
      (new (fun n => { processId := toString n, content := [0] }) "a" "b" "success" 1000 0 1
        .priorityAttribute "priority")).any fun s =>
      s.conn.flowfiles.length = 1 ∧ s.ledger.length = 2 ∧ s.conn.totalBytes = 2 := by
    decide +kernel
  obtain ⟨s, hs, hlost⟩ := (Option.any_eq_true _ _).mp hrun
  have hlen := (h.last hs).kept.length_eq
  have hlost := of_decide_eq_true hlost
  omega

end Books

end Connection

end PawFlow.Core
