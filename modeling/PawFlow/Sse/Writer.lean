import PawFlow.Sse.Events

/-!
# The queue of a subscriber

`SSEWriter` keeps the events of one subscriber in a bounded queue. What `send` has accepted is for
`drain_nowait` to return if nobody has read it: the replay buffer counts it as delivered. Closing
a full queue makes room for the sentinel by dropping the oldest event.
-/

namespace PawFlow.Sse

open PawFlow.Lib

/-- `SSEWriter`; the sentinel in the queue is `none`. -/
structure SSEWriter where
  maxQueue : { n : Nat // 0 < n }
  queue : List (Option SSEEvent) := []
  closed : Bool := false
  overflowed : Bool := false

namespace SSEWriter

variable (w : SSEWriter)

/-- `max(1, int(max_queue or 1000))`. -/
def new (maxQueue : Option Int) : SSEWriter :=
  let n := (maxQueue.getD 0).toNat
  { maxQueue := if maxQueue.getD 0 = 0 then ⟨1000, by decide⟩ else ⟨max 1 n, by omega⟩ }

/-- `put_nowait` finds room. -/
def HasRoom : Prop := w.queue.length < w.maxQueue

instance : Decidable w.HasRoom := inferInstanceAs (Decidable (_ < _))

def close : SSEWriter :=
  if w.closed then w
  else if w.HasRoom then { w with closed := true, queue := w.queue ++ [none] }
  else { w with closed := true, queue := w.queue.tail ++ [none] }

def send (e : SSEEvent) : Bool × SSEWriter :=
  if w.closed then (false, w)
  else if w.HasRoom then (true, { w with queue := w.queue ++ [some e] })
  else (false, close { w with overflowed := true })

/-- The events before the sentinel, and what is left behind it. -/
def beforeSentinel : List (Option SSEEvent) → List SSEEvent × List (Option SSEEvent)
  | [] => ([], [])
  | none :: q => ([], q)
  | some e :: q => (e :: (beforeSentinel q).1, (beforeSentinel q).2)

/-- The events `drain_nowait` encodes. -/
def drainNowait : List SSEEvent × SSEWriter :=
  ((beforeSentinel w.queue).1, { w with queue := (beforeSentinel w.queue).2 })

/-- One turn of `iterate`: the event it yields, none at the sentinel or an empty queue. -/
def next : Option SSEEvent × SSEWriter := (w.queue.head?.join, { w with queue := w.queue.tail })

end SSEWriter

/-! ## Runs -/

inductive Op where
  | send (e : SSEEvent)
  | close
  | next
  | drain

/-- A writer with the events `send` has accepted and those that have been read. -/
structure Watched where
  writer : SSEWriter
  accepted : List SSEEvent := []
  read : List SSEEvent := []

namespace Watched

variable (s : Watched)

def step : Op → Watched
  | .send e =>
    { s with
      writer := (s.writer.send e).2
      accepted := if (s.writer.send e).1 then s.accepted ++ [e] else s.accepted }
  | .close => { s with writer := s.writer.close }
  | .next => { s with writer := s.writer.next.2, read := s.read ++ s.writer.next.1.toList }
  | .drain =>
    { s with
      writer := s.writer.drainNowait.2
      read := s.read ++ s.writer.drainNowait.1 }

def run (ops : List Op) : Watched := ops.foldl step s

/-- What a drain returns now is what has been accepted and not been read, in order. -/
def DrainsPending : Prop := s.read ++ s.writer.drainNowait.1 = s.accepted

/-- The step does not close an open writer whose queue is full. -/
def Guarded : Op → Prop
  | .send _ | .close => s.writer.closed ∨ s.writer.HasRoom
  | .next | .drain => True

instance : DecidablePred s.Guarded := fun op =>
  match op with
  | .send _ | .close => inferInstanceAs (Decidable (_ ∨ _))
  | .next | .drain => inferInstanceAs (Decidable True)

def AllGuarded : Watched → List Op → Prop
  | _, [] => True
  | s, op :: ops => s.Guarded op ∧ AllGuarded (s.step op) ops

/-- The queue holds events, and behind them the sentinel of a closed writer; `lost` events have
been dropped, and if none has, the others are the pending ones. -/
structure Holds (lost : Nat) : Prop where
  queue : ∃ pending, (s.writer.queue = pending.map some ∨
      s.writer.closed ∧ s.writer.queue = pending.map some ++ [none]) ∧
    s.read.length + pending.length + lost = s.accepted.length ∧
    (lost = 0 → s.read ++ pending = s.accepted)

end Watched

theorem SSEWriter.beforeSentinel_events (pending : List SSEEvent) :
    beforeSentinel (pending.map some) = (pending, []) := by
  induction pending with
  | nil => rfl
  | cons e pending ih => rw [List.map_cons, beforeSentinel, ih]

theorem SSEWriter.beforeSentinel_sentinel (pending : List SSEEvent) :
    beforeSentinel (pending.map some ++ [none]) = (pending, []) := by
  induction pending with
  | nil => rfl
  | cons e pending ih => rw [List.map_cons, List.cons_append, beforeSentinel, ih]

namespace Watched

variable {s : Watched} {lost : Nat}

theorem Holds.drainNowait (h : s.Holds lost) :
    ∃ pending, s.writer.drainNowait = (pending, { s.writer with queue := [] }) ∧
      s.read.length + pending.length + lost = s.accepted.length ∧
      (lost = 0 → s.read ++ pending = s.accepted) := by
  obtain ⟨pending, hqueue, hcount, horder⟩ := h.queue
  refine ⟨pending, ?_, hcount, horder⟩
  unfold SSEWriter.drainNowait
  rcases hqueue with hqueue | ⟨-, hqueue⟩
  · rw [hqueue, SSEWriter.beforeSentinel_events]
  · rw [hqueue, SSEWriter.beforeSentinel_sentinel]

/-- A drain returns the pending events exactly if none has been lost. -/
theorem Holds.drainsPending_iff (h : s.Holds lost) : s.DrainsPending ↔ lost = 0 := by
  obtain ⟨pending, hdrain, hcount, horder⟩ := h.drainNowait
  unfold DrainsPending
  rw [hdrain]
  constructor
  · intro heq
    have hlength : (s.read ++ pending).length = s.accepted.length := congrArg List.length heq
    rw [List.length_append] at hlength
    omega
  · exact horder

/-- Closing a full queue drops an event. -/
theorem Holds.close (h : s.Holds lost) : Holds { s with writer := s.writer.close }
      (if s.writer.closed ∨ s.writer.HasRoom then lost else lost + 1) := by
  obtain ⟨pending, hqueue, hcount, horder⟩ := h.queue
  unfold SSEWriter.close
  by_cases hclosed : s.writer.closed
  · have hguarded : s.writer.closed ∨ s.writer.HasRoom := .inl hclosed
    rw [if_pos hguarded, if_pos hclosed]
    exact h
  have hopen : s.writer.queue = pending.map some := hqueue.resolve_right fun h => hclosed h.1
  rw [if_neg hclosed]
  by_cases hroom : s.writer.HasRoom
  · have hguarded : s.writer.closed ∨ s.writer.HasRoom := .inr hroom
    rw [if_pos hguarded, if_pos hroom]
    exact ⟨pending, .inr ⟨rfl, by rw [hopen]⟩, hcount, horder⟩
  · have hguarded : ¬ (s.writer.closed ∨ s.writer.HasRoom) := not_or.mpr ⟨hclosed, hroom⟩
    rw [if_neg hguarded, if_neg hroom]
    cases pending with
    | nil =>
      rw [SSEWriter.HasRoom, hopen] at hroom
      exact absurd s.writer.maxQueue.property hroom
    | cons e pending =>
      refine ⟨pending, .inr ⟨rfl, by rw [hopen]; rfl⟩, ?_, by omega⟩
      rw [List.length_cons] at hcount
      show s.read.length + pending.length + (lost + 1) = s.accepted.length
      omega

theorem Holds.next (h : s.Holds lost) : (s.step .next).Holds lost := by
  obtain ⟨pending, hqueue, hcount, horder⟩ := h.queue
  cases pending with
  | nil =>
    refine ⟨[], .inl ?_, ?_, ?_⟩
    · rcases hqueue with hqueue | ⟨-, hqueue⟩ <;> simp [step, SSEWriter.next, hqueue]
    · rcases hqueue with hqueue | ⟨-, hqueue⟩ <;> simpa [step, SSEWriter.next, hqueue] using hcount
    · rcases hqueue with hqueue | ⟨-, hqueue⟩ <;> simpa [step, SSEWriter.next, hqueue] using horder
  | cons e pending =>
    have hhead : s.writer.queue.head?.join = some e := by
      rcases hqueue with hqueue | ⟨-, hqueue⟩ <;> simp [hqueue]
    have hread : (s.step .next).read = s.read ++ [e] := by simp [step, SSEWriter.next, hhead]
    refine ⟨pending, ?_, ?_, fun hlost => ?_⟩
    · rcases hqueue with hqueue | ⟨hclosed, hqueue⟩
      · exact .inl (by simp [step, SSEWriter.next, hqueue])
      · exact .inr ⟨hclosed, by simp [step, SSEWriter.next, hqueue]⟩
    · rw [hread]
      simp only [List.length_append, List.length_cons, List.length_nil] at hcount ⊢
      exact Eq.trans (by omega) hcount
    · rw [hread, List.append_assoc]
      exact horder hlost

/-- A step loses an event exactly if it is not guarded. -/
theorem Holds.step (h : s.Holds lost) (op : Op) :
    (s.step op).Holds (if s.Guarded op then lost else lost + 1) := by
  cases op with
  | send e =>
    by_cases hclosed : s.writer.closed
    · have hguarded : s.Guarded (.send e) := .inl hclosed
      rw [if_pos hguarded]
      simpa [Watched.step, SSEWriter.send, hclosed] using h
    by_cases hroom : s.writer.HasRoom
    · have hguarded : s.Guarded (.send e) := .inr hroom
      obtain ⟨pending, hqueue, hcount, horder⟩ := h.queue
      have hopen := hqueue.resolve_right fun h => hclosed h.1
      rw [if_pos hguarded]
      refine ⟨pending ++ [e], .inl ?_, ?_, fun hlost => ?_⟩
      · simp [Watched.step, SSEWriter.send, hclosed, hroom, hopen]
      · simp only [Watched.step, SSEWriter.send, hclosed, hroom, if_true, if_false,
          List.length_append, Bool.false_eq_true]
        omega
      · simp [Watched.step, SSEWriter.send, hclosed, hroom, ← horder hlost]
    · have hfull : Holds { s with writer := { s.writer with overflowed := true } } lost := ⟨h.queue⟩
      have hsend : s.step (.send e) =
          { s with writer := SSEWriter.close { s.writer with overflowed := true } } := by
        simp [Watched.step, SSEWriter.send, hclosed, hroom]
      rw [hsend]
      exact hfull.close
  | close => exact h.close
  | next => exact h.next
  | drain =>
    obtain ⟨pending, hdrain, hcount, horder⟩ := h.drainNowait
    have hstep : s.step .drain =
        { s with writer := { s.writer with queue := [] }, read := s.read ++ pending } := by
      rw [Watched.step, hdrain]
    have hguarded : s.Guarded .drain := trivial
    rw [hstep, if_pos hguarded]
    refine ⟨[], .inl rfl, ?_, fun hlost => ?_⟩
    · rw [List.length_append]
      exact hcount
    · rw [List.append_nil]
      exact horder hlost

theorem Holds.run (h : s.Holds lost) (ops : List Op) :
    ∃ lost', (s.run ops).Holds lost' ∧ lost ≤ lost' ∧ (lost' = lost ↔ s.AllGuarded ops) := by
  induction ops generalizing s lost with
  | nil => exact ⟨lost, h, le_rfl, by simp [AllGuarded]⟩
  | cons op ops ih =>
    obtain ⟨lost', hholds, hle, hiff⟩ := ih (h.step op)
    by_cases hguarded : s.Guarded op
    · rw [if_pos hguarded] at hle hiff
      exact ⟨lost', hholds, hle, by simpa [AllGuarded, hguarded] using hiff⟩
    · rw [if_neg hguarded] at hle
      refine ⟨lost', hholds, by omega, ?_⟩
      simp only [AllGuarded, hguarded, false_and, iff_false]
      omega

theorem holds_new (maxQueue : Option Int) : Holds { writer := .new maxQueue } 0 :=
  ⟨[], .inl rfl, rfl, fun _ => rfl⟩

/-- Streams of nameable events parse back and every drain returns what is pending, exactly if the
events can be told apart and no step closes a full queue. -/
theorem streams_kept {events : List SSEEvent} (hnames : ∀ e ∈ events, e.Nameable)
    (maxQueue : Option Int) (ops : List Op) :
    (parse (events.flatMap SSEEvent.encode) = some (events.map SSEEvent.message) ∧
        (run { writer := .new maxQueue } ops).DrainsPending) ↔
      Framed [] events ∧ AllGuarded { writer := .new maxQueue } ops := by
  obtain ⟨lost, hholds, -, hiff⟩ := (holds_new maxQueue).run ops
  rw [parse_eq_iff hnames, hholds.drainsPending_iff, hiff]

/-- A token of an answer. -/
def token (text : String) : SSEEvent := { event := "token", data := .text text, id := some "1" }

theorem nameable_token (text : String) : (token text).Nameable := by
  constructor <;> simp [token, SSEEvent.idChars, isLineEnd]

/-- A text of two lines is read back, and so is the queue. -/
theorem streams_kept_token :
    parse ([token "a\nb"].flatMap SSEEvent.encode) = some ([token "a\nb"].map SSEEvent.message) ∧
      (run { writer := .new (some 1) } [.send (token "a\nb")]).DrainsPending := by
  refine (streams_kept ?_ (some 1) [.send (token "a\nb")]).mpr ⟨⟨⟨?_, ?_, ?_, ?_⟩, trivial⟩, ?_⟩
  · intro e he
    rw [List.mem_singleton.mp he]
    exact nameable_token _
  · decide
  · decide
  · decide
  · intro s hs
    obtain rfl := Data.text.inj hs
    decide
  · exact ⟨.inr (by decide), trivial⟩

/-- A CR in a text ends the data line, and the event that finds the queue full takes the one before
it away. -/
theorem streams_lost :
    parse ([token "a\rb"].flatMap SSEEvent.encode) ≠ some ([token "a\rb"].map SSEEvent.message) ∧
      ¬ (run { writer := .new (some 1) } [.send (token "a"), .send (token "b")]).DrainsPending := by
  constructor
  · rw [Ne, parse_eq_iff fun e he => List.mem_singleton.mp he ▸ nameable_token _]
    intro h
    exact h.1.noReturn "a\rb" rfl (by decide)
  · intro h
    exact absurd (congrArg List.length h) (by decide)

end Watched

end PawFlow.Sse
