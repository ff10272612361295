import PawFlow.Lib.PyDict
import PawFlow.Lib.PyString
import PawFlow.Lib.Runs

/-!
# Delivery of conversation events

`ConversationEventBus` of `core/conversation_event_bus.py`, for one conversation and one publisher.
An event is its number in the order of publication. A publication picks the writers under the lock,
sends to them one after the other without it, and takes the lock again to put away those that
refused. A subscriber is registered under the lock and gets the replay without it.

The queue of a writer is unbounded here: no writer overflows.
-/

namespace PawFlow.EventBus

open PawFlow.Lib

/-! ## Writers and the bus -/

/-- An `SSEWriter` and the `subscribe` call that made it. -/
structure Writer where
  closed : Bool := false
  /-- The subscription was given up by `unsubscribe`. -/
  left : Bool := false
  /-- What `send` accepted, oldest first. -/
  received : List Nat := []
  replay : Bool
  /-- The buffered events the call took, and the part of them still to be sent. -/
  taken : List Nat
  pending : List Nat
  /-- How many events were published before the call. -/
  since : Nat
deriving DecidableEq

/-- A publication between its two critical sections. -/
structure Flight where
  event : Nat
  writers : List Nat
  todo : List Nat
  dead : List Nat
deriving DecidableEq

structure State where
  writers : Nat → Option Writer := fun _ => none
  /-- `_subscribers`. -/
  subs : List Nat := []
  /-- `_clients`. -/
  clients : PyDict String Nat := []
  /-- `_buffer`, with the time of each entry. -/
  buffer : List (Int × Nat) := []
  flight : Option Flight := none
  /-- The number of events published so far. -/
  count : Nat := 0

def maxBuffer : Nat := 200

def bufferTtl : Int := 60

namespace Writer

/-- A live subscriber. -/
def Live (x : Writer) : Prop := x.closed = false ∧ x.left = false

def send (x : Writer) (k : Nat) : Writer :=
  if x.closed then x else { x with received := x.received ++ [k] }

/-- What the writer has to get once `count` events are published: the replay, then every event from
its registration on. -/
def due (x : Writer) (count : Nat) : List Nat := x.taken ++ List.range' x.since (count - x.since)

end Writer

namespace State

variable (s : State)

def isClosed (w : Nat) : Bool := (s.writers w).elim true Writer.closed

def setWriter (w : Nat) (x : Writer) : State :=
  { s with writers := Function.update s.writers w (some x) }

def closeWriter (w : Nat) : State :=
  { s with
    writers := Function.update s.writers w ((s.writers w).map fun x => { x with closed := true }) }

def leaveWriter (w : Nat) : State :=
  { s with
    writers := Function.update s.writers w ((s.writers w).map fun x => { x with left := true }) }

/-- Writers are taken out of the subscribers, with their client ids. -/
def discard (dead : List Nat) : State :=
  { s with
    subs := s.subs.filter (· ∉ dead)
    clients := s.clients.filter fun i => i.2 ∉ dead }

/-- `_buffer_locked`. -/
def bufferEvent (now : Int) (k : Nat) : State :=
  let buffer := s.buffer ++ [(now, k)]
  { s with buffer := buffer.drop (buffer.length - maxBuffer) }

def freshBuffered (now : Int) : List (Int × Nat) :=
  s.buffer.filter fun row => now - bufferTtl ≤ row.1

/-- `str(client_id or "").strip()[:128]`; the empty one names no client. -/
def clientKey (clientId : String) : Option String :=
  let c := String.ofList ((strip clientId).toList.take 128)
  if c = "" then none else some c

/-- A reconnect of the same client replaces its writer. -/
def claimClient (w : Nat) (clientId : String) : State :=
  match clientKey clientId with
  | none => s
  | some c =>
    let t : State := match s.clients.get? c with
      | none => s
      | some previous =>
        closeWriter { s with subs := s.subs.filter (· ≠ previous) } previous
    { t with clients := t.clients.set c w }

/-- The critical section of `subscribe`. -/
def subscribe (w : Nat) (replay : Bool) (clientId : String) (now : Int) : State :=
  let t := s.claimClient w clientId
  let buffered := t.freshBuffered now
  let taken := if replay then buffered.map Prod.snd else []
  { t with
    subs := t.subs ++ [w]
    buffer := if replay then [] else buffered
    writers := Function.update t.writers w
      (some { replay, taken, pending := taken, since := t.count }) }

/-- The first critical section of `publish`. -/
def publish (now : Int) : State :=
  let t : State := { s.discard (s.subs.filter s.isClosed) with count := s.count + 1 }
  if t.subs = [] then t.bufferEvent now s.count
  else { t with flight := some ⟨s.count, t.subs, t.subs, []⟩ }

/-- One turn of the loop over the writers. -/
def sendTo (f : Flight) (w : Nat) (x : Writer) : State :=
  let dead := if x.closed then f.dead ++ [w] else f.dead
  { s.setWriter w (x.send f.event) with flight := some { f with todo := f.todo.erase w, dead } }

/-- The second critical section; it is entered only when a writer refused. -/
def finish (f : Flight) (now : Int) : State :=
  let t : State := { s with flight := none }
  if f.dead = [] then t
  else
    let t := if t.subs = [] then t else t.discard f.dead
    if f.dead.length = f.writers.length then t.bufferEvent now f.event else t

/-- `_cleanup_expired_buffers`. -/
def sweep (now : Int) : State :=
  { s with
    buffer := match s.buffer.getLast? with
      | some row => if row.1 < now - bufferTtl then [] else s.buffer
      | none => [] }

end State

/-! ## Interleavings -/

inductive Act where
  | subscribe (w : Nat) (replay : Bool) (clientId : String) (now : Int)
  | replayNext (w : Nat)
  | unsubscribe (w : Nat)
  | close (w : Nat)
  | publish (now : Int)
  | send (w : Nat)
  | finish (now : Int)
  | sweep (now : Int)

def step (s : State) : Act → Option State
  | .subscribe w replay clientId now =>
    if (s.writers w).isNone then some (s.subscribe w replay clientId now) else none
  | .replayNext w =>
    (s.writers w).bind fun x => match x.pending with
      | [] => none
      | k :: rest => some (s.setWriter w { x.send k with pending := rest })
  -- The writer is closed by a step of its own, after the lock is released.
  | .unsubscribe w => some ((s.discard [w]).leaveWriter w)
  | .close w => some (s.closeWriter w)
  | .publish now => if s.flight.isNone then some (s.publish now) else none
  | .send w =>
    s.flight.bind fun f => (s.writers w).bind fun x =>
      if w ∈ f.todo then some (s.sendTo f w x) else none
  | .finish now => s.flight.bind fun f => if f.todo = [] then some (s.finish f now) else none
  | .sweep now => some (s.sweep now)

/-- No event is too old for the buffer, and the buffer is not full when an event goes there. -/
def WithinLimits (s : State) : Act → Prop
  | .subscribe _ _ _ now | .sweep now => ∀ row ∈ s.buffer, now - bufferTtl ≤ row.1
  | .publish _ | .finish _ => s.buffer.length < maxBuffer
  | _ => True

instance (s : State) : ∀ a, Decidable (WithinLimits s a)
  | .subscribe _ _ _ now | .sweep now =>
    inferInstanceAs (Decidable (∀ row ∈ s.buffer, now - bufferTtl ≤ row.1))
  | .publish _ | .finish _ => inferInstanceAs (Decidable (s.buffer.length < maxBuffer))
  | .replayNext _ | .unsubscribe _ | .close _ | .send _ => .isTrue trivial

/-- A live event does not overtake the replay of the writer it goes to, and an event that all its
writers refused finds no live subscriber that asked for the replay. -/
def InOrder (s : State) : Act → Prop
  | .send w => ∀ x ∈ s.writers w, x.closed = false → x.pending = []
  | .finish _ => ∀ f ∈ s.flight, f.dead.length = f.writers.length →
      ∀ w, ∀ x ∈ s.writers w, x.Live → x.replay = false
  | _ => True

/-! ## What is promised -/

namespace State

variable (s : State)

/-- The event in flight is still to be sent to the writer. -/
def coming (w : Nat) : List Nat :=
  s.flight.elim [] fun f => if w ∈ f.todo then [f.event] else []

/-- The event is delivered to some writer. -/
def Reached (k : Nat) : Prop := ∃ w, ∃ x ∈ s.writers w, k ∈ x.received

def Buffered (k : Nat) : Prop := k ∈ s.buffer.map Prod.snd

/-- A replaying subscriber took the event out of the buffer. -/
def Taken (k : Nat) : Prop := ∃ w, ∃ x ∈ s.writers w, k ∈ x.taken

end State

/-- Subscribers miss nothing and see events once and in the order of publication. -/
structure Delivered (s : State) : Prop where
  /-- A writer has a part of what it is to get, from the start and without gaps. -/
  received_start : ∀ w, ∀ x ∈ s.writers w, x.received <+: x.due s.count
  /-- As long as it is live, it lacks only what is on its way. -/
  received_all : ∀ w, ∀ x ∈ s.writers w, x.Live →
    x.received ++ x.pending ++ s.coming w = x.due s.count
  due_sorted : ∀ w, ∀ x ∈ s.writers w, (x.due s.count).Pairwise (· < ·)
  /-- What a subscriber took goes to nobody else. -/
  taken_once : ∀ w, ∀ x ∈ s.writers w, ∀ k ∈ x.taken, ¬ s.Buffered k ∧
    ∀ w' ≠ w, ∀ y ∈ s.writers w', k ∉ y.taken ∧ k ∉ y.received
  /-- An event that reached no writer is kept until it is taken. -/
  kept : ∀ k < s.count, k ∉ s.flight.map Flight.event → s.Reached k ∨ s.Buffered k ∨ s.Taken k
  /-- No event waits in the buffer while a subscriber that asked for the replay is there. -/
  none_missed : ∀ w, ∀ x ∈ s.writers w, x.Live → x.replay = true → s.buffer = []

/-! ## The invariant -/

namespace Writer

variable {x : Writer} {coming : List Nat} {count : Nat}

/-- What holds of a writer with these events on their way to it. -/
structure Valid (x : Writer) (coming : List Nat) (count : Nat) : Prop where
  since_le : x.since ≤ count
  taken_lt : ∀ k ∈ x.taken, k < x.since
  taken_sorted : x.taken.Pairwise (· < ·)
  pending_taken : ∀ k ∈ x.pending, k ∈ x.taken
  received_start : x.received <+: x.due count
  open_start : x.closed = false → x.received ++ x.pending ++ coming <+: x.due count

theorem due_succ (h : x.since ≤ count) : x.due (count + 1) = x.due count ++ [count] := by
  have hlen : count + 1 - x.since = (count - x.since) + 1 := by omega
  have hlast : x.since + (count - x.since) = count := by omega
  rw [due, due, hlen, List.range'_1_concat, hlast, List.append_assoc]

theorem due_mono (h : x.since ≤ count) {n : Nat} (hn : count ≤ n) : x.due count <+: x.due n := by
  induction n, hn using Nat.le_induction with
  | base => exact List.prefix_refl _
  | succ n hn ih => exact ih.trans ⟨[n], (due_succ (h.trans hn)).symm⟩

theorem Valid.due_sorted (h : x.Valid coming count) : (x.due count).Pairwise (· < ·) := by
  refine List.pairwise_append.mpr ⟨h.taken_sorted, List.pairwise_lt_range', ?_⟩
  intro i hi k hk
  have := h.taken_lt i hi
  rw [List.mem_range'_1] at hk
  omega

theorem Valid.lt_of_mem_due (h : x.Valid coming count) {k : Nat} (hk : k ∈ x.due count) :
    k < count := by
  rcases List.mem_append.mp hk with hk | hk
  · exact (h.taken_lt k hk).trans_le h.since_le
  · have := h.since_le
    rw [List.mem_range'_1] at hk
    omega

theorem Valid.lt_of_mem_received (h : x.Valid coming count) {k : Nat} (hk : k ∈ x.received) :
    k < count :=
  h.lt_of_mem_due (h.received_start.subset hk)

theorem Valid.mono (h : x.Valid coming count) {n : Nat} (hn : count ≤ n) : x.Valid coming n :=
  ⟨h.since_le.trans hn, h.taken_lt, h.taken_sorted, h.pending_taken,
    h.received_start.trans (due_mono h.since_le hn),
    fun ho => (h.open_start ho).trans (due_mono h.since_le hn)⟩

theorem Valid.retire (h : x.Valid coming count) {c l : Bool} (hc : c = false → x.closed = false) :
    ({ x with closed := c, left := l } : Writer).Valid coming count :=
  ⟨h.since_le, h.taken_lt, h.taken_sorted, h.pending_taken, h.received_start,
    fun ho => h.open_start (hc ho)⟩

end Writer

/-- What holds of a publication between its critical sections. -/
structure Flight.Valid (f : Flight) (s : State) : Prop where
  last : f.event + 1 = s.count
  not_buffered : ¬ s.Buffered f.event
  not_taken : ¬ s.Taken f.event
  writers_ne_nil : f.writers ≠ []
  todo_nodup : f.todo.Nodup
  todo_known : ∀ w ∈ f.todo, ∃ x, x ∈ s.writers w
  dead_closed : ∀ w ∈ f.dead, ∃ x ∈ s.writers w, x.closed = true
  /-- The event reached nobody exactly if every writer asked so far refused it. -/
  counted : f.dead.length + f.todo.length = f.writers.length ∧ ¬ s.Reached f.event ∨
    f.dead.length + f.todo.length < f.writers.length ∧ s.Reached f.event

structure Inv (s : State) : Prop where
  subs_nodup : s.subs.Nodup
  subs_known : ∀ w ∈ s.subs, ∃ x, x ∈ s.writers w
  live_mem : ∀ w, ∀ x ∈ s.writers w, x.Live → w ∈ s.subs
  mem_stayed : ∀ w ∈ s.subs, ∀ x ∈ s.writers w, x.left = false
  valid : ∀ w, ∀ x ∈ s.writers w, x.Valid (s.coming w) s.count
  received_all : ∀ w, ∀ x ∈ s.writers w, x.Live →
    x.received ++ x.pending ++ s.coming w = x.due s.count
  buffer_sorted : (s.buffer.map Prod.snd).Pairwise (· < ·)
  buffer_lt : ∀ k, s.Buffered k → k < s.count
  buffer_new : ∀ k, s.Buffered k → ¬ s.Reached k ∧ ¬ s.Taken k
  taken_once : ∀ w, ∀ x ∈ s.writers w, ∀ k ∈ x.taken,
    ∀ w' ≠ w, ∀ y ∈ s.writers w', k ∉ y.taken ∧ k ∉ y.received
  kept : ∀ k < s.count, k ∉ s.flight.map Flight.event → s.Reached k ∨ s.Buffered k ∨ s.Taken k
  none_missed : ∀ w, ∀ x ∈ s.writers w, x.Live → x.replay = true → s.buffer = []
  flight : ∀ f ∈ s.flight, f.Valid s

theorem Inv.delivered {s : State} (h : Inv s) : Delivered s where
  received_start w x hx := (h.valid w x hx).received_start
  received_all := h.received_all
  due_sorted w x hx := (h.valid w x hx).due_sorted
  taken_once w x hx k hk :=
    ⟨fun hb => (h.buffer_new k hb).2 ⟨w, x, hx, hk⟩, h.taken_once w x hx k hk⟩
  kept := h.kept
  none_missed := h.none_missed

variable {k : Nat}

theorem Inv.lt_of_reached {s : State} (h : Inv s) (hk : s.Reached k) : k < s.count := by
  obtain ⟨w, x, hx, hk⟩ := hk
  exact (h.valid w x hx).lt_of_mem_received hk

theorem Inv.lt_of_taken {s : State} (h : Inv s) (hk : s.Taken k) : k < s.count := by
  obtain ⟨w, x, hx, hk⟩ := hk
  exact ((h.valid w x hx).taken_lt k hk).trans_le (h.valid w x hx).since_le

theorem Inv.init : Inv {} where
  subs_nodup := .nil
  subs_known _ hw := absurd hw List.not_mem_nil
  live_mem _ _ hx := by simp at hx
  mem_stayed _ hw := absurd hw List.not_mem_nil
  valid _ _ hx := by simp at hx
  received_all _ _ hx := by simp at hx
  buffer_sorted := .nil
  buffer_lt _ hk := by simp [State.Buffered] at hk
  buffer_new _ hk := by simp [State.Buffered] at hk
  taken_once _ _ hx := by simp at hx
  kept k hk := absurd hk (Nat.not_lt_zero k)
  none_missed _ _ hx := by simp at hx
  flight _ hf := by simp at hf

/-! ### Writers that go -/

/-- Writers are closed or taken out of the subscribers; nothing else changes. -/
structure Retires (s t : State) : Prop where
  buffer : t.buffer = s.buffer
  flight : t.flight = s.flight
  count : t.count = s.count
  subs : t.subs.Sublist s.subs
  stay : ∀ w ∈ s.subs, ∀ x ∈ t.writers w, x.Live → w ∈ t.subs
  old : ∀ w, ∀ x ∈ s.writers w, ∃ c l, { x with closed := c, left := l } ∈ t.writers w ∧
    (c = false → x.closed = false) ∧ (l = false → x.left = false)
  known : ∀ w, ∀ y ∈ t.writers w, ∃ x, x ∈ s.writers w
  left_eq : ∀ w ∈ t.subs, ∀ x ∈ s.writers w, ∀ y ∈ t.writers w, y.left = x.left

namespace Retires

variable {s t : State}

theorem new (h : Retires s t) {w : Nat} {y : Writer} (hy : y ∈ t.writers w) :
    ∃ x ∈ s.writers w, ∃ c l, y = { x with closed := c, left := l } ∧
      (c = false → x.closed = false) ∧ (l = false → x.left = false) := by
  obtain ⟨x, hx⟩ := h.known w y hy
  obtain ⟨c, l, hz, hc, hl⟩ := h.old w x hx
  exact ⟨x, hx, c, l, Option.mem_unique hy hz, hc, hl⟩

theorem reached_iff (h : Retires s t) (k : Nat) : t.Reached k ↔ s.Reached k := by
  constructor
  · rintro ⟨w, y, hy, hk⟩
    obtain ⟨x, hx, c, l, rfl, -⟩ := h.new hy
    exact ⟨w, x, hx, hk⟩
  · rintro ⟨w, x, hx, hk⟩
    obtain ⟨c, l, hy, -⟩ := h.old w x hx
    exact ⟨w, _, hy, hk⟩

theorem taken_iff (h : Retires s t) (k : Nat) : t.Taken k ↔ s.Taken k := by
  constructor
  · rintro ⟨w, y, hy, hk⟩
    obtain ⟨x, hx, c, l, rfl, -⟩ := h.new hy
    exact ⟨w, x, hx, hk⟩
  · rintro ⟨w, x, hx, hk⟩
    obtain ⟨c, l, hy, -⟩ := h.old w x hx
    exact ⟨w, _, hy, hk⟩

theorem buffered_iff (h : Retires s t) (k : Nat) : t.Buffered k ↔ s.Buffered k := by
  rw [State.Buffered, State.Buffered, h.buffer]

theorem coming_eq (h : Retires s t) (w : Nat) : t.coming w = s.coming w := by
  rw [State.coming, State.coming, h.flight]

theorem inv (h : Retires s t) (hs : Inv s) : Inv t where
  subs_nodup := hs.subs_nodup.sublist h.subs
  subs_known w hw := by
    obtain ⟨x, hx⟩ := hs.subs_known w (h.subs.subset hw)
    obtain ⟨c, l, hy, -⟩ := h.old w x hx
    exact ⟨_, hy⟩
  live_mem w y hy hlive := by
    obtain ⟨x, hx, c, l, rfl, hc, hl⟩ := h.new hy
    exact h.stay w (hs.live_mem w x hx ⟨hc hlive.1, hl hlive.2⟩) _ hy hlive
  mem_stayed w hw y hy := by
    obtain ⟨x, hx⟩ := h.known w y hy
    exact (h.left_eq w hw x hx y hy).trans (hs.mem_stayed w (h.subs.subset hw) x hx)
  valid w y hy := by
    obtain ⟨x, hx, c, l, rfl, hc, -⟩ := h.new hy
    rw [h.coming_eq, h.count]
    exact (hs.valid w x hx).retire hc
  received_all w y hy hlive := by
    obtain ⟨x, hx, c, l, rfl, hc, hl⟩ := h.new hy
    rw [h.coming_eq, h.count]
    exact hs.received_all w x hx ⟨hc hlive.1, hl hlive.2⟩
  buffer_sorted := by rw [h.buffer]; exact hs.buffer_sorted
  buffer_lt k hk := by rw [h.count]; exact hs.buffer_lt k ((h.buffered_iff k).mp hk)
  buffer_new k hk := by
    rw [h.reached_iff, h.taken_iff]
    exact hs.buffer_new k ((h.buffered_iff k).mp hk)
  taken_once w y hy k hk w' hne z hz := by
    obtain ⟨x, hx, c, l, rfl, -⟩ := h.new hy
    obtain ⟨x', hx', c', l', rfl, -⟩ := h.new hz
    exact hs.taken_once w x hx k hk w' hne x' hx'
  kept k hk hf := by
    rw [h.reached_iff, h.taken_iff, h.buffered_iff]
    exact hs.kept k (h.count ▸ hk) (h.flight ▸ hf)
  none_missed w y hy hlive hreplay := by
    obtain ⟨x, hx, c, l, rfl, hc, hl⟩ := h.new hy
    rw [h.buffer]
    exact hs.none_missed w x hx ⟨hc hlive.1, hl hlive.2⟩ hreplay
  flight f hf := by
    have hv := hs.flight f (h.flight ▸ hf)
    refine ⟨hv.last.trans h.count.symm, ?_, ?_, hv.writers_ne_nil, hv.todo_nodup, ?_, ?_, ?_⟩
    · rw [h.buffered_iff]; exact hv.not_buffered
    · rw [h.taken_iff]; exact hv.not_taken
    · intro w hw
      obtain ⟨x, hx⟩ := hv.todo_known w hw
      obtain ⟨c, l, hy, -⟩ := h.old w x hx
      exact ⟨_, hy⟩
    · intro w hw
      obtain ⟨x, hx, hclosed⟩ := hv.dead_closed w hw
      obtain ⟨c, l, hy, hc, -⟩ := h.old w x hx
      refine ⟨_, hy, Bool.eq_true_of_not_eq_false fun hopen => ?_⟩
      simp [hc hopen] at hclosed
    · rw [h.reached_iff]; exact hv.counted

end Retires

theorem Retires.refl (s : State) : Retires s s where
  buffer := rfl
  flight := rfl
  count := rfl
  subs := .refl _
  stay _ hw _ _ _ := hw
  old _ x hx := ⟨x.closed, x.left, hx, id, id⟩
  known _ y hy := ⟨y, hy⟩
  left_eq _ _ _ hx _ hy := congrArg Writer.left (Option.mem_unique hy hx)

theorem Retires.discard {s : State} {dead : List Nat}
    (h : ∀ w ∈ dead, ∀ x ∈ s.writers w, ¬ x.Live) : Retires s (s.discard dead) :=
  { Retires.refl s with
    subs := List.filter_sublist
    stay := by
      intro w hw x hx hlive
      have : w ∉ dead := fun hd => h w hd x hx hlive
      simpa [State.discard, hw] using this
    left_eq := fun _ _ _ hx _ hy => congrArg Writer.left (Option.mem_unique hy hx) }

/-- One writer is closed or left, and perhaps taken out of the subscribers. -/
theorem Retires.update {s t : State} {w : Nat} {g : Writer → Writer}
    (hg : ∀ x, ∃ c l, g x = { x with closed := c, left := l } ∧
      (c = false → x.closed = false) ∧ (l = false → x.left = false))
    (hgone : ∀ x, ¬ (g x).Live) (hbuffer : t.buffer = s.buffer) (hflight : t.flight = s.flight)
    (hcount : t.count = s.count) (hsubs : t.subs.Sublist s.subs)
    (hstay : ∀ v ∈ s.subs, v ≠ w → v ∈ t.subs)
    (hleft : w ∈ t.subs → ∀ x, (g x).left = x.left)
    (hwriters : t.writers = Function.update s.writers w ((s.writers w).map g)) :
    Retires s t where
  buffer := hbuffer
  flight := hflight
  count := hcount
  subs := hsubs
  stay v hv x hx hlive := by
    refine hstay v hv ?_
    rintro rfl
    rw [hwriters, Function.update_self] at hx
    obtain ⟨y, -, rfl⟩ := Option.mem_map.mp hx
    exact hgone y hlive
  old v x hx := by
    by_cases hvw : v = w
    · subst hvw
      obtain ⟨c, l, heq, hc, hl⟩ := hg x
      refine ⟨c, l, ?_, hc, hl⟩
      rw [hwriters, Function.update_self, ← heq]
      exact Option.mem_map_of_mem g hx
    · refine ⟨x.closed, x.left, ?_, id, id⟩
      rw [hwriters, Function.update_of_ne hvw]
      exact hx
  known v y hy := by
    by_cases hvw : v = w
    · subst hvw
      rw [hwriters, Function.update_self] at hy
      obtain ⟨x, hx, -⟩ := Option.mem_map.mp hy
      exact ⟨x, hx⟩
    · rw [hwriters, Function.update_of_ne hvw] at hy
      exact ⟨y, hy⟩
  left_eq v hv x hx y hy := by
    by_cases hvw : v = w
    · subst hvw
      rw [hwriters, Function.update_self] at hy
      obtain ⟨z, hz, rfl⟩ := Option.mem_map.mp hy
      obtain rfl := Option.mem_unique hx hz
      exact hleft hv x
    · rw [hwriters, Function.update_of_ne hvw] at hy
      exact congrArg Writer.left (Option.mem_unique hy hx)

theorem Retires.closeWriter (s : State) (w : Nat) : Retires s (s.closeWriter w) :=
  .update (fun x => ⟨true, x.left, rfl, by simp, id⟩) (by simp [Writer.Live]) rfl rfl rfl (.refl _)
    (fun _ hv _ => hv) (fun _ _ => rfl) rfl

theorem Retires.unsubscribe (s : State) (w : Nat) : Retires s ((s.discard [w]).leaveWriter w) :=
  .update (fun x => ⟨x.closed, true, rfl, id, by simp⟩) (by simp [Writer.Live]) rfl rfl rfl
    List.filter_sublist (fun v hv hne => by simpa [State.discard, State.leaveWriter, hne] using hv)
    (fun hw => absurd hw (by simp [State.discard, State.leaveWriter])) rfl

theorem Retires.claimClient (s : State) (w : Nat) (clientId : String) :
    Retires s (s.claimClient w clientId) := by
  unfold State.claimClient
  split
  · exact .refl s
  · next c hc =>
    cases hget : s.clients.get? c with
    | none => exact { Retires.refl s with }
    | some previous =>
      refine .update (w := previous) (fun x => ⟨true, x.left, rfl, by simp, id⟩)
        (by simp [Writer.Live]) rfl rfl rfl List.filter_sublist ?_ (fun _ _ => rfl) rfl
      intro v hv hne
      simpa [State.closeWriter, hne] using hv

/-! ### A writer that comes -/

theorem Inv.subs_not_mem {s : State} (h : Inv s) {w : Nat} (hw : s.writers w = none) :
    w ∉ s.subs := by
  intro hmem
  obtain ⟨x, hx⟩ := h.subs_known w hmem
  simp [hw] at hx

theorem Inv.coming_new {s : State} (h : Inv s) {w : Nat} (hw : s.writers w = none) :
    s.coming w = [] := by
  unfold State.coming
  cases hf : s.flight with
  | none => rfl
  | some f =>
    have hnot : w ∉ f.todo := by
      intro hmem
      obtain ⟨x, hx⟩ := (h.flight f hf).todo_known w hmem
      simp [hw] at hx
    simp [hnot]

/-- The writer that `subscribe` makes. -/
def State.newWriter (s : State) (replay : Bool) : Writer :=
  let taken := if replay then s.buffer.map Prod.snd else []
  { replay, taken, pending := taken, since := s.count }

/-- The critical section of `subscribe`, after the client id is claimed and the buffer is read. -/
def State.register (s : State) (w : Nat) (replay : Bool) : State :=
  { s with
    subs := s.subs ++ [w]
    buffer := if replay then [] else s.buffer
    writers := Function.update s.writers w (some (s.newWriter replay)) }

variable {now : Int}

theorem State.freshBuffered_of_fresh {s : State}
    (h : ∀ row ∈ s.buffer, now - bufferTtl ≤ row.1) : s.freshBuffered now = s.buffer :=
  List.filter_eq_self.mpr fun row hrow => by simpa using h row hrow

theorem State.subscribe_eq {s : State} {w : Nat} {replay : Bool} {clientId : String}
    (h : ∀ row ∈ s.buffer, now - bufferTtl ≤ row.1) :
    s.subscribe w replay clientId now = (s.claimClient w clientId).register w replay := by
  have hfresh : (s.claimClient w clientId).freshBuffered now = (s.claimClient w clientId).buffer :=
    State.freshBuffered_of_fresh (by rwa [(Retires.claimClient s w clientId).buffer])
  simp only [State.subscribe, State.register, State.newWriter, hfresh]

section Register

variable {s : State} {w : Nat} {replay : Bool}

theorem State.mem_register {v : Nat} {x : Writer} :
    x ∈ (s.register w replay).writers v ↔
      v = w ∧ x = s.newWriter replay ∨ v ≠ w ∧ x ∈ s.writers v := by
  by_cases hv : v = w
  · subst hv
    simp [State.register, eq_comm]
  · simp [State.register, hv]

theorem State.reached_register (hw : s.writers w = none) (k : Nat) :
    (s.register w replay).Reached k ↔ s.Reached k := by
  constructor
  · rintro ⟨v, x, hx, hk⟩
    rcases State.mem_register.mp hx with ⟨-, rfl⟩ | ⟨-, hx⟩
    · simp [State.newWriter] at hk
    · exact ⟨v, x, hx, hk⟩
  · rintro ⟨v, x, hx, hk⟩
    refine ⟨v, x, State.mem_register.mpr (.inr ⟨?_, hx⟩), hk⟩
    rintro rfl
    simp [hw] at hx

theorem State.mem_taken_newWriter {k : Nat} :
    k ∈ (s.newWriter replay).taken ↔ replay = true ∧ s.Buffered k := by
  cases replay <;> simp [State.newWriter, State.Buffered]

theorem State.taken_register (hw : s.writers w = none) (k : Nat) :
    (s.register w replay).Taken k ↔ s.Taken k ∨ replay = true ∧ s.Buffered k := by
  constructor
  · rintro ⟨v, x, hx, hk⟩
    rcases State.mem_register.mp hx with ⟨-, rfl⟩ | ⟨-, hx⟩
    · exact .inr (State.mem_taken_newWriter.mp hk)
    · exact .inl ⟨v, x, hx, hk⟩
  · rintro (⟨v, x, hx, hk⟩ | hk)
    · refine ⟨v, x, State.mem_register.mpr (.inr ⟨?_, hx⟩), hk⟩
      rintro rfl
      simp [hw] at hx
    · exact ⟨w, _, State.mem_register.mpr (.inl ⟨rfl, rfl⟩), State.mem_taken_newWriter.mpr hk⟩

theorem State.buffered_register {k : Nat} :
    (s.register w replay).Buffered k ↔ replay = false ∧ s.Buffered k := by
  cases replay <;> simp [State.register, State.Buffered]

theorem Inv.valid_newWriter (h : Inv s) : (s.newWriter replay).Valid [] s.count := by
  have hdue : (s.newWriter replay).due s.count = (s.newWriter replay).taken := by
    simp [Writer.due, State.newWriter]
  refine ⟨le_rfl, ?_, ?_, fun k hk => hk, List.nil_prefix, fun _ => ?_⟩
  · intro k hk
    exact h.buffer_lt k (State.mem_taken_newWriter.mp hk).2
  · cases replay
    · exact .nil
    · exact h.buffer_sorted
  · rw [hdue]
    exact ⟨[], by simp [State.newWriter]⟩

theorem Inv.register (h : Inv s) (hw : s.writers w = none) : Inv (s.register w replay) where
  subs_nodup := by
    refine List.nodup_append.mpr ⟨h.subs_nodup, List.nodup_singleton w, ?_⟩
    rintro v hv _ (_ | ⟨_, ⟨⟩⟩) rfl
    exact h.subs_not_mem hw hv
  subs_known v hv := by
    rcases List.mem_append.mp hv with hold | hnew
    · obtain ⟨x, hx⟩ := h.subs_known v hold
      refine ⟨x, State.mem_register.mpr (.inr ⟨?_, hx⟩)⟩
      rintro rfl
      exact h.subs_not_mem hw hold
    · exact ⟨_, State.mem_register.mpr (.inl ⟨List.mem_singleton.mp hnew, rfl⟩)⟩
  live_mem v x hx hlive := by
    rcases State.mem_register.mp hx with ⟨rfl, -⟩ | ⟨-, hx⟩
    · exact List.mem_append_right _ (List.mem_singleton_self v)
    · exact List.mem_append_left _ (h.live_mem v x hx hlive)
  mem_stayed v hv x hx := by
    rcases State.mem_register.mp hx with ⟨-, rfl⟩ | ⟨hne, hold⟩
    · rfl
    · refine h.mem_stayed v ((List.mem_append.mp hv).resolve_right fun hnew => ?_) x hold
      exact hne (List.mem_singleton.mp hnew)
  valid v x hx := by
    rcases State.mem_register.mp hx with ⟨rfl, rfl⟩ | ⟨-, hx⟩
    · show Writer.Valid _ (s.coming v) s.count
      rw [h.coming_new hw]
      exact h.valid_newWriter
    · exact h.valid v x hx
  received_all v x hx hlive := by
    rcases State.mem_register.mp hx with ⟨rfl, rfl⟩ | ⟨-, hx⟩
    · show _ ++ s.coming v = Writer.due _ s.count
      rw [h.coming_new hw]
      simp [Writer.due, State.newWriter]
    · exact h.received_all v x hx hlive
  buffer_sorted := by
    cases replay
    · exact h.buffer_sorted
    · exact .nil
  buffer_lt k hk := h.buffer_lt k (State.buffered_register.mp hk).2
  buffer_new k hk := by
    obtain ⟨hreplay, hk⟩ := State.buffered_register.mp hk
    rw [State.reached_register hw, State.taken_register hw]
    obtain ⟨hr, ht⟩ := h.buffer_new k hk
    refine ⟨hr, ?_⟩
    rintro (ht' | ⟨ht', -⟩)
    · exact ht ht'
    · simp [hreplay] at ht'
  taken_once v x hx k hk v' hne y hy := by
    rcases State.mem_register.mp hx with ⟨rfl, rfl⟩ | ⟨hv, hold⟩
    · -- What the new writer took was in the buffer, so nobody had it.
      obtain ⟨hr, ht⟩ := h.buffer_new k (State.mem_taken_newWriter.mp hk).2
      rcases State.mem_register.mp hy with ⟨rfl, -⟩ | ⟨-, hy⟩
      · exact absurd rfl hne
      · exact ⟨fun hk' => ht ⟨v', y, hy, hk'⟩, fun hk' => hr ⟨v', y, hy, hk'⟩⟩
    · rcases State.mem_register.mp hy with ⟨rfl, rfl⟩ | ⟨-, hy⟩
      · refine ⟨fun hk' => ?_, by simp [State.newWriter]⟩
        exact (h.buffer_new k (State.mem_taken_newWriter.mp hk').2).2 ⟨v, x, hold, hk⟩
      · exact h.taken_once v x hold k hk v' hne y hy
  kept k hk hf := by
    rw [State.reached_register hw, State.taken_register hw, State.buffered_register]
    rcases h.kept k hk hf with hr | hb | ht
    · exact .inl hr
    · cases replay
      · exact .inr (.inl ⟨rfl, hb⟩)
      · exact .inr (.inr (.inr ⟨rfl, hb⟩))
    · exact .inr (.inr (.inl ht))
  none_missed v x hx hlive hreplay := by
    cases replay
    · rcases State.mem_register.mp hx with ⟨rfl, rfl⟩ | ⟨-, hx⟩
      · simp [State.newWriter] at hreplay
      · exact h.none_missed v x hx hlive hreplay
    · rfl
  flight f hf := by
    have hv := h.flight f hf
    refine ⟨hv.last, ?_, ?_, hv.writers_ne_nil, hv.todo_nodup, ?_, ?_, ?_⟩
    · rw [State.buffered_register]
      exact fun hb => hv.not_buffered hb.2
    · rw [State.taken_register hw]
      rintro (ht | ⟨-, hb⟩)
      · exact hv.not_taken ht
      · exact hv.not_buffered hb
    · intro v hv'
      obtain ⟨x, hx⟩ := hv.todo_known v hv'
      refine ⟨x, State.mem_register.mpr (.inr ⟨?_, hx⟩)⟩
      rintro rfl
      simp [hw] at hx
    · intro v hv'
      obtain ⟨x, hx, hclosed⟩ := hv.dead_closed v hv'
      refine ⟨x, State.mem_register.mpr (.inr ⟨?_, hx⟩), hclosed⟩
      rintro rfl
      simp [hw] at hx
    · rw [State.reached_register hw]
      exact hv.counted

end Register

/-! ### A writer that receives -/

/-- `y` is `x` with perhaps more received and less pending. -/
structure Writer.Advances (x y : Writer) : Prop where
  closed : y.closed = x.closed
  left : y.left = x.left
  replay : y.replay = x.replay
  taken : y.taken = x.taken
  since : y.since = x.since
  received : ∀ k ∈ x.received, k ∈ y.received

section Advance

variable {s : State} {w : Nat} {x y : Writer} {flight : Option Flight}

/-- The bus after one writer has advanced. -/
def State.advance (s : State) (w : Nat) (y : Writer) (flight : Option Flight) : State :=
  { s.setWriter w y with flight }

theorem State.mem_advance {v : Nat} {z : Writer} :
    z ∈ (s.advance w y flight).writers v ↔ v = w ∧ z = y ∨ v ≠ w ∧ z ∈ s.writers v := by
  by_cases hv : v = w
  · subst hv
    simp [State.advance, State.setWriter, eq_comm]
  · simp [State.advance, State.setWriter, hv]

theorem State.exists_mem_advance (hx : x ∈ s.writers w) {v : Nat} :
    (∃ z, z ∈ (s.advance w y flight).writers v) ↔ ∃ z, z ∈ s.writers v := by
  by_cases hv : v = w
  · subst hv
    exact iff_of_true ⟨y, State.mem_advance.mpr (.inl ⟨rfl, rfl⟩)⟩ ⟨x, hx⟩
  · simp [State.advance, State.setWriter, hv]

theorem State.taken_advance (hx : x ∈ s.writers w) (hxy : x.Advances y) (k : Nat) :
    (s.advance w y flight).Taken k ↔ s.Taken k := by
  constructor
  · rintro ⟨v, z, hz, hk⟩
    rcases State.mem_advance.mp hz with ⟨rfl, rfl⟩ | ⟨-, hold⟩
    · exact ⟨v, x, hx, hxy.taken ▸ hk⟩
    · exact ⟨v, z, hold, hk⟩
  · rintro ⟨v, z, hz, hk⟩
    by_cases hv : v = w
    · subst hv
      obtain rfl := Option.mem_unique hx hz
      exact ⟨v, y, State.mem_advance.mpr (.inl ⟨rfl, rfl⟩), hxy.taken ▸ hk⟩
    · exact ⟨v, z, State.mem_advance.mpr (.inr ⟨hv, hz⟩), hk⟩

theorem State.reached_advance (hx : x ∈ s.writers w) (hxy : x.Advances y) (k : Nat) :
    (s.advance w y flight).Reached k ↔ s.Reached k ∨ k ∈ y.received := by
  constructor
  · rintro ⟨v, z, hz, hk⟩
    rcases State.mem_advance.mp hz with ⟨-, rfl⟩ | ⟨-, hold⟩
    · exact .inr hk
    · exact .inl ⟨v, z, hold, hk⟩
  · rintro (⟨v, z, hz, hk⟩ | hk)
    · by_cases hv : v = w
      · subst hv
        obtain rfl := Option.mem_unique hx hz
        exact ⟨v, y, State.mem_advance.mpr (.inl ⟨rfl, rfl⟩), hxy.received k hk⟩
      · exact ⟨v, z, State.mem_advance.mpr (.inr ⟨hv, hz⟩), hk⟩
    · exact ⟨w, y, State.mem_advance.mpr (.inl ⟨rfl, rfl⟩), hk⟩

/-- A writer advances by events that are neither in the buffer nor taken by another one. -/
theorem Inv.advance (h : Inv s) (hx : x ∈ s.writers w) (hxy : x.Advances y)
    (hnew : ∀ k ∈ y.received, k ∈ x.received ∨
      ¬ s.Buffered k ∧ ∀ v ≠ w, ∀ z ∈ s.writers v, k ∉ z.taken)
    (hcoming : ∀ v ≠ w, (s.advance w y flight).coming v = s.coming v)
    (hvalid : y.Valid ((s.advance w y flight).coming w) s.count)
    (hall : y.Live → y.received ++ y.pending ++ (s.advance w y flight).coming w = y.due s.count)
    (hevent : flight.map Flight.event = s.flight.map Flight.event)
    (hflight : ∀ f ∈ flight, f.Valid (s.advance w y flight)) : Inv (s.advance w y flight) where
  subs_nodup := h.subs_nodup
  subs_known v hv := (State.exists_mem_advance hx).mpr (h.subs_known v hv)
  live_mem v z hz hlive := by
    rcases State.mem_advance.mp hz with ⟨rfl, rfl⟩ | ⟨-, hold⟩
    · exact h.live_mem v x hx ⟨hxy.closed ▸ hlive.1, hxy.left ▸ hlive.2⟩
    · exact h.live_mem v z hold hlive
  mem_stayed v hv z hz := by
    rcases State.mem_advance.mp hz with ⟨rfl, rfl⟩ | ⟨-, hold⟩
    · exact hxy.left.trans (h.mem_stayed v hv x hx)
    · exact h.mem_stayed v hv z hold
  valid v z hz := by
    rcases State.mem_advance.mp hz with ⟨rfl, rfl⟩ | ⟨hv, hold⟩
    · exact hvalid
    · rw [hcoming v hv]
      exact h.valid v z hold
  received_all v z hz hlive := by
    rcases State.mem_advance.mp hz with ⟨rfl, rfl⟩ | ⟨hv, hold⟩
    · exact hall hlive
    · rw [hcoming v hv]
      exact h.received_all v z hold hlive
  buffer_sorted := h.buffer_sorted
  buffer_lt := h.buffer_lt
  buffer_new k hk := by
    rw [State.reached_advance hx hxy, State.taken_advance hx hxy]
    obtain ⟨hr, ht⟩ := h.buffer_new k hk
    refine ⟨?_, ht⟩
    rintro (hr' | hk')
    · exact hr hr'
    · rcases hnew k hk' with hold | ⟨hb, -⟩
      · exact hr ⟨w, x, hx, hold⟩
      · exact hb hk
  taken_once v z hz k hk v' hne z' hz' := by
    have hold : ∃ u ∈ s.writers v, u.taken = z.taken := by
      rcases State.mem_advance.mp hz with ⟨rfl, rfl⟩ | ⟨-, hold⟩
      · exact ⟨x, hx, hxy.taken.symm⟩
      · exact ⟨z, hold, rfl⟩
    obtain ⟨u, hu, htaken⟩ := hold
    have hku : k ∈ u.taken := htaken ▸ hk
    rcases State.mem_advance.mp hz' with ⟨rfl, rfl⟩ | ⟨-, hold'⟩
    · obtain ⟨ht, hr⟩ := h.taken_once v u hu k hku v' hne x hx
      refine ⟨hxy.taken ▸ ht, fun hk' => ?_⟩
      rcases hnew k hk' with hr' | ⟨-, hapart⟩
      · exact hr hr'
      · exact hapart v (Ne.symm hne) u hu hku
    · exact h.taken_once v u hu k hku v' hne z' hold'
  kept k hk hf := by
    rw [State.reached_advance hx hxy, State.taken_advance hx hxy]
    rcases h.kept k hk (hevent ▸ hf) with hr | hb | ht
    · exact .inl (.inl hr)
    · exact .inr (.inl hb)
    · exact .inr (.inr ht)
  none_missed v z hz hlive hreplay := by
    rcases State.mem_advance.mp hz with ⟨rfl, rfl⟩ | ⟨-, hold⟩
    · exact h.none_missed v x hx ⟨hxy.closed ▸ hlive.1, hxy.left ▸ hlive.2⟩
        (hxy.replay ▸ hreplay)
    · exact h.none_missed v z hold hlive hreplay
  flight := hflight

theorem Flight.Valid.advance {f g : Flight} (hf : f.Valid s) (hx : x ∈ s.writers w)
    (hxy : x.Advances y) (hevent : g.event = f.event)
    (hwriters : g.writers = f.writers) (hnodup : g.todo.Nodup)
    (htodo : ∀ v ∈ g.todo, v ∈ f.todo) (hdead : ∀ v ∈ g.dead, v ∈ f.dead ∨ v = w ∧ y.closed = true)
    (hcounted : g.dead.length + g.todo.length = g.writers.length ∧
        ¬ (s.Reached f.event ∨ f.event ∈ y.received) ∨
      g.dead.length + g.todo.length < g.writers.length ∧
        (s.Reached f.event ∨ f.event ∈ y.received)) :
    g.Valid (s.advance w y flight) where
  last := hevent ▸ hf.last
  not_buffered := hevent ▸ hf.not_buffered
  not_taken := by
    rw [hevent, State.taken_advance hx hxy]
    exact hf.not_taken
  writers_ne_nil := hwriters ▸ hf.writers_ne_nil
  todo_nodup := hnodup
  todo_known v hv := (State.exists_mem_advance hx).mpr (hf.todo_known v (htodo v hv))
  dead_closed v hv := by
    by_cases hvw : v = w
    · subst hvw
      refine ⟨y, State.mem_advance.mpr (.inl ⟨rfl, rfl⟩), ?_⟩
      rcases hdead v hv with hold | ⟨-, hclosed⟩
      · obtain ⟨z, hz, hclosed⟩ := hf.dead_closed v hold
        obtain rfl := Option.mem_unique hx hz
        exact hxy.closed.trans hclosed
      · exact hclosed
    · have hold := (hdead v hv).resolve_right fun hnew => hvw hnew.1
      obtain ⟨z, hz, hclosed⟩ := hf.dead_closed v hold
      exact ⟨z, State.mem_advance.mpr (.inr ⟨hvw, hz⟩), hclosed⟩
  counted := by
    rw [hevent, State.reached_advance hx hxy]
    exact hcounted

end Advance

theorem Writer.send_of_closed {x : Writer} (h : x.closed = true) (k : Nat) : x.send k = x := by
  simp [Writer.send, h]

theorem Writer.send_of_open {x : Writer} (h : x.closed = false) (k : Nat) :
    x.send k = { x with received := x.received ++ [k] } := by
  simp [Writer.send, h]

/-! ### The replay -/

theorem Writer.advances_replay (x : Writer) (k : Nat) (rest : List Nat) :
    x.Advances { x.send k with pending := rest } := by
  cases hc : x.closed with
  | true =>
    rw [Writer.send_of_closed hc]
    exact ⟨rfl, rfl, rfl, rfl, rfl, fun _ hk => hk⟩
  | false =>
    rw [Writer.send_of_open hc]
    exact ⟨rfl, rfl, rfl, rfl, rfl, fun _ hk => List.mem_append_left _ hk⟩

theorem Inv.replayNext {s : State} (h : Inv s) {w : Nat} {x : Writer} (hx : x ∈ s.writers w)
    {rest : List Nat} (hpending : x.pending = k :: rest) :
    Inv (s.setWriter w { x.send k with pending := rest }) := by
  have hv := h.valid w x hx
  have htaken : k ∈ x.taken := hv.pending_taken k (by simp [hpending])
  have hrest : ∀ j ∈ rest, j ∈ x.taken := fun j hj => hv.pending_taken j (by simp [hpending, hj])
  have hmove : x.received ++ x.pending = (x.received ++ [k]) ++ rest := by simp [hpending]
  -- Sending moves the event from what is pending to what is received.
  have hopen : x.closed = false →
      (x.received ++ [k]) ++ rest ++ s.coming w <+: x.due s.count := by
    intro hc
    rw [← hmove]
    exact hv.open_start hc
  show Inv (s.advance w _ s.flight)
  refine h.advance hx (x.advances_replay k rest) ?_ (fun _ _ => rfl) ?_ ?_
    rfl ?_
  · intro j hj
    cases hc : x.closed with
    | true => exact .inl (by simpa [Writer.send_of_closed hc] using hj)
    | false =>
      simp only [Writer.send_of_open hc, List.mem_append, List.mem_singleton] at hj
      refine hj.imp_right ?_
      rintro rfl
      refine ⟨fun hb => (h.buffer_new j hb).2 ⟨w, x, hx, htaken⟩, fun v hne z hz => ?_⟩
      exact (h.taken_once w x hx j htaken v hne z hz).1
  · cases hc : x.closed with
    | true =>
      rw [Writer.send_of_closed hc]
      exact ⟨hv.since_le, hv.taken_lt, hv.taken_sorted, hrest, hv.received_start,
        fun ho => absurd (hc.symm.trans ho) (by decide)⟩
    | false =>
      rw [Writer.send_of_open hc]
      refine ⟨hv.since_le, hv.taken_lt, hv.taken_sorted, hrest, ?_, fun _ => hopen hc⟩
      exact ((List.prefix_append _ _).trans (List.prefix_append _ _)).trans (hopen hc)
  · intro hlive
    have hc : x.closed = false := (x.advances_replay k rest).closed ▸ hlive.1
    have hl : x.left = false := (x.advances_replay k rest).left ▸ hlive.2
    rw [Writer.send_of_open hc]
    show x.received ++ [k] ++ rest ++ s.coming w = x.due s.count
    rw [← hmove]
    exact h.received_all w x hx ⟨hc, hl⟩
  · intro f hf
    have hfv := h.flight f hf
    refine hfv.advance hx (x.advances_replay k rest) rfl rfl hfv.todo_nodup (fun _ hv => hv)
      (fun _ hv => .inl hv) ?_
    -- The event in flight is not the one replayed.
    have hother : f.event ∈ (x.send k).received → s.Reached f.event := by
      intro hmem
      cases hc : x.closed with
      | true => exact ⟨w, x, hx, by simpa [Writer.send_of_closed hc] using hmem⟩
      | false =>
        simp only [Writer.send_of_open hc, List.mem_append, List.mem_singleton] at hmem
        rcases hmem with hmem | heq
        · exact ⟨w, x, hx, hmem⟩
        · exact absurd ⟨w, x, hx, heq ▸ htaken⟩ hfv.not_taken
    have hiff : s.Reached f.event ∨ f.event ∈ (x.send k).received ↔ s.Reached f.event :=
      or_iff_left_of_imp hother
    simpa only [hiff] using hfv.counted

/-! ### A publication -/

theorem State.coming_of_mem {s : State} {f : Flight} {w : Nat} (hf : s.flight = some f)
    (hw : w ∈ f.todo) : s.coming w = [f.event] := by
  simp [State.coming, hf, hw]

theorem State.coming_of_not_mem {s : State} {f : Flight} {w : Nat} (hf : s.flight = some f)
    (hw : w ∉ f.todo) : s.coming w = [] := by
  simp [State.coming, hf, hw]

section Send

variable {s : State} {f : Flight} {w : Nat} {x : Writer}

variable {dead : List Nat}

theorem State.coming_sent (hf : s.flight = some f) {y : Writer} {v : Nat}
    (hv : v ≠ w) :
    (s.advance w y (some { f with todo := f.todo.erase w, dead })).coming v = s.coming v := by
  simp [State.coming, State.advance, State.setWriter, hf, List.mem_erase_of_ne hv]

theorem State.coming_asked (hnodup : f.todo.Nodup) {y : Writer} :
    (s.advance w y (some { f with todo := f.todo.erase w, dead })).coming w = [] :=
  State.coming_of_not_mem rfl hnodup.not_mem_erase

theorem Inv.send_closed (h : Inv s) (hf : s.flight = some f) (hw : w ∈ f.todo)
    (hx : x ∈ s.writers w) (hc : x.closed = true) : Inv (s.sendTo f w x) := by
  have hfv := h.flight f hf
  have hv := h.valid w x hx
  have hsend : s.sendTo f w x =
      s.advance w x (some { f with todo := f.todo.erase w, dead := f.dead ++ [w] }) := by
    simp [State.sendTo, State.advance, hc, Writer.send_of_closed hc]
  have hxx : x.Advances x := ⟨rfl, rfl, rfl, rfl, rfl, fun _ hk => hk⟩
  rw [hsend]
  refine h.advance hx hxx (fun _ hk => .inl hk) (fun v hne => State.coming_sent hf hne) ?_ ?_
    (by simp [hf]) ?_
  · exact ⟨hv.since_le, hv.taken_lt, hv.taken_sorted, hv.pending_taken, hv.received_start,
      fun ho => absurd (hc.symm.trans ho) (by decide)⟩
  · intro hlive
    exact absurd (hc.symm.trans hlive.1) (by decide)
  · rintro g ⟨⟩
    refine hfv.advance hx hxx rfl rfl (hfv.todo_nodup.erase w) (fun _ hv => List.mem_of_mem_erase hv)
      ?_ ?_
    · intro v hv
      exact (List.mem_append.mp hv).imp_right fun hv => ⟨List.mem_singleton.mp hv, hc⟩
    · have hiff : s.Reached f.event ∨ f.event ∈ x.received ↔ s.Reached f.event :=
        or_iff_left_of_imp fun hmem => ⟨w, x, hx, hmem⟩
      have hlen := List.length_erase_of_mem hw
      have hpos := List.length_pos_of_mem hw
      have hcount : (f.dead ++ [w]).length + (f.todo.erase w).length =
          f.dead.length + f.todo.length := by
        rw [hlen, List.length_append, List.length_singleton]
        omega
      simpa only [hiff, hcount] using hfv.counted

/-- An open writer without pending replay gets the event next. -/
theorem Inv.send_open (h : Inv s) (hf : s.flight = some f) (hw : w ∈ f.todo)
    (hx : x ∈ s.writers w) (hc : x.closed = false) (hpending : x.pending = []) :
    Inv (s.sendTo f w x) := by
  have hfv := h.flight f hf
  have hv := h.valid w x hx
  have hsend : s.sendTo f w x =
      s.advance w (x.send f.event) (some { f with todo := f.todo.erase w }) := by
    simp [State.sendTo, State.advance, hc]
  have hxy : x.Advances (x.send f.event) := by
    rw [Writer.send_of_open hc]
    exact ⟨rfl, rfl, rfl, rfl, rfl, fun _ hk => List.mem_append_left _ hk⟩
  have hreceived : (x.send f.event).received = x.received ++ [f.event] := by
    rw [Writer.send_of_open hc]
  -- What was on its way has arrived.
  have harrived : x.received ++ x.pending ++ s.coming w = x.received ++ [f.event] := by
    rw [hpending, State.coming_of_mem hf hw, List.append_nil]
  have hdue : (x.send f.event).due s.count = x.due s.count := by
    rw [Writer.send_of_open hc]
    rfl
  have hpending' : (x.send f.event).pending = [] := by
    rw [Writer.send_of_open hc]
    exact hpending
  have hprefix : x.received ++ [f.event] <+: x.due s.count :=
    harrived ▸ hv.open_start hc
  rw [hsend]
  refine h.advance hx hxy ?_ (fun v hne => State.coming_sent hf hne) ?_ ?_ (by simp [hf]) ?_
  · intro k hk
    rw [hreceived, List.mem_append, List.mem_singleton] at hk
    refine hk.imp_right ?_
    rintro rfl
    exact ⟨hfv.not_buffered, fun v _ z hz hmem => hfv.not_taken ⟨v, z, hz, hmem⟩⟩
  · rw [State.coming_asked hfv.todo_nodup]
    refine ⟨hxy.since ▸ hv.since_le, ?_, hxy.taken ▸ hv.taken_sorted, ?_, ?_, fun _ => ?_⟩
    · rw [hxy.taken, hxy.since]
      exact hv.taken_lt
    · simp [hpending']
    · rw [hreceived, hdue]
      exact hprefix
    · rw [hreceived, hdue, hpending', List.append_nil, List.append_nil]
      exact hprefix
  · intro hlive
    rw [State.coming_asked hfv.todo_nodup, hreceived, hdue, hpending', List.append_nil,
      List.append_nil, ← harrived]
    exact h.received_all w x hx ⟨hc, hxy.left ▸ hlive.2⟩
  · rintro g ⟨⟩
    refine hfv.advance hx hxy rfl rfl (hfv.todo_nodup.erase w) (fun _ hv => List.mem_of_mem_erase hv)
      (fun _ hv => .inl hv) (.inr ⟨?_, .inr ?_⟩)
    · have hlen := List.length_erase_of_mem hw
      have hpos := List.length_pos_of_mem hw
      show f.dead.length + (f.todo.erase w).length < f.writers.length
      rcases hfv.counted with ⟨hcount, -⟩ | ⟨hcount, -⟩ <;> omega
    · rw [hreceived]
      exact List.mem_append_right _ (List.mem_singleton_self _)

end Send

theorem State.coming_of_flight_none {s : State} (h : s.flight = none) (w : Nat) :
    s.coming w = [] := by
  simp [State.coming, h]

theorem State.bufferEvent_eq {s : State} (h : s.buffer.length < maxBuffer) (now : Int) (k : Nat) :
    s.bufferEvent now k = { s with buffer := s.buffer ++ [(now, k)] } := by
  have hdrop : (s.buffer ++ [(now, k)]).length - maxBuffer = 0 := by
    rw [List.length_append, List.length_singleton]
    omega
  simp only [State.bufferEvent, hdrop, List.drop_zero]

/-- An event that reached nobody goes to the buffer. -/
theorem Inv.shelve {s : State} (h : Inv s) (now : Int) (hcoming : ∀ w, s.coming w = [])
    (hcount : s.count ≤ k + 1) (hbuffer : ∀ j, s.Buffered j → j < k)
    (hreached : ¬ s.Reached k) (htaken : ¬ s.Taken k)
    (hkept : ∀ j < k, s.Reached j ∨ s.Buffered j ∨ s.Taken j)
    (hlive : ∀ w, ∀ x ∈ s.writers w, x.Live → s.count = k + 1 ∧ x.replay = false) :
    Inv { s with flight := none, count := k + 1, buffer := s.buffer ++ [(now, k)] } where
  subs_nodup := h.subs_nodup
  subs_known := h.subs_known
  live_mem := h.live_mem
  mem_stayed := h.mem_stayed
  valid w x hx := by
    have hv := h.valid w x hx
    rw [hcoming w] at hv
    exact hv.mono hcount
  received_all w x hx hl := by
    have hall := h.received_all w x hx hl
    rw [hcoming w, (hlive w x hx hl).1] at hall
    exact hall
  buffer_sorted := by
    rw [List.map_append, List.pairwise_append]
    refine ⟨h.buffer_sorted, List.pairwise_singleton _ _, ?_⟩
    rintro i hi j hj
    obtain rfl := List.mem_singleton.mp hj
    exact hbuffer i hi
  buffer_lt j hj := by
    simp only [State.Buffered, List.map_append, List.mem_append] at hj
    rcases hj with hj | hj
    · exact (hbuffer j hj).trans (Nat.lt_succ_self k)
    · obtain rfl := List.mem_singleton.mp hj
      exact Nat.lt_succ_self _
  buffer_new j hj := by
    simp only [State.Buffered, List.map_append, List.mem_append] at hj
    rcases hj with hj | hj
    · exact h.buffer_new j hj
    · obtain rfl := List.mem_singleton.mp hj
      exact ⟨hreached, htaken⟩
  taken_once := h.taken_once
  kept j hj _ := by
    simp only [State.Buffered, List.map_append, List.mem_append]
    rcases Nat.lt_succ_iff_lt_or_eq.mp hj with hj | rfl
    · rcases hkept j hj with hr | hb | ht
      · exact .inl hr
      · exact .inr (.inl (.inl hb))
      · exact .inr (.inr ht)
    · exact .inr (.inl (.inr (List.mem_singleton_self _)))
  none_missed w x hx hl hreplay := by
    rw [(hlive w x hx hl).2] at hreplay
    cases hreplay
  flight _ hf := by cases hf

/-- The writers are picked. -/
theorem Inv.depart {s : State} (h : Inv s) (hflight : s.flight = none) (hsubs : s.subs ≠ []) :
    Inv { s with count := s.count + 1, flight := some ⟨s.count, s.subs, s.subs, []⟩ } where
  subs_nodup := h.subs_nodup
  subs_known := h.subs_known
  live_mem := h.live_mem
  mem_stayed := h.mem_stayed
  valid w x hx := by
    have hv := h.valid w x hx
    rw [State.coming_of_flight_none hflight] at hv
    by_cases hw : w ∈ s.subs
    · rw [State.coming_of_mem rfl hw]
      refine { hv.mono (Nat.le_succ _) with open_start := fun ho => ?_ }
      have hall := h.received_all w x hx ⟨ho, h.mem_stayed w hw x hx⟩
      rw [State.coming_of_flight_none hflight, List.append_nil] at hall
      rw [Writer.due_succ hv.since_le, hall]
    · rw [State.coming_of_not_mem rfl hw]
      exact hv.mono (Nat.le_succ _)
  received_all w x hx hl := by
    have hv := h.valid w x hx
    have hall := h.received_all w x hx hl
    rw [State.coming_of_flight_none hflight, List.append_nil] at hall
    rw [State.coming_of_mem rfl (h.live_mem w x hx hl), Writer.due_succ hv.since_le, ← hall]
  buffer_sorted := h.buffer_sorted
  buffer_lt j hj := (h.buffer_lt j hj).trans (Nat.lt_succ_self _)
  buffer_new := h.buffer_new
  taken_once := h.taken_once
  kept j hj hf := by
    have hne : j ≠ s.count := fun heq => hf (by simp [heq])
    refine h.kept j ?_ (by simp [hflight])
    have : j < s.count + 1 := hj
    omega
  none_missed := h.none_missed
  flight f hf := by
    obtain rfl := Option.mem_some_iff.mp hf
    refine ⟨rfl, fun hb => lt_irrefl _ (h.buffer_lt _ hb), fun ht => lt_irrefl _ (h.lt_of_taken ht),
      hsubs, h.subs_nodup, h.subs_known, ?_,
      .inl ⟨Nat.zero_add _, fun hr => lt_irrefl _ (h.lt_of_reached hr)⟩⟩
    intro w hw
    cases hw

theorem Inv.publish {s : State} (h : Inv s) (hflight : s.flight = none)
    (hlim : s.buffer.length < maxBuffer) : Inv (s.publish now) := by
  have hr : Retires s (s.discard (s.subs.filter s.isClosed)) := by
    refine .discard fun w hw x hx hlive => ?_
    have hclosed := (List.mem_filter.mp hw).2
    rw [State.isClosed, Option.mem_def.mp hx] at hclosed
    exact absurd (hlive.1.symm.trans hclosed) (by decide)
  have hu := hr.inv h
  unfold State.publish
  by_cases hsubs : (s.discard (s.subs.filter s.isClosed)).subs = []
  · simp only [hsubs, if_true]
    have hshelved := hu.shelve (k := s.count) now (State.coming_of_flight_none hflight)
      (Nat.le_succ _) hu.buffer_lt (fun hr => lt_irrefl _ (h.lt_of_reached hr))
      (fun ht => lt_irrefl _ (h.lt_of_taken ht)) (fun j hj => h.kept j hj (by simp [hflight]))
      (fun w x hx hlive => absurd (hu.live_mem w x hx hlive) (by simp [hsubs]))
    rw [State.bufferEvent_eq]
    · have hnone : (s.discard (s.subs.filter s.isClosed)).flight = none := hflight
      simpa only [hsubs, hnone] using hshelved
    · exact hlim
  · simp only [hsubs, if_false]
    exact hu.depart hflight hsubs

theorem Inv.land {s : State} (h : Inv s) {f : Flight} (hf : s.flight = some f) (htodo : f.todo = [])
    (hreached : s.Reached f.event) : Inv { s with flight := none } := by
  have hcoming : ∀ w, s.coming w = [] := fun w =>
    State.coming_of_not_mem hf (by simp [htodo])
  refine { h with valid := ?_, received_all := ?_, kept := ?_, flight := ?_ }
  · intro w x hx
    have hv := h.valid w x hx
    rwa [hcoming w] at hv
  · intro w x hx hlive
    have hall := h.received_all w x hx hlive
    rwa [hcoming w] at hall
  · intro k hk _
    by_cases heq : k = f.event
    · exact .inl (heq ▸ hreached)
    · exact h.kept k hk (by simpa [hf, eq_comm] using heq)
  · rintro g ⟨⟩

theorem Inv.finish {s : State} (h : Inv s) {f : Flight} (hf : s.flight = some f)
    (htodo : f.todo = []) (hlim : s.buffer.length < maxBuffer)
    (hlive : f.dead.length = f.writers.length →
      ∀ w, ∀ x ∈ s.writers w, x.Live → x.replay = false) :
    Inv (s.finish f now) := by
  have hfv := h.flight f hf
  have hcounted := hfv.counted
  rw [htodo, List.length_nil, Nat.add_zero] at hcounted
  -- Either nobody got the event, and every writer refused it, or somebody did.
  have hsome : f.dead.length ≠ f.writers.length → s.Reached f.event := fun hne =>
    (hcounted.resolve_left fun hall => hne hall.1).2
  have hlanded : f.dead.length ≠ f.writers.length → Inv { s with flight := none } := fun hne =>
    h.land hf htodo (hsome hne)
  have hshelved : f.dead.length = f.writers.length →
      Inv { s with flight := none, buffer := s.buffer ++ [(now, f.event)] } := by
    intro heq
    have hbuffer : ∀ j, s.Buffered j → j < f.event := by
      intro j hj
      have hlt := h.buffer_lt j hj
      have hne : j ≠ f.event := fun hj' => hfv.not_buffered (hj' ▸ hj)
      have := hfv.last
      omega
    have hkept : ∀ j < f.event, s.Reached j ∨ s.Buffered j ∨ s.Taken j := by
      intro j hj
      refine h.kept j (hj.trans (hfv.last ▸ Nat.lt_succ_self _)) ?_
      simpa [hf] using hj.ne'
    have hnobody : ¬ s.Reached f.event := (hcounted.resolve_right fun hall => by omega).2
    have := h.shelve now (fun w => State.coming_of_not_mem hf (by simp [htodo])) hfv.last.symm.le
      hbuffer hnobody hfv.not_taken hkept fun w x hx hl => ⟨hfv.last.symm, hlive heq w x hx hl⟩
    rwa [hfv.last] at this
  have hdrop : ∀ t : State, t.writers = s.writers → Retires t (t.discard f.dead) := by
    refine fun t ht => .discard fun w hw x hx hl => ?_
    obtain ⟨y, hy, hclosed⟩ := hfv.dead_closed w hw
    obtain rfl := Option.mem_unique (ht ▸ hx) hy
    exact absurd (hl.1.symm.trans hclosed) (by decide)
  unfold State.finish
  by_cases hdead : f.dead = []
  · simp only [hdead, if_true]
    refine hlanded fun heq => hfv.writers_ne_nil ?_
    rw [hdead] at heq
    exact List.length_eq_zero_iff.mp heq.symm
  · by_cases hall : f.dead.length = f.writers.length
    · simp only [hdead, hall, if_false, if_true]
      rw [State.bufferEvent_eq (by split <;> exact hlim)]
      split
      · exact hshelved hall
      · exact (hdrop { s with flight := none, buffer := s.buffer ++ [(now, f.event)] } rfl).inv
          (hshelved hall)
    · simp only [hdead, hall, if_false]
      split
      · exact hlanded hall
      · exact (hdrop { s with flight := none } rfl).inv (hlanded hall)

/-! ## Runs -/

theorem State.sweep_of_fresh {s : State}
    (h : ∀ row ∈ s.buffer, now - bufferTtl ≤ row.1) : s.sweep now = s := by
  have hbuffer : (s.sweep now).buffer = s.buffer := by
    unfold State.sweep
    cases hlast : s.buffer.getLast? with
    | none => simpa [eq_comm] using hlast
    | some row =>
      have := h row (List.mem_of_getLast? hlast)
      simp [Int.not_lt.mpr this]
  calc s.sweep now = { s with buffer := (s.sweep now).buffer } := rfl
    _ = s := by rw [hbuffer]

/-- **Step lemma.** -/
theorem Inv.of_step {s t : State} {a : Act} (h : Inv s) (hlim : WithinLimits s a)
    (hok : InOrder s a) (hstep : step s a = some t) : Inv t := by
  cases a with
  | subscribe w replay clientId now =>
    simp only [step, Option.ite_none_right_eq_some, Option.some.injEq] at hstep
    obtain ⟨hw, rfl⟩ := hstep
    rw [State.subscribe_eq hlim]
    have hr := Retires.claimClient s w clientId
    refine (hr.inv h).register (Option.eq_none_iff_forall_ne_some.mpr fun y hy => ?_)
    obtain ⟨x, hx⟩ := hr.known w y hy
    simp [Option.mem_def.mp hx] at hw
  | replayNext w =>
    obtain ⟨x, hx, hstep⟩ := Option.bind_eq_some_iff.mp hstep
    cases hpending : x.pending with
    | nil => simp [hpending] at hstep
    | cons k rest =>
      simp only [hpending, Option.some.injEq] at hstep
      subst hstep
      exact h.replayNext hx hpending
  | unsubscribe w =>
    obtain rfl := Option.some.inj hstep
    exact (Retires.unsubscribe s w).inv h
  | close w =>
    obtain rfl := Option.some.inj hstep
    exact (Retires.closeWriter s w).inv h
  | publish now =>
    simp only [step, Option.ite_none_right_eq_some, Option.some.injEq] at hstep
    obtain ⟨hflight, rfl⟩ := hstep
    exact h.publish (Option.isNone_iff_eq_none.mp hflight) hlim
  | send w =>
    obtain ⟨f, hf, hstep⟩ := Option.bind_eq_some_iff.mp hstep
    obtain ⟨x, hx, hstep⟩ := Option.bind_eq_some_iff.mp hstep
    simp only [Option.ite_none_right_eq_some, Option.some.injEq] at hstep
    obtain ⟨hw, rfl⟩ := hstep
    cases hc : x.closed with
    | true => exact h.send_closed hf hw hx hc
    | false => exact h.send_open hf hw hx hc (hok x hx hc)
  | finish now =>
    obtain ⟨f, hf, hstep⟩ := Option.bind_eq_some_iff.mp hstep
    simp only [Option.ite_none_right_eq_some, Option.some.injEq] at hstep
    obtain ⟨htodo, rfl⟩ := hstep
    exact h.finish hf htodo hlim (hok f hf)
  | sweep now =>
    obtain rfl := Option.some.inj hstep
    rwa [State.sweep_of_fresh hlim]

/-! ### A step out of order -/

theorem Inv.not_delivered_of_send {s t : State} {w : Nat} (h : Inv s)
    (hok : ¬ InOrder s (.send w)) (hstep : step s (.send w) = some t) : ¬ Delivered t := by
  obtain ⟨f, hf, hstep⟩ := Option.bind_eq_some_iff.mp hstep
  obtain ⟨x, hx, hstep⟩ := Option.bind_eq_some_iff.mp hstep
  simp only [Option.ite_none_right_eq_some, Option.some.injEq] at hstep
  obtain ⟨hw, rfl⟩ := hstep
  have hbad : x.closed = false ∧ x.pending ≠ [] := by
    by_contra hnot
    refine hok fun y hy hc => ?_
    obtain rfl := Option.mem_unique hx hy
    by_contra hne
    exact hnot ⟨hc, hne⟩
  obtain ⟨hc, hne⟩ := hbad
  obtain ⟨p, rest, hpending⟩ := List.exists_cons_of_ne_nil hne
  intro hd
  have hmem : x.send f.event ∈ (s.sendTo f w x).writers w := by
    simp [State.sendTo, State.setWriter]
  have hgot : x.received ++ [f.event] <+: x.due s.count := by
    have hcount : (s.sendTo f w x).count = s.count := rfl
    simpa [Writer.send_of_open hc, Writer.due, hcount] using hd.received_start w _ hmem
  have hdue : x.received ++ [p] <+: x.due s.count := by
    refine List.IsPrefix.trans ⟨rest ++ s.coming w, ?_⟩ ((h.valid w x hx).open_start hc)
    simp [hpending]
  have heq : x.received ++ [f.event] = x.received ++ [p] :=
    (List.prefix_of_prefix_length_le hgot hdue (by simp)).eq_of_length (by simp)
  have hsame : f.event = p := by simpa using heq
  have htaken : p ∈ x.taken := (h.valid w x hx).pending_taken p (by simp [hpending])
  exact (h.flight f hf).not_taken ⟨w, x, hx, hsame ▸ htaken⟩

theorem Inv.not_delivered_of_finish {s t : State} (h : Inv s)
    (hlim : s.buffer.length < maxBuffer) (hok : ¬ InOrder s (.finish now))
    (hstep : step s (.finish now) = some t) : ¬ Delivered t := by
  obtain ⟨f, hf, hstep⟩ := Option.bind_eq_some_iff.mp hstep
  simp only [Option.ite_none_right_eq_some, Option.some.injEq] at hstep
  obtain ⟨htodo, rfl⟩ := hstep
  have hbad : f.dead.length = f.writers.length ∧
      ∃ w, ∃ x ∈ s.writers w, x.Live ∧ x.replay = true := by
    by_contra hnot
    refine hok fun g hg heq w x hx hl => ?_
    obtain rfl := Option.mem_unique hf hg
    by_contra hreplay
    exact hnot ⟨heq, w, x, hx, hl, Bool.eq_true_of_not_eq_false hreplay⟩
  obtain ⟨hall, w, x, hx, hl, hreplay⟩ := hbad
  have hdead : f.dead ≠ [] := by
    intro hnil
    rw [hnil] at hall
    exact (h.flight f hf).writers_ne_nil (List.length_eq_zero_iff.mp hall.symm)
  intro hd
  have hbuffer : (s.finish f now).buffer = s.buffer ++ [(now, f.event)] := by
    simp only [State.finish, hdead, hall, if_false, if_true]
    rw [State.bufferEvent_eq (by split <;> exact hlim)]
    split <;> rfl
  have hwriters : (s.finish f now).writers = s.writers := by
    simp only [State.finish, hdead, hall, if_false, if_true]
    rw [State.bufferEvent_eq (by split <;> exact hlim)]
    split <;> rfl
  have := hd.none_missed w x (hwriters ▸ hx) hl hreplay
  simp [hbuffer] at this

theorem Inv.not_delivered {s t : State} {a : Act} (h : Inv s) (hlim : WithinLimits s a)
    (hok : ¬ InOrder s a) (hstep : step s a = some t) : ¬ Delivered t := by
  cases a with
  | send w => exact h.not_delivered_of_send hok hstep
  | finish now => exact h.not_delivered_of_finish hlim hok hstep
  | subscribe => exact absurd trivial hok
  | replayNext => exact absurd trivial hok
  | unsubscribe => exact absurd trivial hok
  | close => exact absurd trivial hok
  | publish => exact absurd trivial hok
  | sweep => exact absurd trivial hok

/-- **Delivery.** In a run within the limits every subscriber is delivered to throughout exactly if
no live event overtakes a replay, and no event that was refused everywhere meets a live replaying
subscriber. -/
theorem delivered_iff_inOrder (acts : List Act) (h : AllSteps step WithinLimits {} acts) :
    AllStates step Delivered {} acts ↔ AllSteps step InOrder {} acts :=
  allStates_iff_allSteps Inv (fun _ hs => hs.delivered)
    (fun _ _ _ hs hlim hok hstep => hs.of_step hlim hok hstep)
    (fun _ _ _ hs hlim hok hstep => hs.not_delivered hlim hok hstep) Inv.init h

/-- Three events: the first waits for a subscriber and is replayed, the second goes to two
subscribers, the third finds both closed. -/
def tour : List Act :=
  [.publish 0, .subscribe 0 true "tab" 1, .replayNext 0, .subscribe 1 false "" 1, .publish 2,
    .send 1, .send 0, .finish 2, .publish 3, .close 0, .close 1, .send 0, .send 1, .finish 4]

theorem delivered_iff_inOrder_tour :
    AllStates step Delivered {} tour ↔ AllSteps step InOrder {} tour :=
  delivered_iff_inOrder tour (by decide +kernel)

/-- An event is published between the registration of a subscriber and its replay. -/
def overtaken : List Act := [.publish 0, .subscribe 0 true "" 1, .publish 2, .send 0]

/-- The subscriber gets the second event and not the first one. -/
theorem not_delivered_overtaken :
    ¬ ∀ acts, AllSteps step WithinLimits {} acts → AllStates step Delivered {} acts := by
  intro h
  have hend : (overtaken.foldlM step {}).bind (fun t => (t.writers 0).map fun x =>
      (x.received, x.due t.count)) = some ([1], [0, 1]) := by decide +kernel
  obtain ⟨t, ht, hend⟩ := Option.bind_eq_some_iff.mp hend
  obtain ⟨x, hx, hend⟩ := Option.map_eq_some_iff.mp hend
  have hprefix := ((h overtaken (by decide +kernel)).last ht).received_start 0 x hx
  rw [(Prod.mk.inj hend).1, (Prod.mk.inj hend).2] at hprefix
  exact absurd hprefix (by decide)

end PawFlow.EventBus
