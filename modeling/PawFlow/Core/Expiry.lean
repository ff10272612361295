import PawFlow.Core.Accounting

/-!
# Expired FlowFiles

`drain_expired` empties the queue, judges each FlowFile by the time at which it was enqueued and puts
the others back in the order in which they came out. The table of these times knows nothing of
FlowFiles that `requeue` put into the queue.
-/

namespace PawFlow.Core

open PawFlow.Lib PrioritizedQueue Connection
open scoped List

variable {α : Type*}

variable {q : PrioritizedQueue α}

theorem PrioritizedQueue.Sound.listing_perm (hs : q.Sound)
    (view : α → FlowFile) : q.listing view ~ q.flowfiles := by
  by_cases ht : q.type = .priorityAttribute
  · have hlevels : q.levels ~ q.priorityQueues.map Prod.fst := List.perm_insertionSort _ _
    have hitems : (q.priorityQueues.map Prod.fst).flatMap q.level =
        q.priorityQueues.flatMap Prod.snd := by
      rw [List.flatMap_map]
      refine List.flatMap_congr fun i hi => ?_
      rw [level, PyDict.get?_of_mem hs.keys hi]
      rfl
    have hlisting : q.listing view = q.levels.flatMap q.level := by
      rw [listing, ht]
    rw [hlisting, flowfiles_of_priority ht, ← hitems]
    exact hlevels.flatMap_right _
  · rw [listing_of_ne ht, flowfiles_of_ne ht]
    exact List.perm_insertionSort _ _

theorem PrioritizedQueue.Holds.pushAll {view : α → FlowFile}
    {waiting : List α} (h : q.Holds view waiting) (xs : List α) :
    (q.pushAll view xs).Holds view (waiting ++ xs) := by
  induction xs generalizing q waiting with
  | nil =>
    rw [List.append_nil]
    exact h
  | cons x xs ih =>
    rw [← List.singleton_append, ← List.append_assoc]
    exact ih (h.push x)

variable [DecidableEq α]

/-! ## Sweeping a queue -/

section Sweep

variable (view : α → FlowFile) (conn : Connection α) (now : Int)

def expiredByTable (x : α) : Bool :=
  conn.flowfileTtlSeconds < now - (conn.enqueueTimes.get? (view x).processId).getD now

/-- The loop of `drain_expired` when it has taken these FlowFiles. -/
structure Sweep (taken : List α) (d : Drain α) : Prop where
  sound : d.conn.queue.Sound
  kind : SameKind conn.queue d.conn.queue
  count : taken.length + d.conn.flowfiles.length = conn.flowfiles.length
  holds : ∃ rest, d.conn.queue.Holds d.view rest
  order : conn.queue.listing view = taken ++ d.conn.queue.listing d.view
  expired : d.expired = taken.filter (expiredByTable view conn now)
  remaining : d.remaining = taken.filter fun x => !expiredByTable view conn now x
  untouched : ∀ x, x ∉ d.expired → d.view x = view x
  marked : ∀ x ∈ d.expired, (d.view x).getAttribute "expired" = some "true"
  bytes : d.conn.totalBytes = conn.totalBytes - Books.bytesOf view d.expired
  times : ∀ x ∈ d.conn.queue.listing d.view,
    d.conn.enqueueTimes.get? (view x).processId = conn.enqueueTimes.get? (view x).processId
  ttl : d.conn.flowfileTtlSeconds = conn.flowfileTtlSeconds

variable {view conn now}

theorem Sweep.take (hids : ((conn.queue.listing view).map fun x => (view x).processId).Nodup)
    {taken : List α} {d : Drain α} (h : Sweep view conn now taken d) {x : α}
    {queue : PrioritizedQueue α} (hget : d.conn.queue.get d.view = (some x, queue)) :
    Sweep view conn now (taken ++ [x]) (d.take now x queue) := by
  obtain ⟨rest, hholds⟩ := h.holds
  obtain ⟨hkind, hrest⟩ := hholds.get_snd hget
  have hq : TakenOut d.conn.queue queue x := by
    rcases h.sound.get d.view with ⟨-, hnone⟩ | ⟨y, q', hsome, hq⟩
    · rw [hnone] at hget
      cases hget
    · rw [hsome] at hget
      cases hget
      exact hq
  have hlisting : d.conn.queue.listing d.view = x :: queue.listing d.view := by
    have hfst := hholds.get_fst
    rw [hget] at hfst
    obtain ⟨tail, hcons⟩ := List.head?_eq_some_iff.mp hfst.symm
    rw [hcons, hrest.listing_eq, hkind.inOrder]
    have hsame : rest.insertionSort (d.conn.queue.Before d.view) = x :: tail :=
      hholds.listing_eq.symm.trans hcons
    show x :: tail = x :: (rest.erase x).insertionSort (d.conn.queue.Before d.view)
    rw [insertionSort_erase, hsame, List.erase_cons_head]
  have horder : conn.queue.listing view = taken ++ [x] ++ queue.listing d.view := by
    rw [h.order, hlisting, List.append_assoc]
    rfl
  -- The FlowFiles are different, so nothing that was taken before comes again.
  rw [horder, List.map_append, List.nodup_append, List.map_append, List.nodup_append] at hids
  obtain ⟨⟨-, -, hbefore⟩, -, hafter⟩ := hids
  have hnew : ∀ y ∈ taken, y ≠ x := fun y hy heq =>
    hbefore _ (List.mem_map_of_mem hy) _ (List.mem_map_of_mem List.mem_cons_self) (heq ▸ rfl)
  have hlater : ∀ y ∈ queue.listing d.view, (view y).processId ≠ (view x).processId := fun y hy =>
    (hafter _ (List.mem_append_right _ (List.mem_map_of_mem List.mem_cons_self)) _
      (List.mem_map_of_mem hy)).symm
  have hview : d.view x = view x := h.untouched x fun hmem => by
    rw [h.expired] at hmem
    exact hnew x (List.mem_of_mem_filter hmem) rfl
  have htime : (d.conn.enqueueTimes.get? (d.view x).processId).getD now =
      (conn.enqueueTimes.get? (view x).processId).getD now := by
    rw [hview, h.times x (hlisting ▸ List.mem_cons_self)]
  have hcount : (taken ++ [x]).length + queue.flowfiles.length = conn.flowfiles.length := by
    have hlen : d.conn.flowfiles.length = queue.flowfiles.length + 1 := hq.perm.length_eq
    have := h.count
    rw [List.length_append, List.length_singleton]
    omega
  have hkinds : SameKind conn.queue queue :=
    ⟨hkind.type.trans h.kind.type, hkind.key.trans h.kind.key, hkind.maxSize.trans h.kind.maxSize⟩
  have hjudged : d.conn.flowfileTtlSeconds <
      now - (d.conn.enqueueTimes.get? (d.view x).processId).getD now ↔
        expiredByTable view conn now x = true := by
    rw [htime, h.ttl]
    exact decide_eq_true_iff.symm
  unfold Drain.take
  dsimp only
  split_ifs with hlate
  · have hexpired := hjudged.mp hlate
    have hothers : ∀ y ∈ queue.listing d.view, y ≠ x := fun y hy heq => hlater y hy (heq ▸ rfl)
    have hwaits : ∀ y ∈ rest.erase x, y ∈ queue.listing d.view := by
      intro y hy
      rw [hrest.listing_eq]
      exact (List.mem_insertionSort _).mpr hy
    have hsame : ∀ {file : FlowFile}, ∀ y ∈ rest.erase x,
        Function.update d.view x file y = d.view y := fun y hy =>
      Function.update_of_ne (hothers y (hwaits y hy)) _ _
    have hlist : ∀ file, queue.listing (Function.update d.view x file) = queue.listing d.view :=
      fun file => by
        rw [(hrest.congr hsame).listing_eq, inOrder_congr hsame, ← hrest.listing_eq]
    refine ⟨hq.sound, hkinds, hcount, ⟨_, hrest.congr hsame⟩, ?_, ?_, ?_, fun y hy => ?_,
      fun y hy => ?_, ?_, fun y hy => ?_, h.ttl⟩
    · exact horder.trans (congrArg _ (hlist _).symm)
    · show d.expired ++ [x] = _
      rw [List.filter_append, List.filter_cons_of_pos hexpired, List.filter_nil, h.expired]
    · show d.remaining = _
      rw [List.filter_append, List.filter_cons_of_neg (by simp [hexpired]), List.filter_nil,
        List.append_nil, h.remaining]
    · show Function.update d.view x _ y = view y
      rw [List.mem_append, not_or, List.mem_singleton] at hy
      rw [Function.update_of_ne hy.2, h.untouched y hy.1]
    · show (Function.update d.view x _ y).getAttribute "expired" = some "true"
      rcases List.mem_append.mp hy with hy | hy
      · have hne : y ≠ x := by
          rw [h.expired] at hy
          exact hnew y (List.mem_of_mem_filter hy)
        rw [Function.update_of_ne hne]
        exact h.marked y hy
      · rw [List.mem_singleton.mp hy, Function.update_self,
          FlowFile.getAttribute_setAttribute_of_ne _ _ (by decide)]
        exact PyDict.get?_set_self _ _ _
    · show d.conn.totalBytes - (d.view x).size = _ - Books.bytesOf view (d.expired ++ [x])
      rw [h.bytes, hview, Books.bytesOf_append, Books.bytesOf_cons]
      simp [Books.bytesOf, sub_sub]
    · have hy : y ∈ queue.listing d.view := hlist _ ▸ hy
      show (d.conn.enqueueTimes.erase (d.view x).processId).get? (view y).processId = _
      rw [hview, PyDict.get?_erase, if_neg (hlater y hy)]
      exact h.times y (hlisting ▸ List.mem_cons_of_mem _ hy)
  · have hexpired := Bool.eq_false_iff.mpr (mt hjudged.mpr hlate)
    refine ⟨hq.sound, hkinds, hcount, ⟨_, hrest⟩, horder, ?_, ?_, h.untouched, h.marked, h.bytes,
      fun y hy => h.times y (hlisting ▸ List.mem_cons_of_mem _ hy), h.ttl⟩
    · show d.expired = _
      rw [List.filter_append, List.filter_cons_of_neg (by simp [hexpired]), List.filter_nil,
        List.append_nil, h.expired]
    · show d.remaining ++ [x] = _
      rw [List.filter_append, List.filter_cons_of_pos (by simp [hexpired]), List.filter_nil,
        h.remaining]

/-- `drain_expired` goes by the table. -/
structure DrainedByTable (view : α → FlowFile) (conn : Connection α) (now : Int) (d : Drain α) :
    Prop where
  expired : d.expired = (conn.queue.listing view).filter (expiredByTable view conn now)
  untouched : ∀ x, x ∉ d.expired → d.view x = view x
  marked : ∀ x ∈ d.expired, (d.view x).getAttribute "expired" = some "true"
  bytes : d.conn.totalBytes = conn.totalBytes - Books.bytesOf view d.expired
  rest : ∀ n, d.conn.queue.gets d.view n =
    ((conn.queue.listing view).filter fun x => !expiredByTable view conn now x).take n

theorem drainExpired_byTable {view : α → FlowFile} {conn : Connection α} {waiting : List α}
    (hwithin : conn.queue.Within) (hholds : conn.queue.Holds view waiting)
    (hids : ((conn.queue.listing view).map fun x => (view x).processId).Nodup)
    (httl : 0 < conn.flowfileTtlSeconds) (now : Int) :
    ∃ d, conn.drainExpired view now = some d ∧ DrainedByTable view conn now d := by
  have hstart : Sweep view conn now [] { view, conn } :=
    ⟨hwithin.toSound, ⟨rfl, rfl, rfl⟩, Nat.zero_add _, ⟨waiting, hholds⟩, rfl, rfl, rfl,
      fun _ _ => rfl, fun _ hx => absurd hx List.not_mem_nil, (sub_zero _).symm, fun _ _ => rfl, rfl⟩
  have hfuel : conn.flowfiles.length ≤ conn.queue.size.toNat := by
    rw [hwithin.size]
    exact Nat.le_refl _
  obtain ⟨d, hloop, ⟨taken, hd⟩, hnil⟩ := Books.loop_spec now
    (P := fun d => ∃ taken, Sweep view conn now taken d) (fun _ h => h.choose_spec.sound)
    (fun _ _ _ h hget => ⟨_, h.choose_spec.take hids hget⟩) ⟨[], hstart⟩ hfuel
  -- Nothing is left, so everything was taken.
  have hempty : d.conn.queue.listing d.view = [] := by
    have hperm := hd.sound.listing_perm d.view
    have hnil : d.conn.queue.flowfiles = [] := hnil
    rw [hnil] at hperm
    exact hperm.eq_nil
  have hall : taken = conn.queue.listing view := by
    rw [hd.order, hempty, List.append_nil]
  obtain ⟨rest, hrest⟩ := hd.holds
  have hrest : d.conn.queue.Holds d.view [] := by
    have hperm : d.conn.queue.inOrder d.view rest ~ rest := List.perm_insertionSort _ _
    rw [← hrest.listing_eq, hempty] at hperm
    rwa [hperm.symm.eq_nil] at hrest
  have hexpired := hall ▸ hd.expired
  have hremaining := hall ▸ hd.remaining
  have hroom : d.remaining ≠ [] →
      (d.conn.flowfiles.length + d.remaining.length : Int) ≤ d.conn.queue.maxSize := by
    intro hne
    have hlen : d.remaining.length ≤ (conn.queue.listing view).length := by
      rw [hremaining]
      exact List.length_filter_le _ _
    have hpos := List.length_pos_iff.mpr hne
    rw [(hwithin.toSound.listing_perm view).length_eq] at hlen
    have hfits := hwithin.fits (List.ne_nil_of_length_pos (by omega))
    rw [hnil, hd.kind.maxSize, List.length_nil]
    omega
  obtain ⟨hfold, -⟩ := Books.foldl_put d.view d.remaining d.conn hd.sound hroom
  have hconn : d.refill.conn = { d.conn with queue := d.conn.queue.pushAll d.view d.remaining } :=
    hfold
  have hfilled : d.refill.conn.queue.Holds d.view d.remaining := by
    rw [hconn]
    exact hrest.pushAll d.remaining
  have hkind : SameKind conn.queue d.refill.conn.queue := by
    rw [hconn]
    have hpushed := sameKind_pushAll (q := d.conn.queue) d.view d.remaining
    exact ⟨hpushed.type.trans hd.kind.type, hpushed.key.trans hd.kind.key,
      hpushed.maxSize.trans hd.kind.maxSize⟩
  have hlisting : d.refill.conn.queue.listing d.view = d.remaining := by
    have hsame : ∀ x ∈ d.remaining, d.view x = view x := by
      intro x hx
      refine hd.untouched x fun hmem => ?_
      rw [hremaining, List.mem_filter] at hx
      rw [hexpired, List.mem_filter] at hmem
      simp [hmem.2] at hx
    have hsorted : d.remaining.Pairwise (conn.queue.Before view) := by
      rw [hremaining, hholds.listing_eq]
      exact (List.pairwise_insertionSort _ _).filter _
    rw [hfilled.listing_eq, hkind.inOrder, inOrder_congr hsame]
    exact inOrder_of_pairwise hsorted
  refine ⟨d.refill, ?_, hexpired, hd.untouched, hd.marked, ?_, fun n => ?_⟩
  · rw [drainExpired, if_neg (not_le.mpr httl), hloop]
    rfl
  · rw [hconn]
    exact hd.bytes
  · show d.refill.conn.queue.gets d.view n = _
    rw [hfilled.gets, hlisting, hremaining]

end Sweep

/-! ## Runs -/

/-- A FlowFile in the queue, when it was put there, and whether `requeue` put it there. -/
structure Entry (α : Type*) where
  file : α
  since : Int
  requeued : Bool
deriving DecidableEq

/-- A connection with what waits in it, in the order in which it came. -/
structure Timed (α : Type*) where
  view : α → FlowFile
  conn : Connection α
  waiting : List (Entry α) := []

inductive Timed.Act (α : Type*)
  | enqueue (x : α) (now : Int)
  | dequeue
  | requeue (x : α) (now : Int)
  | remove (x : α)
  /-- FlowFiles outside of the queue change. -/
  | edit (view : α → FlowFile)

namespace Timed

/-- A new connection. -/
def new (view : α → FlowFile) (sourceId targetId relationship : String)
    (maxQueueBytes flowfileTtlSeconds maxSize : Int) (type : PrioritizerType) (key : String) :
    Timed α where
  view
  conn := { sourceId, targetId, relationship, maxQueueBytes, flowfileTtlSeconds,
            queue := { type, maxSize, priorityAttribute := key } }

def files (s : Timed α) : List α := s.waiting.map Entry.file

def leave (s : Timed α) (x : α) : List (Entry α) := s.waiting.eraseP fun e => e.file = x

def step (s : Timed α) : Act α → Option (Timed α)
  | .enqueue x now =>
    let (placed, conn) := s.conn.enqueue s.view now x
    some { s with conn, waiting := if placed then s.waiting ++ [⟨x, now, false⟩] else s.waiting }
  | .dequeue =>
    match s.conn.dequeue s.view with
    | (none, conn) => some { s with conn }
    | (some x, conn) => some { s with conn, waiting := s.leave x }
  | .requeue x now =>
    some { s with
      conn := s.conn.requeue s.view x
      waiting := if (s.conn.queue.put s.view x).1 then s.waiting ++ [⟨x, now, true⟩]
        else s.waiting }
  | .remove x =>
    match s.conn.remove s.view x with
    | (true, conn) => some { s with conn, waiting := s.leave x }
    | (false, conn) => some { s with conn }
  | .edit view => if ∀ x ∈ s.files, view x = s.view x then some { s with view } else none

/-- No queued FlowFile has the process id of one that is put into the queue. -/
def Fresh (s : Timed α) : Act α → Prop
  | .enqueue x _ | .requeue x _ => ∀ y ∈ s.files, (s.view y).processId ≠ (s.view x).processId
  | _ => True

instance (s : Timed α) : ∀ a : Act α, Decidable (s.Fresh a)
  | .enqueue _ _ | .requeue _ _ => inferInstanceAs (Decidable (∀ y ∈ s.files, _ ≠ _))
  | .dequeue | .remove _ | .edit _ => .isTrue trivial

/-- The FlowFile is in the queue for longer than the TTL. -/
def Late (s : Timed α) (now : Int) (x : α) : Prop :=
  ∃ e ∈ s.waiting, e.file = x ∧ s.conn.flowfileTtlSeconds < now - e.since

instance (s : Timed α) (now : Int) (x : α) : Decidable (s.Late now x) :=
  inferInstanceAs (Decidable (∃ e ∈ s.waiting, _))

/-- The FlowFiles in the order in which they are dequeued. -/
def inLine (s : Timed α) : List α := s.conn.queue.gets s.view s.waiting.length

/-- What `drain_expired` is for: the late FlowFiles leave, marked, with their bytes, and the others
stay in their order. -/
structure Drained (s : Timed α) (now : Int) (d : Drain α) : Prop where
  expired : d.expired = s.inLine.filter fun x => s.Late now x
  marked : ∀ x ∈ d.expired, (d.view x).getAttribute "expired" = some "true"
  untouched : ∀ x, x ∉ d.expired → d.view x = s.view x
  bytes : d.conn.totalBytes = s.conn.totalBytes - Books.bytesOf s.view d.expired
  rest : d.conn.queue.gets d.view s.waiting.length = s.inLine.filter fun x => ¬ s.Late now x

def DrainsRight (s : Timed α) (now : Int) : Prop :=
  ∃ d, s.conn.drainExpired s.view now = some d ∧ s.Drained now d

/-- The table has the times of the FlowFiles that `enqueue` put into the queue. -/
structure Inv (ttl : Int) (s : Timed α) : Prop where
  within : s.conn.queue.Within
  holds : s.conn.queue.Holds s.view s.files
  ids : (s.files.map fun x => (s.view x).processId).Nodup
  times : ∀ e ∈ s.waiting, s.conn.enqueueTimes.get? (s.view e.file).processId =
    if e.requeued then none else some e.since
  strays : ∀ id, (∀ x ∈ s.files, (s.view x).processId ≠ id) → s.conn.enqueueTimes.get? id = none
  running : s.conn.paused = false
  ttl : s.conn.flowfileTtlSeconds = ttl

variable {ttl : Int} {s s' : Timed α}

theorem files_leave (x : α) : (s.leave x).map Entry.file = s.files.erase x := by
  rw [leave, files, List.erase_eq_eraseP, List.eraseP_map]
  congr 2
  funext e
  simp [Bool.beq_eq_decide_eq, eq_comm]

omit [DecidableEq α] in
theorem Inv.nodup (h : Inv ttl s) : s.files.Nodup := h.ids.of_map _

variable {e : Entry α}

variable {x : α}

theorem Inv.mem_leave (h : Inv ttl s) (he : e ∈ s.leave x) : e ∈ s.waiting ∧ e.file ≠ x := by
  refine ⟨List.mem_of_mem_eraseP he, fun heq => ?_⟩
  have hmem : x ∈ s.files.erase x := by
    rw [← files_leave]
    exact List.mem_map.mpr ⟨e, he, heq⟩
  exact h.nodup.not_mem_erase hmem

omit [DecidableEq α] in
theorem Inv.eq_of_id (h : Inv ttl s) {y : α} (hx : x ∈ s.files) (hy : y ∈ s.files)
    (hid : (s.view x).processId = (s.view y).processId) : x = y :=
  List.inj_on_of_nodup_map h.ids hx hy hid

omit [DecidableEq α] in
theorem Inv.eq_of_file (h : Inv ttl s) {e' : Entry α} (he : e ∈ s.waiting) (he' : e' ∈ s.waiting)
    (hfile : e.file = e'.file) : e = e' :=
  List.inj_on_of_nodup_map h.nodup he he' hfile

omit [DecidableEq α] in
/-- A FlowFile came. -/
theorem Inv.arrive (h : Inv ttl s)
    (hnew : ∀ y ∈ s.files, (s.view y).processId ≠ (s.view e.file).processId)
    (hroom : s.conn.queue.isFull = false) {conn : Connection α}
    (hqueue : conn.queue = s.conn.queue.push s.view e.file)
    (htimes : conn.enqueueTimes = if e.requeued then s.conn.enqueueTimes
      else s.conn.enqueueTimes.set (s.view e.file).processId e.since)
    (hpaused : conn.paused = s.conn.paused)
    (httl : conn.flowfileTtlSeconds = s.conn.flowfileTtlSeconds) :
    Inv ttl { s with conn, waiting := s.waiting ++ [e] } := by
  have hfiles : (s.waiting ++ [e]).map Entry.file = s.files ++ [e.file] := List.map_append
  have hothers : ∀ id, id ≠ (s.view e.file).processId →
      conn.enqueueTimes.get? id = s.conn.enqueueTimes.get? id := by
    intro id hne
    rw [htimes]
    split_ifs
    · rfl
    · exact PyDict.get?_set_of_ne _ _ hne
  refine ⟨hqueue ▸ h.within.push hroom e.file, ?_, ?_, ?_, ?_, hpaused.trans h.running,
    httl.trans h.ttl⟩
  · show conn.queue.Holds s.view ((s.waiting ++ [e]).map Entry.file)
    rw [hqueue, hfiles]
    exact h.holds.push e.file
  · show (((s.waiting ++ [e]).map Entry.file).map fun x => (s.view x).processId).Nodup
    rw [hfiles, List.map_append, List.map_singleton, ← List.concat_eq_append, List.nodup_concat]
    refine ⟨fun hmem => ?_, h.ids⟩
    obtain ⟨y, hy, hid⟩ := List.mem_map.mp hmem
    exact hnew y hy hid
  · intro i hi
    show conn.enqueueTimes.get? (s.view i.file).processId = _
    rcases List.mem_append.mp hi with hi | hi
    · rw [hothers _ (hnew i.file (List.mem_map_of_mem hi)), h.times i hi]
    · rw [List.mem_singleton.mp hi, htimes]
      split_ifs
      · exact h.strays _ hnew
      · exact PyDict.get?_set_self _ _ _
  · intro id hid
    have hid : ∀ x ∈ s.files ++ [e.file], (s.view x).processId ≠ id := hfiles ▸ hid
    show conn.enqueueTimes.get? id = none
    rw [hothers id (hid e.file (List.mem_append_right _ List.mem_cons_self)).symm]
    exact h.strays id fun x hx => hid x (List.mem_append_left _ hx)

theorem Inv.depart (h : Inv ttl s) {queue : PrioritizedQueue α} (hx : x ∈ s.files)
    (hwithin : queue.Within) (hholds : queue.Holds s.view (s.files.erase x)) :
    Inv ttl { s with conn := s.conn.release s.view queue x, waiting := s.leave x } := by
  have hfiles : (s.leave x).map Entry.file = s.files.erase x := files_leave x
  have herase : ∀ id, (s.conn.release s.view queue x).enqueueTimes.get? id =
      if id = (s.view x).processId then none else s.conn.enqueueTimes.get? id := fun id =>
    PyDict.get?_erase _ _ _
  refine ⟨hwithin, ?_, ?_, ?_, ?_, h.running, h.ttl⟩
  · show queue.Holds s.view ((s.leave x).map Entry.file)
    rwa [hfiles]
  · show (((s.leave x).map Entry.file).map fun x => (s.view x).processId).Nodup
    rw [hfiles]
    exact h.ids.sublist (List.erase_sublist.map _)
  · intro e he
    obtain ⟨hwaits, hne⟩ := h.mem_leave he
    show (s.conn.release s.view queue x).enqueueTimes.get? (s.view e.file).processId = _
    rw [herase, if_neg fun hid => hne (h.eq_of_id (List.mem_map_of_mem hwaits) hx hid)]
    exact h.times e hwaits
  · intro id hid
    have hid : ∀ y ∈ s.files.erase x, (s.view y).processId ≠ id := hfiles ▸ hid
    show (s.conn.release s.view queue x).enqueueTimes.get? id = none
    rw [herase]
    split_ifs with heq
    · rfl
    · refine h.strays id fun y hy hyid => ?_
      rcases eq_or_ne y x with rfl | hne
      · exact heq hyid.symm
      · exact hid y ((List.mem_erase_of_ne hne).mpr hy) hyid

theorem Inv.enqueue (h : Inv ttl s) (httl : 0 < ttl) {now : Int}
    (hnew : ∀ y ∈ s.files, (s.view y).processId ≠ (s.view x).processId)
    (hs : s.step (.enqueue x now) = some s') : Inv ttl s' := by
  obtain rfl := Option.some.inj hs
  have hfst : (s.conn.enqueue s.view now x).1 = s.conn.admits (s.view x).size := enqueue_fst x
  show Inv ttl { s with
    conn := (s.conn.enqueue s.view now x).2
    waiting := if (s.conn.enqueue s.view now x).1 then s.waiting ++ [⟨x, now, false⟩]
      else s.waiting }
  rw [hfst]
  cases hadmits : s.conn.admits (s.view x).size with
  | false =>
    rw [enqueue_refused hadmits]
    exact h
  | true =>
    obtain ⟨hbytes, hroom⟩ : s.conn.totalBytes + ((s.view x).size : Int) ≤ s.conn.maxQueueBytes ∧
        s.conn.queue.isFull = false := by
      simpa [admits] using hadmits
    have hconn : (s.conn.enqueue s.view now x).2 = { s.conn with
        queue := s.conn.queue.push s.view x
        totalBytes := s.conn.totalBytes + (s.view x).size
        enqueueTimes := s.conn.enqueueTimes.set (s.view x).processId now } := by
      unfold Connection.enqueue PrioritizedQueue.put
      simp only [if_neg (not_lt.mpr hbytes), hroom, if_pos (h.ttl.symm ▸ httl), Bool.not_true,
        Bool.false_eq_true, if_false]
    rw [hconn]
    exact h.arrive hnew hroom rfl rfl rfl rfl

theorem Inv.requeue (h : Inv ttl s) {now : Int}
    (hnew : ∀ y ∈ s.files, (s.view y).processId ≠ (s.view x).processId)
    (hs : s.step (.requeue x now) = some s') : Inv ttl s' := by
  obtain rfl := Option.some.inj hs
  cases hroom : s.conn.queue.isFull with
  | true =>
    have hput : s.conn.queue.put s.view x = (false, s.conn.queue) := by
      rw [PrioritizedQueue.put, if_pos hroom]
    simp only [Connection.requeue, hput, Bool.false_eq_true, if_false]
    exact ⟨h.within, h.holds, h.ids, h.times, h.strays, h.running, h.ttl⟩
  | false =>
    have hput : s.conn.queue.put s.view x = (true, s.conn.queue.push s.view x) := by
      rw [PrioritizedQueue.put, hroom]
      rfl
    simp only [Connection.requeue, hput, if_true]
    exact h.arrive (e := ⟨x, now, true⟩) hnew hroom rfl rfl rfl rfl

theorem Inv.dequeue (h : Inv ttl s) (hs : s.step .dequeue = some s') : Inv ttl s' := by
  simp only [step, Connection.dequeue] at hs
  rw [if_neg (Bool.eq_false_iff.mp h.running)] at hs
  rcases h.within.toSound.get s.view with ⟨-, hget⟩ | ⟨x, queue, hget, hq⟩
  · rw [hget] at hs
    exact Option.some.inj hs ▸ h
  · rw [hget] at hs
    obtain rfl := Option.some.inj hs
    refine h.depart ?_ (hq.within h.within) (h.holds.get_snd hget).2
    have hfst := h.holds.get_fst
    rw [hget, h.holds.listing_eq] at hfst
    exact (List.mem_insertionSort _).mp (List.mem_of_mem_head? hfst.symm)

theorem Inv.remove (h : Inv ttl s) (hs : s.step (.remove x) = some s') : Inv ttl s' := by
  obtain ⟨hfst, -, hholds⟩ := h.holds.remove x
  simp only [step, Connection.remove] at hs
  rcases h.within.toSound.remove x with ⟨-, hno⟩ | ⟨queue, hyes, hq⟩
  · rw [hno] at hs
    exact Option.some.inj hs ▸ h
  · rw [hyes] at hs hfst hholds
    obtain rfl := Option.some.inj hs
    exact h.depart (of_decide_eq_true hfst.symm) (hq.within h.within) hholds

theorem step_inv (httl : 0 < ttl) {a : Act α} (h : Inv ttl s) (hnew : Fresh s a)
    (hs : s.step a = some s') : Inv ttl s' := by
  cases a with
  | enqueue x now => exact h.enqueue httl hnew hs
  | dequeue => exact h.dequeue hs
  | requeue x now => exact h.requeue hnew hs
  | remove x => exact h.remove hs
  | edit view =>
    simp only [step] at hs
    split_ifs at hs with hview
    obtain rfl := Option.some.inj hs
    have hids : s.files.map (fun x => (view x).processId) =
        s.files.map fun x => (s.view x).processId :=
      List.map_congr_left fun x hx => by rw [hview x hx]
    refine ⟨h.within, h.holds.congr hview, ?_, fun e he => ?_, fun id hid => ?_, h.running, h.ttl⟩
    · show (s.files.map fun x => (view x).processId).Nodup
      rw [hids]
      exact h.ids
    · show s.conn.enqueueTimes.get? (view e.file).processId = _
      rw [hview e.file (List.mem_map_of_mem he)]
      exact h.times e he
    · refine h.strays id fun x hx => ?_
      rw [← hview x hx]
      exact hid x hx

omit [DecidableEq α] in
theorem inv_new (view : α → FlowFile) (sourceId targetId relationship : String)
    (maxQueueBytes ttl maxSize : Int) (type : PrioritizerType) (key : String) :
    Inv ttl (new view sourceId targetId relationship maxQueueBytes ttl maxSize type key) where
  within := (Books.inv_new view sourceId targetId relationship maxQueueBytes ttl maxSize type
    key).within
  holds := PrioritizedQueue.Watched.empty_holds view type maxSize key
  ids := List.nodup_nil
  times _ he := absurd he List.not_mem_nil
  strays _ _ := rfl
  running := rfl
  ttl := rfl

/-! ### What a drain does -/

theorem Inv.inLine_eq (h : Inv ttl s) : s.inLine = s.conn.queue.listing s.view := by
  rw [inLine, h.holds.gets]
  refine List.take_of_length_le ?_
  have hperm : s.conn.queue.inOrder s.view s.files ~ s.files := List.perm_insertionSort _ _
  rw [h.holds.listing_eq, hperm.length_eq, files, List.length_map]

theorem Inv.mem_inLine (h : Inv ttl s) : x ∈ s.inLine ↔ x ∈ s.files := by
  rw [h.inLine_eq, h.holds.listing_eq]
  exact List.mem_insertionSort _

omit [DecidableEq α] in
theorem Inv.late_iff (h : Inv ttl s) (he : e ∈ s.waiting) (now : Int) :
    s.Late now e.file ↔ ttl < now - e.since := by
  constructor
  · rintro ⟨e', he', hfile, hlate⟩
    rw [h.eq_of_file he' he hfile, h.ttl] at hlate
    exact hlate
  · intro hlate
    exact ⟨e, he, rfl, h.ttl ▸ hlate⟩

omit [DecidableEq α] in
theorem Inv.expired_iff (h : Inv ttl s) (httl : 0 < ttl) (he : e ∈ s.waiting) (now : Int) :
    expiredByTable s.view s.conn now e.file = true ↔ e.requeued = false ∧ ttl < now - e.since := by
  unfold expiredByTable
  rw [decide_eq_true_iff, h.times e he, h.ttl]
  cases e.requeued with
  | true => simp [httl.le]
  | false => simp

theorem Inv.byTable (h : Inv ttl s) (httl : 0 < ttl) (now : Int) :
    ∃ d, s.conn.drainExpired s.view now = some d ∧ DrainedByTable s.view s.conn now d := by
  refine drainExpired_byTable h.within h.holds ?_ (h.ttl.symm ▸ httl) now
  have hperm : s.conn.queue.listing s.view ~ s.files := by
    rw [h.holds.listing_eq]
    exact List.perm_insertionSort _ _
  exact (hperm.map _).nodup_iff.mpr h.ids

theorem Inv.drainsRight_iff (h : Inv ttl s) (httl : 0 < ttl) (now : Int) :
    s.DrainsRight now ↔ ∀ e ∈ s.waiting, e.requeued = true → ¬ ttl < now - e.since := by
  obtain ⟨d, hdrain, hd⟩ := h.byTable httl now
  have hline := h.inLine_eq
  constructor
  · rintro ⟨d', hdrain', hd'⟩ e he hrequeued hlate
    obtain rfl : d = d' := Option.some.inj (hdrain.symm.trans hdrain')
    have hmem : e.file ∈ d.expired := by
      rw [hd'.expired, List.mem_filter, decide_eq_true_eq]
      exact ⟨h.mem_inLine.mpr (List.mem_map_of_mem he), (h.late_iff he now).mpr hlate⟩
    rw [hd.expired, List.mem_filter, h.expired_iff httl he, hrequeued] at hmem
    exact Bool.noConfusion hmem.2.1
  · intro hrequeued
    -- On what is queued the table and the time since the last put agree.
    have hagree : ∀ x ∈ s.conn.queue.listing s.view,
        expiredByTable s.view s.conn now x = decide (s.Late now x) := by
      intro x hx
      obtain ⟨e, he, rfl⟩ := List.mem_map.mp (h.mem_inLine.mp (hline ▸ hx))
      rw [Bool.eq_iff_iff, h.expired_iff httl he, decide_eq_true_eq, h.late_iff he]
      refine ⟨And.right, fun hlate => ⟨?_, hlate⟩⟩
      exact Bool.eq_false_iff.mpr fun hre => hrequeued e he hre hlate
    refine ⟨d, hdrain, ?_, hd.marked, hd.untouched, hd.bytes, ?_⟩
    · rw [hd.expired, hline]
      exact List.filter_congr hagree
    · have hlen : (s.conn.queue.listing s.view).length ≤ s.waiting.length := by
        rw [← hline, inLine, h.holds.gets]
        exact List.length_take_le _ _
      rw [hd.rest, hline, List.take_of_length_le ((List.length_filter_le _ _).trans hlen)]
      refine List.filter_congr fun x hx => ?_
      rw [hagree x hx, decide_not]

theorem inv_of_foldlM (httl : 0 < ttl) {acts : List (Act α)} {s₀ : Timed α} (h₀ : Inv ttl s₀)
    (hfresh : AllSteps step Fresh s₀ acts) (hs : acts.foldlM step s₀ = some s) : Inv ttl s :=
  (hfresh.allStates (Inv ttl) (fun _ h => h)
    (fun _ _ _ h hnew hs => step_inv httl h hnew hs) h₀).last hs

/-- A drain is right exactly if no FlowFile that `requeue` put into the queue is late. -/
theorem drainsRight_iff_requeued (view : α → FlowFile) (sourceId targetId relationship : String)
    (maxQueueBytes ttl maxSize : Int) (type : PrioritizerType) (key : String) (acts : List (Act α))
    (httl : 0 < ttl)
    (hfresh : AllSteps step Fresh
      (new view sourceId targetId relationship maxQueueBytes ttl maxSize type key) acts)
    {s : Timed α}
    (hs : acts.foldlM step
      (new view sourceId targetId relationship maxQueueBytes ttl maxSize type key) = some s)
    (now : Int) :
    s.DrainsRight now ↔ ∀ e ∈ s.waiting, e.requeued = true → ¬ ttl < now - e.since :=
  (inv_of_foldlM httl (inv_new ..) hfresh hs).drainsRight_iff httl now

def numbered (n : Nat) : FlowFile := { processId := toString n, content := [0] }

def tenSeconds : Timed Nat :=
  new numbered "a" "b" "success" 1000 10 10 .priorityAttribute "priority"

/-- Of two FlowFiles the one that waits for eleven seconds is drained. -/
theorem drainsRight_iff_requeued_tenSeconds :
    ∃ s, [.enqueue 0 0, .enqueue 1 5].foldlM step tenSeconds = some s ∧
      (s.DrainsRight 11 ↔ ∀ e ∈ s.waiting, e.requeued = true → ¬ 10 < 11 - e.since) :=
  ⟨_, rfl, drainsRight_iff_requeued numbered "a" "b" "success" 1000 10 10 .priorityAttribute
    "priority" [.enqueue 0 0, .enqueue 1 5] (by decide) (by decide +kernel) rfl 11⟩

/-- A FlowFile that came back after one second stays. -/
def backRun : List (Act Nat) := [.enqueue 0 0, .dequeue, .requeue 0 1]

theorem not_drainsRight_backRun :
    ∃ s, backRun.foldlM step tenSeconds = some s ∧
      (∃ e ∈ s.waiting, 10 < 100 - e.since) ∧
      ((s.conn.drainExpired s.view 100).any fun d => d.expired.isEmpty) ∧ ¬ s.DrainsRight 100 := by
  have hrun : (backRun.foldlM step tenSeconds).any fun s => (⟨0, 1, true⟩ : Entry Nat) ∈ s.waiting ∧
      ((s.conn.drainExpired s.view 100).any fun d => d.expired.isEmpty) := by
    decide +kernel
  obtain ⟨s, hs, hrun⟩ := (Option.any_eq_true _ _).mp hrun
  obtain ⟨hmem, hdrain⟩ := of_decide_eq_true hrun
  have hinv : Inv 10 s := inv_of_foldlM (by decide) (inv_new ..) (by decide +kernel) hs
  refine ⟨s, hs, ⟨_, hmem, by decide⟩, hdrain, fun h => ?_⟩
  exact (hinv.drainsRight_iff (by decide) 100).mp h _ hmem rfl (by decide)

end Timed

end PawFlow.Core
