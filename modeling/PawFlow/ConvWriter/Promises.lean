import PawFlow.ConvWriter.Loop

/-!
# What the conversation writer keeps

At most one writer of the conversation runs. What its thread holds, in order, is exactly what is
accepted and not through; a writer leaves with nothing in hand. The promises break at one place: an
item that is put after the thread has left.
-/

namespace PawFlow.ConvWriter

open PawFlow.Lib

/-! ## One turn of the thread -/

/-- The numbers of the items among the entries. -/
def idsOf (held : List Entry) : List Nat := held.filterMap Entry.id?

theorem idsOf_append (l l' : List Entry) : idsOf (l ++ l') = idsOf l ++ idsOf l' :=
  List.filterMap_append

theorem idsOf_map_writeEntry (l : List (Nat × Write)) : idsOf (l.map writeEntry) = l.map Prod.fst := by
  induction l with
  | nil => rfl
  | cons y l ih =>
    show y.1 :: idsOf (l.map writeEntry) = _
    rw [ih, List.map_cons]

/-- All a turn can do: what was held before, what is held after, the items it is through with, the
flush calls it wakes, its effects. -/
inductive Turned (w : Nat) :
    List Entry → List Entry → List Nat → List Nat → List Effect → Prop
  | stays (held : List Entry) : Turned w held held [] [] []
  | woke (call : Nat) (held : List Entry) : Turned w (.flush call :: held) held [] [call] []
  | published (id : Nat) (events : List String) (held : List Entry) :
      Turned w (.publishEvents id events :: held) held [id] [] (publishSseEvents w id events)
  /-- A run is written; the first `k` of its items are done with. -/
  | wrote (run : List (Nat × Write)) (k : Nat) (held : List Entry) (hk : 0 < k) :
      Turned w (run.map writeEntry ++ held) ((run.drop k).map writeEntry ++ held)
        ((run.take k).map Prod.fst) [] [.write w (run.map Prod.fst)]
  | wrotePublished (id : Nat) (x : Write) (held : List Entry) :
      Turned w (.write id x :: held) held [id] [] [.write w [id], .publish w id]

/-- Every turn lowers it. -/
def Phase.weight : Phase → Nat
  | .waiting => 0
  | .collecting batch => 2 * batch.length + 3
  | .writing todo post flushes => todo.length + post.length + flushes.length + 1

def Writer.weight (x : Writer) : Nat := 6 * x.queue.length + x.phase.weight

theorem Turned.writeOne (w id : Nat) (x : Write) (held : List Entry) :
    Turned w (.write id x :: held) held [id] [] [.write w [id]] :=
  .wrote [(id, x)] 1 held Nat.one_pos

theorem Turned.writeAndPublish (w id : Nat) (x : Write) (held : List Entry) (b : Bool) :
    Turned w (.write id x :: held) held [id] []
      (.write w [id] :: if b then publishSseEvents w id x.events else []) := by
  cases b with
  | false => exact .writeOne w id x held
  | true =>
    by_cases he : x.events = []
    · simpa [publishSseEvents, he] using Turned.writeOne w id x held
    · simpa [publishSseEvents, he] using Turned.wrotePublished id x held

theorem runAfter_isStart (x : Write) (rest : List (Nat × Write)) : runAfter x rest <+: rest :=
  List.takeWhile_prefix _

theorem runAfter_append_drop (x : Write) (rest : List (Nat × Write)) :
    rest = runAfter x rest ++ rest.drop (runAfter x rest).length :=
  (List.prefix_iff_eq_append.mp (runAfter_isStart x rest)).symm

/-- A turn of the loop over the batch. -/
theorem writeItem_turned (w id : Nat) (x : Write) (rest : List (Nat × Write)) (ok inserted : Bool)
    (held : List Entry) :
    Turned w (((id, x) :: rest).map writeEntry ++ held)
        ((writeItem w id x rest ok inserted).1.map writeEntry ++ held)
        ((((id, x) :: rest).take
          (rest.length + 1 - (writeItem w id x rest ok inserted).1.length)).map Prod.fst) []
        (writeItem w id x rest ok inserted).2 ∧
      (writeItem w id x rest ok inserted).1.length ≤ rest.length := by
  have hone : ((id, x) :: rest).take (rest.length + 1 - rest.length) = [(id, x)] := by
    rw [Nat.add_sub_cancel_left, List.take_one]
    rfl
  cases hop : x.op with
  | patchMessage =>
    simp only [writeItem, hop, hone]
    exact ⟨.writeOne w id x _, le_rfl⟩
  | appendMessageIfAbsent =>
    simp only [writeItem, hop, hone]
    exact ⟨.writeAndPublish w id x _ _, le_rfl⟩
  | appendMessagesIfAbsent =>
    simp only [writeItem, hop, hone]
    exact ⟨.writeAndPublish w id x _ _, le_rfl⟩
  | appendMessage =>
    by_cases he : x.events = []
    · have hsplit := runAfter_append_drop x rest
      have hlen : (runAfter x rest).length ≤ rest.length :=
        (runAfter_isStart x rest).length_le
      have hheld : rest.map writeEntry ++ held = (runAfter x rest).map writeEntry ++
          ((rest.drop (runAfter x rest).length).map writeEntry ++ held) := by
        conv_lhs => rw [hsplit]
        rw [List.map_append, List.append_assoc]
      cases ok with
      | false =>
        -- The run failed: only its first item is done with.
        simp only [writeItem, hop, he, if_true, Bool.false_eq_true, if_false, hone]
        refine ⟨?_, le_rfl⟩
        have := Turned.wrote (w := w) ((id, x) :: runAfter x rest) 1
          ((rest.drop (runAfter x rest).length).map writeEntry ++ held) Nat.one_pos
        simpa [hheld] using this
      | true =>
        have htake : rest.length + 1 - (rest.drop (runAfter x rest).length).length =
            (runAfter x rest).length + 1 := by
          rw [List.length_drop]
          omega
        have hrun : ((id, x) :: rest).take ((runAfter x rest).length + 1) =
            (id, x) :: runAfter x rest := by
          rw [List.take_succ_cons, ← List.prefix_iff_eq_take.mp (runAfter_isStart x rest)]
        simp only [writeItem, hop, he, if_true, htake, hrun]
        refine ⟨?_, by simp⟩
        have := Turned.wrote (w := w) ((id, x) :: runAfter x rest)
          ((runAfter x rest).length + 1)
          ((rest.drop (runAfter x rest).length).map writeEntry ++ held) (Nat.succ_pos _)
        simpa [hheld] using this
    · simp only [writeItem, hop, he, if_false, hone]
      exact ⟨.writeAndPublish w id x _ _, le_rfl⟩

variable {inserted : Bool} {before : List Entry} {marks : List Nat}

theorem Writer.turn_spec {x : Writer} {w : Nat} {ok : Bool} {r : Turn}
    (h : x.turn w ok inserted = some r) :
    Turned w x.held r.writer.held r.through r.woken r.effects ∧ r.writer.alive = x.alive ∧
      r.writer.weight < x.weight := by
  obtain ⟨queue, alive, phase⟩ := x
  cases phase with
  | waiting =>
    cases queue with
    | nil => simp [Writer.turn] at h
    | cons e queue =>
      cases e with
      | flush call =>
        obtain rfl := Option.some.inj h
        exact ⟨.woke call _, rfl, by simp [Writer.weight]⟩
      | publishEvents id events =>
        obtain rfl := Option.some.inj h
        exact ⟨.published id events _, rfl, by simp [Writer.weight]⟩
      | write id y =>
        obtain rfl := Option.some.inj h
        exact ⟨.stays _, rfl, by simp [Writer.weight, Phase.weight]; omega⟩
  | collecting batch =>
    -- Whatever the batch takes in is still held, in the same order.
    have stays : ∀ x' : Writer, x'.held = (Writer.mk queue alive (.collecting batch)).held →
        Turned w (Writer.mk queue alive (.collecting batch)).held x'.held [] [] [] :=
      fun x' heq => heq ▸ .stays _
    unfold Writer.turn at h
    dsimp only at h
    split at h
    · cases queue with
      | nil =>
        obtain rfl := Option.some.inj h
        exact ⟨stays _ (by simp [Writer.held, Phase.held]), rfl,
          by simp only [Writer.weight, Phase.weight, List.length_nil]; omega⟩
      | cons e queue =>
        cases e with
        | flush call =>
          obtain rfl := Option.some.inj h
          exact ⟨stays _ (by simp [Writer.held, Phase.held]), rfl,
            by simp only [Writer.weight, Phase.weight, List.length_cons, List.length_nil]
               omega⟩
        | publishEvents id events =>
          obtain rfl := Option.some.inj h
          exact ⟨stays _ (by simp [Writer.held, Phase.held, postEntry]), rfl,
            by simp only [Writer.weight, Phase.weight, List.length_cons, List.length_nil]
               omega⟩
        | write id y =>
          obtain rfl := Option.some.inj h
          by_cases hy : y.hasEvents = true
          · exact ⟨stays _ (by simp [Writer.held, Phase.held, writeEntry, hy]), rfl,
              by simp only [Writer.weight, hy, if_true, Phase.weight, List.length_cons,
                   List.length_append, List.length_nil]
                 omega⟩
          · exact ⟨stays _ (by simp [Writer.held, Phase.held, writeEntry, hy]), rfl,
              by simp only [Writer.weight, hy, Bool.false_eq_true, if_false, Phase.weight,
                   List.length_cons, List.length_append, List.length_nil]
                 omega⟩
    · obtain rfl := Option.some.inj h
      exact ⟨stays _ (by simp [Writer.held, Phase.held]), rfl,
        by simp only [Writer.weight, Phase.weight, List.length_nil]; omega⟩
  | writing todo post flushes =>
    cases todo with
    | cons y rest =>
      obtain ⟨id, y⟩ := y
      obtain rfl : r =
          { writer := ⟨queue, alive,
              .writing (writeItem w id y rest ok inserted).1 post flushes⟩
            through := (((id, y) :: rest).take
              (rest.length + 1 - (writeItem w id y rest ok inserted).1.length)).map Prod.fst
            effects := (writeItem w id y rest ok inserted).2 } := (Option.some.inj h).symm
      obtain ⟨hturned, hlen⟩ := writeItem_turned w id y rest ok inserted
        (post.map postEntry ++ flushes.map .flush ++ queue)
      refine ⟨?_, rfl, ?_⟩
      · simpa only [Writer.held, Phase.held, List.append_assoc] using hturned
      · simp only [Writer.weight, Phase.weight, List.length_cons]
        omega
    | nil =>
      cases post with
      | cons y post =>
        obtain rfl := Option.some.inj h
        exact ⟨.published y.1 y.2 _, rfl, by simp [Writer.weight, Phase.weight]⟩
      | nil =>
        cases flushes with
        | cons call flushes =>
          obtain rfl := Option.some.inj h
          exact ⟨.woke call _, rfl, by simp [Writer.weight, Phase.weight]⟩
        | nil =>
          obtain rfl := Option.some.inj h
          exact ⟨.stays _, rfl, by simp [Writer.weight, Phase.weight]⟩

theorem Writer.held_of_turn_eq_none {x : Writer} {w : Nat} {ok : Bool}
    (h : x.turn w ok inserted = none) : x.held = [] := by
  obtain ⟨queue, alive, phase⟩ := x
  cases phase with
  | waiting =>
    cases queue with
    | nil => rfl
    | cons e queue => cases e <;> simp [Writer.turn] at h
  | collecting batch =>
    unfold Writer.turn at h
    dsimp only at h
    split at h
    · cases queue with
      | nil => simp at h
      | cons e queue => cases e <;> simp at h
    · simp at h
  | writing todo post flushes =>
    cases todo with
    | cons y rest => simp [Writer.turn] at h
    | nil => cases post <;> cases flushes <;> simp [Writer.turn] at h

/-! ### What a turn leaves in hand -/

theorem Turned.ids {w : Nat} {after : List Entry} {through woken : List Nat}
    {effects : List Effect} (h : Turned w before after through woken effects) :
    idsOf before = through ++ idsOf after := by
  cases h with
  | stays => rfl
  | woke => rfl
  | published => rfl
  | wrote run k =>
    rw [idsOf_append, idsOf_append, idsOf_map_writeEntry, idsOf_map_writeEntry,
      ← List.append_assoc, ← List.map_append, List.take_append_drop]
  | wrotePublished => rfl

theorem Turned.suffix {w : Nat} {after : List Entry} {through woken : List Nat}
    {effects : List Effect} (h : Turned w before after through woken effects) :
    ∃ gone, before = gone ++ after := by
  cases h with
  | stays => exact ⟨[], rfl⟩
  | woke call => exact ⟨[_], rfl⟩
  | published => exact ⟨[_], rfl⟩
  | wrote run k =>
    refine ⟨(run.take k).map writeEntry, ?_⟩
    rw [← List.append_assoc, ← List.map_append, List.take_append_drop]
  | wrotePublished => exact ⟨[_], rfl⟩

/-! ## The invariant -/

/-- So many items were accepted before the flush call. -/
def Marked (marks : List Nat) (call n : Nat) : Prop := ∃ mark ∈ marks[call]?, mark ≤ n

/-- Writers, queues and effects. -/
structure Core (s : State) : Prop where
  unmade : ∀ w, s.fresh ≤ w → s.writers w = none
  /-- Only the registered writer runs. -/
  only : ∀ w, ∀ x ∈ s.writers w, x.alive = true → s.registered = some w
  through_eq : s.through = List.range s.through.length
  through_le : s.through.length ≤ s.accepted.length
  /-- What is not through is in the hands of the running writer, in order. -/
  numbered : ∀ w, ∀ x ∈ s.writers w, x.alive = true →
    s.through ++ idsOf x.held = List.range s.accepted.length
  none_left : (∀ w, ∀ x ∈ s.writers w, x.alive = false) → s.through.length = s.accepted.length
  owned : ∀ w, ∀ x ∈ s.writers w, x.alive = true → ∀ e ∈ x.held, ∀ id ∈ e.id?,
    ∃ p ∈ s.accepted[id]?, p.writer = w ∧ e = p.item.entry id
  processed : ∀ id ∈ s.through, ∀ p ∈ s.accepted[id]?, match p.item with
    | .write _ => Attempted s.log id
    | .publishEvents events => events = [] ∨ .publish p.writer id ∈ s.log
  log_in_place : InPlace s.accepted s.log
  behind : ∀ w, ∀ x ∈ s.writers w, x.alive = true → ∀ before call after,
    x.held = before ++ .flush call :: after →
      ∃ mark ∈ s.marks[call]?, mark ≤ s.accepted.length ∧ ∀ id ∈ idsOf after, mark ≤ id
  woken : ∀ call ∈ s.woken, Marked s.marks call s.through.length

structure Inv (s : State) : Prop extends Core s where
  returned : ∀ call, (call, true) ∈ s.returned → Marked s.marks call s.through.length
  flushing : ∀ c w call, s.callers c = .flushing w call → Marked s.marks call s.accepted.length ∧
    ∀ x ∈ s.writers w, x.alive = false → Marked s.marks call s.through.length
  draining : ∀ c w call, s.callers c = .draining w call → Marked s.marks call s.accepted.length

theorem Inv.init : Inv {} where
  unmade _ _ := rfl
  only _ _ hx := by simp at hx
  through_eq := rfl
  through_le := le_rfl
  numbered _ _ hx := by simp at hx
  none_left _ := rfl
  owned _ _ hx := by simp at hx
  processed _ hid := by simp at hid
  log_in_place := .nil
  behind _ _ hx := by simp at hx
  woken _ hcall := by simp at hcall
  returned _ hcall := by simp at hcall
  flushing _ _ _ hc := by simp at hc
  draining _ _ _ hc := by simp at hc

variable {n id : Nat}

theorem Marked.mono {call m : Nat} (h : Marked marks call n) (hn : n ≤ m) :
    Marked marks call m := by
  obtain ⟨mark, hmark, hle⟩ := h
  exact ⟨mark, hmark, hle.trans hn⟩

theorem mem_getElem?_append {α : Type*} {l l' : List α} {i : Nat} {a : α} (h : a ∈ l[i]?) :
    a ∈ (l ++ l')[i]? := by
  rw [List.getElem?_append_left (List.getElem?_eq_some_iff.mp h).1]
  exact h

theorem Marked.append {call : Nat} (h : Marked marks call n)
    (more : List Nat) : Marked (marks ++ more) call n := by
  obtain ⟨mark, hmark, hle⟩ := h
  exact ⟨mark, mem_getElem?_append hmark, hle⟩

/-! ### More items are accepted -/

variable {accepted : List Accepted} {log : List Effect} {t : State}

theorem isWrite_append_iff {more : List Accepted} (h : id < accepted.length) :
    IsWrite (accepted ++ more) id ↔ IsWrite accepted id := by
  rw [IsWrite, IsWrite, List.getElem?_append_left h]

theorem Fits.append {e : Effect}
    (h : Fits accepted log e) (more : List Accepted) : Fits (accepted ++ more) log e := by
  have hlt : ∀ id ∈ e.ids, id < accepted.length := by
    intro id hid
    obtain ⟨p, hp, -⟩ := h.owner id hid
    exact (List.getElem?_eq_some_iff.mp hp).1
  refine ⟨?_, ?_, h.sorted, ?_⟩
  · intro id hid
    obtain ⟨p, hp, hw⟩ := h.owner id hid
    exact ⟨p, mem_getElem?_append hp, hw⟩
  · intro id hid j hj hwrite
    exact h.earlier id hid j hj ((isWrite_append_iff (hj.trans (hlt id hid))).mp hwrite)
  · rintro w id rfl hwrite
    have hid : id ∈ (Effect.publish w id).ids := List.mem_singleton_self id
    exact h.after_write w id rfl ((isWrite_append_iff (hlt id hid)).mp hwrite)

theorem InPlace.append (h : InPlace accepted log)
    (more : List Accepted) : InPlace (accepted ++ more) log := by
  induction h with
  | nil => exact .nil
  | snoc _ hfits ih => exact ih.snoc (hfits.append more)

theorem Attempted.append (h : Attempted log id)
    (more : List Effect) : Attempted (log ++ more) id := by
  obtain ⟨w, ids, hmem, hid⟩ := h
  exact ⟨w, ids, List.mem_append_left _ hmem, hid⟩

/-! ### A turn -/

theorem eq_range_of_append {l l' : List Nat} (h : l ++ l' = List.range n) :
    l = List.range l.length := by
  have hle : l.length ≤ n := by
    have := congrArg List.length h
    rw [List.length_append, List.length_range] at this
    omega
  calc l = (l ++ l').take l.length := (List.take_left' rfl).symm
    _ = List.range l.length := by rw [h, List.take_range, Nat.min_eq_left hle]

section Turn

variable {s : State} {w : Nat} {x : Writer}

variable {back : List Nat}

variable {id : Nat}

theorem Core.lt_of_held (h : Core s) (hx : x ∈ s.writers w) (ha : x.alive = true)
    {front : List Nat} (hids : idsOf x.held = front ++ back) {j : Nat} (hid : id ∈ front)
    (hj : j ∈ back) : id < j := by
  have hsorted : (s.through ++ (front ++ back)).Pairwise (· < ·) := by
    rw [← hids, h.numbered w x hx ha]
    exact List.pairwise_lt_range
  have := (List.pairwise_append.mp (List.pairwise_append.mp hsorted).2.1).2.2
  exact this id hid j hj

theorem Core.mem_through_or_held (h : Core s) (hx : x ∈ s.writers w) (ha : x.alive = true)
    {j : Nat} (hj : j < s.accepted.length) : j ∈ s.through ∨ j ∈ idsOf x.held := by
  rw [← List.mem_append, h.numbered w x hx ha]
  exact List.mem_range.mpr hj

theorem Core.attempted_of_through (h : Core s) (hid : id ∈ s.through)
    (hwrite : IsWrite s.accepted id) : Attempted s.log id := by
  obtain ⟨p, hp, y, hy⟩ := hwrite
  simpa [hy] using h.processed id hid p hp

theorem Core.owner_of_held (h : Core s) (hx : x ∈ s.writers w) (ha : x.alive = true)
    (hid : id ∈ idsOf x.held) : ∃ p ∈ s.accepted[id]?, p.writer = w := by
  obtain ⟨e, he, heid⟩ := List.mem_filterMap.mp hid
  obtain ⟨p, hp, hw, -⟩ := h.owned w x hx ha e he id heid
  exact ⟨p, hp, hw⟩

theorem Core.fits_write (h : Core s) (hx : x ∈ s.writers w) (ha : x.alive = true)
    {run : List Nat} (hids : idsOf x.held = run ++ back) :
    Fits s.accepted s.log (.write w run) where
  owner id hid := h.owner_of_held hx ha (hids ▸ List.mem_append_left _ hid)
  earlier id hid j hj hwrite := by
    obtain ⟨p, hp, hitem⟩ := hwrite
    rcases h.mem_through_or_held hx ha (List.getElem?_eq_some_iff.mp hp).1 with hj' | hj'
    · exact .inl (h.attempted_of_through hj' ⟨p, hp, hitem⟩)
    · rw [hids] at hj'
      rcases List.mem_append.mp hj' with hj' | hj'
      · exact .inr hj'
      · exact absurd (h.lt_of_held hx ha hids hid hj') (Nat.lt_asymm hj)
  sorted := by
    have hsorted : (s.through ++ (run ++ back)).Pairwise (· < ·) := by
      rw [← hids, h.numbered w x hx ha]
      exact List.pairwise_lt_range
    exact (List.pairwise_append.mp (List.pairwise_append.mp hsorted).2.1).1
  after_write _ _ heq := by cases heq

theorem Core.fits_publish (h : Core s) (hx : x ∈ s.writers w) (ha : x.alive = true)
    (hids : idsOf x.held = id :: back) {more : List Effect}
    (hown : IsWrite s.accepted id → Attempted (s.log ++ more) id) :
    Fits s.accepted (s.log ++ more) (.publish w id) where
  owner j hj := by
    obtain rfl := List.mem_singleton.mp hj
    exact h.owner_of_held hx ha (hids ▸ List.mem_cons_self)
  earlier j hj k hk hwrite := by
    obtain rfl := List.mem_singleton.mp hj
    obtain ⟨p, hp, hwrite⟩ := hwrite
    rcases h.mem_through_or_held hx ha (List.getElem?_eq_some_iff.mp hp).1 with hk' | hk'
    · exact .inl ((h.attempted_of_through hk' ⟨p, hp, hwrite⟩).append more)
    · rw [hids] at hk'
      rcases List.mem_cons.mp hk' with rfl | hk'
      · exact absurd hk (lt_irrefl _)
      · have hids' : idsOf x.held = [j] ++ back := hids
        exact absurd (h.lt_of_held hx ha hids' (List.mem_singleton_self j) hk') (Nat.lt_asymm hk)
  sorted := List.pairwise_singleton _ _
  after_write v j heq hwrite := by
    cases heq
    exact hown hwrite

variable {after : List Entry} {through woken : List Nat} {effects : List Effect}

theorem Core.in_place_turned (h : Core s) (hx : x ∈ s.writers w) (ha : x.alive = true)
    (ht : Turned w x.held after through woken effects) : InPlace s.accepted (s.log ++ effects) := by
  have hnil := h.log_in_place
  generalize hb : x.held = before at ht
  cases ht with
  | stays => rwa [List.append_nil]
  | woke => rwa [List.append_nil]
  | published id events =>
    have hids : idsOf x.held = id :: idsOf after := hb ▸ rfl
    by_cases he : events = []
    · rwa [publishSseEvents, if_pos he, List.append_nil]
    · rw [publishSseEvents, if_neg he]
      refine hnil.snoc ?_
      rw [← List.append_nil s.log]
      refine h.fits_publish hx ha hids ?_
      · -- The item is one of `enqueue_sse_events`, so there is nothing to be written.
        rintro ⟨p, hp, y, hy⟩
        obtain ⟨p', hp', -, heq⟩ := h.owned w x hx ha (.publishEvents id events)
          (by simp [hb]) id rfl
        obtain rfl := Option.mem_unique hp hp'
        simp [hy, Item.entry] at heq
  | wrote run k rest hk =>
    have hids : idsOf x.held = run.map Prod.fst ++ idsOf rest := by
      rw [hb, idsOf_append, idsOf_map_writeEntry]
    exact hnil.snoc (h.fits_write hx ha hids)
  | wrotePublished id y =>
    have hids : idsOf x.held = [id] ++ idsOf after := hb ▸ rfl
    have hwritten := hnil.snoc (h.fits_write hx ha hids)
    have := hwritten.snoc (h.fits_publish hx ha hids fun _ =>
      ⟨w, [id], List.mem_append_right _ (List.mem_singleton_self _), List.mem_singleton_self id⟩)
    simpa using this

/-- What is through now has been written or published. -/
theorem Core.processed_turned (h : Core s) (hx : x ∈ s.writers w) (ha : x.alive = true)
    (ht : Turned w x.held after through woken effects) :
    ∀ id ∈ s.through ++ through, ∀ p ∈ s.accepted[id]?, match p.item with
      | .write _ => Attempted (s.log ++ effects) id
      | .publishEvents events => events = [] ∨ .publish p.writer id ∈ s.log ++ effects := by
  intro id hid p hp
  rcases List.mem_append.mp hid with hid | hid
  · have hold := h.processed id hid p hp
    cases hitem : p.item with
    | write y =>
      simp only [hitem] at hold ⊢
      exact hold.append effects
    | publishEvents events =>
      simp only [hitem] at hold ⊢
      exact hold.imp_right (List.mem_append_left _)
  · generalize hb : x.held = before at ht
    have howned := h.owned w x hx ha
    rw [hb] at howned
    cases ht with
    | stays => cases hid
    | woke => cases hid
    | published id' events =>
      obtain rfl := List.mem_singleton.mp hid
      obtain ⟨p', hp', hw, heq⟩ := howned _ List.mem_cons_self id rfl
      obtain rfl := Option.mem_unique hp hp'
      cases hitem : p.item with
      | write y => simp [hitem, Item.entry] at heq
      | publishEvents events' =>
        simp only [hitem, Item.entry, Entry.publishEvents.injEq, true_and] at heq
        subst heq
        by_cases he : events = []
        · exact .inl he
        · refine .inr (List.mem_append_right _ ?_)
          rw [publishSseEvents, if_neg he, hw]
          exact List.mem_singleton_self _
    | wrote run k rest =>
      obtain ⟨y, hy, rfl⟩ := List.mem_map.mp hid
      have hrun : y ∈ run := List.mem_of_mem_take hy
      obtain ⟨p', hp', -, heq⟩ := howned (writeEntry y)
        (List.mem_append_left _ (List.mem_map_of_mem hrun)) y.1 rfl
      obtain rfl := Option.mem_unique hp hp'
      cases hitem : p.item with
      | write z =>
        exact ⟨w, run.map Prod.fst, List.mem_append_right _ (List.mem_singleton_self _),
          List.mem_map_of_mem hrun⟩
      | publishEvents events => simp [hitem, Item.entry, writeEntry] at heq
    | wrotePublished id' y =>
      obtain rfl := List.mem_singleton.mp hid
      obtain ⟨p', hp', -, heq⟩ := howned _ List.mem_cons_self id rfl
      obtain rfl := Option.mem_unique hp hp'
      cases hitem : p.item with
      | write z =>
        exact ⟨w, [id], List.mem_append_right _ List.mem_cons_self, List.mem_singleton_self id⟩
      | publishEvents events => simp [hitem, Item.entry] at heq

theorem Core.woken_turned (h : Core s) (hx : x ∈ s.writers w) (ha : x.alive = true)
    (ht : Turned w x.held after through woken effects) :
    ∀ call ∈ woken, Marked s.marks call (s.through ++ through).length := by
  intro call hcall
  generalize hb : x.held = before at ht
  cases ht with
  | stays => cases hcall
  | published => cases hcall
  | wrote => cases hcall
  | wrotePublished => cases hcall
  | woke call' =>
    obtain rfl := List.mem_singleton.mp hcall
    obtain ⟨mark, hmark, hle, hafter⟩ := h.behind w x hx ha [] call after hb
    refine ⟨mark, hmark, ?_⟩
    have hids : idsOf x.held = idsOf after := by
      rw [hb]
      rfl
    rw [List.append_nil]
    -- The first number after the flush call is the number of items that are through.
    by_contra hlt
    have hmem := h.mem_through_or_held hx ha (j := s.through.length) (by omega)
    rcases hmem with hmem | hmem
    · rw [h.through_eq, List.mem_range, List.length_range] at hmem
      exact lt_irrefl _ hmem
    · exact hlt (hafter _ (hids ▸ hmem))

theorem Core.turn (h : Core s) (hx : x ∈ s.writers w) (ha : x.alive = true) {r : Turn}
    (ht : Turned w x.held r.writer.held r.through r.woken r.effects)
    (halive : r.writer.alive = x.alive) : Core (s.applyTurn w r) := by
  have hlive : ∀ v, ∀ y ∈ (s.applyTurn w r).writers v, y.alive = true →
      v = w ∧ y = r.writer := by
    intro v y hy hya
    by_cases hv : v = w
    · subst hv
      simp only [State.applyTurn, State.setWriter, Function.update_self, Option.mem_some_iff] at hy
      exact ⟨rfl, hy.symm⟩
    · have hold : y ∈ s.writers v := by
        simpa [State.applyTurn, State.setWriter, hv] using hy
      exact absurd (Option.some.inj ((h.only v y hold hya).symm.trans (h.only w x hx ha))) hv
  have hnumbered : s.through ++ r.through ++ idsOf r.writer.held =
      List.range s.accepted.length := by
    rw [List.append_assoc, ← ht.ids]
    exact h.numbered w x hx ha
  have hrange := eq_range_of_append hnumbered
  refine ⟨?_, ?_, hrange, ?_, ?_, ?_, ?_, h.processed_turned hx ha ht, h.in_place_turned hx ha ht,
    ?_, ?_⟩
  · intro v hv
    have hne : v ≠ w := by
      rintro rfl
      have := h.unmade v hv
      rw [Option.mem_def.mp hx] at this
      cases this
    simpa [State.applyTurn, State.setWriter, hne] using h.unmade v hv
  · intro v y hy hya
    obtain ⟨rfl, -⟩ := hlive v y hy hya
    exact h.only v x hx ha
  · have := congrArg List.length hnumbered
    rw [List.length_append, List.length_range] at this
    show (s.through ++ r.through).length ≤ s.accepted.length
    omega
  · intro v y hy hya
    obtain ⟨rfl, rfl⟩ := hlive v y hy hya
    exact hnumbered
  · intro hdead
    have := hdead w r.writer (by simp [State.applyTurn, State.setWriter])
    rw [halive, ha] at this
    cases this
  · intro v y hy hya e he
    obtain ⟨rfl, rfl⟩ := hlive v y hy hya
    obtain ⟨gone, hgone⟩ := ht.suffix
    exact h.owned v x hx ha e (hgone ▸ List.mem_append_right _ he)
  · intro v y hy hya before call after heq
    obtain ⟨rfl, rfl⟩ := hlive v y hy hya
    obtain ⟨gone, hgone⟩ := ht.suffix
    refine h.behind v x hx ha (gone ++ before) call after ?_
    rw [hgone, heq, List.append_assoc]
  · intro call hcall
    rcases List.mem_append.mp hcall with hcall | hcall
    · refine (h.woken call hcall).mono ?_
      show s.through.length ≤ (s.through ++ r.through).length
      rw [List.length_append]
      omega
    · exact h.woken_turned hx ha ht call hcall

end Turn

/-! ### The other steps -/

section Steps

variable {s : State} {w c call : Nat} {x : Writer}

theorem Core.setPc (h : Core s) (pc : Pc) : Core (s.setPc c pc) := { h with }

theorem Core.giveBack (h : Core s) (result : Bool) : Core (s.giveBack c call result) := { h with }

theorem Core.refuse (h : Core s) (hx : x ∈ s.writers w) (ha : x.alive = false) :
    Core (s.refuse w) :=
  { h with
    only := by
      intro v y hy hya
      have hreg := h.only v y hy hya
      have hne : s.registered ≠ some w := by
        intro heq
        obtain rfl := Option.some.inj (hreg.symm.trans heq)
        obtain rfl := Option.mem_unique hx hy
        exact absurd (ha.symm.trans hya) (by decide)
      simpa [State.refuse, hne] using hreg }

theorem Core.startFlush (h : Core s) : Core (s.startFlush c w) :=
  { h with
    behind := by
      intro v y hy hya before call after heq
      obtain ⟨mark, hmark, hrest⟩ := h.behind v y hy hya before call after heq
      exact ⟨mark, mem_getElem?_append hmark, hrest⟩
    woken := fun call hcall => (h.woken call hcall).append _ }

/-- Without a running writer nothing is left to do, and a new one starts with nothing in hand. -/
theorem Core.create (h : Core s) (hdead : ∀ v, ∀ y ∈ s.writers v, y.alive = false) :
    Core { s.setWriter s.fresh {} with fresh := s.fresh + 1, registered := some s.fresh } := by
  have hall : s.through = List.range s.accepted.length := h.none_left hdead ▸ h.through_eq
  have hlive : ∀ v, ∀ y ∈ (s.setWriter s.fresh {}).writers v, y.alive = true →
      v = s.fresh ∧ y = {} := by
    intro v y hy hya
    by_cases hv : v = s.fresh
    · subst hv
      simp only [State.setWriter, Function.update_self, Option.mem_some_iff] at hy
      exact ⟨rfl, hy.symm⟩
    · have hold : y ∈ s.writers v := by simpa [State.setWriter, hv] using hy
      exact absurd ((hdead v y hold).symm.trans hya) (by decide)
  refine ⟨?_, ?_, h.through_eq, h.through_le, ?_, fun _ => h.none_left hdead, ?_, h.processed,
    h.log_in_place, ?_, h.woken⟩
  · intro v hv
    have hv' : s.fresh + 1 ≤ v := hv
    have hne : v ≠ s.fresh := by omega
    simpa [State.setWriter, hne] using h.unmade v (by omega)
  · intro v y hy hya
    obtain ⟨rfl, -⟩ := hlive v y hy hya
    rfl
  · intro v y hy hya
    obtain ⟨-, rfl⟩ := hlive v y hy hya
    show s.through ++ [] = _
    rw [List.append_nil]
    exact hall
  · intro v y hy hya e he
    obtain ⟨-, rfl⟩ := hlive v y hy hya
    cases he
  · intro v y hy hya before call after heq
    obtain ⟨-, rfl⟩ := hlive v y hy hya
    have : [] = before ++ .flush call :: after := heq
    simp at this

theorem Core.forConversation (h : Core s) : Core s.forConversation := by
  unfold State.forConversation
  split
  · exact h
  · next hnone =>
    refine h.create fun v y hy => Bool.eq_false_of_not_eq_true fun hya => hnone ?_
    rw [h.only v y hy hya]
    simp [Option.mem_def.mp hy, hya]

/-- The item is the last one in the hands of the running writer. -/
theorem Core.put (h : Core s) (hx : x ∈ s.writers w) (ha : x.alive = true) (item : Item) :
    Core (s.put c w item x) := by
  have hlive : ∀ v, ∀ y ∈ (s.put c w item x).writers v, y.alive = true →
      v = w ∧ y = { x with queue := x.queue ++ [item.entry s.accepted.length] } := by
    intro v y hy hya
    by_cases hv : v = w
    · subst hv
      simp only [State.put, State.setPc, State.setWriter, Function.update_self,
        Option.mem_some_iff] at hy
      exact ⟨rfl, hy.symm⟩
    · have hold : y ∈ s.writers v := by
        simpa [State.put, State.setPc, State.setWriter, hv] using hy
      exact absurd (Option.some.inj ((h.only v y hold hya).symm.trans (h.only w x hx ha))) hv
  have hid : (item.entry s.accepted.length).id? = some s.accepted.length := by
    cases item <;> rfl
  have hheld : ({ x with queue := x.queue ++ [item.entry s.accepted.length] } : Writer).held =
      x.held ++ [item.entry s.accepted.length] := by
    simp [Writer.held]
  have hids : idsOf (x.held ++ [item.entry s.accepted.length]) =
      idsOf x.held ++ [s.accepted.length] := by
    simp [idsOf, hid]
  have hlen : (s.accepted ++ [(⟨w, c, item⟩ : Accepted)]).length = s.accepted.length + 1 := by simp
  refine ⟨?_, ?_, h.through_eq, ?_, ?_, ?_, ?_, ?_, h.log_in_place.append _, ?_, h.woken⟩
  · intro v hv
    have hne : v ≠ w := by
      rintro rfl
      have := h.unmade v hv
      rw [Option.mem_def.mp hx] at this
      cases this
    simpa [State.put, State.setPc, State.setWriter, hne] using h.unmade v hv
  · intro v y hy hya
    obtain ⟨rfl, -⟩ := hlive v y hy hya
    exact h.only v x hx ha
  · exact h.through_le.trans (by simp [State.put])
  · intro v y hy hya
    obtain ⟨rfl, rfl⟩ := hlive v y hy hya
    show s.through ++ _ = List.range (s.accepted ++ [_]).length
    rw [hheld, hids, ← List.append_assoc, h.numbered v x hx ha, hlen, List.range_succ]
  · intro hdead
    have := hdead w { x with queue := x.queue ++ [item.entry s.accepted.length] }
      (by simp [State.put, State.setPc, State.setWriter])
    exact absurd (ha.symm.trans this) (by decide)
  · intro v y hy hya e he
    obtain ⟨rfl, rfl⟩ := hlive v y hy hya
    rw [hheld] at he
    intro id heid
    rcases List.mem_append.mp he with he | he
    · obtain ⟨p, hp, hrest⟩ := h.owned v x hx ha e he id heid
      exact ⟨p, mem_getElem?_append hp, hrest⟩
    · obtain rfl := List.mem_singleton.mp he
      obtain rfl := Option.some.inj (hid.symm.trans heid)
      exact ⟨⟨v, c, item⟩, by simp [State.put], rfl, rfl⟩
  · intro id hid' p hp
    have hlt : id < s.accepted.length := by
      have : id < s.through.length := by
        have hmem : id ∈ s.through := hid'
        rw [h.through_eq] at hmem
        exact List.mem_range.mp hmem
      exact this.trans_le h.through_le
    have hold : p ∈ s.accepted[id]? := by
      have hp' : p ∈ (s.accepted ++ [⟨w, c, item⟩])[id]? := hp
      rwa [List.getElem?_append_left hlt] at hp'
    exact h.processed id hid' p hold
  · intro v y hy hya before call after heq
    obtain ⟨rfl, rfl⟩ := hlive v y hy hya
    rw [hheld] at heq
    -- The item goes behind every flush call, and no flush call is marked beyond it.
    rcases List.eq_nil_or_concat after with rfl | ⟨after', e, rfl⟩
    · have := (List.append_inj_right' heq rfl)
      simp only [List.cons.injEq, and_true] at this
      rw [this] at hid
      simp [Entry.id?] at hid
    · rw [List.concat_eq_append, ← List.cons_append, ← List.append_assoc] at heq
      obtain ⟨hheld', he⟩ := List.append_inj' heq rfl
      obtain ⟨mark, hmark, hle, hafter⟩ := h.behind v x hx ha before call after' hheld'
      refine ⟨mark, hmark, hle.trans (by simp [State.put]), ?_⟩
      intro id hid'
      rw [List.concat_eq_append, ← he, idsOf_append] at hid'
      rcases List.mem_append.mp hid' with hid' | hid'
      · exact hafter id hid'
      · simp only [idsOf, List.filterMap_cons, hid, List.filterMap_nil, List.mem_singleton] at hid'
        exact hid' ▸ hle

/-- A flush call goes to the end of a queue, perhaps of a dead writer. -/
theorem Core.putFlush (h : Core s) (hx : x ∈ s.writers w)
    (hmark : Marked s.marks call s.accepted.length) :
    Core ((s.setWriter w { x with queue := x.queue ++ [.flush call] }).setPc c (.awaiting call)) := by
  have hnew : ∀ v, ∀ y ∈ ((s.setWriter w { x with queue := x.queue ++ [.flush call] }).setPc c
      (.awaiting call)).writers v, y.alive = true → ∃ z ∈ s.writers v, z.alive = true ∧
        (y.held = z.held ∨ y.held = z.held ++ [.flush call]) := by
    intro v y hy hya
    by_cases hv : v = w
    · subst hv
      simp only [State.setPc, State.setWriter, Function.update_self, Option.mem_some_iff] at hy
      subst hy
      exact ⟨x, hx, hya, .inr (by simp [Writer.held])⟩
    · refine ⟨y, ?_, hya, .inl rfl⟩
      simpa [State.setPc, State.setWriter, hv] using hy
  have hids : ∀ held : List Entry, idsOf (held ++ [.flush call]) = idsOf held := by
    intro held
    rw [idsOf_append]
    exact List.append_nil _
  refine ⟨?_, ?_, h.through_eq, h.through_le, ?_, ?_, ?_, h.processed, h.log_in_place, ?_,
    h.woken⟩
  · intro v hv
    have hne : v ≠ w := by
      rintro rfl
      have := h.unmade v hv
      rw [Option.mem_def.mp hx] at this
      cases this
    simpa [State.setPc, State.setWriter, hne] using h.unmade v hv
  · intro v y hy hya
    obtain ⟨z, hz, hza, -⟩ := hnew v y hy hya
    exact h.only v z hz hza
  · intro v y hy hya
    obtain ⟨z, hz, hza, heq | heq⟩ := hnew v y hy hya
    · rw [heq]
      exact h.numbered v z hz hza
    · rw [heq, hids]
      exact h.numbered v z hz hza
  · intro hdead
    refine h.none_left fun v y hy => ?_
    by_cases hv : v = w
    · subst hv
      obtain rfl := Option.mem_unique hx hy
      exact hdead v { x with queue := x.queue ++ [.flush call] }
        (by simp [State.setPc, State.setWriter])
    · exact hdead v y (by simpa [State.setPc, State.setWriter, hv] using hy)
  · intro v y hy hya e he id hid
    obtain ⟨z, hz, hza, heq | heq⟩ := hnew v y hy hya
    · exact h.owned v z hz hza e (heq ▸ he) id hid
    · rw [heq] at he
      rcases List.mem_append.mp he with he | he
      · exact h.owned v z hz hza e he id hid
      · obtain rfl := List.mem_singleton.mp he
        cases hid
  · intro v y hy hya before call' after heq
    obtain ⟨z, hz, hza, hheld | hheld⟩ := hnew v y hy hya
    · exact h.behind v z hz hza before call' after (hheld ▸ heq)
    · rw [hheld] at heq
      rcases List.eq_nil_or_concat after with rfl | ⟨after', e, rfl⟩
      · have := List.append_inj_right' heq rfl
        simp only [List.cons.injEq, Entry.flush.injEq, and_true] at this
        obtain ⟨mark, hmark, hle⟩ := hmark
        exact ⟨mark, this ▸ hmark, hle, fun id hid => by cases hid⟩
      · rw [List.concat_eq_append, ← List.cons_append, ← List.append_assoc] at heq
        obtain ⟨hheld', he⟩ := List.append_inj' heq rfl
        obtain ⟨mark, hmark, hle, hafter⟩ := h.behind v z hz hza before call' after' hheld'
        refine ⟨mark, hmark, hle, fun id hid => hafter id ?_⟩
        rwa [List.concat_eq_append, ← he, hids] at hid

/-- A thread leaves with nothing in hand. -/
theorem Core.leave (h : Core s) (hx : x ∈ s.writers w) (ha : x.alive = true)
    (hphase : x.phase = .waiting) : Core (s.leave w x) ∧
      (x.queue = [] → s.through.length = s.accepted.length) := by
  by_cases hq : x.queue = []
  · have hheld : x.held = [] := by simp [Writer.held, hphase, hq, Phase.held]
    have hall : s.through.length = s.accepted.length := by
      have := congrArg List.length (h.numbered w x hx ha)
      simpa [hheld, idsOf] using this
    have hdead : ∀ v, ∀ y ∈ (s.setWriter w { x with alive := false }).writers v,
        y.alive = false := by
      intro v y hy
      by_cases hv : v = w
      · subst hv
        simp only [State.setWriter, Function.update_self, Option.mem_some_iff] at hy
        subst hy
        rfl
      · have hold : y ∈ s.writers v := by simpa [State.setWriter, hv] using hy
        refine Bool.eq_false_of_not_eq_true fun hya => hv ?_
        exact Option.some.inj ((h.only v y hold hya).symm.trans (h.only w x hx ha))
    refine ⟨?_, fun _ => hall⟩
    rw [State.leave, if_pos hq]
    have hnot : ∀ v, ∀ y ∈ (s.setWriter w { x with alive := false }).writers v,
        y.alive ≠ true := fun v y hy hya => absurd ((hdead v y hy).symm.trans hya) (by decide)
    refine ⟨?_, fun v y hy hya => absurd hya (hnot v y hy), h.through_eq, h.through_le,
      fun v y hy hya => absurd hya (hnot v y hy), fun _ => hall,
      fun v y hy hya => absurd hya (hnot v y hy), h.processed, h.log_in_place,
      fun v y hy hya => absurd hya (hnot v y hy), h.woken⟩
    intro v hv
    have hne : v ≠ w := by
      rintro rfl
      have := h.unmade v hv
      rw [Option.mem_def.mp hx] at this
      cases this
    simpa [State.setWriter, hne] using h.unmade v hv
  · rw [State.leave, if_neg hq]
    exact ⟨h, fun hq' => absurd hq' hq⟩

end Steps

/-! ### Calls -/

/-- What the place of a caller says about its flush call. -/
def PcOk (s : State) : Pc → Prop
  | .flushing w call => Marked s.marks call s.accepted.length ∧
      ∀ x ∈ s.writers w, x.alive = false → Marked s.marks call s.through.length
  | .draining _ call => Marked s.marks call s.accepted.length
  | _ => True

theorem Inv.pcOk {s : State} (h : Inv s) (c : Nat) : PcOk s (s.callers c) := by
  cases hc : s.callers c with
  | flushing w call => exact h.flushing c w call hc
  | draining w call => exact h.draining c w call hc
  | idle => trivial
  | checked => trivial
  | awaiting => trivial

/-- A step that keeps the core keeps the invariant, if the callers it moves are in place and a
writer only dies with nothing left. -/
theorem Inv.of_core {s : State} (h : Inv s) (ht : Core t)
    (hmarks : ∃ more, t.marks = s.marks ++ more) (hthrough : s.through.length ≤ t.through.length)
    (haccepted : s.accepted.length ≤ t.accepted.length)
    (hreturned : ∀ call, (call, true) ∈ t.returned →
      (call, true) ∈ s.returned ∨ Marked t.marks call t.through.length)
    (hcallers : ∀ c, t.callers c = s.callers c ∨ PcOk t (t.callers c))
    (hdead : ∀ w, ∀ y ∈ t.writers w, y.alive = false →
      (∃ x ∈ s.writers w, x.alive = false) ∨ t.through.length = t.accepted.length) :
    Inv t := by
  obtain ⟨more, hmarks⟩ := hmarks
  have hok : ∀ c, PcOk t (t.callers c) := by
    intro c
    rcases hcallers c with hsame | hok
    · have hold := h.pcOk c
      rw [hsame]
      cases hc : s.callers c with
      | flushing w call =>
        rw [hc] at hold
        have hmark : Marked t.marks call t.accepted.length :=
          hmarks ▸ (hold.1.mono haccepted).append more
        refine ⟨hmark, fun y hy hya => ?_⟩
        rcases hdead w y hy hya with ⟨x, hx, hxa⟩ | hall
        · exact hmarks ▸ ((hold.2 x hx hxa).mono hthrough).append more
        · exact hall ▸ hmark
      | draining w call =>
        rw [hc] at hold
        have hmark : Marked t.marks call t.accepted.length :=
          hmarks ▸ (Marked.mono hold haccepted).append more
        exact hmark
      | idle => trivial
      | checked => trivial
      | awaiting => trivial
    · exact hok
  refine { ht with returned := ?_, flushing := ?_, draining := ?_ }
  · intro call hcall
    rcases hreturned call hcall with hold | hnew
    · exact hmarks ▸ ((h.returned call hold).mono hthrough).append more
    · exact hnew
  · intro c w call hc
    have := hok c
    rwa [hc] at this
  · intro c w call hc
    have := hok c
    rwa [hc] at this

section Calls

variable {s : State} {c w call : Nat} {x : Writer}

theorem callers_update (pc : Pc) (d : Nat) :
    Function.update s.callers c pc d = s.callers d ∨
      Function.update s.callers c pc d = pc := by
  by_cases hd : d = c
  · subst hd
    exact .inr (Function.update_self _ _ _)
  · exact .inl (Function.update_of_ne hd _ _)

theorem Inv.setPc (h : Inv s) {pc : Pc} (hpc : PcOk s pc) : Inv (s.setPc c pc) := by
  refine h.of_core (h.toCore.setPc pc) ⟨[], (List.append_nil _).symm⟩ le_rfl le_rfl
    (fun _ hcall => .inl hcall) (fun d => ?_) (fun v y hy hya => .inl ⟨y, hy, hya⟩)
  rcases callers_update pc d with hd | hd
  · exact .inl hd
  · refine .inr ?_
    show PcOk s (Function.update s.callers c pc d)
    rwa [hd]

theorem Inv.giveBack (h : Inv s) {result : Bool}
    (hresult : result = true → Marked s.marks call s.through.length) :
    Inv (s.giveBack c call result) := by
  refine h.of_core (h.toCore.giveBack result) ⟨[], (List.append_nil _).symm⟩ le_rfl le_rfl
    (fun call' hcall => ?_) (fun d => ?_) (fun v y hy hya => .inl ⟨y, hy, hya⟩)
  · rcases List.mem_append.mp hcall with hold | hnew
    · exact .inl hold
    · obtain ⟨rfl, hr⟩ := Prod.mk.inj (List.mem_singleton.mp hnew)
      exact .inr (hresult hr.symm)
  · rcases callers_update .idle d with hd | hd
    · exact .inl hd
    · refine .inr ?_
      show PcOk _ (Function.update s.callers c .idle d)
      rw [hd]
      trivial

theorem Inv.refuse (h : Inv s) (hx : x ∈ s.writers w) (ha : x.alive = false) : Inv (s.refuse w) :=
  h.of_core (h.toCore.refuse hx ha) ⟨[], (List.append_nil _).symm⟩ le_rfl le_rfl
    (fun _ hcall => .inl hcall) (fun _ => .inl rfl) (fun _ y hy hya => .inl ⟨y, hy, hya⟩)

theorem Inv.startFlush (h : Inv s) (hx : x ∈ s.writers w) (ha : x.alive = true) :
    Inv (s.startFlush c w) := by
  refine h.of_core h.toCore.startFlush ⟨[s.accepted.length], rfl⟩ le_rfl le_rfl
    (fun _ hcall => .inl hcall) (fun d => ?_) (fun v y hy hya => .inl ⟨y, hy, hya⟩)
  rcases callers_update (.flushing w s.marks.length) d with hd | hd
  · exact .inl hd
  · refine .inr ?_
    show PcOk _ (Function.update s.callers c (.flushing w s.marks.length) d)
    rw [hd]
    refine ⟨⟨s.accepted.length, by simp [State.startFlush], le_rfl⟩, fun y hy hya => ?_⟩
    obtain rfl := Option.mem_unique hx hy
    exact absurd (ha.symm.trans hya) (by decide)

theorem Inv.forConversation (h : Inv s) : Inv s.forConversation := by
  have hcore := h.toCore.forConversation
  unfold State.forConversation at hcore ⊢
  split
  · exact h
  · next hnone =>
    rw [if_neg hnone] at hcore
    refine h.of_core hcore ⟨[], (List.append_nil _).symm⟩ le_rfl le_rfl
      (fun _ hcall => .inl hcall) (fun _ => .inl rfl) (fun v y hy hya => ?_)
    by_cases hv : v = s.fresh
    · subst hv
      simp only [State.setWriter, Function.update_self, Option.mem_some_iff] at hy
      subst hy
      cases hya
    · exact .inl ⟨y, by simpa [State.setWriter, hv] using hy, hya⟩

theorem Inv.put (h : Inv s) (hx : x ∈ s.writers w) (ha : x.alive = true) (item : Item) :
    Inv (s.put c w item x) := by
  refine h.of_core (h.toCore.put hx ha item) ⟨[], (List.append_nil _).symm⟩ le_rfl
    (by simp [State.put]) (fun _ hcall => .inl hcall) (fun d => ?_) (fun v y hy hya => ?_)
  · rcases callers_update .idle d with hd | hd
    · exact .inl hd
    · refine .inr ?_
      rw [show (s.put c w item x).callers d = .idle from hd]
      trivial
  · by_cases hv : v = w
    · subst hv
      simp only [State.put, State.setPc, State.setWriter, Function.update_self,
        Option.mem_some_iff] at hy
      subst hy
      exact absurd (ha.symm.trans hya) (by decide)
    · exact .inl ⟨y, by simpa [State.put, State.setPc, State.setWriter, hv] using hy, hya⟩

theorem Inv.putFlush (h : Inv s) (hc : s.callers c = .draining w call) (hx : x ∈ s.writers w) :
    Inv ((s.setWriter w { x with queue := x.queue ++ [.flush call] }).setPc c
      (.awaiting call)) := by
  refine h.of_core (h.toCore.putFlush hx (h.draining c w call hc))
    ⟨[], (List.append_nil _).symm⟩ le_rfl le_rfl (fun _ hcall => .inl hcall) (fun d => ?_)
    (fun v y hy hya => ?_)
  · rcases callers_update (.awaiting call) d with hd | hd
    · exact .inl hd
    · refine .inr ?_
      have hd' : ((s.setWriter w { x with queue := x.queue ++ [.flush call] }).setPc c
          (.awaiting call)).callers d = .awaiting call := hd
      rw [hd']
      trivial
  · by_cases hv : v = w
    · subst hv
      simp only [State.setPc, State.setWriter, Function.update_self, Option.mem_some_iff] at hy
      subst hy
      exact .inl ⟨x, hx, hya⟩
    · exact .inl ⟨y, by simpa [State.setPc, State.setWriter, hv] using hy, hya⟩

theorem Inv.turn (h : Inv s) (hx : x ∈ s.writers w) (ha : x.alive = true) {ok inserted : Bool}
    {r : Turn} (hr : x.turn w ok inserted = some r) : Inv (s.applyTurn w r) := by
  obtain ⟨hturned, halive, -⟩ := Writer.turn_spec hr
  refine h.of_core (h.toCore.turn hx ha hturned halive) ⟨[], (List.append_nil _).symm⟩
    (by simp [State.applyTurn]) le_rfl (fun _ hcall => .inl hcall) (fun _ => .inl rfl)
    (fun v y hy hya => ?_)
  by_cases hv : v = w
  · subst hv
    simp only [State.applyTurn, State.setWriter, Function.update_self, Option.mem_some_iff] at hy
    subst hy
    exact absurd ((halive.trans ha).symm.trans hya) (by decide)
  · exact .inl ⟨y, by simpa [State.applyTurn, State.setWriter, hv] using hy, hya⟩

theorem Inv.leave (h : Inv s) (hx : x ∈ s.writers w) (ha : x.alive = true)
    (hphase : x.phase = .waiting) : Inv (s.leave w x) := by
  obtain ⟨hcore, hall⟩ := h.toCore.leave hx ha hphase
  by_cases hq : x.queue = []
  · rw [State.leave, if_pos hq] at hcore ⊢
    exact h.of_core hcore ⟨[], (List.append_nil _).symm⟩ le_rfl le_rfl
      (fun _ hcall => .inl hcall) (fun _ => .inl rfl) (fun _ _ _ _ => .inr (hall hq))
  · rw [State.leave, if_neg hq]
    exact h

end Calls

/-- **Step lemma.** -/
theorem Inv.of_step {s : State} {a : Act} (h : Inv s) (hok : InTime s a)
    (hstep : step s a = some t) : Inv t := by
  cases a with
  | forConversation =>
    obtain rfl := Option.some.inj hstep
    exact h.forConversation
  | enqueue c w item =>
    simp only [step, Option.ite_none_right_eq_some, Option.map_eq_some_iff] at hstep
    obtain ⟨-, x, hx, rfl⟩ := hstep
    split
    · exact h.setPc trivial
    · next ha => exact h.refuse hx (Bool.eq_false_of_not_eq_true ha)
  | put c =>
    cases hc : s.callers c with
    | checked w item =>
      simp only [step, hc, Option.map_eq_some_iff] at hstep
      obtain ⟨x, hx, rfl⟩ := hstep
      exact h.put hx (hok w item hc x hx) item
    | _ => simp [step, hc] at hstep
  | flush c w =>
    simp only [step, Option.ite_none_right_eq_some, Option.map_eq_some_iff] at hstep
    obtain ⟨-, x, hx, rfl⟩ := hstep
    split
    · next ha => exact h.startFlush hx ha
    · next ha => exact h.refuse hx (Bool.eq_false_of_not_eq_true ha)
  | drain c =>
    cases hc : s.callers c with
    | flushing w call =>
      simp only [step, hc, Option.map_eq_some_iff] at hstep
      obtain ⟨x, hx, rfl⟩ := hstep
      obtain ⟨hmark, hdead⟩ := h.flushing c w call hc
      split
      · exact h.setPc hmark
      · next ha => exact h.giveBack fun _ => hdead x hx (Bool.eq_false_of_not_eq_true ha)
    | _ => simp [step, hc] at hstep
  | putFlush c =>
    cases hc : s.callers c with
    | draining w call =>
      simp only [step, hc, Option.map_eq_some_iff] at hstep
      obtain ⟨x, hx, rfl⟩ := hstep
      exact h.putFlush hc hx
    | _ => simp [step, hc] at hstep
  | wake c =>
    cases hc : s.callers c with
    | awaiting call =>
      simp only [step, hc, Option.ite_none_right_eq_some, Option.some.injEq] at hstep
      obtain ⟨hwoken, rfl⟩ := hstep
      exact h.giveBack fun _ => h.woken call hwoken
    | _ => simp [step, hc] at hstep
  | timeout c =>
    cases hc : s.callers c with
    | awaiting call =>
      simp only [step, hc, Option.some.injEq] at hstep
      obtain rfl := hstep
      exact h.giveBack (by simp)
    | _ => simp [step, hc] at hstep
  | turn w ok inserted =>
    obtain ⟨x, hx, hstep⟩ := Option.bind_eq_some_iff.mp hstep
    simp only [Option.ite_none_right_eq_some, Option.map_eq_some_iff] at hstep
    obtain ⟨ha, r, hr, rfl⟩ := hstep
    exact h.turn hx ha hr
  | leave w =>
    obtain ⟨x, hx, hstep⟩ := Option.bind_eq_some_iff.mp hstep
    simp only [Option.ite_none_right_eq_some, Option.some.injEq] at hstep
    obtain ⟨⟨ha, hphase⟩, rfl⟩ := hstep
    exact h.leave hx ha hphase

/-! ## Completion -/

theorem turns_succ (w n : Nat) (outcomes : Nat → Bool × Bool) :
    turns w (n + 1) outcomes =
      .turn w (outcomes 0).1 (outcomes 0).2 :: turns w n (fun k => outcomes (k + 1)) := by
  simp [turns, List.range_succ_eq_map, Function.comp_def]

theorem Core.lt_of_mem_through {s : State} (h : Core s) (hid : id ∈ s.through) :
    id < s.accepted.length := by
  rw [h.through_eq] at hid
  exact (List.mem_range.mp hid).trans_le h.through_le

theorem Core.completes {s : State} {w : Nat} {x : Writer} (h : Core s) (hx : x ∈ s.writers w)
    (ha : x.alive = true) (outcomes : Nat → Bool × Bool) :
    ∃ n t, (turns w n outcomes).foldlM step s = some t ∧
      ∀ id < s.accepted.length, id ∈ t.through := by
  induction hweight : x.weight using Nat.strong_induction_on generalizing s x outcomes with
  | _ weight ih =>
    cases hr : x.turn w (outcomes 0).1 (outcomes 0).2 with
    | none =>
      refine ⟨0, s, rfl, fun id hid => ?_⟩
      have hheld := Writer.held_of_turn_eq_none hr
      rcases h.mem_through_or_held hx ha hid with hmem | hmem
      · exact hmem
      · rw [hheld] at hmem
        cases hmem
    | some r =>
      obtain ⟨hturned, halive, hless⟩ := Writer.turn_spec hr
      have hmem : r.writer ∈ (s.applyTurn w r).writers w := by
        simp [State.applyTurn, State.setWriter]
      obtain ⟨n, t, ht, hall⟩ := ih r.writer.weight (hweight ▸ hless)
        (h.turn hx ha hturned halive) hmem (halive.trans ha) (fun k => outcomes (k + 1)) rfl
      refine ⟨n + 1, t, ?_, hall⟩
      rw [turns_succ, List.foldlM_cons]
      have hstep : step s (.turn w (outcomes 0).1 (outcomes 0).2) = some (s.applyTurn w r) := by
        simp [step, Option.mem_def.mp hx, ha, hr]
      rw [hstep]
      exact ht

theorem Inv.promises {s : State} (h : Inv s) : Promises s where
  in_order := by
    rw [h.through_eq]
    refine List.prefix_iff_eq_take.mpr ?_
    rw [List.length_range, List.take_range, Nat.min_eq_left h.through_le]
  processed := h.processed
  log_in_place := h.log_in_place
  completes := by
    intro outcomes
    by_cases halive : ∃ w, ∃ x ∈ s.writers w, x.alive = true
    · obtain ⟨w, x, hx, ha⟩ := halive
      exact ⟨w, h.toCore.completes hx ha outcomes⟩
    · have hdead : ∀ w, ∀ x ∈ s.writers w, x.alive = false := fun w x hx =>
        Bool.eq_false_of_not_eq_true fun ha => halive ⟨w, x, hx, ha⟩
      refine ⟨0, 0, s, rfl, fun id hid => ?_⟩
      rw [h.through_eq, h.none_left hdead]
      exact List.mem_range.mpr hid
  flushed := by
    intro call hcall
    obtain ⟨mark, hmark, hle⟩ := h.returned call hcall
    refine ⟨mark, hmark, fun id hid => ?_⟩
    rw [h.through_eq]
    exact List.mem_range.mpr (hid.trans_le hle)

/-! ## An item put too late -/

theorem through_turns {w : Nat} {outcomes : Nat → Bool × Bool} {s : State}
    (h : (turns w n outcomes).foldlM step s = some t) (hid : id ∈ t.through) :
    id ∈ s.through ∨ ∃ x ∈ s.writers w, x.alive = true ∧ id ∈ idsOf x.held := by
  induction n generalizing outcomes s with
  | zero =>
    obtain rfl := Option.some.inj h
    exact .inl hid
  | succ n ih =>
    rw [turns_succ] at h
    obtain ⟨u, hu, hrest⟩ := Option.bind_eq_some_iff.mp h
    obtain ⟨x, hx, hu⟩ := Option.bind_eq_some_iff.mp hu
    simp only [Option.ite_none_right_eq_some, Option.map_eq_some_iff] at hu
    obtain ⟨ha, r, hr, rfl⟩ := hu
    have hids := (Writer.turn_spec hr).1.ids
    rcases ih hrest with hmem | ⟨y, hy, -, hmem⟩
    · refine (List.mem_append.mp hmem).imp_right fun hmem => ⟨x, hx, ha, ?_⟩
      rw [hids]
      exact List.mem_append_left _ hmem
    · simp only [State.applyTurn, State.setWriter, Function.update_self,
        Option.mem_some_iff] at hy
      subst hy
      refine .inr ⟨x, hx, ha, ?_⟩
      rw [hids]
      exact List.mem_append_right _ hmem

/-- An item put into the queue of a writer that has left is never processed. -/
theorem Inv.not_promises {s : State} {a : Act} (h : Inv s) (hok : ¬ InTime s a)
    (hstep : step s a = some t) : ¬ Promises t := by
  cases a with
  | put c =>
    cases hc : s.callers c with
    | checked w item =>
      simp only [step, hc, Option.map_eq_some_iff] at hstep
      obtain ⟨x, hx, rfl⟩ := hstep
      have hdead : x.alive = false := by
        refine Bool.eq_false_of_not_eq_true fun ha => hok fun w' item' hc' y hy => ?_
        obtain ⟨rfl, rfl⟩ := Pc.checked.inj (hc.symm.trans hc')
        obtain rfl := Option.mem_unique hx hy
        exact ha
      intro hp
      obtain ⟨w', n, t, ht, hall⟩ := hp.completes fun _ => (true, true)
      have hmem := hall s.accepted.length (by simp [State.put])
      rcases through_turns ht hmem with hmem | ⟨y, hy, hya, hmem⟩
      · exact lt_irrefl _ (h.lt_of_mem_through hmem)
      · have hne : w' ≠ w := by
          rintro rfl
          simp only [State.put, State.setPc, State.setWriter, Function.update_self,
            Option.mem_some_iff] at hy
          subst hy
          exact absurd (hdead.symm.trans hya) (by decide)
        have hold : y ∈ s.writers w' := by
          simpa [State.put, State.setPc, State.setWriter, hne] using hy
        have hrange : s.accepted.length ∈ s.through ++ idsOf y.held :=
          List.mem_append_right _ hmem
        rw [h.numbered w' y hold hya, List.mem_range] at hrange
        exact lt_irrefl _ hrange
    | _ => simp [step, hc] at hstep
  | _ => exact absurd trivial hok

/-- **Accepted writes.** The promises hold throughout a run exactly if every item is put into the
queue of a writer that is still running. -/
theorem promises_iff_inTime (acts : List Act) :
    AllStates step Promises {} acts ↔ AllSteps step InTime {} acts := by
  have hfree : AllSteps step (fun _ _ => True) {} acts := allSteps_of_forall fun _ _ => trivial
  exact allStates_iff_allSteps Inv (fun _ hs => hs.promises)
    (fun _ _ _ hs _ hok hstep => hs.of_step hok hstep)
    (fun _ _ _ hs _ hok hstep => hs.not_promises hok hstep) Inv.init hfree

/-- A call finds the writer running; the thread leaves; the call puts its item. The flush call
after it, at a new writer, succeeds. -/
def lateItem : List Act :=
  [.forConversation, .enqueue 0 0 (.write { op := .appendMessage }), .leave 0, .put 0,
    .forConversation, .flush 0 1, .drain 0, .putFlush 0, .turn 1 true true, .wake 0]

/-- `flush` returned `True` and the item accepted before it was not written. -/
theorem not_promises_lateItem : ¬ ∀ acts, AllStates step Promises {} acts := by
  intro h
  have hend : (lateItem.foldlM step {}).map (fun t => (t.returned, t.marks, t.through)) =
      some ([(0, true)], [1], []) := by decide +kernel
  obtain ⟨t, ht, hend⟩ := Option.map_eq_some_iff.mp hend
  simp only [Prod.mk.injEq] at hend
  obtain ⟨hreturned, hmarks, hthrough⟩ := hend
  obtain ⟨mark, hmark, hall⟩ := ((h lateItem).last ht).flushed 0 (by simp [hreturned])
  obtain rfl : mark = 1 := by simpa [hmarks, eq_comm] using hmark
  have := hall 0 Nat.one_pos
  rw [hthrough] at this
  cases this

end PawFlow.ConvWriter
