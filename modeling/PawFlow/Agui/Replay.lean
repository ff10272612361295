import PawFlow.Agui.Agreement
import PawFlow.Agui.Claims

/-!
# Replay of the journal

`read_agui_events` and the subscribers that page through the journal of a run. A subscriber
takes over the stream at a cursor and then reads after the last sequence it received. Between
two reads any transactions may run: appends, terminal events, pruning, another takeover. It
receives the events after its cursor one by one as they were committed, or it is told that it
was taken over or that the span it asks for was pruned.
-/

namespace PawFlow.Agui

open PawFlow.Lib

namespace State

variable {G : State → Op → Prop} {mac : Mac} {s t : State}

/-! ## Reading -/

/-- `_batch_token_in_tx`: the batch token while the batch of the run is open. -/
def openBatchToken (mac : Mac) (k : RunKey) (s : State) : Except Error (Option Token) :=
  match s.batches.get? k with
  | none => .ok none
  | some b =>
    if b.state.isOpen then
      (deriveToken mac s b.keyVersion b.handle .batch ⟨k, none⟩ 0).bind fun token =>
        .ok (some token)
    else .ok none

/-- `agui_terminal_snapshot`. -/
def terminalSnapshot (mac : Mac) (r : Run) (s : State) : Except Error TerminalSnapshot :=
  (s.openBatchToken mac r.key).bind fun token =>
    .ok ⟨r.runId, r.terminal, r.outcome, r.committedSequence, r.replayWatermark,
      token.map Token.text⟩

/-- `read_agui_events`: sequence and text of the events after a cursor. -/
def readEvents (mac : Mac) (k : RunKey) (afterSeq limit : Int) (epoch : Option Int) (s : State) :
    Except Error (List (Nat × String)) :=
  if limit ≤ 0 then .error (.valueError "limit must be positive")
  else if afterSeq < 0 then .error (.valueError "after_seq must be >= 0")
  else
    match s.runs.get? k with
    | none => .error .runUnknown
    | some run =>
      if epoch.any fun e => (run.subscriberEpoch : Int) ≠ e then .error .subscriberTakenOver
      else if afterSeq > run.committedSequence then
        .error (.valueError "after_seq is beyond the committed sequence")
      else if afterSeq < run.replayWatermark then
        (s.terminalSnapshot mac run).bind fun snapshot => .error (.replayExpired snapshot)
      else
        .ok (((((s.journal.rows.filter fun j => j.runKey = k ∧ afterSeq < j.seq).insertionSort
          fun j j' => j.seq ≤ j'.seq).take limit.toNat).map
            fun j => (j.seq, j.eventJson)))

theorem filter_numbered {α : Type} {f : α → Nat} {l : List α} {start n : Nat}
    (h : l.map f = List.range' (start + 1) n) {after : Nat} (hle : start ≤ after) :
    l.filter (fun x => (after : Int) < f x) = l.drop (after - start) := by
  induction l generalizing start n with
  | nil => simp
  | cons x l ih =>
    cases n with
    | zero => simp at h
    | succ n =>
      rw [List.map_cons, List.range'_succ] at h
      obtain ⟨hx, hrest⟩ := List.cons.inj h
      by_cases heq : start = after
      · -- everything from here on comes after the number
        have hlater : ∀ y ∈ x :: l, (after : Int) < f y := by
          intro y hy
          have hmem : f y ∈ List.range' (start + 1) (n + 1) := by
            rw [List.range'_succ, ← h, ← List.map_cons]
            exact List.mem_map_of_mem hy
          rw [List.mem_range'_1] at hmem
          omega
        rw [heq, Nat.sub_self, List.drop_zero, List.filter_eq_self]
        simpa using hlater
      · rw [List.filter_cons_of_neg (by simp; omega), ih hrest (by omega),
          show after - start = after - (start + 1) + 1 by omega, List.drop_succ_cons]

variable {k : RunKey}

variable {r : Run}

theorem page_eq (hagrees : Agrees s) (hr : s.runs.get? k = some r)
    (hkept : r.replayWatermark = 0) (after : Nat) :
    (s.journal.rows.filter fun j => j.runKey = k ∧ (after : Int) < j.seq).insertionSort
        (fun j j' => j.seq ≤ j'.seq) = (s.events k).drop after := by
  have hseqs := (hagrees.stored k r hr).seqs hkept
  have hfilter : (s.journal.rows.filter fun j => j.runKey = k ∧ (after : Int) < j.seq) =
      (s.events k).drop after := by
    have hafter := @filter_numbered _ _ _ 0 _ (by simpa using hseqs) after (Nat.zero_le _)
    rw [Nat.sub_zero] at hafter
    rw [← hafter]
    unfold events
    rw [List.filter_filter]
    apply List.filter_congr
    intro j _
    simp [and_comm]
  have hsorted : (s.events k).Pairwise fun j j' => j.seq ≤ j'.seq := by
    rw [← List.pairwise_map (f := JournalRow.seq) (R := (· ≤ ·)), hseqs]
    exact List.pairwise_le_range' 1
  rw [hfilter]
  exact (hsorted.sublist (List.drop_sublist after _)).insertionSort_eq

theorem page_seqs (hagrees : Agrees s) (hr : s.runs.get? k = some r)
    (hkept : r.replayWatermark = 0) (after limit : Nat) :
    (((s.events k).drop after).take limit).map JournalRow.seq =
      List.range' (after + 1) (min limit (r.committedSequence - after)) := by
  rw [List.map_take, List.map_drop, (hagrees.stored k r hr).seqs hkept, List.drop_range',
    Nat.mul_one, Nat.add_comm 1 after]
  rcases le_total limit (r.committedSequence - after) with hle | hle
  · rw [List.take_range'_of_length_ge hle, Nat.min_eq_left hle]
  · rw [List.take_range'_of_length_le hle, Nat.min_eq_right hle]

variable {epoch : Option Int} {got : List (Nat × String)}

/-- What a read answers, for the cursor `after` and a positive limit. -/
theorem readEvents_ok (hagrees : Agrees s) {after : Nat} {limit : Int}
    {page : List (Nat × String)}
    (h : s.readEvents mac k after limit epoch = .ok page) :
    ∃ r, s.runs.get? k = some r ∧ (∀ e ∈ epoch, (r.subscriberEpoch : Int) = e) ∧
      after ≤ r.committedSequence ∧ r.replayWatermark ≤ after ∧
      page.map Prod.fst =
        List.range' (after + 1) (min limit.toNat (r.committedSequence - after)) ∧
      ∀ e ∈ page, ∃ j ∈ s.journal, j.runKey = k ∧ (j.seq, j.eventJson) = e := by
  unfold readEvents at h
  split at h
  · cases h
  split at h
  · cases h
  split at h
  · cases h
  next r hr =>
  split at h
  · cases h
  next hepoch =>
  split at h
  · cases h
  next hcommitted =>
  split at h
  · obtain ⟨snapshot, -, h⟩ := bind_ok h
    cases h
  next hkept =>
  obtain rfl := Except.ok.inj h
  refine ⟨r, hr, ?_, by omega, by omega, ?_, ?_⟩
  · intro e he
    rw [Option.mem_def.mp he] at hepoch
    simpa using hepoch
  · rw [List.map_map]
    by_cases hwatermark : r.replayWatermark = 0
    · rw [page_eq hagrees hr hwatermark]
      exact page_seqs hagrees hr hwatermark after limit.toNat
    · -- a pruned run has no events, and the cursor is at its end
      obtain ⟨hnone, -, hend⟩ := (hagrees.stored k r hr).pruned hwatermark
      have hempty : (s.journal.rows.filter fun j => j.runKey = k ∧ (after : Int) < j.seq) = [] := by
        rw [List.filter_eq_nil_iff]
        intro j hj hp
        have hmem : j ∈ s.events k := List.mem_filter.mpr ⟨hj, by simp_all⟩
        rw [hnone] at hmem
        cases hmem
      rw [hempty, show r.committedSequence - after = 0 by omega]
      simp
  · intro e he
    obtain ⟨j, hj, rfl⟩ := List.mem_map.mp he
    have hj := List.mem_of_mem_take hj
    rw [List.mem_insertionSort] at hj
    obtain ⟨hmem, hp⟩ := List.mem_filter.mp hj
    exact ⟨j, hmem, (of_decide_eq_true hp).1, rfl⟩

theorem terminalSnapshot_ok (htrusted : Trusted s) (r : Run) :
    ∃ snapshot, s.terminalSnapshot mac r = .ok snapshot := by
  unfold terminalSnapshot openBatchToken
  cases hb : s.batches.get? r.key with
  | none => exact ⟨_, rfl⟩
  | some b =>
    dsimp only
    split
    · -- the key an open batch pins is in the keyring
      have hkey := htrusted.credited.batch b (Table.get?_mem hb)
      obtain ⟨key, hkey⟩ := Option.isSome_iff_exists.mp hkey
      unfold deriveToken
      rw [hkey]
      exact ⟨_, rfl⟩
    · exact ⟨_, rfl⟩

theorem readEvents_error (htrusted : Trusted s) {after : Nat} {limit : Int}
    {e : Error} (hlimit : 0 < limit)
    (hcursor : ∀ r, s.runs.get? k = some r → after ≤ r.committedSequence)
    (h : s.readEvents mac k after limit epoch = .error e) :
    s.runs.get? k = none ∧ e = .runUnknown ∨ e = .subscriberTakenOver ∨
      ∃ snapshot, e = .replayExpired snapshot := by
  unfold readEvents at h
  split at h
  · omega
  split at h
  · omega
  split at h
  · next hnone => exact .inl ⟨hnone, (Except.error.inj h).symm⟩
  next r hr =>
  split at h
  · exact .inr (.inl (Except.error.inj h).symm)
  split at h
  · have hle := hcursor r hr
    omega
  split at h
  · obtain ⟨snapshot, hsnapshot⟩ : ∃ snapshot, s.terminalSnapshot mac r = .ok snapshot :=
      terminalSnapshot_ok htrusted r
    rw [hsnapshot] at h
    exact .inr (.inr ⟨snapshot, (Except.error.inj h).symm⟩)
  · cases h

theorem Agrees.seq_le (h : Agrees s) {j : JournalRow}
    (hr : s.runs.get? j.runKey = some r) (hj : j ∈ s.journal) : j.seq ≤ r.committedSequence := by
  have hstored := h.stored _ r hr
  have hmem : j ∈ s.events j.runKey := List.mem_filter.mpr ⟨hj, by simp⟩
  by_cases hkept : r.replayWatermark = 0
  · have hseq : j.seq ∈ (s.events j.runKey).map JournalRow.seq := List.mem_map_of_mem hmem
    rw [hstored.seqs hkept, List.mem_range'_1] at hseq
    omega
  · rw [(hstored.pruned hkept).1] at hmem
    cases hmem

/-! ## Two states of one run -/

/-- A run row `r` of `s` later on, as `r'`: its counters only grow, and what was committed stays
as it was written. -/
structure Grows (s t : State) (k : RunKey) (r r' : Run) : Prop where
  epoch : r.subscriberEpoch ≤ r'.subscriberEpoch
  committed : r.committedSequence ≤ r'.committedSequence
  journal : ∀ j ∈ t.journal, j.runKey = k → j.seq ≤ r.committedSequence → j ∈ s.journal

def Proceeds (s t : State) : Prop :=
  ∀ k r, s.runs.get? k = some r → (∃ r', t.runs.get? k = some r' ∧ Grows s t k r r') ∨ t.Closed k.1

theorem Proceeds.refl (s : State) : Proceeds s s :=
  fun _ r hr => .inl ⟨r, hr, le_rfl, le_rfl, fun _ hj _ _ => hj⟩

theorem proceeds_trans {u : State} (h : Proceeds s t) (h' : Proceeds t u) (hlater : Later t u) :
    Proceeds s u := by
  intro k r hr
  rcases h k r hr with ⟨r', hr', hgrows⟩ | hclosed
  · rcases h' k r' hr' with ⟨r'', hr'', hgrows'⟩ | hclosed
    · refine .inl ⟨r'', hr'', hgrows.epoch.trans hgrows'.epoch,
        hgrows.committed.trans hgrows'.committed, ?_⟩
      intro j hj hk hle
      exact hgrows.journal j (hgrows'.journal j hj hk (hle.trans hgrows.committed)) hk hle
    · exact .inr hclosed
  · exact .inr (hlater.closed hclosed)

theorem proceeds_of_runs (hjournal : ∀ j ∈ t.journal, j ∈ s.journal)
    (hruns : ∀ k r, s.runs.get? k = some r → ∃ r', t.runs.get? k = some r' ∧
      r.subscriberEpoch ≤ r'.subscriberEpoch ∧ r.committedSequence ≤ r'.committedSequence) :
    Proceeds s t := by
  intro k r hr
  obtain ⟨r', hr', hepoch, hcommitted⟩ := hruns k r hr
  exact .inl ⟨r', hr', hepoch, hcommitted, fun j hj _ _ => hjournal j hj⟩

theorem proceeds_of_eq (hruns : t.runs = s.runs) (hjournal : t.journal = s.journal) :
    Proceeds s t := by
  apply proceeds_of_runs
  · rw [hjournal]
    exact fun _ hj => hj
  · rw [hruns]
    exact fun _ r hr => ⟨r, hr, le_rfl, le_rfl⟩

theorem proceeds_wrote {eventJson : String} (outcome : String)
    {terminal : Bool} (now : Time) {journal : Table (RunKey × Nat) JournalRow JournalRow.key}
    (hr : s.runs.get? k = some r)
    (hins : s.journal.insert? ⟨r.contextId, r.runId, r.committedSequence + 1, eventJson, terminal⟩ =
      some journal)
    (hruns : ∀ k', t.runs.get? k' = if k' = k then
      (s.runs.get? k').map (advance eventJson outcome terminal now) else s.runs.get? k')
    (hjournal : t.journal = journal) : Proceeds s t := by
  have hkey : r.key = k := Table.get?_key hr
  intro k' r' hr'
  left
  have hold : ∀ j ∈ t.journal, j.runKey = k' → j.seq ≤ r'.committedSequence → j ∈ s.journal := by
    intro j hj hk hle
    rw [hjournal] at hj
    rcases (Table.mem_insert? hins).mp hj with hj | rfl
    · exact hj
    · -- the new event comes after everything committed
      have hk' : k' = k := hk.symm.trans hkey
      rw [hk', hr] at hr'
      obtain rfl := Option.some.inj hr'
      exact absurd hle (by simp)
  rw [hruns, hr']
  split
  · exact ⟨_, rfl, le_rfl, Nat.le_succ _, hold⟩
  · exact ⟨r', rfl, le_rfl, le_rfl, hold⟩

theorem proceeds_change (hc : Change G s t) : Proceeds s t := by
  cases hc with
  | rotated k row marker close hrow _ =>
    intro k' r hr
    by_cases hk : k'.1 = ⟨k, row.generation⟩
    · exact .inr (hk ▸ closed_rotated marker close hrow)
    · refine .inl ⟨r, ?_, le_rfl, le_rfl, fun j hj _ _ => (Table.mem_delete.mp hj).1⟩
      rw [get?_runs_dropContext, if_neg hk]
      exact hr
  | opened k now _ =>
    refine proceeds_of_runs (fun _ hj => hj) ?_
    intro k' r hr
    refine ⟨r, ?_, le_rfl, le_rfl⟩
    simp [Table.get?_insertIgnore, hr]
  | subscribed k now =>
    refine proceeds_of_runs (fun _ hj => hj) ?_
    intro k' r hr
    rw [get?_updateRun, hr]
    split
    · exact ⟨subscribedRun now r, rfl, Nat.le_succ _, le_rfl⟩
    · exact ⟨r, rfl, le_rfl, le_rfl⟩
  | wrote r eventJson outcome terminal now journal hmem _ _ hins =>
    exact proceeds_wrote outcome now (Table.get?_of_mem hmem) hins
      (get?_updateRun (s := { s with journal }) _) rfl
  | pruned cutoff now =>
    refine proceeds_of_runs (fun j hj => (Table.mem_delete.mp hj).1) ?_
    intro k r hr
    refine ⟨if prunable cutoff r then prunedRun now r else r, ?_, ?_⟩
    · show Table.get? _ k = _
      rw [Table.get?_update, hr]
      rfl
    · split <;> exact ⟨le_rfl, le_rfl⟩
  | froze k draw version deadline eventJson now a r batches journal _ _ hr _ _ _ _ _ _ hins =>
    exact proceeds_wrote "success" now hr hins
      (get?_updateRun (s := s) (advance_key eventJson "success" true now)) rfl
  | admitted a now u admissions _ _ _ _ hbinds _ => cases hbinds <;> exact proceeds_of_eq rfl rfl
  | _ => exact proceeds_of_eq rfl rfl

/-- The invariant of the journal and its readers. -/
structure Replayable (s : State) : Prop where
  trusted : Trusted s
  agrees : Agrees s
  runsLive : RunsLive s

theorem Replayable.change (h : Replayable s) (hc : Change G s t) : Replayable t :=
  ⟨(h.trusted.change hc).1, (h.agrees.change hc).1, h.runsLive.change hc⟩

theorem replayable_init : Replayable init :=
  ⟨trusted_init, agrees_init, fun _ _ hr => by cases hr⟩

theorem Replayable.changes (h : Replayable s) (hc : Changes G s t) : Replayable t :=
  changes_invariant Replayable (fun _ _ h hc => h.change hc) hc h

theorem Replayable.proceeds (h : Replayable s) (hc : Changes G s t) : Proceeds s t := by
  have hboth : Proceeds s t ∧ Later s t := by
    refine changes_preserves Replayable (fun s t => Proceeds s t ∧ Later s t) ?_ ?_
      (fun _ _ h hc => h.change hc) ?_ hc h
    · exact fun s => ⟨.refl s, .refl s⟩
    · exact fun _ _ _ h h' => ⟨proceeds_trans h.1 h'.1 h'.2, h.2.trans h'.2⟩
    · exact fun _ _ h hc => ⟨proceeds_change hc, (h.trusted.sound.fenced.change hc).2⟩
  exact hboth.1

theorem replayable_of_reach (h : Reach (step mac) init s) : Replayable s :=
  replayable_init.changes (changes_of_reach h)

theorem Replayable.grows (h : Replayable t) (hproceeds : Proceeds s t) {r' : Run}
    (hr : s.runs.get? k = some r) (hr' : t.runs.get? k = some r') : Grows s t k r r' := by
  rcases hproceeds k r hr with ⟨x, hx, hgrows⟩ | hclosed
  · rw [hr'] at hx
    obtain rfl := Option.some.inj hx
    exact hgrows
  · exact absurd hclosed (h.trusted.sound.fenced.not_closed (h.runsLive k r' hr'))

/-! ## Subscribers -/

/-- The last sequence a subscriber received, its cursor before the first one. -/
def lastSeq (cursor : Nat) (got : List (Nat × String)) : Nat :=
  (got.getLast?.map Prod.fst).getD cursor

/-- What a subscriber that took over in `t` has received by the time the store is in a later
state: between its reads anything may happen, and each read starts at the last sequence it
received. -/
inductive Session (mac : Mac) (k : RunKey) (epoch cursor : Nat) (t : State) :
    State → List (Nat × String) → Prop
  | start : Session mac k epoch cursor t t []
  | step {s : State} {got : List (Nat × String)} (x : Tx) :
      Session mac k epoch cursor t s got → Session mac k epoch cursor t (s.perform mac x) got
  | read {s : State} {got page : List (Nat × String)} (limit : Int) :
      Session mac k epoch cursor t s got →
      s.readEvents mac k (lastSeq cursor got) limit (some epoch) = .ok page →
      Session mac k epoch cursor t s (got ++ page)

variable {cursor : Nat}

theorem lastSeq_eq
    (h : got.map Prod.fst = List.range' (cursor + 1) got.length) :
    lastSeq cursor got = cursor + got.length := by
  unfold lastSeq
  rw [← List.getLast?_map, h, List.getLast?_range']
  cases got with
  | nil => simp
  | cons e got =>
    simp
    omega

/-- The cursor of a subscriber is committed, unless its context is gone. -/
def CursorOk (s : State) (k : RunKey) (cursor : Nat) : Prop :=
  (∃ r, s.runs.get? k = some r ∧ cursor ≤ r.committedSequence) ∨ s.Closed k.1

theorem CursorOk.later (hs : Replayable s) (hc : Changes G s t)
    (h : CursorOk s k cursor) : CursorOk t k cursor := by
  rcases h with ⟨r, hr, hle⟩ | hclosed
  · rcases hs.proceeds hc k r hr with ⟨r', hr', hgrows⟩ | hclosed
    · exact .inl ⟨r', hr', hle.trans hgrows.committed⟩
    · exact .inr hclosed
  · exact .inr ((hs.trusted.changes hc).2.later.closed hclosed)

theorem session_spec {epoch : Nat} {u : State}
    (ht : Replayable t) (hcursor : CursorOk t k cursor) (h : Session mac k epoch cursor t u got) :
    Reach (State.step mac) t u ∧ got.map Prod.fst = List.range' (cursor + 1) got.length ∧
      CursorOk u k (cursor + got.length) := by
  induction h with
  | start => exact ⟨.refl t, rfl, hcursor⟩
  | @step s got x _ ih =>
    obtain ⟨hreach, hseqs, hok⟩ := ih
    have hs : Replayable s := ht.changes (changes_of_reach hreach)
    have hchanges : Changes (fun _ _ => True) s (s.perform mac x) := changes_perform s x trivial
    exact ⟨hreach.snoc trivial rfl, hseqs, hok.later hs hchanges⟩
  | @read s got page limit _ hread ih =>
    obtain ⟨hreach, hseqs, hok⟩ := ih
    have hs : Replayable s := ht.changes (changes_of_reach hreach)
    rw [lastSeq_eq hseqs] at hread
    obtain ⟨r, hr, -, hle, -, hpage, -⟩ := readEvents_ok hs.agrees hread
    have hlength : page.length = min limit.toNat (r.committedSequence - (cursor + got.length)) := by
      have := congrArg List.length hpage
      simpa using this
    refine ⟨hreach, ?_, .inl ⟨r, hr, ?_⟩⟩
    · rw [List.map_append, hseqs, hpage, ← hlength, List.length_append,
        Nat.add_right_comm cursor got.length 1, List.range'_append_1]
    · rw [List.length_append]
      omega

/-- **Gapless replay under takeover**, over every interleaving of the transactions with any
quotas, limits and clock readings. A subscriber that takes over at a cursor has received, at
any time, the sequences right after the cursor in order, each once; its next read gives the
next committed events, as many as the limit allows, unless it was taken over, the span was
pruned or the thread was rotated; a read gives a sequence the text it was committed with; after
a later takeover no read with the older epoch returns; and an acquire that raises changes
nothing. -/
theorem gapless_replay {mac : Mac} {s : State} (hs : Reach (step mac) init s) :
    (∀ k after now epoch committed t,
      s.acquireSubscriber k after now = .ok ((epoch, committed), t) →
      ∀ u got, Session mac k epoch after.toNat t u got →
        got.map Prod.fst = List.range' (after.toNat + 1) got.length ∧
        ∀ limit, 0 < limit →
          (∃ r ∈ u.runs, r.key = k ∧ ∃ page,
            u.readEvents mac k (lastSeq after.toNat got) limit (some epoch) = .ok page ∧
            page.map Prod.fst = List.range' (lastSeq after.toNat got + 1)
              (min limit.toNat (r.committedSequence - lastSeq after.toNat got))) ∨
          u.readEvents mac k (lastSeq after.toNat got) limit (some epoch) =
            .error .subscriberTakenOver ∨
          (∃ snapshot, u.readEvents mac k (lastSeq after.toNat got) limit (some epoch) =
            .error (.replayExpired snapshot)) ∨
          (u.readEvents mac k (lastSeq after.toNat got) limit (some epoch) = .error .runUnknown ∧
            u.Closed k.1)) ∧
    (∀ j ∈ s.journal, ∀ t, Reach (step mac) s t → ∀ (after : Nat) limit epoch page,
      t.readEvents mac j.runKey after limit epoch = .ok page → ∀ e ∈ page, e.1 = j.seq →
        e.2 = j.eventJson) ∧
    (∀ k after now epoch committed t, s.acquireSubscriber k after now = .ok ((epoch, committed), t) →
      ∀ u, Reach (step mac) t u → ∀ after' now' reply v,
        u.acquireSubscriber k after' now' = .ok (reply, v) →
        ∀ w, Reach (step mac) v w → ∀ (cursor : Nat) limit page,
          w.readEvents mac k cursor limit (some epoch) ≠ .ok page) ∧
    (∀ k after now draw e, s.acquireSubscriber k after now = .error e →
      s.perform mac ⟨.acquireSubscriber k after, now, draw⟩ = s) := by
  have hreplay := replayable_of_reach hs
  refine ⟨?_, ?_, ?_, ?_⟩
  · intro k after now epoch committed t hacquire u got hsession
    obtain ⟨r, hr, hnonneg, hle, -, -, ht⟩ := acquireSubscriber_ok hacquire
    have ht' : Replayable t :=
      hreplay.changes (changes_acquireSubscriber (G := fun _ _ => True) hacquire)
    have hcursor : CursorOk t k after.toNat := by
      refine .inl ⟨subscribedRun now r, ?_, by show _ ≤ r.committedSequence; omega⟩
      rw [ht, get?_updateRun, if_pos rfl, hr]
      rfl
    obtain ⟨hreach, hseqs, hok⟩ := session_spec ht' hcursor hsession
    have hu : Replayable u := ht'.changes (changes_of_reach hreach)
    refine ⟨hseqs, ?_⟩
    intro limit hlimit
    rw [lastSeq_eq hseqs]
    have hbound : ∀ r, u.runs.get? k = some r → after.toNat + got.length ≤ r.committedSequence := by
      intro r hr
      rcases hok with ⟨r', hr', hle⟩ | hclosed
      · rw [hr] at hr'
        obtain rfl := Option.some.inj hr'
        exact hle
      · exact absurd hclosed (hu.trusted.sound.fenced.not_closed (hu.runsLive k r hr))
    cases hread : u.readEvents mac k (after.toNat + got.length : Nat) limit (some epoch) with
    | ok page =>
      obtain ⟨r, hr, -, -, -, hpage, -⟩ := readEvents_ok hu.agrees hread
      obtain ⟨hmem, hkey⟩ := Table.get?_eq_some.mp hr
      exact .inl ⟨r, hmem, hkey, page, rfl, hpage⟩
    | error e =>
      right
      rcases readEvents_error hu.trusted hlimit hbound hread with ⟨hnone, rfl⟩ | rfl | ⟨snapshot, rfl⟩
      · refine .inr (.inr ⟨rfl, ?_⟩)
        rcases hok with ⟨r, hr, -⟩ | hclosed
        · rw [hnone] at hr
          cases hr
        · exact hclosed
      · exact .inl rfl
      · exact .inr (.inl ⟨snapshot, rfl⟩)
  · intro j hj t ht after limit epoch page hread e he hseq
    have ht' : Replayable t := hreplay.changes (changes_of_reach ht)
    obtain ⟨r', hr', -, -, -, -, hrows⟩ := readEvents_ok ht'.agrees hread
    obtain ⟨j', hj', hk, rfl⟩ := hrows e he
    have hseq : j'.seq = j.seq := hseq
    obtain ⟨r, hr⟩ := Option.isSome_iff_exists.mp (hreplay.agrees.journal j hj)
    have hgrows := ht'.grows (hreplay.proceeds (changes_of_reach ht)) hr hr'
    have hle : j.seq ≤ r.committedSequence := hreplay.agrees.seq_le hr hj
    have hold : j' ∈ s.journal := hgrows.journal j' hj' hk (hseq ▸ hle)
    rw [Table.eq_of_key hold hj (Prod.ext hk hseq)]
  · intro k after now epoch committed t hacquire u hu after' now' reply v hacquire' w hw cursor limit
      page hread
    obtain ⟨r, hr, -, -, rfl, -, rfl⟩ := acquireSubscriber_ok hacquire
    have ht : Replayable _ :=
      hreplay.changes (changes_acquireSubscriber (G := fun _ _ => True) hacquire)
    have hu' := ht.changes (changes_of_reach hu)
    obtain ⟨epoch', committed'⟩ := reply
    obtain ⟨r₁, hr₁, -, -, -, -, rfl⟩ := acquireSubscriber_ok hacquire'
    have hv := hu'.changes (changes_acquireSubscriber (G := fun _ _ => True) hacquire')
    have hw' := hv.changes (changes_of_reach hw)
    obtain ⟨r₂, hr₂, hepoch, -⟩ := readEvents_ok hw'.agrees hread
    have hepoch : r₂.subscriberEpoch = r.subscriberEpoch + 1 := by
      have := hepoch _ rfl
      omega
    have hfirst : r.subscriberEpoch + 1 ≤ r₁.subscriberEpoch := by
      have hget : (s.updateRun k (subscribedRun now) (subscribedRun_key now)).runs.get? k =
          some (subscribedRun now r) := by
        rw [get?_updateRun, if_pos rfl, hr]
        rfl
      exact (hu'.grows (ht.proceeds (changes_of_reach hu)) hget hr₁).epoch
    have hsecond : r₁.subscriberEpoch + 1 ≤ r₂.subscriberEpoch := by
      have hget : (u.updateRun k (subscribedRun now') (subscribedRun_key now')).runs.get? k =
          some (subscribedRun now' r₁) := by
        rw [get?_updateRun, if_pos rfl, hr₁]
        rfl
      exact (hw'.grows (hv.proceeds (changes_of_reach hw)) hget hr₂).epoch
    omega
  · intro k after now draw e herror
    show settle s (s.acquireSubscriber k after now) = s
    rw [herror]
    rfl

/-- A running turn with two events in its journal. -/
def journaledTurn : State :=
  [⟨.savePublication ⟨"pub", "conv", true, true⟩, 0, {}⟩,
    ⟨.ensureThread sampleThread, 1, {}⟩,
    ⟨.resolveContext ⟨"pub", "conv", true, true⟩ sampleThread 0 "d", 2, {}⟩,
    ⟨.acquire ⟨sampleThread, 0, "r1", "h1", "", ""⟩, 3, { handle := "1" }⟩,
    ⟨.append (⟨sampleThread, 0⟩, "r1") { eventJson := "a" }, 4, {}⟩,
    ⟨.append (⟨sampleThread, 0⟩, "r1") { eventJson := "b" }, 5, {}⟩].foldl
    (perform sampleMac) init

theorem gapless_replay_journaledTurn :
    ∃ epoch committed t, journaledTurn.acquireSubscriber (⟨sampleThread, 0⟩, "r1") 0 6 =
        .ok ((epoch, committed), t) ∧
      ∃ page, t.readEvents sampleMac (⟨sampleThread, 0⟩, "r1") 0 10 (some epoch) = .ok page ∧
        page.length = 2 ∧ page.map Prod.fst = List.range' 1 page.length := by
  have hs : Reach (step sampleMac) init journaledTurn := reach_foldl (fun _ _ => rfl) _ _
  have hsuccess : ((journaledTurn.acquireSubscriber (⟨sampleThread, 0⟩, "r1") 0 6).toOption.map
      fun r => (r.1, (r.2.readEvents sampleMac (⟨sampleThread, 0⟩, "r1") 0 10
        (some (r.1.1 : Int))).toOption)) = some ((1, 2), some [(1, "a"), (2, "b")]) := by
    decide +kernel
  cases hacquire : journaledTurn.acquireSubscriber (⟨sampleThread, 0⟩, "r1") 0 6 with
  | error e =>
    rw [hacquire] at hsuccess
    cases hsuccess
  | ok reply =>
    obtain ⟨⟨epoch, committed⟩, t⟩ := reply
    rw [hacquire] at hsuccess
    obtain ⟨-, hpage⟩ := Prod.mk.inj (Option.some.inj hsuccess)
    cases hread : t.readEvents sampleMac (⟨sampleThread, 0⟩, "r1") 0 10 (some (epoch : Int)) with
    | error e =>
      rw [hread] at hpage
      cases hpage
    | ok page =>
      rw [hread] at hpage
      obtain rfl := Option.some.inj hpage
      obtain ⟨hgapless, -⟩ := gapless_replay hs
      have hsession : Session sampleMac (⟨sampleThread, 0⟩, "r1") epoch (0 : Int).toNat t t
          ([] ++ [(1, "a"), (2, "b")]) := .read 10 .start hread
      exact ⟨epoch, committed, t, rfl, _, hread, rfl,
        (hgapless _ _ _ _ _ _ hacquire t _ hsession).1⟩

end State

end PawFlow.Agui
