import PawFlow.Agui.Execution

/-!
# A frontend call takes effect under one owner

What two states of one run have in common: a recorded outcome is final, a consumed batch stays
consumed, and only an acquire that names its run consumes it. With the invariants of the
execution this gives the guarantee for every interleaving of claims, begins, deposits,
deadlines and follow-up runs.
-/

namespace PawFlow.Agui

open PawFlow.Lib

namespace State

variable {G : State → Op → Prop} {mac : Mac} {s t : State}

/-! ## Final outcomes -/

/-- An outcome that was recorded stays as it is, and a consumed batch stays consumed. -/
structure Final (s t : State) : Prop where
  calls : ∀ k c, s.calls.get? k = some c → c.execState.isDone →
    (∃ c', t.calls.get? k = some c' ∧ c'.execState = c.execState ∧
      c'.resultKind = c.resultKind ∧ c'.resultJson = c.resultJson) ∨ t.Closed k.1.1
  batches : ∀ k b, s.batches.get? k = some b → b.state = .consumed →
    (∃ b', t.batches.get? k = some b' ∧ b'.state = .consumed) ∨ t.Closed k.1

theorem Final.refl (s : State) : Final s s :=
  ⟨fun _ c hc _ => .inl ⟨c, hc, rfl, rfl, rfl⟩, fun _ b hb hstate => .inl ⟨b, hb, hstate⟩⟩

theorem final_trans {u : State} (h : Final s t) (h' : Final t u) (hlater : Later t u) :
    Final s u := by
  constructor
  · intro k c hc hdone
    rcases h.calls k c hc hdone with ⟨c', hc', hexec, hkind, hjson⟩ | hclosed
    · rcases h'.calls k c' hc' (hexec ▸ hdone) with ⟨c'', hc'', hexec', hkind', hjson'⟩ | hclosed
      · exact .inl ⟨c'', hc'', hexec'.trans hexec, hkind'.trans hkind, hjson'.trans hjson⟩
      · exact .inr hclosed
    · exact .inr (hlater.closed hclosed)
  · intro k b hb hstate
    rcases h.batches k b hb hstate with ⟨b', hb', hstate'⟩ | hclosed
    · exact h'.batches k b' hb' hstate'
    · exact .inr (hlater.closed hclosed)

theorem final_updateCalls {p : Call → Bool} {f : Call → Call} (hf : ∀ c, (f c).key = c.key)
    (hdone : ∀ c ∈ s.calls, p c → c.execState.isDone → (f c).execState = c.execState ∧
      (f c).resultKind = c.resultKind ∧ (f c).resultJson = c.resultJson)
    (hcalls : t.calls = s.calls.update p f hf)
    (hbatches : ∀ k b, s.batches.get? k = some b → b.state = .consumed →
      t.batches.get? k = some b) : Final s t := by
  constructor
  · intro k c hc hended
    left
    rw [hcalls, Table.get?_update, hc]
    refine ⟨if p c then f c else c, rfl, ?_⟩
    split
    · next hp => exact hdone c (Table.get?_mem hc) hp hended
    · exact ⟨rfl, rfl, rfl⟩
  · intro k b hb hstate
    exact .inl ⟨b, hbatches k b hb hstate, hstate⟩

theorem final_of_batches (hcalls : t.calls = s.calls)
    (hbatches : ∀ k b, s.batches.get? k = some b → b.state = .consumed →
      t.batches.get? k = some b) : Final s t := by
  constructor
  · intro k c hc _
    rw [hcalls]
    exact .inl ⟨c, hc, rfl, rfl, rfl⟩
  · intro k b hb hstate
    exact .inl ⟨b, hbatches k b hb hstate, hstate⟩

variable {b : Batch} {k : RunKey}

variable {f : Batch → Batch}

theorem get?_updateBatch_consumed (hf : ∀ b, (f b).key = b.key)
    (hb : s.batches.get? k = some b) (hopen : b.state ≠ .consumed) (k' : RunKey)
    (b' : Batch) (hb' : s.batches.get? k' = some b') (hstate : b'.state = .consumed) :
    (s.updateBatch k f hf).batches.get? k' = some b' := by
  rw [get?_updateBatch, if_neg]
  · exact hb'
  · rintro rfl
    rw [hb] at hb'
    obtain rfl := Option.some.inj hb'
    exact hopen hstate

theorem get?_completeIfDone_consumed (hb : s.batches.get? k = some b)
    (hopen : b.state.isOpen) (k' : RunKey) (b' : Batch) (hb' : s.batches.get? k' = some b')
    (hstate : b'.state = .consumed) : (s.completeIfDone k).batches.get? k' = some b' := by
  rw [get?_completeIfDone, if_neg]
  · exact hb'
  · rintro ⟨rfl, -⟩
    rw [hb] at hb'
    obtain rfl := Option.some.inj hb'
    exact not_consumed_of_open hopen hstate

variable {c : Call}

theorem not_done_of_ends {o : Outcome} (h : Ends c o) : ¬ c.execState.isDone = true := by
  rcases h with ⟨hexec, -⟩ | ⟨hexec, -⟩ <;> simp [hexec, ExecState.isDone]

theorem expire_of_done (h : c.execState.isDone) : c.expire = c := by
  unfold Call.expire
  cases hexec : c.execState with
  | none => simp [hexec, ExecState.isDone] at h
  | executing => simp [hexec, ExecState.isDone] at h
  | done o => rfl

theorem final_change (hc : Change G s t) : Final s t := by
  cases hc with
  | rotated k row marker close hrow _ =>
    have hgone := closed_rotated marker close hrow
    constructor
    · intro ck c hc _
      by_cases hk : ck.1.1 = ⟨k, row.generation⟩
      · exact .inr (hk ▸ hgone)
      · refine .inl ⟨c, ?_, rfl, rfl, rfl⟩
        rw [get?_calls_dropContext, if_neg hk]
        exact hc
    · intro k' b hb hstate
      by_cases hk : k'.1 = ⟨k, row.generation⟩
      · exact .inr (hk ▸ hgone)
      · refine .inl ⟨b, ?_, hstate⟩
        rw [get?_batches_dropContext, if_neg hk]
        exact hb
  | admitted a now u admissions _ _ _ _ hbinds hins =>
    cases hbinds with
    | free _ => exact final_of_batches rfl (fun _ _ hb _ => hb)
    | consumed b hb _ hstate _ =>
      refine final_updateCalls Call.consume_key (fun _ _ _ _ => ⟨rfl, rfl, rfl⟩) rfl ?_
      intro k b' hb' hconsumed
      show (s.consumeBatch b.key).batches.get? k = some b'
      rw [get?_consumeBatch, hb', Option.map_some, if_neg]
      rintro ⟨-, hcomplete⟩
      rw [hconsumed] at hcomplete
      cases hcomplete
  | left k state a r _ _ _ _ _ =>
    by_cases houtcome : r.outcome ≠ "success"
    · exact final_updateCalls Call.abandon_key (fun _ _ _ _ => ⟨rfl, rfl, rfl⟩)
        (if_pos houtcome) (fun _ _ hb _ => hb)
    · exact final_of_batches (if_neg houtcome) (fun _ _ hb _ => hb)
  | froze k draw version deadline eventJson now a r batches journal _ _ _ _ _ _ _ _ hins =>
    refine final_updateCalls (Call.withHandle_key draw) (fun _ _ _ _ => ⟨rfl, rfl, rfl⟩) rfl ?_
    intro k' b hb hstate
    obtain ⟨hnone, hget⟩ := Table.insert?_eq_some hins
    show batches.get? k' = some b
    rw [hget, if_neg]
    · exact hb
    · rintro rfl
      rw [hb] at hnone
      cases hnone
  | recorded c a args =>
    constructor
    · intro ck x hx _
      refine .inl ⟨x, ?_, rfl, rfl, rfl⟩
      simp [Table.get?_insertIgnore, hx]
    · exact fun _ b hb hstate => .inl ⟨b, hb, hstate⟩
  | claimed b claimId deadline hb hfrozen _ _ =>
    exact final_of_batches rfl
      (get?_updateBatch_consumed _ (Table.get?_of_mem hb) (by simp [hfrozen]))
  | renewed b deadline hb hstate =>
    exact final_of_batches rfl
      (get?_updateBatch_consumed _ (Table.get?_of_mem hb) (by simp [hstate]))
  | expired b hb hstate =>
    exact final_of_batches rfl
      (get?_updateBatch_consumed Batch.expired_key (Table.get?_of_mem hb) (by simp [hstate]))
  | begun c b hc _ hb hclaimed hexec =>
    refine final_updateCalls Call.execute_key ?_ rfl
      (get?_updateBatch_consumed Batch.committed_key (Table.get?_of_mem (Table.get?_mem hb))
        (not_consumed_of_claimed hclaimed))
    intro x hx hp hdone
    obtain rfl := Table.eq_of_key hx hc (of_decide_eq_true hp)
    simp [hexec, ExecState.isDone] at hdone
  | ended c b outcome resultJson hc _ hb hopen hends =>
    refine final_updateCalls (Call.finish_key outcome resultJson) ?_ rfl
      (get?_completeIfDone_consumed (s := s.updateCalls _ _ (Call.finish_key outcome resultJson))
        hb hopen)
    intro x hx hp hdone
    obtain rfl := Table.eq_of_key hx hc (of_decide_eq_true hp)
    exact absurd hdone (not_done_of_ends hends)
  | deadline b hb hopen =>
    refine final_updateCalls Call.expire_key ?_ rfl
      (get?_completeIfDone_consumed (s := s.updateCalls _ _ Call.expire_key)
        (Table.get?_of_mem hb) hopen)
    intro x _ _ hdone
    rw [expire_of_done hdone]
    exact ⟨rfl, rfl, rfl⟩
  | _ => exact final_of_batches rfl (fun _ _ hb _ => hb)

/-- Where the consumed batches of `t` come from, when only acquires with arguments in `A` ran
since `s`. -/
def ConsumedBy (A : AcquireArgs → Prop) (s t : State) : Prop :=
  ∀ k b, t.batches.get? k = some b → b.state = .consumed →
    (∃ b', s.batches.get? k = some b' ∧ b'.state = .consumed) ∨
      ∃ a, A a ∧ a.contextId = k.1 ∧ a.parentRunId = k.2

variable {A : AcquireArgs → Prop}

theorem consumedBy_of_rows
    (h : ∀ k b, t.batches.get? k = some b → b.state = .consumed → s.batches.get? k = some b) :
    ConsumedBy A s t := fun k b hb hstate => .inl ⟨b, h k b hb hstate, hstate⟩

theorem consumed_updateBatch (hf : ∀ b, (f b).key = b.key)
    (hb : s.batches.get? k = some b) (hopen : (f b).state ≠ .consumed) (k' : RunKey)
    (b' : Batch) (hb' : (s.updateBatch k f hf).batches.get? k' = some b')
    (hstate : b'.state = .consumed) : s.batches.get? k' = some b' := by
  rw [get?_updateBatch] at hb'
  split at hb'
  · next hk =>
    rw [hk, hb] at hb'
    obtain rfl := Option.some.inj hb'
    exact absurd hstate hopen
  · exact hb'

theorem consumed_completeIfDone (k' : RunKey) (b' : Batch)
    (hb' : (s.completeIfDone k).batches.get? k' = some b') (hstate : b'.state = .consumed) :
    s.batches.get? k' = some b' := by
  rw [get?_completeIfDone] at hb'
  split at hb'
  · obtain ⟨b, -, rfl⟩ := Option.map_eq_some_iff.mp hb'
    cases hstate
  · exact hb'

/-- Only an acquire consumes a batch, and it names the run of the batch as its parent. -/
theorem consumedBy_change
    (hc : Change (fun _ op => ∀ a, op = .acquire a → A a) s t) : ConsumedBy A s t := by
  cases hc with
  | rotated k row marker close _ _ =>
    refine consumedBy_of_rows ?_
    intro k' b hb _
    rw [get?_batches_dropContext] at hb
    split at hb
    · cases hb
    · exact hb
  | admitted a now u admissions hok _ _ _ hbinds _ =>
    obtain ⟨s₀, hok⟩ := hok
    cases hbinds with
    | free _ => exact consumedBy_of_rows fun _ _ hb _ => hb
    | consumed b hb hctx hstate hparent =>
      intro k b' hb' hconsumed
      have hb' : (s.consumeBatch b.key).batches.get? k = some b' := hb'
      rw [get?_consumeBatch] at hb'
      obtain ⟨x, hx, rfl⟩ := Option.map_eq_some_iff.mp hb'
      split at hconsumed
      · next hp =>
        have hk : b.key = k := hp.1.symm.trans (Table.get?_key hx)
        refine .inr ⟨a, hok a rfl, ?_, ?_⟩
        · rw [← hk]
          exact hctx.symm
        · rw [← hk]
          exact hparent
      · exact .inl ⟨x, hx, hconsumed⟩
  | froze k draw version deadline eventJson now a r batches journal _ _ _ _ _ _ _ _ hins =>
    refine consumedBy_of_rows ?_
    intro k' b hb hstate
    have hb : batches.get? k' = some b := hb
    rw [(Table.insert?_eq_some hins).2] at hb
    split at hb
    · obtain rfl := Option.some.inj hb
      cases hstate
    · exact hb
  | claimed b claimId deadline hb _ _ _ =>
    exact consumedBy_of_rows
      (consumed_updateBatch _ (Table.get?_of_mem hb) (by simp [Batch.claimed]))
  | renewed b deadline hb hstate =>
    exact consumedBy_of_rows
      (consumed_updateBatch _ (Table.get?_of_mem hb) (by simp [Batch.renewed, hstate]))
  | expired b hb _ =>
    exact consumedBy_of_rows
      (consumed_updateBatch Batch.expired_key (Table.get?_of_mem hb) (by simp [Batch.expired]))
  | begun c b _ _ hb hclaimed _ =>
    exact consumedBy_of_rows (consumed_updateBatch Batch.committed_key
      (Table.get?_of_mem (Table.get?_mem hb)) (by simp [committed_state hclaimed]))
  | ended c b outcome resultJson _ _ _ _ _ =>
    exact consumedBy_of_rows (consumed_completeIfDone
      (s := s.updateCalls _ _ (Call.finish_key outcome resultJson)))
  | deadline b _ _ =>
    exact consumedBy_of_rows (consumed_completeIfDone (s := s.updateCalls _ _ Call.expire_key))
  | _ => exact consumedBy_of_rows fun _ _ hb _ => hb

theorem consumedBy_of_changes
    (hc : Changes (fun _ op => ∀ a, op = .acquire a → A a) s t) : ConsumedBy A s t := by
  refine changes_preserves (fun _ => True) (ConsumedBy A) ?_ ?_ (fun _ _ _ _ => trivial)
    (fun _ _ _ hc => consumedBy_change hc) hc trivial
  · exact fun _ => consumedBy_of_rows fun _ _ hb _ => hb
  · intro s t u h h' k b hb hstate
    rcases h' k b hb hstate with ⟨b', hb', hstate'⟩ | hacquire
    · exact h k b' hb' hstate'
    · exact .inr hacquire

theorem acquire_replayed {a : AcquireArgs} {now : Time} {draw : Draw} {row : Admission}
    (h : s.acquire a now draw = .ok ((row, true), t)) : t = s := by
  unfold acquire at h
  split at h
  · cases h
  split at h
  · cases h
  split at h
  · cases h
  split at h
  · cases h
  split at h
  · split at h
    · cases h
    · exact (ok_pair_inj h).2.symm
  split at h
  · cases h
  split at h
  · cases h
  obtain ⟨u, -, h⟩ := bind_ok h
  obtain ⟨⟨row', v⟩, -, h⟩ := bind_ok h
  cases (ok_pair_inj h).1

theorem consumed_perform (x : Tx)
    (hb : (s.perform mac x).batches.get? k = some b) (hstate : b.state = .consumed) :
    (∃ b', s.batches.get? k = some b' ∧ b'.state = .consumed) ∨
      ∃ a row t, x.op = .acquire a ∧ s.acquire a x.now x.draw = .ok ((row, false), t) ∧
        row.contextId = k.1 ∧ row.parentRunId = k.2 := by
  have hchanges : Changes (fun _ op => ∀ a, op = .acquire a → x.op = .acquire a) s
      (s.perform mac x) := changes_perform s x fun a ha => ha
  rcases consumedBy_of_changes hchanges k b hb hstate with hold | ⟨a, ha, hctx, hparent⟩
  · exact .inl hold
  · have hperform : s.perform mac x = settle s (s.acquire a x.now x.draw) := by
      unfold perform
      rw [ha]
    rw [hperform] at hb
    cases hacquire : s.acquire a x.now x.draw with
    | error e =>
      rw [hacquire] at hb
      exact .inl ⟨b, hb, hstate⟩
    | ok r =>
      obtain ⟨⟨row, replay⟩, u⟩ := r
      cases replay with
      | true =>
        rw [hacquire, acquire_replayed hacquire] at hb
        exact .inl ⟨b, hb, hstate⟩
      | false =>
        obtain ⟨-, -, rfl, -⟩ := acquire_new hacquire
        exact .inr ⟨a, _, u, ha, hacquire, hctx, hparent⟩

/-! ## Runs -/

theorem begins_change (hc : Change G s t) : s.begins ⊆ t.begins := by
  intro e he
  cases hc with
  | begun => exact List.mem_cons_of_mem _ he
  | begunAgain => exact List.mem_cons_of_mem _ he
  | admitted a now u admissions _ _ _ _ hbinds _ => cases hbinds <;> exact he
  | _ => exact he

/-- The invariant of the machine as far as calls are concerned. -/
structure Sound (s : State) : Prop where
  fenced : Fenced s
  batched : Batched s
  executed : Executed s

theorem Sound.change (h : Sound s) (hc : Change G s t) : Sound t :=
  ⟨(h.fenced.change hc).1, h.batched.change h.fenced hc,
    h.executed.change h.fenced h.batched hc⟩

theorem batched_init : Batched init where
  turn _ _ h := by cases h
  call _ _ h := by cases h
  quiet _ _ _ _ h := by cases h
  one _ _ _ _ h := by cases h

theorem executed_init : Executed init where
  calls _ _ h := by cases h
  complete _ _ h := by cases h
  begins _ _ h := by cases h

theorem sound_init : Sound init := ⟨fenced_init, batched_init, executed_init⟩

theorem Sound.changes (h : Sound s) (hc : Changes G s t) : Sound t :=
  changes_invariant Sound (fun _ _ h hc => h.change hc) hc h

theorem sound_of_reach (h : Reach (step mac) init s) : Sound s :=
  sound_init.changes (changes_of_reach h)

theorem Sound.final (h : Sound s) (hc : Changes G s t) : Final s t ∧ s.begins ⊆ t.begins := by
  have hall : (Final s t ∧ s.begins ⊆ t.begins) ∧ Later s t := by
    refine changes_preserves Sound
      (fun s t => (Final s t ∧ s.begins ⊆ t.begins) ∧ Later s t) ?_ ?_
      (fun _ _ h hc => h.change hc) ?_ hc h
    · exact fun s => ⟨⟨.refl s, fun _ he => he⟩, .refl s⟩
    · exact fun _ _ _ h h' =>
        ⟨⟨final_trans h.1.1 h'.1.1 h'.2, List.Subset.trans h.1.2 h'.1.2⟩, h.2.trans h'.2⟩
    · exact fun _ _ h hc => ⟨⟨final_change hc, begins_change hc⟩, (h.fenced.change hc).2⟩
  exact hall.1

theorem Sound.live_call (h : Sound s) {k : CallKey} (hc : s.calls.get? k = some c) :
    s.Live k.1.1 := by
  obtain ⟨a, ha⟩ := Option.isSome_iff_exists.mp (h.batched.call k c hc)
  exact h.fenced.admission k.1 a ha

theorem Sound.live_batch (h : Sound s) (hb : s.batches.get? k = some b) : s.Live k.1 := by
  obtain ⟨a, ha, -⟩ := h.batched.turn k b hb
  exact h.fenced.admission k a ha

theorem beginCall_begins {receipt : Token} {catalogueId catalogueVersion : String} {scope : Scope}
    {now : Time} (hresolved : s.callByReceipt mac receipt scope = .ok (c, b))
    (h : s.beginCall mac receipt catalogueId catalogueVersion scope now = .ok (.ok (), t)) :
    (c.key, b.batchClaimId) ∈ t.begins := by
  have hin : ∀ {u}, s.beginIn c b catalogueId catalogueVersion = .ok (.ok (), u) →
      (c.key, b.batchClaimId) ∈ u.begins := by
    intro u hu
    unfold beginIn at hu
    split at hu
    · obtain ⟨-, rfl⟩ := ok_pair_inj hu
      exact List.mem_cons_self ..
    · cases hu
    split at hu
    · cases (ok_pair_inj hu).1
    · obtain ⟨-, rfl⟩ := ok_pair_inj hu
      exact List.mem_cons_self ..
  unfold beginCall at h
  rw [hresolved] at h
  dsimp only [Except.bind] at h
  split at h
  · cases h
  split at h
  · cases h
  split at h
  · split at h
    · cases (ok_pair_inj h).1
    · exact hin h
  split at h
  · exact hin h
  · cases h

/-- **A frontend call takes effect under one owner only**, over every interleaving and with any
clock readings: all begins of one call that succeed run under one claim; an effect outcome is
recorded only for a call that was begun and an outcome without effect only for one that was
not; a recorded outcome never changes; a batch is complete exactly when all its emitted calls
have ended; it is consumed once, by an acquire whose admission names its run as parent; and at
most one batch of a context is not consumed. -/
theorem one_effect_owner {mac : Mac} {s : State} (hs : Reach (step mac) init s) :
    (∀ receipt catalogueId catalogueVersion scope now c b s₁,
      s.callByReceipt mac receipt scope = .ok (c, b) →
      s.beginCall mac receipt catalogueId catalogueVersion scope now = .ok (.ok (), s₁) →
      (c.key, b.batchClaimId) ∈ s₁.begins ∧
      ∀ t, Reach (step mac) s₁ t →
        ∀ receipt' catalogueId' catalogueVersion' scope' now' c' b' t₁,
          t.callByReceipt mac receipt' scope' = .ok (c', b') →
          t.beginCall mac receipt' catalogueId' catalogueVersion' scope' now' = .ok (.ok (), t₁) →
          c'.key = c.key → b'.batchClaimId = b.batchClaimId) ∧
    (∀ c ∈ s.calls, ∀ o, c.execState = .done o →
      (o ∈ Outcome.effect → s.Began c.key) ∧ (o ∈ Outcome.noEffect → ¬ s.Began c.key)) ∧
    (∀ c ∈ s.calls, c.execState.isDone → ∀ t, Reach (step mac) s t → ∀ c' ∈ t.calls,
      c'.key = c.key → c'.execState = c.execState ∧ c'.resultKind = c.resultKind ∧
        c'.resultJson = c.resultJson) ∧
    (∀ b ∈ s.batches, b.state ≠ .consumed →
      (b.state = .complete ↔ ∀ c ∈ s.calls, c.runKey = b.key → c.state = .emitted →
        c.execState.isDone)) ∧
    (∀ b ∈ s.batches, b.state = .consumed → ∀ t, Reach (step mac) s t → ∀ b' ∈ t.batches,
      b'.key = b.key → b'.state = .consumed) ∧
    (∀ x, ∀ b' ∈ (s.perform mac x).batches, b'.state = .consumed →
      (∃ b ∈ s.batches, b.key = b'.key ∧ b.state = .consumed) ∨
      ∃ a row t, x.op = .acquire a ∧ s.acquire a x.now x.draw = .ok ((row, false), t) ∧
        row.contextId = b'.contextId ∧ row.parentRunId = b'.runId) ∧
    (∀ b ∈ s.batches, ∀ b' ∈ s.batches, b.contextId = b'.contextId → b.state ≠ .consumed →
      b'.state ≠ .consumed → b = b') := by
  have hsound := sound_of_reach hs
  refine ⟨?_, ?_, ?_, ?_, ?_, ?_, ?_⟩
  · intro receipt catalogueId catalogueVersion scope now c b s₁ hresolved hbegin
    have hmem := beginCall_begins hresolved hbegin
    refine ⟨hmem, ?_⟩
    intro t ht receipt' catalogueId' catalogueVersion' scope' now' c' b' t₁ hresolved' _ hkey
    have hs₁ : Sound s₁ := hsound.changes (changes_beginCall (G := fun _ _ => True) hbegin)
    have ht' : Sound t := hs₁.changes (changes_of_reach ht)
    have hmem' := (hs₁.final (changes_of_reach ht)).2 hmem
    obtain ⟨hc', -, -, hb', -, -⟩ := callByReceipt_ok hresolved'
    rcases ht'.executed.begins _ _ hmem' with ⟨x, hx, hid, -⟩ | hclosed
    · rw [← hkey, show c'.key.1 = c'.runKey from rfl, hb'] at hx
      obtain rfl := Option.some.inj hx
      exact hid
    · have hlive := ht'.live_call (Table.get?_of_mem hc')
      rw [hkey] at hlive
      exact absurd hclosed (ht'.fenced.not_closed hlive)
  · intro c hc o ho
    have hok := hsound.executed.calls c.key c (Table.get?_of_mem hc)
    obtain ⟨-, hiff, -⟩ := hok.done o ho
    refine ⟨hiff.mp, ?_⟩
    intro hno hbegan
    exact not_effect_of_noEffect hno (hiff.mpr hbegan)
  · intro c hc hdone t ht c' hc' hkey
    have hget : t.calls.get? c.key = some c' := Table.get?_eq_some.mpr ⟨hc', hkey⟩
    have ht' : Sound t := hsound.changes (changes_of_reach ht)
    rcases (hsound.final (changes_of_reach ht)).1.calls c.key c (Table.get?_of_mem hc) hdone with
      ⟨x, hx, hsame⟩ | hclosed
    · rw [hget] at hx
      obtain rfl := Option.some.inj hx
      exact hsame
    · exact absurd hclosed (ht'.fenced.not_closed (ht'.live_call hget))
  · intro b hb hopen
    rw [hsound.executed.complete b.key b (Table.get?_of_mem hb) hopen]
    simp only [unfinished, List.any_eq_false, decide_eq_true_eq, not_and, not_not]
    exact Iff.rfl
  · intro b hb hstate t ht b' hb' hkey
    have hget : t.batches.get? b.key = some b' := Table.get?_eq_some.mpr ⟨hb', hkey⟩
    have ht' : Sound t := hsound.changes (changes_of_reach ht)
    rcases (hsound.final (changes_of_reach ht)).1.batches b.key b (Table.get?_of_mem hb) hstate with
      ⟨x, hx, hsame⟩ | hclosed
    · rw [hget] at hx
      obtain rfl := Option.some.inj hx
      exact hsame
    · exact absurd hclosed (ht'.fenced.not_closed (ht'.live_batch hget))
  · intro x b' hb' hstate
    rcases consumed_perform x (Table.get?_of_mem hb') hstate with ⟨b, hb, hconsumed⟩ | hacquire
    · obtain ⟨hmem, hkey⟩ := Table.get?_eq_some.mp hb
      exact .inl ⟨b, hmem, hkey, hconsumed⟩
    · exact .inr hacquire
  · intro b hb b' hb' hctx hopen hopen'
    exact Table.eq_of_key hb hb' (hsound.batched.one b.key b'.key b b' (Table.get?_of_mem hb)
      (Table.get?_of_mem hb') hctx hopen hopen')

/-- A MAC for the sample run: the handle and the generation in plain text. -/
def sampleMac : Mac := fun _ handle _ _ generation => handle ++ "#" ++ toString generation

/-- A managed turn emits one call, which is claimed, begun and answered; the follow-up run
consumes the batch. -/
def consumedCall : State :=
  [⟨.savePublication ⟨"pub", "conv", true, true⟩, 0, {}⟩,
    ⟨.ensureThread sampleThread, 1, {}⟩,
    ⟨.resolveContext ⟨"pub", "conv", true, true⟩ sampleThread 0 "d", 2, {}⟩,
    ⟨.acquire ⟨sampleThread, 0, "r1", "h1", "", ""⟩, 3, { handle := "1" }⟩,
    ⟨.adopt (⟨sampleThread, 0⟩, "r1") "w1", 4, {}⟩,
    ⟨.recordCall (⟨sampleThread, 0⟩, "r1") ⟨"c1", "tool", "cat", "1"⟩, 5, {}⟩,
    ⟨.finish (⟨sampleThread, 0⟩, "r1") { worker := "w1", outcome := "success" }, 6,
      { handle := "2", callHandle := fun _ => "3" }⟩,
    ⟨.claimBatch ⟨1, "bh2", "bh2#0"⟩ "claim" second none, 7, {}⟩,
    ⟨.beginCall ⟨1, "ch3", "ch3#1"⟩ "cat" "1" none, 8, {}⟩,
    ⟨.depositCall ⟨1, "ch3", "ch3#1"⟩ "result" "ok" none, 9, {}⟩,
    ⟨.acquire ⟨sampleThread, 0, "r2", "h2", "", "r1"⟩, 10, { handle := "4" }⟩].foldl
    (perform sampleMac) init

theorem one_effect_owner_consumedCall :
    consumedCall.batches.rows.map (fun b => (b.runId, b.state, b.batchClaimId)) =
        [("r1", .consumed, "claim")] ∧
      consumedCall.calls.rows.map (fun c => (c.toolCallId, c.state, c.execState)) =
        [("c1", .consumed, .done .result)] ∧
      ∀ c ∈ consumedCall.calls, c.execState = .done .result → consumedCall.Began c.key := by
  have hreach : Reach (step sampleMac) init consumedCall := reach_foldl (fun _ _ => rfl) _ _
  refine ⟨by decide +kernel, by decide +kernel, ?_⟩
  intro c hc hresult
  obtain ⟨-, houtcome, -⟩ := one_effect_owner hreach
  exact (houtcome c hc .result hresult).1 (by decide)

end State

end PawFlow.Agui
