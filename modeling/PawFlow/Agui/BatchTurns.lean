import PawFlow.Agui.Fencing

/-!
# Batches and turns

A batch belongs to a turn that is over, and while a turn is active every batch of its context
is consumed. So a turn freezes at most one batch, and a context has at most one batch that is
not consumed.
-/

namespace PawFlow.Agui

open PawFlow.Lib

namespace State

variable {s t : State}

structure Batched (s : State) : Prop where
  turn : ∀ k b, s.batches.get? k = some b →
    ∃ a, s.admissions.get? k = some a ∧ a.isActive = false
  call : ∀ k c, s.calls.get? k = some c → (s.admissions.get? k.1).isSome
  quiet : ∀ k k' b a, s.batches.get? k = some b → s.admissions.get? k' = some a →
    k.1 = k'.1 → a.isActive → b.state = .consumed
  one : ∀ k k' b b', s.batches.get? k = some b → s.batches.get? k' = some b' →
    k.1 = k'.1 → b.state ≠ .consumed → b'.state ≠ .consumed → k = k'

variable {k : RunKey}

variable {a : Admission}

theorem Batched.no_batch (h : Batched s)
    (ha : s.admissions.get? k = some a) (hactive : a.isActive) : s.batches.get? k = none := by
  cases hb : s.batches.get? k with
  | none => rfl
  | some b =>
    obtain ⟨a', ha', hover⟩ := h.turn k b hb
    rw [ha] at ha'
    obtain rfl := Option.some.inj ha'
    rw [hactive] at hover
    cases hover

theorem Batched.of_rows (h : Batched s) (hadmissions : t.admissions = s.admissions)
    (hcalls : ∀ k c', t.calls.get? k = some c' → (s.calls.get? k).isSome)
    (hbatches : ∀ k b', t.batches.get? k = some b' →
      ∃ b, s.batches.get? k = some b ∧ (b.state = .consumed → b'.state = .consumed)) :
    Batched t := by
  constructor
  · intro k b' hb'
    obtain ⟨b, hb, -⟩ := hbatches k b' hb'
    rw [hadmissions]
    exact h.turn k b hb
  · intro k c' hc'
    obtain ⟨c, hc⟩ := Option.isSome_iff_exists.mp (hcalls k c' hc')
    rw [hadmissions]
    exact h.call k c hc
  · intro k k' b' a hb' ha hk hactive
    obtain ⟨b, hb, hconsumed⟩ := hbatches k b' hb'
    rw [hadmissions] at ha
    exact hconsumed (h.quiet k k' b a hb ha hk hactive)
  · intro k₁ k₂ b₁ b₂ h₁ h₂ hk hopen₁ hopen₂
    obtain ⟨c₁, hc₁, hback₁⟩ := hbatches k₁ b₁ h₁
    obtain ⟨c₂, hc₂, hback₂⟩ := hbatches k₂ b₂ h₂
    exact h.one k₁ k₂ c₁ c₂ hc₁ hc₂ hk (fun hc => hopen₁ (hback₁ hc)) (fun hc => hopen₂ (hback₂ hc))

theorem Batched.congr (h : Batched s) (hadmissions : t.admissions = s.admissions)
    (hcalls : t.calls = s.calls) (hbatches : t.batches = s.batches) : Batched t := by
  apply h.of_rows hadmissions
  · intro k c hc
    rw [← hcalls, hc]
    rfl
  · intro k b hb
    exact ⟨b, hbatches ▸ hb, id⟩

variable {p : Call → Bool}

theorem calls_of_update {f : Call → Call} (hf : ∀ c, (f c).key = c.key)
    (hcalls : t.calls = s.calls.update p f hf) (k : CallKey) (c' : Call)
    (hc' : t.calls.get? k = some c') : (s.calls.get? k).isSome := by
  rw [hcalls, Table.get?_update] at hc'
  obtain ⟨c, hc, -⟩ := Option.map_eq_some_iff.mp hc'
  rw [hc]
  rfl

variable {f : Batch → Batch} {b : Batch}

theorem get?_updateBatch (hf : ∀ b, (f b).key = b.key) (k' : RunKey) :
    (s.updateBatch k f hf).batches.get? k' =
      if k' = k then (s.batches.get? k').map f else s.batches.get? k' :=
  s.batches.get?_update_at f hf k k'

theorem batches_of_update (hf : ∀ b, (f b).key = b.key)
    (hb : s.batches.get? k = some b) (hopen : b.state ≠ .consumed)
    (k' : RunKey) (b' : Batch) (hb' : (s.updateBatch k f hf).batches.get? k' = some b') :
    ∃ b, s.batches.get? k' = some b ∧ (b.state = .consumed → b'.state = .consumed) := by
  rw [get?_updateBatch] at hb'
  split at hb'
  · next hk =>
    subst hk
    exact ⟨b, hb, fun hconsumed => absurd hconsumed hopen⟩
  · exact ⟨b', hb', id⟩

theorem Batched.updateBatch (h : Batched s)
    (hf : ∀ b, (f b).key = b.key) (hb : s.batches.get? k = some b)
    (hopen : b.state ≠ .consumed) : Batched (s.updateBatch k f hf) :=
  h.of_rows rfl (fun k c hc => by rw [show s.calls.get? k = some c from hc]; rfl)
    (batches_of_update hf hb hopen)

theorem get?_completeIfDone (k' : RunKey) :
    (s.completeIfDone k).batches.get? k' =
      if k' = k ∧ s.unfinished k = false then (s.batches.get? k').map Batch.completed
      else s.batches.get? k' := by
  unfold completeIfDone
  cases hunfinished : s.unfinished k with
  | true => simp
  | false =>
    simp only [Bool.false_eq_true, if_false, and_true]
    exact s.batches.get?_update_at _ Batch.completed_key k k'

theorem Batched.completeIfDone (h : Batched s)
    (hb : s.batches.get? k = some b) (hopen : b.state ≠ .consumed) :
    Batched (s.completeIfDone k) := by
  refine h.of_rows (t := s.completeIfDone k) rfl ?_ ?_
  · intro k' c hc
    rw [show s.calls.get? k' = some c from hc]
    rfl
  · intro k' b' hb'
    rw [get?_completeIfDone] at hb'
    split at hb'
    · next hk =>
      rw [hk.1] at hb' ⊢
      exact ⟨b, hb, fun hconsumed => absurd hconsumed hopen⟩
    · exact ⟨b', hb', id⟩

theorem Batched.updateCalls (h : Batched s) {f : Call → Call}
    (hf : ∀ c, (f c).key = c.key) : Batched (s.updateCalls p f hf) :=
  h.of_rows rfl (calls_of_update hf rfl) fun _ b hb => ⟨b, hb, id⟩

theorem not_consumed_of_open (h : b.state.isOpen) : b.state ≠ .consumed := by
  intro hconsumed
  rw [hconsumed] at h
  cases h

theorem not_consumed_of_claimed (h : Claimed b) : b.state ≠ .consumed := by
  rcases h with hstate | hstate <;> simp [hstate]

theorem get?_calls_dropContext (c : ContextId) (k : CallKey) :
    (s.dropContext c).calls.get? k = if k.1.1 = c then none else s.calls.get? k :=
  s.calls.get?_delete_keys (fun k => k.1.1 = c) k

theorem get?_batches_dropContext (c : ContextId) (k : RunKey) :
    (s.dropContext c).batches.get? k = if k.1 = c then none else s.batches.get? k :=
  s.batches.get?_delete_keys (fun k => k.1 = c) k

theorem Batched.dropped (h : Batched s) (c : ContextId) : Batched (s.dropContext c) := by
  constructor
  · intro k b hb
    rw [get?_batches_dropContext] at hb
    split at hb
    · cases hb
    next hne =>
    rw [get?_admissions_dropContext, if_neg hne]
    exact h.turn k b hb
  · intro k x hx
    rw [get?_calls_dropContext] at hx
    split at hx
    · cases hx
    next hne =>
    rw [get?_admissions_dropContext, if_neg hne]
    exact h.call k x hx
  · intro k k' b a hb ha hk hactive
    rw [get?_batches_dropContext] at hb
    rw [get?_admissions_dropContext] at ha
    split at hb
    · cases hb
    split at ha
    · cases ha
    exact h.quiet k k' b a hb ha hk hactive
  · intro k₁ k₂ b₁ b₂ h₁ h₂ hk hopen₁ hopen₂
    rw [get?_batches_dropContext] at h₁ h₂
    split at h₁
    · cases h₁
    split at h₂
    · cases h₂
    exact h.one k₁ k₂ b₁ b₂ h₁ h₂ hk hopen₁ hopen₂

theorem Batched.moved (h : Batched s) {k : RunKey} {f : Admission → Admission}
    (hf : ∀ a, (f a).key = a.key) {a : Admission} (ha : s.admissions.get? k = some a)
    (hmoves : Moves a (f a)) : Batched (s.updateAdmission k f hf) := by
  have hnone := h.no_batch ha hmoves.before
  refine ⟨?_, ?_, ?_, h.one⟩
  · intro k' b hb
    obtain ⟨a', ha', hover⟩ := h.turn k' b hb
    rw [get?_updateAdmission, if_neg]
    · exact ⟨a', ha', hover⟩
    · rintro rfl
      rw [show s.batches.get? k' = some b from hb] at hnone
      cases hnone
  · intro k' c hc
    rw [get?_updateAdmission]
    split
    · rw [Option.isSome_map]
      exact h.call k' c hc
    · exact h.call k' c hc
  · intro k₁ k₂ b a₂ hb ha₂ hk hactive
    rw [get?_updateAdmission] at ha₂
    split at ha₂
    · next hk₂ => exact h.quiet k₁ k₂ b a hb (hk₂ ▸ ha) hk hmoves.before
    · exact h.quiet k₁ k₂ b a₂ hb ha₂ hk hactive

theorem Batched.left (h : Batched s) {state : AdmissionState} (outcome : String)
    (hstate : state.isActive = false) : Batched (s.exitLease k state outcome) := by
  refine ⟨?_, ?_, ?_, h.one⟩
  · intro k' b hb
    obtain ⟨a, ha, hover⟩ := h.turn k' b hb
    rw [get?_admissions_exitLease, ha]
    split
    · exact ⟨_, rfl, hstate⟩
    · exact ⟨a, rfl, hover⟩
  · intro k' c hc
    rw [get?_admissions_exitLease]
    split
    · rw [Option.isSome_map]
      exact h.call k' c hc
    · exact h.call k' c hc
  · intro k₁ k₂ b a hb ha hk hactive
    rw [get?_admissions_exitLease] at ha
    split at ha
    · obtain ⟨a', -, rfl⟩ := Option.map_eq_some_iff.mp ha
      have hactive : state.isActive = true := hactive
      rw [hstate] at hactive
      cases hactive
    · exact h.quiet k₁ k₂ b a hb ha hk hactive

theorem get?_consumeBatch (k' : RunKey) :
    (s.consumeBatch k).batches.get? k' = (s.batches.get? k').map fun b =>
      if b.key = k ∧ b.state = .complete then b.consume else b := by
  refine (s.batches.get?_update _ _ Batch.consume_key k').trans ?_
  congr 1
  funext b
  simp only [decide_eq_true_eq]

/-- What binding a parent leaves: the batches of the context are consumed, and no other one
is. -/
theorem Batched.binds (h : Batched s) {a : AcquireArgs} (hbinds : Binds s a t) :
    Batched t ∧ (∀ k b, t.batches.get? k = some b → k.1 = a.contextId → b.state = .consumed) ∧
      t.admissions = s.admissions := by
  cases hbinds with
  | free hfree =>
    refine ⟨h, ?_, rfl⟩
    intro k b hb hk
    obtain ⟨hmem, rfl⟩ := Table.get?_eq_some.mp hb
    exact hfree b hmem hk
  | consumed b hb hc hstate hparent =>
    refine ⟨h.of_rows rfl (calls_of_update Call.consume_key rfl) ?_, ?_, rfl⟩
    · intro k b' hb'
      rw [get?_consumeBatch] at hb'
      obtain ⟨x, hx, rfl⟩ := Option.map_eq_some_iff.mp hb'
      refine ⟨x, hx, ?_⟩
      split
      · exact fun _ => rfl
      · exact id
    · intro k b' hb' hk
      rw [get?_consumeBatch] at hb'
      obtain ⟨x, hx, rfl⟩ := Option.map_eq_some_iff.mp hb'
      -- the batch found is the only one that was not consumed
      by_cases hconsumed : x.state = .consumed
      · split
        · rfl
        · exact hconsumed
      · have hget := Table.get?_of_mem hb
        obtain rfl : k = b.key :=
          h.one k b.key x b hx hget (hk.trans hc.symm) hconsumed (by simp [hstate])
        rw [hget] at hx
        obtain rfl := Option.some.inj hx
        rw [if_pos ⟨rfl, hstate⟩]
        rfl

theorem Batched.admitted (h : Batched s) {a : AcquireArgs} {token : Nat} {now : Time}
    {admissions : Table RunKey Admission Admission.key}
    (hquiet : ∀ k b, s.batches.get? k = some b → k.1 = a.contextId → b.state = .consumed)
    (hins : s.admissions.insert? (a.admission token now) = some admissions) :
    Batched { s with admissions } := by
  obtain ⟨hfree, hget⟩ := Table.insert?_eq_some hins
  have hget : ∀ k, ({ s with admissions } : State).admissions.get? k =
      if k = a.key then some (a.admission token now) else s.admissions.get? k := hget
  have hfree : s.admissions.get? a.key = none := hfree
  refine ⟨?_, ?_, ?_, h.one⟩
  · intro k b hb
    obtain ⟨x, hx, hover⟩ := h.turn k b hb
    rw [hget, if_neg]
    · exact ⟨x, hx, hover⟩
    · rintro rfl
      rw [hfree] at hx
      cases hx
  · intro k c hc
    rw [hget]
    split
    · rfl
    · exact h.call k c hc
  · intro k k' b x hb hx hk hactive
    rw [hget] at hx
    split at hx
    · next hk' =>
      refine hquiet k b hb ?_
      rw [hk, hk']
    · exact h.quiet k k' b x hb hx hk hactive

theorem Batched.froze (h : Batched s) (hfenced : Fenced s)
    {row : Batch} {batches : Table RunKey Batch Batch.key} (ha : s.admissions.get? k = some a)
    (hactive : a.isActive) (hkey : row.key = k) (hins : s.batches.insert? row = some batches) :
    Batched ({ s with batches }.exitLease k .terminal "success") := by
  obtain ⟨-, hget⟩ := Table.insert?_eq_some hins
  have hget : ∀ k', ({ s with batches }.exitLease k .terminal "success").batches.get? k' =
      if k' = k then some row else s.batches.get? k' := by
    rw [← hkey]
    exact hget
  have hadmissions : ∀ k', ({ s with batches }.exitLease k .terminal "success").admissions.get? k' =
      if k' = k then (s.admissions.get? k').map (leftWith .terminal "success")
      else s.admissions.get? k' := get?_admissions_exitLease (s := { s with batches })
  have hleft := h.left (k := k) "success" (rfl : AdmissionState.terminal.isActive = false)
  refine ⟨?_, hleft.call, ?_, ?_⟩
  · intro k' b hb
    rw [hget] at hb
    split at hb
    · next hk =>
      rw [hadmissions, if_pos hk, hk, ha]
      exact ⟨_, rfl, rfl⟩
    · exact hleft.turn k' b hb
  · intro k₁ k₂ b x hb hx hk hactive'
    rw [hget] at hb
    split at hb
    · next hk₁ =>
      -- the only active turn of the context has just left
      rw [hadmissions] at hx
      split at hx
      · obtain ⟨y, -, rfl⟩ := Option.map_eq_some_iff.mp hx
        cases hactive'
      · next hk₂ =>
        exact absurd (hfenced.one k₂ k x a hx ha (by rw [← hk, hk₁]) hactive' hactive) hk₂
    · exact hleft.quiet k₁ k₂ b x hb hx hk hactive'
  · intro k₁ k₂ b₁ b₂ h₁ h₂ hk hopen₁ hopen₂
    rw [hget] at h₁ h₂
    split at h₁
    · next hk₁ =>
      split at h₂
      · next hk₂ => rw [hk₁, hk₂]
      · exact absurd (h.quiet k₂ k b₂ a h₂ ha (by rw [← hk, hk₁]) hactive) hopen₂
    · split at h₂
      · next hk₂ => exact absurd (h.quiet k₁ k b₁ a h₁ ha (by rw [hk, hk₂]) hactive) hopen₁
      · exact h.one k₁ k₂ b₁ b₂ h₁ h₂ hk hopen₁ hopen₂

theorem Batched.recorded (h : Batched s) {c : Call} (ha : s.admissions.get? c.runKey = some a) :
    Batched { s with calls := s.calls.insertIgnore c } := by
  refine ⟨h.turn, ?_, h.quiet, h.one⟩
  intro k x hx
  rw [Table.get?_insertIgnore, Option.or_eq_some_iff] at hx
  rcases hx with hx | ⟨-, hx⟩
  · exact h.call k x hx
  · split at hx
    · next hk =>
      rw [hk]
      show (s.admissions.get? c.runKey).isSome
      rw [ha]
      rfl
    · cases hx

variable {G : State → Op → Prop}

theorem Batched.change (h : Batched s) (hfenced : Fenced s) (hc : Change G s t) : Batched t := by
  cases hc with
  | rotated k row marker close _ _ => exact (h.dropped ⟨k, row.generation⟩).congr rfl rfl rfl
  | admitted a now u admissions _ _ _ _ hbinds hins =>
    obtain ⟨hu, hquiet, hadmissions⟩ := h.binds hbinds
    rw [← hadmissions] at hins
    exact (hu.admitted hquiet hins).congr rfl rfl rfl
  | moved k f hf a ha hmoves => exact h.moved hf ha hmoves
  | left k state a r _ _ _ _ hstate =>
    refine (h.left (k := k) r.outcome hstate).of_rows rfl ?_ (fun _ b hb => ⟨b, hb, id⟩)
    intro k' c' hc'
    have hc' : Table.get? (if r.outcome ≠ "success" then (s.abandonCalls k).calls else s.calls)
        k' = some c' := hc'
    split at hc'
    · exact calls_of_update Call.abandon_key rfl k' c' hc'
    · rw [show (s.exitLease k state r.outcome).calls.get? k' = some c' from hc']
      rfl
  | froze k draw version deadline eventJson now a r batches journal ha hrunning _ _ _ _ _ _ hins =>
    have hu := h.froze hfenced ha (isActive_of_state hrunning) rfl hins
    exact hu.of_rows rfl (calls_of_update (Call.withHandle_key draw) rfl)
      (fun _ b hb => ⟨b, hb, id⟩)
  | recorded c a args _ _ _ _ ha _ _ _ _ _ _ => exact h.recorded ha
  | claimed b claimId deadline hb hfrozen _ _ =>
    exact h.updateBatch _ (Table.get?_of_mem hb) (by simp [hfrozen])
  | renewed b deadline hb hstate =>
    exact h.updateBatch _ (Table.get?_of_mem hb) (by simp [hstate])
  | expired b hb hstate =>
    have hu := h.updateBatch Batch.expired_key (Table.get?_of_mem hb) (by simp [hstate])
    exact hu.congr rfl rfl rfl
  | begun c b _ _ hb hclaimed _ =>
    have hu := h.updateBatch Batch.committed_key (Table.get?_of_mem (Table.get?_mem hb))
      (not_consumed_of_claimed hclaimed)
    exact (hu.updateCalls Call.execute_key).congr rfl rfl rfl
  | ended c b outcome resultJson _ _ hb hopen _ =>
    exact (h.updateCalls _).completeIfDone hb (not_consumed_of_open hopen)
  | deadline b hb hopen =>
    exact (h.updateCalls _).completeIfDone (Table.get?_of_mem hb) (not_consumed_of_open hopen)
  | _ => exact h.congr rfl rfl rfl

end State

end PawFlow.Agui
