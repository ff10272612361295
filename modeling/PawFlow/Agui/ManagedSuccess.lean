import PawFlow.Agui.Agreement
import PawFlow.Agui.OneOwner

/-!
# Managed successes and their batches

On a managed publication a success with pending calls is meant to go through T-freeze alone:
an append refuses it, and `finish_agui_turn` freezes the batch in the transaction that ends the
run. `record_agui_call` looks at the admission only, so it still takes a call after the journal
has ended with success; then no batch is ever frozen for it. Where no call is recorded that
late, every success with pending calls has its batch, and no follow-up run meets pending calls
without one.
-/

namespace PawFlow.Agui

open PawFlow.Lib

namespace State

/-- A call that is recorded, although the journal of its run has ended with success. -/
def Late (s : State) (k : RunKey) (a : CallArgs) : Prop :=
  (s.admissions.get? k).any (fun x => x.state = .running) ∧
    (s.runs.get? k).any (fun r => r.terminal ∧ r.outcome = "success") ∧
    a.toolCallId ≠ "" ∧ a.catalogueId ≠ "" ∧ a.catalogueVersion ≠ "" ∧
    (s.calls.get? (k, a.toolCallId)).isNone

instance (s : State) (k : RunKey) (a : CallArgs) : Decidable (Late s k a) :=
  inferInstanceAs (Decidable (_ ∧ _ ∧ _ ∧ _ ∧ _ ∧ _))

def StaysManaged (pub : String) : Op → Prop
  | .savePublication p => p.publicationId = pub → p.managedMode
  | _ => True

instance (pub : String) (op : Op) : Decidable (StaysManaged pub op) :=
  match op with
  | .savePublication p => inferInstanceAs (Decidable (p.publicationId = pub → p.managedMode))
  | .ensureThread _ | .resolveContext .. | .clearCleanup .. | .rotate .. | .reserveSweep _
  | .openRun _ | .acquireSubscriber .. | .append .. | .prune _ | .acquire _ | .claimDispatch ..
  | .ackDispatch ..
  | .adopt .. | .start .. | .heartbeat .. | .finish .. | .orphanExpired _ | .cancel ..
  | .recordCall .. | .claimBatch .. | .renewBatch .. | .beginCall .. | .depositCall ..
  | .expireNext | .pruneKeys => inferInstanceAs (Decidable True)

def InTime (pub : String) (s : State) : Op → Prop
  | .recordCall k a => k.1.thread.publicationId = pub → ¬ Late s k a
  | _ => True

instance (pub : String) (s : State) (op : Op) : Decidable (InTime pub s op) :=
  match op with
  | .recordCall k a =>
    inferInstanceAs (Decidable (k.1.thread.publicationId = pub → ¬ Late s k a))
  | .ensureThread _ | .resolveContext .. | .clearCleanup .. | .rotate .. | .reserveSweep _
  | .savePublication _ | .openRun _ | .acquireSubscriber .. | .append .. | .prune _ | .acquire _ | .claimDispatch ..
  | .ackDispatch .. | .adopt .. | .start .. | .heartbeat .. | .finish .. | .orphanExpired _
  | .cancel .. | .claimBatch .. | .renewBatch .. | .beginCall .. | .depositCall ..
  | .expireNext | .pruneKeys => inferInstanceAs (Decidable True)

variable {s t : State} {pub : String}

def Emits (s : State) (k : RunKey) : Prop :=
  ∃ ck c, s.calls.get? ck = some c ∧ ck.1 = k ∧ c.state = .emitted

structure Receipted (pub : String) (s : State) : Prop where
  managed : ∀ p, s.publications.get? pub = some p → p.managedMode
  publication : ∀ c, s.Live c → c.thread.publicationId = pub → (s.publications.get? pub).isSome
  /-- A run that ended with success and has no batch has no pending calls. -/
  success : ∀ k r, k.1.thread.publicationId = pub → s.runs.get? k = some r → r.terminal →
    r.outcome = "success" → s.batches.get? k = none → ¬ Emits s k
  failure : ∀ k a, s.admissions.get? k = some a → a.isActive = false → a.outcome ≠ "success" →
    ¬ Emits s k
  consumed : ∀ k b, s.batches.get? k = some b → b.state = .consumed → ¬ Emits s k

/-- `t` has nothing to account for that `s` has not. -/
structure Below (s t : State) : Prop where
  publications : t.publications = s.publications
  live : ∀ c, t.Live c → s.Live c
  runs : ∀ k r', t.runs.get? k = some r' → r'.terminal → r'.outcome = "success" →
    ∃ r, s.runs.get? k = some r ∧ r.terminal ∧ r.outcome = "success"
  admissions : ∀ k a', t.admissions.get? k = some a' → a'.isActive = false →
    ∃ a, s.admissions.get? k = some a ∧ a.isActive = false ∧ a.outcome = a'.outcome
  calls : ∀ k c', t.calls.get? k = some c' → c'.state = .emitted →
    ∃ c, s.calls.get? k = some c ∧ c.state = .emitted
  batches : ∀ k, (t.runs.get? k).isSome → t.batches.get? k = none → s.batches.get? k = none
  consumed : ∀ k b', t.batches.get? k = some b' → b'.state = .consumed →
    ∃ b, s.batches.get? k = some b ∧ b.state = .consumed

variable {k : RunKey} {journal : Table (RunKey × Nat) JournalRow JournalRow.key}

theorem Emits.of_calls (h : Emits t k)
    (hcalls : ∀ k c', t.calls.get? k = some c' → c'.state = .emitted →
      ∃ c, s.calls.get? k = some c ∧ c.state = .emitted) : Emits s k := by
  obtain ⟨ck, c', hc', hk, hstate⟩ := h
  obtain ⟨c, hc, hstate⟩ := hcalls ck c' hc' hstate
  exact ⟨ck, c, hc, hk, hstate⟩

theorem Receipted.below (h : Receipted pub s) (hbelow : Below s t) : Receipted pub t := by
  constructor
  · rw [hbelow.publications]
    exact h.managed
  · rw [hbelow.publications]
    exact fun c hlive => h.publication c (hbelow.live c hlive)
  · intro k r' hpub hr' hterminal houtcome hnone hemits
    obtain ⟨r, hr, hterminal, houtcome⟩ := hbelow.runs k r' hr' hterminal houtcome
    have hnone := hbelow.batches k (Option.isSome_iff_exists.mpr ⟨r', hr'⟩) hnone
    exact h.success k r hpub hr hterminal houtcome hnone (hemits.of_calls hbelow.calls)
  · intro k a' ha' hover houtcome hemits
    obtain ⟨a, ha, hover, hsame⟩ := hbelow.admissions k a' ha' hover
    exact h.failure k a ha hover (hsame ▸ houtcome) (hemits.of_calls hbelow.calls)
  · intro k b' hb' hstate hemits
    obtain ⟨b, hb, hstate⟩ := hbelow.consumed k b' hb' hstate
    exact h.consumed k b hb hstate (hemits.of_calls hbelow.calls)

theorem below_of_rows (hpublications : t.publications = s.publications)
    (hcontexts : t.contexts = s.contexts) (hadmissions : t.admissions = s.admissions)
    (hruns : ∀ k r', t.runs.get? k = some r' → r'.terminal → r'.outcome = "success" →
      ∃ r, s.runs.get? k = some r ∧ r.terminal ∧ r.outcome = "success")
    (hcalls : ∀ k c', t.calls.get? k = some c' → c'.state = .emitted →
      ∃ c, s.calls.get? k = some c ∧ c.state = .emitted)
    (hbatches : ∀ k, t.batches.get? k = none → s.batches.get? k = none)
    (hconsumed : ∀ k b', t.batches.get? k = some b' → b'.state = .consumed →
      ∃ b, s.batches.get? k = some b ∧ b.state = .consumed) : Below s t := by
  refine ⟨hpublications, ?_, hruns, ?_, hcalls, fun k _ => hbatches k, hconsumed⟩
  · unfold Live
    rw [hcontexts]
    exact fun _ hlive => hlive
  · rw [hadmissions]
    exact fun _ a ha hover => ⟨a, ha, hover, rfl⟩

theorem below_of_eq (hpublications : t.publications = s.publications)
    (hcontexts : t.contexts = s.contexts) (hadmissions : t.admissions = s.admissions)
    (hruns : t.runs = s.runs) (hcalls : t.calls = s.calls) (hbatches : t.batches = s.batches) :
    Below s t := by
  apply below_of_rows hpublications hcontexts hadmissions
  · rw [hruns]
    exact fun _ r hr hterminal houtcome => ⟨r, hr, hterminal, houtcome⟩
  · rw [hcalls]
    exact fun _ c hc hstate => ⟨c, hc, hstate⟩
  · rw [hbatches]
    exact fun _ hnone => hnone
  · rw [hbatches]
    exact fun _ b hb hstate => ⟨b, hb, hstate⟩

variable {f : Call → Call} {p : Call → Bool} {eventJson : String}

theorem emitted_of_update (hf : ∀ c, (f c).key = c.key)
    (hstate : ∀ c, (f c).state = .emitted → c.state = .emitted) (k : CallKey) (c' : Call)
    (hc' : (s.calls.update p f hf).get? k = some c') (hemitted : c'.state = .emitted) :
    ∃ c, s.calls.get? k = some c ∧ c.state = .emitted := by
  rw [Table.get?_update] at hc'
  obtain ⟨c, hc, rfl⟩ := Option.map_eq_some_iff.mp hc'
  refine ⟨c, hc, ?_⟩
  split at hemitted
  · exact hstate c hemitted
  · exact hemitted

theorem below_updateBatch {f : Batch → Batch} (hf : ∀ b, (f b).key = b.key)
    {b : Batch} (hb : s.batches.get? k = some b) (hopen : (f b).state ≠ .consumed) :
    Below s (s.updateBatch k f hf) := by
  refine below_of_rows (t := s.updateBatch k f hf) rfl rfl rfl ?_ ?_ ?_ ?_
  · exact fun _ r hr hterminal houtcome => ⟨r, hr, hterminal, houtcome⟩
  · exact fun _ c hc hstate => ⟨c, hc, hstate⟩
  · intro k' hnone
    rw [get?_updateBatch] at hnone
    split at hnone
    · exact Option.map_eq_none_iff.mp hnone
    · exact hnone
  · intro k' b' hb' hstate
    exact ⟨b', consumed_updateBatch hf hb hopen k' b' hb' hstate, hstate⟩

theorem below_updateCalls (hf : ∀ c, (f c).key = c.key)
    (hstate : ∀ c, (f c).state = .emitted → c.state = .emitted) :
    Below s (s.updateCalls p f hf) := by
  refine below_of_rows (t := s.updateCalls p f hf) rfl rfl rfl ?_ ?_ ?_ ?_
  · exact fun _ r hr hterminal houtcome => ⟨r, hr, hterminal, houtcome⟩
  · exact emitted_of_update hf hstate
  · exact fun _ hnone => hnone
  · exact fun _ b hb hconsumed => ⟨b, hb, hconsumed⟩

theorem below_completeIfDone (k : RunKey) : Below s (s.completeIfDone k) := by
  refine below_of_rows (t := s.completeIfDone k) rfl rfl rfl ?_ ?_ ?_ ?_
  · exact fun _ r hr hterminal houtcome => ⟨r, hr, hterminal, houtcome⟩
  · exact fun _ c hc hstate => ⟨c, hc, hstate⟩
  · intro k' hnone
    rw [get?_completeIfDone] at hnone
    split at hnone
    · exact Option.map_eq_none_iff.mp hnone
    · exact hnone
  · intro k' b' hb' hstate
    exact ⟨b', consumed_completeIfDone k' b' hb' hstate, hstate⟩

theorem below_dropContext (c : ContextId) : Below s (s.dropContext c) := by
  refine ⟨rfl, ?_, ?_, ?_, ?_, ?_, ?_⟩
  · intro c' hlive
    have hlive : ((s.dropContext c).contexts.get? c').isSome := hlive
    rw [get?_contexts_dropContext] at hlive
    split at hlive
    · cases hlive
    · exact hlive
  · intro k r hr hterminal houtcome
    rw [get?_runs_dropContext] at hr
    split at hr
    · cases hr
    · exact ⟨r, hr, hterminal, houtcome⟩
  · intro k a ha hover
    rw [get?_admissions_dropContext] at ha
    split at ha
    · cases ha
    · exact ⟨a, ha, hover, rfl⟩
  · intro k x hx hstate
    rw [get?_calls_dropContext] at hx
    split at hx
    · cases hx
    · exact ⟨x, hx, hstate⟩
  · intro k hrun hnone
    rw [get?_runs_dropContext] at hrun
    split at hrun
    · cases hrun
    next hne =>
    rw [get?_batches_dropContext, if_neg hne] at hnone
    exact hnone
  · intro k b hb hstate
    rw [get?_batches_dropContext] at hb
    split at hb
    · cases hb
    · exact ⟨b, hb, hstate⟩

theorem below_of_runs {runs : Table RunKey Run Run.key}
    (hruns : ∀ k r', runs.get? k = some r' → r'.terminal → r'.outcome = "success" →
      ∃ r, s.runs.get? k = some r ∧ r.terminal ∧ r.outcome = "success") :
    Below s { s with runs, journal } := by
  refine below_of_rows (t := { s with runs, journal }) rfl rfl rfl hruns ?_ ?_ ?_
  · exact fun _ c hc hstate => ⟨c, hc, hstate⟩
  · exact fun _ hnone => hnone
  · exact fun _ b hb hconsumed => ⟨b, hb, hconsumed⟩

theorem below_opened (k : RunKey) (now : Time) :
    Below s { s with
      runs := s.runs.insertIgnore { contextId := k.1, runId := k.2, updatedAt := now } } := by
  apply below_of_runs
  intro k' r' hr' hterminal houtcome
  rw [Table.get?_insertIgnore, Option.or_eq_some_iff] at hr'
  rcases hr' with hr' | ⟨-, hr'⟩
  · exact ⟨r', hr', hterminal, houtcome⟩
  · split at hr'
    · obtain rfl := Option.some.inj hr'
      cases hterminal
    · cases hr'

theorem below_subscribed (k : RunKey) (now : Time) :
    Below s (s.updateRun k (subscribedRun now) (subscribedRun_key now)) := by
  apply below_of_runs
  intro k' r' hr' hterminal houtcome
  rw [Table.get?_update_at] at hr'
  split at hr'
  · obtain ⟨r, hr, rfl⟩ := Option.map_eq_some_iff.mp hr'
    exact ⟨r, hr, hterminal, houtcome⟩
  · exact ⟨r', hr', hterminal, houtcome⟩

theorem below_pruned (cutoff now : Time)
    :
    Below s { s with
      journal
      runs := s.runs.update (prunable cutoff) (prunedRun now) (prunedRun_key now) } := by
  apply below_of_runs
  intro k' r' hr' hterminal houtcome
  rw [Table.get?_update] at hr'
  obtain ⟨r, hr, rfl⟩ := Option.map_eq_some_iff.mp hr'
  refine ⟨r, hr, ?_⟩
  split at hterminal
  · next hp =>
    rw [if_pos hp] at houtcome
    exact ⟨hterminal, houtcome⟩
  · next hp =>
    rw [if_neg hp] at houtcome
    exact ⟨hterminal, houtcome⟩

theorem below_of_admissions (hpublications : t.publications = s.publications)
    (hlive : ∀ c, t.Live c → s.Live c) (hruns : t.runs = s.runs) (hcalls : t.calls = s.calls)
    (hbatches : t.batches = s.batches)
    (hadmissions : ∀ k a', t.admissions.get? k = some a' → a'.isActive = false →
      s.admissions.get? k = some a') : Below s t := by
  refine ⟨hpublications, hlive, ?_, ?_, ?_, ?_, ?_⟩
  · rw [hruns]
    exact fun _ r hr hterminal houtcome => ⟨r, hr, hterminal, houtcome⟩
  · exact fun k a ha hover => ⟨a, hadmissions k a ha hover, hover, rfl⟩
  · rw [hcalls]
    exact fun _ c hc hstate => ⟨c, hc, hstate⟩
  · rw [hbatches]
    exact fun _ _ hnone => hnone
  · rw [hbatches]
    exact fun _ b hb hstate => ⟨b, hb, hstate⟩

theorem below_seen (c : ContextId) (now : Time) :
    Below s { s with
      contexts := s.contexts.update (fun x => x.id = c) (seenContext now) (seenContext_id now) } := by
  refine below_of_admissions rfl ?_ rfl rfl rfl (fun _ _ ha _ => ha)
  intro c' hlive
  have hlive : (Table.get? (s.contexts.update _ _ (seenContext_id now)) c').isSome := hlive
  rw [Table.get?_update, Option.isSome_map] at hlive
  exact hlive

variable {a : Admission}

theorem below_moved {f : Admission → Admission} (hf : ∀ a, (f a).key = a.key)
    (ha : s.admissions.get? k = some a) (hactive : (f a).isActive) :
    Below s (s.updateAdmission k f hf) := by
  refine below_of_admissions rfl (fun _ hlive => hlive) rfl rfl rfl ?_
  intro k' a' ha' hover
  rw [get?_updateAdmission] at ha'
  split at ha'
  · next hk =>
    rw [hk, ha] at ha'
    obtain rfl := Option.some.inj ha'
    rw [hactive] at hover
    cases hover
  · exact ha'

/-! ## The changes that matter -/

theorem Receipted.context (h : Receipted pub s) {x : Context}
    {contexts : Table ContextId Context Context.id} (hins : s.contexts.insert? x = some contexts)
    (hpublication : (s.publications.get? x.id.thread.publicationId).isSome) :
    Receipted pub { s with contexts } := by
  refine ⟨h.managed, ?_, h.success, h.failure, h.consumed⟩
  intro c hlive hpub
  have hlive : (contexts.get? c).isSome := hlive
  rw [(Table.insert?_eq_some hins).2] at hlive
  split at hlive
  · next hc =>
    rw [← hpub, hc]
    exact hpublication
  · exact h.publication c hlive hpub

theorem Receipted.saved (h : Receipted pub s) {p : Publication}
    (hmanaged : p.publicationId = pub → p.managedMode) :
    Receipted pub { s with publications := s.publications.upsert p } := by
  refine ⟨?_, ?_, h.success, h.failure, h.consumed⟩
  · intro q hq
    have hq : (s.publications.upsert p).get? pub = some q := hq
    rw [Table.get?_upsert] at hq
    split at hq
    · next hpub =>
      obtain rfl := Option.some.inj hq
      exact hmanaged hpub.symm
    · exact h.managed q hq
  · intro c hlive hpub
    show ((s.publications.upsert p).get? pub).isSome
    rw [Table.get?_upsert]
    split
    · rfl
    · exact h.publication c hlive hpub

theorem Receipted.managed_of_live (h : Receipted pub s) {c : ContextId} (hlive : s.Live c)
    (hpub : c.thread.publicationId = pub) : s.managed c := by
  obtain ⟨p, hp⟩ := Option.isSome_iff_exists.mp (h.publication c hlive hpub)
  unfold State.managed
  rw [hpub, hp]
  simp [show (s.contexts.get? c).isSome = true from hlive, h.managed p hp]

theorem pendingCalls_ne_nil (h : Emits s k) : s.pendingCalls k ≠ [] := by
  obtain ⟨ck, c, hc, rfl, hstate⟩ := h
  obtain ⟨hmem, rfl⟩ := Table.get?_eq_some.mp hc
  refine List.ne_nil_of_mem (a := c) ?_
  exact List.mem_filter.mpr ⟨hmem, by simp [hstate]⟩

variable {now : Time}

theorem Receipted.wrote (h : Receipted pub s) (hlive : RunsLive s) {r : Run}
    {outcome : String} {terminal : Bool} (hr : s.runs.get? r.key = some r)
    (hfrozen : terminal → outcome = "success" → s.unfrozenManagedSuccess r.key = false) :
    Receipted pub ({ s with journal }.updateRun r.key (advance eventJson outcome terminal now)
      (advance_key eventJson outcome terminal now)) := by
  refine ⟨h.managed, h.publication, ?_, h.failure, h.consumed⟩
  intro k r' hpub hr' hterminal houtcome hnone hemits
  rw [get?_updateRun] at hr'
  split at hr'
  · next hk =>
    subst hk
    have hr' : (s.runs.get? r.key).map (advance eventJson outcome terminal now) = some r' := hr'
    rw [hr] at hr'
    obtain rfl := Option.some.inj hr'
    have hterminal : terminal = true := hterminal
    have houtcome : (if terminal then outcome else "") = "success" := houtcome
    rw [if_pos hterminal] at houtcome
    have hpass := hfrozen hterminal houtcome
    have hmanaged := h.managed_of_live (hlive r.key r hr) hpub
    have hpending : s.pendingCalls r.key ≠ [] := pendingCalls_ne_nil hemits
    have hbatch : s.batches.get? r.key = none := hnone
    simp [unfrozenManagedSuccess, hmanaged, hpending, hbatch] at hpass
  · exact h.success k r' hpub hr' hterminal houtcome hnone hemits

/-- A new run consumes the calls of the batch it consumes. -/
theorem Receipted.admitted (h : Receipted pub s) {a : AcquireArgs} {token : Nat}
    {fences : Table ContextId Fence Fence.contextId}
    {admissions : Table RunKey Admission Admission.key} (hbinds : Binds s a t)
    (hins : s.admissions.insert? (a.admission token now) = some admissions) :
    Receipted pub { t with admissions, fences } := by
  have hfailure : ∀ k x, admissions.get? k = some x → x.isActive = false → x.outcome ≠ "success" →
      ¬ Emits s k := by
    intro k x hx hover houtcome
    rw [(Table.insert?_eq_some hins).2] at hx
    split at hx
    · obtain rfl := Option.some.inj hx
      cases hover
    · exact h.failure k x hx hover houtcome
  cases hbinds with
  | free _ => exact ⟨h.managed, h.publication, h.success, hfailure, h.consumed⟩
  | consumed b hb hctx hstate hparent =>
    have hback : ∀ k, Emits { s.consumeBatch b.key with admissions, fences } k →
        Emits s k ∧ k ≠ b.key := by
      rintro k ⟨ck, c', hc', rfl, hemitted⟩
      have hc' : (s.calls.update (fun c => c.runKey = b.key ∧ c.state = .emitted) Call.consume
        Call.consume_key).get? ck = some c' := hc'
      rw [Table.get?_update] at hc'
      obtain ⟨c, hc, rfl⟩ := Option.map_eq_some_iff.mp hc'
      split at hemitted
      · cases hemitted
      next hother =>
      refine ⟨⟨ck, c, hc, rfl, hemitted⟩, ?_⟩
      intro hk
      have hrun : c.runKey = b.key := (congrArg Prod.fst (Table.get?_key hc)).trans hk
      simp [hrun, hemitted] at hother
    have hbatches : ∀ k, ({ s.consumeBatch b.key with admissions, fences } : State).batches.get? k =
        (s.batches.get? k).map fun x =>
          if x.key = b.key ∧ x.state = .complete then x.consume else x := get?_consumeBatch
    refine ⟨h.managed, h.publication, ?_, ?_, ?_⟩
    · intro k r hpub hr hterminal houtcome hnone hemits
      rw [hbatches, Option.map_eq_none_iff] at hnone
      exact h.success k r hpub hr hterminal houtcome hnone (hback k hemits).1
    · intro k x hx hover houtcome hemits
      exact hfailure k x hx hover houtcome (hback k hemits).1
    · intro k b' hb' hconsumed hemits
      rw [hbatches] at hb'
      obtain ⟨x, hx, rfl⟩ := Option.map_eq_some_iff.mp hb'
      split at hconsumed
      · next hp => exact (hback k hemits).2 ((Table.get?_key hx).symm.trans hp.1)
      · exact h.consumed k x hx hconsumed (hback k hemits).1

theorem Receipted.left (h : Receipted pub s) (k : RunKey) (state : AdmissionState)
    (outcome : String) : Receipted pub (s.leave k state outcome) := by
  have hcalls : ∀ ck c', (s.leave k state outcome).calls.get? ck = some c' → c'.state = .emitted →
      (∃ c, s.calls.get? ck = some c ∧ c.state = .emitted) ∧ (outcome ≠ "success" → ck.1 ≠ k) := by
    intro ck c' hc' hstate
    have hc' : Table.get? (if outcome ≠ "success" then (s.abandonCalls k).calls else s.calls) ck =
        some c' := hc'
    split at hc'
    · have hc' : (s.calls.update (fun c => c.runKey = k ∧ c.state = .emitted) Call.abandon
          Call.abandon_key).get? ck = some c' := hc'
      rw [Table.get?_update] at hc'
      obtain ⟨c, hc, rfl⟩ := Option.map_eq_some_iff.mp hc'
      split at hstate
      · cases hstate
      next hother =>
      refine ⟨⟨c, hc, hstate⟩, ?_⟩
      intro _ hk
      have hrun : c.runKey = k := (congrArg Prod.fst (Table.get?_key hc)).trans hk
      simp [hrun, hstate] at hother
    · next hsuccess => exact ⟨⟨c', hc', hstate⟩, fun houtcome => absurd houtcome hsuccess⟩
  have hback : ∀ k', Emits (s.leave k state outcome) k' → Emits s k' := fun k' hemits =>
    hemits.of_calls fun ck c' hc' hstate => (hcalls ck c' hc' hstate).1
  refine ⟨h.managed, h.publication, ?_, ?_, ?_⟩
  · intro k' r hpub hr hterminal houtcome hnone hemits
    exact h.success k' r hpub hr hterminal houtcome hnone (hback k' hemits)
  · intro k' a' ha' hover houtcome hemits
    have ha' : (s.exitLease k state outcome).admissions.get? k' = some a' := ha'
    rw [get?_admissions_exitLease] at ha'
    split at ha'
    · next hk =>
      obtain ⟨a, -, rfl⟩ := Option.map_eq_some_iff.mp ha'
      obtain ⟨ck, c', hc', hrun, hstate⟩ := hemits
      exact (hcalls ck c' hc' hstate).2 houtcome (hrun.trans hk)
    · exact h.failure k' a' ha' hover houtcome (hback k' hemits)
  · exact fun k' b hb hstate hemits => h.consumed k' b hb hstate (hback k' hemits)

/-- T-freeze gives a success its batch. -/
theorem Receipted.froze (h : Receipted pub s) {draw : Draw}
    {row : Batch} {batches : Table RunKey Batch Batch.key} (hkey : row.key = k)
    (hstate : row.state = .frozen) (hins : s.batches.insert? row = some batches) :
    Receipted pub (s.freezeAndExit k draw eventJson now batches journal) := by
  obtain ⟨-, hget⟩ := Table.insert?_eq_some hins
  have hget : ∀ k', (s.freezeAndExit k draw eventJson now batches journal).batches.get? k' =
      if k' = k then some row else s.batches.get? k' := by
    rw [← hkey]
    exact hget
  have hback : ∀ k', Emits (s.freezeAndExit k draw eventJson now batches journal) k' → Emits s k' :=
    fun k' hemits => hemits.of_calls
      (emitted_of_update (Call.withHandle_key draw) fun _ hemitted => hemitted)
  refine ⟨h.managed, h.publication, ?_, ?_, ?_⟩
  · intro k' r hpub hr hterminal houtcome hnone hemits
    rw [hget] at hnone
    split at hnone
    · cases hnone
    next hk =>
    have hr : (s.updateRun k (advance eventJson "success" true now)
      (advance_key eventJson "success" true now)).runs.get? k' = some r := hr
    rw [get?_updateRun, if_neg hk] at hr
    exact h.success k' r hpub hr hterminal houtcome hnone (hback k' hemits)
  · intro k' a' ha' hover houtcome hemits
    have ha' : (s.exitLease k .terminal "success").admissions.get? k' = some a' := ha'
    rw [get?_admissions_exitLease] at ha'
    split at ha'
    · obtain ⟨a, -, rfl⟩ := Option.map_eq_some_iff.mp ha'
      exact houtcome rfl
    · exact h.failure k' a' ha' hover houtcome (hback k' hemits)
  · intro k' b hb hconsumed hemits
    rw [hget] at hb
    split at hb
    · obtain rfl := Option.some.inj hb
      rw [hstate] at hconsumed
      cases hconsumed
    · exact h.consumed k' b hb hconsumed (hback k' hemits)

theorem Receipted.recorded (h : Receipted pub s) (hbatched : Batched s) {c : Call}
    {args : CallArgs} (hintime : c.contextId.thread.publicationId = pub → ¬ Late s c.runKey args)
    (hid : c.toolCallId = args.toolCallId) (hne : args.toolCallId ≠ "")
    (hcatalogue : s.managed c.contextId → args.catalogueId ≠ "" ∧ args.catalogueVersion ≠ "")
    (hfenced : Fenced s) (ha : s.admissions.get? c.runKey = some a) (hrunning : a.state = .running) :
    Receipted pub { s with calls := s.calls.insertIgnore c } := by
  have hback : ∀ k, Emits { s with calls := s.calls.insertIgnore c } k →
      Emits s k ∨ k = c.runKey ∧ s.calls.get? c.key = none := by
    rintro k ⟨ck, x, hx, rfl, hstate⟩
    have hx : (s.calls.insertIgnore c).get? ck = some x := hx
    rw [Table.get?_insertIgnore, Option.or_eq_some_iff] at hx
    rcases hx with hx | ⟨hnone, hx⟩
    · exact .inl ⟨ck, x, hx, rfl, hstate⟩
    · split at hx
      · next hk =>
        subst hk
        exact .inr ⟨rfl, hnone⟩
      · cases hx
  have hactive : a.isActive = true := isActive_of_state hrunning
  refine ⟨h.managed, h.publication, ?_, ?_, ?_⟩
  · intro k r hpub hr hterminal houtcome hnone hemits
    rcases hback k hemits with hemits | ⟨rfl, hnew⟩
    · exact h.success k r hpub hr hterminal houtcome hnone hemits
    · have hr : s.runs.get? c.runKey = some r := hr
      have hmanaged := h.managed_of_live (hfenced.admission c.runKey a ha) hpub
      obtain ⟨hcatalogueId, hversion⟩ := hcatalogue hmanaged
      refine hintime hpub ⟨?_, ?_, hne, hcatalogueId, hversion, ?_⟩
      · simp [ha, hrunning]
      · simp [hr, hterminal, houtcome]
      · rw [← hid]
        simp [show s.calls.get? (c.runKey, c.toolCallId) = none from hnew]
  · intro k x hx hover houtcome hemits
    rcases hback k hemits with hemits | ⟨rfl, -⟩
    · exact h.failure k x hx hover houtcome hemits
    · have hx : s.admissions.get? c.runKey = some x := hx
      rw [ha] at hx
      obtain rfl := Option.some.inj hx
      rw [hactive] at hover
      cases hover
  · intro k b hb hconsumed hemits
    rcases hback k hemits with hemits | ⟨rfl, -⟩
    · exact h.consumed k b hb hconsumed hemits
    · have hb : s.batches.get? c.runKey = some b := hb
      rw [hbatched.no_batch ha hactive] at hb
      cases hb

/-! ## Runs -/

/-- The steps the guarantee is about. -/
def Allowed (pub : String) (s : State) (op : Op) : Prop := StaysManaged pub op ∧ InTime pub s op

theorem Receipted.change (h : Receipted pub s) (hsound : Sound s) (hlive : RunsLive s)
    (hc : Change (Allowed pub) s t) : Receipted pub t := by
  cases hc with
  | seen c now => exact h.below (below_seen c now)
  | context x row contexts _ _ _ hpublication hins => exact h.context hins hpublication
  | rotated k row marker close _ _ =>
    exact (h.below (below_dropContext ⟨k, row.generation⟩)).below
      (below_of_eq rfl rfl rfl rfl rfl rfl)
  | publication p hok => exact h.saved hok.1
  | opened k now _ => exact h.below (below_opened k now)
  | subscribed k now => exact h.below (below_subscribed k now)
  | wrote r eventJson outcome terminal now journal hr _ hfrozen _ =>
    exact h.wrote hlive (Table.get?_of_mem hr) hfrozen
  | pruned cutoff now => exact h.below (below_pruned cutoff now)
  | admitted a now u admissions _ _ _ _ hbinds hins => exact h.admitted hbinds hins
  | moved k f hf a ha hmoves => exact h.below (below_moved hf ha hmoves.after)
  | left k state a r _ _ _ _ _ => exact h.left k state r.outcome
  | froze k draw version deadline eventJson now a r batches journal _ _ _ _ _ _ _ _ hins _ =>
    exact h.froze rfl rfl hins
  | recorded c a args hok hid hne hcatalogue ha hrunning =>
    exact h.recorded hsound.batched hok.2 hid hne hcatalogue hsound.fenced ha hrunning
  | claimed b claimId deadline hb _ _ _ =>
    exact h.below (below_updateBatch _ (Table.get?_of_mem hb) (by simp [Batch.claimed]))
  | renewed b deadline hb hstate =>
    exact h.below (below_updateBatch _ (Table.get?_of_mem hb) (by simp [Batch.renewed, hstate]))
  | expired b hb _ =>
    have hu := h.below (below_updateBatch Batch.expired_key (Table.get?_of_mem hb)
      (by simp [Batch.expired]))
    exact hu.below (below_of_eq rfl rfl rfl rfl rfl rfl)
  | begun c b _ _ hb hclaimed _ =>
    have hu := h.below (below_updateBatch Batch.committed_key
      (Table.get?_of_mem (Table.get?_mem hb)) (by simp [committed_state hclaimed]))
    have hv := hu.below (below_updateCalls (p := fun x => x.key = c.key) Call.execute_key
      (fun _ hstate => hstate))
    exact hv.below (below_of_eq rfl rfl rfl rfl rfl rfl)
  | ended c b outcome resultJson _ _ _ _ _ =>
    have hu := h.below (below_updateCalls (p := fun x => x.key = c.key)
      (Call.finish_key outcome resultJson) (fun _ hstate => hstate))
    exact hu.below (below_completeIfDone c.runKey)
  | deadline b _ _ =>
    have hu := h.below (below_updateCalls
      (p := fun c => c.runKey = b.key ∧ c.state = .emitted) Call.expire_key
      (fun c hstate => c.expire_row.1 ▸ hstate))
    exact hu.below (below_completeIfDone b.key)
  | _ => exact h.below (below_of_eq rfl rfl rfl rfl rfl rfl)

theorem receipted_init : Receipted pub init where
  managed _ h := by cases h
  publication _ h := by cases h
  success _ _ _ h := by cases h
  failure _ _ h := by cases h
  consumed _ _ h := by cases h

theorem receipted_of_changes (h : Changes (Allowed pub) init s) : Receipted pub s := by
  have hall : Receipted pub s ∧ Sound s ∧ RunsLive s := by
    refine changes_invariant (fun s => Receipted pub s ∧ Sound s ∧ RunsLive s) ?_ h
      ⟨receipted_init, sound_init, fun _ _ hr => by cases hr⟩
    rintro s t ⟨hreceipted, hsound, hlive⟩ hc
    exact ⟨hreceipted.change hsound hlive hc, hsound.change hc, hlive.change hc⟩
  exact hall.1

theorem Receipted.batch_of_success (h : Receipted pub s) (hagrees : Agrees s)
    (ha : s.admissions.get? k = some a) (hpub : k.1.thread.publicationId = pub)
    (hover : a.isActive = false) (houtcome : a.outcome = "success") (hemits : Emits s k) :
    ∃ b, s.batches.get? k = some b := by
  obtain ⟨r, hr, hended⟩ := hagrees.admission k a ha
  obtain ⟨hterminal, hsame⟩ := hended hover
  cases hb : s.batches.get? k with
  | some b => exact ⟨b, rfl⟩
  | none => exact absurd hemits (h.success k r hpub hr hterminal (hsame.trans houtcome) hb)

/-- A run that follows pending calls consumes their batch. -/
theorem Receipted.acquire_consumes (h : Receipted pub s) (hsound : Sound s) (hagrees : Agrees s)
    {a : AcquireArgs} {draw : Draw} {row : Admission}
    (hacquire : s.acquire a now draw = .ok ((row, false), t))
    (hpub : a.thread.publicationId = pub) (hk : k.1 = a.contextId) (hemits : Emits s k) :
    ∃ b, s.batches.get? k = some b ∧ b.state = .complete ∧ a.parentRunId = k.2 ∧
      t.batches.get? k = some b.consume := by
  obtain ⟨-, -, hidle, u, hbinds, hreserve⟩ := acquire_reserve hacquire
  -- the turn that emitted the calls is over, and it was a success
  have hcall : (s.admissions.get? k).isSome := by
    obtain ⟨ck, c, hc, rfl, -⟩ := hemits
    exact hsound.batched.call ck c hc
  obtain ⟨x, hx⟩ := Option.isSome_iff_exists.mp hcall
  obtain ⟨hmem, hkey⟩ := Table.get?_eq_some.mp hx
  have hover : x.isActive = false :=
    activeAdmission_eq_none.mp hidle x hmem ((congrArg Prod.fst hkey).trans hk)
  have houtcome : x.outcome = "success" := by
    by_contra hfailed
    exact h.failure k x hx hover hfailed hemits
  obtain ⟨b, hb⟩ := h.batch_of_success hagrees hx (hk ▸ hpub) hover houtcome hemits
  have hopen : b.state ≠ .consumed := fun hconsumed => h.consumed k b hb hconsumed hemits
  obtain ⟨hbmem, hbkey⟩ := Table.get?_eq_some.mp hb
  rw [(reserve_rows hreserve).2.2]
  cases hbinds with
  | free hfree => exact absurd (hfree b hbmem ((congrArg Prod.fst hbkey).trans hk)) hopen
  | consumed b' hb' hctx hstate hparent =>
    have hget' := Table.get?_of_mem hb'
    obtain rfl : k = b'.key :=
      hsound.batched.one k b'.key b b' hb hget' (hk.trans hctx.symm) hopen (by simp [hstate])
    rw [hget'] at hb
    obtain rfl := Option.some.inj hb
    refine ⟨b', hget', hstate, hparent, ?_⟩
    rw [get?_consumeBatch, hget', Option.map_some, if_pos ⟨rfl, hstate⟩]

/-- **No managed success without its batch**, over every interleaving in which the managed mode
of the publication stays on and no call of it is recorded after the journal of its run has
ended with success: an admission that is terminal with success and has pending calls has a
batch, and a new run in a context with pending calls consumes their batch, which is complete,
and names its run as parent. -/
theorem managed_success_has_batch {mac : Mac} {pub : String} {s : State}
    (hs : Runs (step mac) (fun s x => StaysManaged pub x.op ∧ InTime pub s x.op) init s) :
    (∀ a ∈ s.admissions, a.contextId.thread.publicationId = pub → a.state = .terminal →
      a.outcome = "success" → (∃ c ∈ s.calls, c.runKey = a.key ∧ c.state = .emitted) →
      ∃ b ∈ s.batches, b.key = a.key) ∧
    (∀ a now draw row t, s.acquire a now draw = .ok ((row, false), t) →
      a.thread.publicationId = pub → ∀ c ∈ s.calls, c.contextId = a.contextId →
      c.state = .emitted → ∃ b ∈ s.batches, b.key = c.runKey ∧ b.state = .complete ∧
        a.parentRunId = b.runId ∧ b.consume ∈ t.batches) := by
  have hchanges : Changes (Allowed pub) init s := changes_of_runs (G := Allowed pub) hs
  have hreceipted := receipted_of_changes hchanges
  have hsound := sound_init.changes hchanges
  have hagrees := agrees_init.changes hchanges
  constructor
  · rintro a ha hpub hstate houtcome ⟨c, hc, hrun, hemitted⟩
    have hemits : Emits s a.key := ⟨c.key, c, Table.get?_of_mem hc, hrun, hemitted⟩
    obtain ⟨b, hb⟩ := hreceipted.batch_of_success hagrees (Table.get?_of_mem ha) hpub
      (isActive_of_state hstate) houtcome hemits
    exact ⟨b, Table.get?_eq_some.mp hb⟩
  · intro a now draw row t hacquire hpub c hc hctx hemitted
    have hemits : Emits s c.runKey := ⟨c.key, c, Table.get?_of_mem hc, rfl, hemitted⟩
    obtain ⟨b, hb, hstate, hparent, hconsumed⟩ :=
      hreceipted.acquire_consumes hsound hagrees hacquire hpub hctx hemits
    obtain ⟨hmem, hkey⟩ := Table.get?_eq_some.mp hb
    refine ⟨b, hmem, hkey, hstate, ?_, Table.get?_mem hconsumed⟩
    rw [hparent, ← hkey]

/-- A managed turn that emits one call and ends with success. -/
def frozenTurn : State :=
  [⟨.savePublication ⟨"pub", "conv", true, true⟩, 0, {}⟩,
    ⟨.ensureThread sampleThread, 1, {}⟩,
    ⟨.resolveContext ⟨"pub", "conv", true, true⟩ sampleThread 0 "d", 2, {}⟩,
    ⟨.acquire ⟨sampleThread, 0, "r1", "h1", "", ""⟩, 3, { handle := "1" }⟩,
    ⟨.adopt (⟨sampleThread, 0⟩, "r1") "w1", 4, {}⟩,
    ⟨.recordCall (⟨sampleThread, 0⟩, "r1") ⟨"c1", "tool", "cat", "1"⟩, 5, {}⟩,
    ⟨.finish (⟨sampleThread, 0⟩, "r1") { worker := "w1", outcome := "success" }, 6,
      { handle := "2", callHandle := fun _ => "3" }⟩].foldl (perform sampleMac) init

theorem managed_success_has_batch_frozenTurn :
    frozenTurn.admissions.rows.map (fun a => (a.runId, a.state, a.outcome)) =
        [("r1", .terminal, "success")] ∧
      frozenTurn.calls.rows.map (fun c => (c.runId, c.state)) = [("r1", .emitted)] ∧
      ∃ b ∈ frozenTurn.batches, b.key = (⟨sampleThread, 0⟩, "r1") := by
  have hruns : Runs (step sampleMac) (fun s x => StaysManaged "pub" x.op ∧ InTime "pub" s x.op)
      init frozenTurn := runs_of_guarded (fun _ _ => rfl) (by decide +kernel)
  refine ⟨by decide +kernel, by decide +kernel, ?_⟩
  obtain ⟨hbatch, -⟩ := managed_success_has_batch hruns
  obtain ⟨a, ha, hkey, hstate, houtcome⟩ : ∃ a ∈ frozenTurn.admissions.rows,
      a.key = (⟨sampleThread, 0⟩, "r1") ∧ a.state = .terminal ∧ a.outcome = "success" := by
    decide +kernel
  obtain ⟨c, hc, hrun, hemitted⟩ : ∃ c ∈ frozenTurn.calls.rows,
      c.runKey = (⟨sampleThread, 0⟩, "r1") ∧ c.state = .emitted := by
    decide +kernel
  rw [← hkey]
  refine hbatch a ha ?_ hstate houtcome ⟨c, hc, hrun.trans hkey.symm, hemitted⟩
  rw [show a.contextId = ⟨sampleThread, 0⟩ from congrArg Prod.fst hkey]
  rfl

/-- A managed turn whose success is journaled by an append, before its call is recorded. -/
def lateCall : List Tx :=
  [⟨.savePublication ⟨"pub", "conv", true, true⟩, 0, {}⟩,
    ⟨.ensureThread sampleThread, 1, {}⟩,
    ⟨.resolveContext ⟨"pub", "conv", true, true⟩ sampleThread 0 "d", 2, {}⟩,
    ⟨.acquire ⟨sampleThread, 0, "r1", "h1", "", ""⟩, 3, { handle := "1" }⟩,
    ⟨.adopt (⟨sampleThread, 0⟩, "r1") "w1", 4, {}⟩,
    ⟨.append (⟨sampleThread, 0⟩, "r1")
      { eventJson := runFinishedEvent, terminal := true, outcome := "success" }, 5, {}⟩,
    ⟨.recordCall (⟨sampleThread, 0⟩, "r1") ⟨"c1", "tool", "cat", "1"⟩, 6, {}⟩,
    ⟨.finish (⟨sampleThread, 0⟩, "r1") { worker := "w1", outcome := "success" }, 7,
      { handle := "2", callHandle := fun _ => "3" }⟩]

/-- The call recorded after the terminal append stays without a batch, and the follow-up run
that names its parent is admitted all the same. -/
theorem managed_success_without_batch :
    ∃ s, Runs (step sampleMac) (fun _ x => StaysManaged "pub" x.op) init s ∧
      (∃ a ∈ s.admissions, a.contextId.thread.publicationId = "pub" ∧ a.state = .terminal ∧
        a.outcome = "success" ∧ (∃ c ∈ s.calls, c.runKey = a.key ∧ c.state = .emitted) ∧
        s.batches.get? a.key = none) ∧
      ∃ row t, s.acquire ⟨sampleThread, 0, "r2", "h2", "", "r1"⟩ 8 { handle := "4" } =
        .ok ((row, false), t) ∧ t.batches.rows = [] := by
  refine ⟨lateCall.foldl (perform sampleMac) init,
    runs_of_guarded (fun _ _ => rfl) (by decide +kernel), ?_, ?_⟩
  · have hlate : ∃ a ∈ (lateCall.foldl (perform sampleMac) init).admissions.rows,
        a.contextId.thread.publicationId = "pub" ∧ a.state = .terminal ∧ a.outcome = "success" ∧
        (∃ c ∈ (lateCall.foldl (perform sampleMac) init).calls.rows,
          c.runKey = a.key ∧ c.state = .emitted) ∧
        ((lateCall.foldl (perform sampleMac) init).batches.get? a.key).isNone := by
      decide +kernel
    simpa [Table.mem_def] using hlate
  · have hfollow : ((lateCall.foldl (perform sampleMac) init).acquire
        ⟨sampleThread, 0, "r2", "h2", "", "r1"⟩ 8 { handle := "4" }).toOption.map
          (fun r => (r.1.2, r.2.batches.rows.length)) = some (false, 0) := by
      decide +kernel
    cases hacquire : (lateCall.foldl (perform sampleMac) init).acquire
        ⟨sampleThread, 0, "r2", "h2", "", "r1"⟩ 8 { handle := "4" } with
    | error e =>
      rw [hacquire] at hfollow
      cases hfollow
    | ok r =>
      obtain ⟨⟨row, replay⟩, t⟩ := r
      rw [hacquire] at hfollow
      obtain ⟨rfl, hnone⟩ := Prod.mk.inj (Option.some.inj hfollow)
      exact ⟨row, t, rfl, List.length_eq_zero_iff.mp hnone⟩

end State

end PawFlow.Agui
