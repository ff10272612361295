import PawFlow.Agui.BatchTurns

/-!
# The execution of frontend calls

`Executed` relates the execution state of each call to the batch of its run and to the begins
that were granted: a call executes only under a committed claim, an effect is recorded exactly
for the calls that were begun, and a batch is complete exactly when its pending calls have
ended.
-/

namespace PawFlow.Agui

open PawFlow.Lib

namespace State

variable {G : State → Op → Prop} {s t : State}

def Began (s : State) (k : CallKey) : Prop := ∃ claimId, (k, claimId) ∈ s.begins

/-- What the state of a call says about the batch of its run and about its begins. -/
structure CallOk (c : Call) (batch : Option Batch) (began : Prop) : Prop where
  handle : c.handle ≠ "" → c.state ≠ .abandoned ∧ batch.isSome
  consumed : c.state = .consumed → ∃ b, batch = some b ∧ b.state = .consumed
  fresh : c.execState = .none → ¬ began
  executing : c.execState = .executing →
    began ∧ c.state = .emitted ∧ ∃ b, batch = some b ∧ b.state = .executionCommitted
  done : ∀ o, c.execState = .done o →
    c.resultKind = some o ∧ (o ∈ Outcome.effect ↔ began) ∧ batch.isSome

/-- The claim of the batch crossed the effect boundary. -/
def Committed (b : Batch) : Prop :=
  b.state = .executionCommitted ∨ b.state = .complete ∨ b.state = .consumed

def CallsOk (s : State) : Prop :=
  ∀ k c, s.calls.get? k = some c → CallOk c (s.batches.get? k.1) (s.Began k)

/-- The batch of the run is complete exactly when its pending calls have ended. -/
def CompleteAt (s : State) (k : RunKey) : Prop :=
  ∀ b, s.batches.get? k = some b → b.state ≠ .consumed →
    (b.state = .complete ↔ s.unfinished k = false)

def BeginsOk (s : State) : Prop :=
  ∀ k claimId, (k, claimId) ∈ s.begins →
    (∃ b, s.batches.get? k.1 = some b ∧ b.batchClaimId = claimId ∧ Committed b) ∨ s.Closed k.1.1

structure Executed (s : State) : Prop where
  calls : CallsOk s
  complete : ∀ k, CompleteAt s k
  begins : BeginsOk s

theorem Executed.congr (h : Executed s) (hclosed : ∀ c, s.Closed c → t.Closed c) (hcalls : t.calls = s.calls)
    (hbatches : t.batches = s.batches) (hbegins : t.begins = s.begins) : Executed t := by
  refine ⟨?_, ?_, ?_⟩
  · unfold CallsOk Began
    rw [hcalls, hbatches, hbegins]
    exact h.calls
  · unfold CompleteAt unfinished
    rw [hcalls, hbatches]
    exact h.complete
  · intro k claimId hk
    rw [hbegins] at hk
    rw [hbatches]
    rcases h.begins k claimId hk with hb | hc
    · exact .inl hb
    · exact .inr (hclosed _ hc)

def pending (c : Call) : Bool := c.state = .emitted ∧ c.execState.isDone = false

variable {k : RunKey} {b : Batch}

theorem unfinished_iff :
    s.unfinished k = true ↔ ∃ ck : CallKey, ck.1 = k ∧ (s.calls.get? ck).any pending := by
  simp only [unfinished, List.any_eq_true, decide_eq_true_eq]
  constructor
  · rintro ⟨c, hc, hrun, hstate, hdone⟩
    refine ⟨c.key, hrun, ?_⟩
    rw [Table.get?_of_mem hc]
    simp [pending, hstate, hdone]
  · rintro ⟨ck, rfl, hany⟩
    obtain ⟨c, hc, hpending⟩ := (Option.any_eq_true pending _).mp hany
    obtain ⟨hmem, rfl⟩ := Table.get?_eq_some.mp hc
    simp only [pending, decide_eq_true_eq] at hpending
    exact ⟨c, hmem, rfl, hpending.1, by simp [hpending.2]⟩

theorem unfinished_congr (h : ∀ ck : CallKey, ck.1 = k →
    (t.calls.get? ck).any pending = (s.calls.get? ck).any pending) :
    t.unfinished k = s.unfinished k := by
  rw [Bool.eq_iff_iff, unfinished_iff, unfinished_iff]
  constructor
  · rintro ⟨ck, hk, hpending⟩
    exact ⟨ck, hk, by rw [← h ck hk]; exact hpending⟩
  · rintro ⟨ck, hk, hpending⟩
    exact ⟨ck, hk, by rw [h ck hk]; exact hpending⟩

/-- Another batch row in place of one in which calls were pending. -/
structure Steps (b b' : Batch) : Prop where
  before : b.state ≠ .complete ∧ b.state ≠ .consumed
  after : b'.state ≠ .complete
  committed : b.state = .executionCommitted →
    b'.state = .executionCommitted ∧ b'.batchClaimId = b.batchClaimId

variable {c : Call}

theorem CallOk.steps {b' : Batch} {began : Prop} (h : CallOk c (some b) began)
    (hsteps : Steps b b') : CallOk c (some b') began where
  handle hne := ⟨(h.handle hne).1, rfl⟩
  consumed := by
    intro hstate
    obtain ⟨x, hx, hconsumed⟩ := h.consumed hstate
    obtain rfl := Option.some.inj hx
    exact absurd hconsumed hsteps.before.2
  fresh := h.fresh
  executing := by
    intro hexec
    obtain ⟨hbegan, hstate, x, hx, hcommitted⟩ := h.executing hexec
    obtain rfl := Option.some.inj hx
    exact ⟨hbegan, hstate, b', rfl, (hsteps.committed hcommitted).1⟩
  done := by
    intro o ho
    obtain ⟨hkind, heffect, -⟩ := h.done o ho
    exact ⟨hkind, heffect, rfl⟩

theorem Executed.updateBatch (h : Executed s) {f : Batch → Batch}
    (hf : ∀ b, (f b).key = b.key) (hb : s.batches.get? k = some b)
    (hsteps : Steps b (f b)) : Executed (s.updateBatch k f hf) := by
  refine ⟨?_, ?_, ?_⟩
  · intro ck c hc
    have hok := h.calls ck c hc
    rw [get?_updateBatch]
    split
    · next hk =>
      rw [hk, hb] at hok ⊢
      exact hok.steps hsteps
    · exact hok
  · intro k' b' hb' hopen
    rw [get?_updateBatch] at hb'
    split at hb'
    · next hk =>
      subst hk
      rw [hb] at hb'
      obtain rfl := Option.some.inj hb'
      have hcomplete := h.complete k' b hb hsteps.before.2
      constructor
      · intro hstate
        exact absurd hstate hsteps.after
      · intro hfinished
        exact absurd (hcomplete.mpr hfinished) hsteps.before.1
    · exact h.complete k' b' hb' hopen
  · intro ck claimId hck
    rcases h.begins ck claimId hck with ⟨x, hx, hid, hcommitted⟩ | hclosed
    · left
      rw [get?_updateBatch]
      split
      · next hk =>
        rw [hk, hb] at hx
        obtain rfl := Option.some.inj hx
        have hstate : b.state = .executionCommitted := by
          rcases hcommitted with hstate | hstate | hstate
          · exact hstate
          · exact absurd hstate hsteps.before.1
          · exact absurd hstate hsteps.before.2
        obtain ⟨hstate', hid'⟩ := hsteps.committed hstate
        exact ⟨f b, by rw [hk, hb]; rfl, hid'.trans hid, .inl hstate'⟩
      · exact ⟨x, hx, hid, hcommitted⟩
    · exact .inr hclosed

theorem steps_claimed (h : b.state = .frozen) (claimId : String) (deadline : Time) :
    Steps b (b.claimed claimId deadline) := by
  refine ⟨by simp [h], ?_, by simp [h]⟩
  simp [Batch.claimed]

theorem steps_renewed (h : b.state = .reservedPreEffect) (deadline : Time) :
    Steps b (b.renewed deadline) := by
  refine ⟨by simp [h], ?_, by simp [h]⟩
  simp [Batch.renewed, h]

theorem steps_expired (h : b.state = .reservedPreEffect) : Steps b b.expired := by
  refine ⟨by simp [h], ?_, by simp [h]⟩
  simp [Batch.expired]

theorem committed_state (h : Claimed b) : b.committed.state = .executionCommitted := by
  rcases h with h | h <;> simp [Batch.committed, h]

theorem steps_committed (h : Claimed b) : Steps b b.committed := by
  refine ⟨?_, ?_, fun _ => ⟨committed_state h, rfl⟩⟩
  · rcases h with h | h <;> simp [h]
  · simp [committed_state h]

/-- The effect boundary: the call executes under the claim its batch is committed to. -/
theorem Executed.commit (h : Executed s) (hc : c ∈ s.calls)
    (hhandle : c.handle ≠ "") (hb : s.batches.get? c.runKey = some b)
    (hstate : b.state = .executionCommitted) (hexec : c.execState = .none) :
    Executed { s.updateCalls (fun x => x.key = c.key) Call.execute Call.execute_key with
      begins := (c.key, b.batchClaimId) :: s.begins } := by
  have hget := Table.get?_of_mem hc
  have hok := h.calls c.key c hget
  have hcalls : ∀ ck, (s.updateCalls (fun x => x.key = c.key) Call.execute
      Call.execute_key).calls.get? ck =
      if ck = c.key then (s.calls.get? ck).map Call.execute else s.calls.get? ck :=
    fun ck => s.calls.get?_update_at _ Call.execute_key c.key ck
  have hemitted : c.state = .emitted := by
    cases hs : c.state with
    | emitted => rfl
    | abandoned => exact absurd hs (hok.handle hhandle).1
    | consumed =>
      obtain ⟨x, hx, hconsumed⟩ := hok.consumed hs
      rw [hb] at hx
      obtain rfl := Option.some.inj hx
      simp [hstate] at hconsumed
  refine ⟨?_, ?_, ?_⟩
  · intro ck x hx
    rw [hcalls] at hx
    split at hx
    · next hk =>
      subst hk
      rw [hget] at hx
      obtain rfl := Option.some.inj hx
      refine ⟨hok.handle, hok.consumed, by simp [Call.execute], ?_, by simp [Call.execute]⟩
      intro _
      exact ⟨⟨b.batchClaimId, List.mem_cons_self ..⟩, hemitted, b, hb, hstate⟩
    · next hk =>
      have hother := h.calls ck x hx
      have hbegan : ({ s.updateCalls (fun x => x.key = c.key) Call.execute Call.execute_key with
          begins := (c.key, b.batchClaimId) :: s.begins } : State).Began ck ↔ s.Began ck := by
        simp [Began, hk]
      rw [hbegan]
      exact hother
  · intro k b' hb' hopen
    have hunfinished : State.unfinished { s.updateCalls (fun x => x.key = c.key) Call.execute
        Call.execute_key with begins := (c.key, b.batchClaimId) :: s.begins } k =
        s.unfinished k := by
      apply unfinished_congr
      intro ck _
      show ((s.updateCalls _ Call.execute Call.execute_key).calls.get? ck).any pending = _
      rw [hcalls]
      split
      · next hk =>
        rw [hk, hget]
        simp [pending, Call.execute, hexec, ExecState.isDone]
      · rfl
    rw [hunfinished]
    exact h.complete k b' hb' hopen
  · intro ck claimId hck
    rcases List.mem_cons.mp hck with heq | hck
    · obtain ⟨rfl, rfl⟩ := Prod.mk.inj heq
      exact .inl ⟨b, hb, rfl, .inl hstate⟩
    · exact h.begins ck claimId hck

/-- `_complete_batch_if_done_in_tx`, after the calls of the run `k` were written. -/
theorem executed_completeIfDone (hcalls : CallsOk s)
    (hcomplete : ∀ k', k' ≠ k → CompleteAt s k') (hbegins : BeginsOk s)
    (hb : s.batches.get? k = some b) (hopen : b.state.isOpen) : Executed (s.completeIfDone k) := by
  have hunfinished : ∀ k', (s.completeIfDone k).unfinished k' = s.unfinished k' := fun _ => rfl
  refine ⟨?_, ?_, ?_⟩
  · intro ck c hc
    have hok := hcalls ck c hc
    rw [get?_completeIfDone]
    split
    · next hk =>
      obtain ⟨hk, hfinished⟩ := hk
      rw [hk, hb] at hok ⊢
      refine ⟨fun hne => ⟨(hok.handle hne).1, rfl⟩, ?_, hok.fresh, ?_, ?_⟩
      · intro hstate
        obtain ⟨x, hx, hconsumed⟩ := hok.consumed hstate
        obtain rfl := Option.some.inj hx
        exact absurd hconsumed (not_consumed_of_open hopen)
      · -- a call in execution is still pending, so the batch would not be complete
        intro hexec
        obtain ⟨-, hstate, -⟩ := hok.executing hexec
        have hpending : s.unfinished k = true := by
          refine unfinished_iff.mpr ⟨ck, hk, ?_⟩
          rw [show s.calls.get? ck = some c from hc]
          simp [pending, hstate, hexec, ExecState.isDone]
        rw [hfinished] at hpending
        cases hpending
      · intro o ho
        obtain ⟨hkind, heffect, -⟩ := hok.done o ho
        exact ⟨hkind, heffect, rfl⟩
    · exact hok
  · intro k' b' hb' hnot
    rw [hunfinished]
    rw [get?_completeIfDone] at hb'
    split at hb'
    · next hk =>
      obtain ⟨x, -, rfl⟩ := Option.map_eq_some_iff.mp hb'
      rw [hk.1]
      exact ⟨fun _ => hk.2, fun _ => rfl⟩
    · next hk =>
      by_cases hk' : k' = k
      · subst hk'
        rw [hb] at hb'
        obtain rfl := Option.some.inj hb'
        have hpending : s.unfinished k' ≠ false := fun hfinished => hk ⟨rfl, hfinished⟩
        constructor
        · intro hstate
          rw [hstate] at hopen
          cases hopen
        · intro hfinished
          exact absurd hfinished hpending
      · exact hcomplete k' hk' b' hb' hnot
  · intro ck claimId hck
    rcases hbegins ck claimId hck with ⟨x, hx, hid, hcommitted⟩ | hclosed
    · left
      rw [get?_completeIfDone, hx]
      split
      · exact ⟨x.completed, rfl, hid, .inr (.inl rfl)⟩
      · exact ⟨x, rfl, hid, hcommitted⟩
    · exact .inr hclosed

variable {f : Call → Call} {p : Call → Bool}

theorem get?_updateCalls (hf : ∀ c, (f c).key = c.key)
    (k : CallKey) :
    (s.updateCalls p f hf).calls.get? k = (s.calls.get? k).map fun c => if p c then f c else c :=
  s.calls.get?_update p f hf k

theorem Executed.complete_other (h : Executed s)
    (hf : ∀ c, (f c).key = c.key) (hp : ∀ c, p c → c.runKey = k) {k' : RunKey} (hk : k' ≠ k) :
    CompleteAt (s.updateCalls p f hf) k' := by
  intro b hb hopen
  have hunfinished : (s.updateCalls p f hf).unfinished k' = s.unfinished k' := by
    apply unfinished_congr
    intro ck hck
    rw [get?_updateCalls]
    cases hget : s.calls.get? ck with
    | none => rfl
    | some c =>
      have hrun : c.runKey = k' := by
        rw [← hck, ← Table.get?_key hget]
      have hnot : ¬ p c = true := fun hpc => hk (hrun.symm.trans (hp c hpc))
      simp [hnot]
  rw [hunfinished]
  exact h.complete k' b hb hopen

theorem not_effect_of_noEffect {o : Outcome} (h : o ∈ Outcome.noEffect) : o ∉ Outcome.effect := by
  revert h
  cases o <;> decide

/-- A call ends, without effect before it was begun and with an effect after. -/
theorem Executed.ended (h : Executed s) {o : Outcome} (resultJson : String)
    (hc : c ∈ s.calls) (hb : s.batches.get? c.runKey = some b) (hopen : b.state.isOpen)
    (hends : Ends c o) :
    Executed ((s.updateCalls (fun x => x.key = c.key) (Call.finish o resultJson)
      (Call.finish_key o resultJson)).completeIfDone c.runKey) := by
  have hget := Table.get?_of_mem hc
  have hok := h.calls c.key c hget
  refine executed_completeIfDone ?_ ?_ h.begins hb hopen
  · intro ck x hx
    have hx : (s.calls.update (fun x => x.key = c.key) (Call.finish o resultJson)
      (Call.finish_key o resultJson)).get? ck = some x := hx
    rw [Table.get?_update_at] at hx
    split at hx
    · next hk =>
      subst hk
      rw [hget] at hx
      obtain rfl := Option.some.inj hx
      refine ⟨hok.handle, hok.consumed, by simp [Call.finish], by simp [Call.finish], ?_⟩
      intro o' ho'
      obtain rfl : o = o' := by simpa [Call.finish] using ho'
      refine ⟨rfl, ?_, ?_⟩
      · rcases hends with ⟨hexec, hno⟩ | ⟨hexec, heffect⟩
        · have hnot := hok.fresh hexec
          constructor
          · intro heffect
            exact absurd heffect (not_effect_of_noEffect hno)
          · intro hbegan
            exact absurd hbegan hnot
        · exact ⟨fun _ => (hok.executing hexec).1, fun _ => heffect⟩
      · show (s.batches.get? c.runKey).isSome
        rw [hb]
        rfl
    · exact h.calls ck x hx
  · intro k' hk'
    refine h.complete_other _ ?_ hk'
    intro x hx
    have hx : x.key = c.key := of_decide_eq_true hx
    exact congrArg Prod.fst hx

/-- The absolute deadline ends every pending call of the run. -/
theorem Executed.deadline (h : Executed s) (hb : b ∈ s.batches)
    (hopen : b.state.isOpen) : Executed (s.expireBatch b.key) := by
  have hget := Table.get?_of_mem hb
  refine executed_completeIfDone ?_ ?_ h.begins hget hopen
  · intro ck x' hx'
    rw [get?_updateCalls] at hx'
    obtain ⟨x, hx, rfl⟩ := Option.map_eq_some_iff.mp hx'
    have hok := h.calls ck x hx
    split
    · next hp =>
      obtain ⟨hrun, -⟩ : x.runKey = b.key ∧ x.state = .emitted := of_decide_eq_true hp
      have hbatch : (s.batches.get? ck.1).isSome := by
        rw [← Table.get?_key hx]
        show (s.batches.get? x.runKey).isSome
        rw [hrun, hget]
        rfl
      unfold Call.expire
      split
      · next hexec =>
        have hnot := hok.fresh hexec
        refine ⟨hok.handle, hok.consumed, by simp, by simp, ?_⟩
        intro o ho
        obtain rfl : Outcome.abandoned = o := by simpa using ho
        exact ⟨rfl, ⟨fun heffect => absurd heffect (by decide), fun hbegan => absurd hbegan hnot⟩,
          hbatch⟩
      · next hexec =>
        have hbegan := (hok.executing hexec).1
        refine ⟨hok.handle, hok.consumed, by simp, by simp, ?_⟩
        intro o ho
        obtain rfl : Outcome.indeterminate = o := by simpa using ho
        exact ⟨rfl, ⟨fun _ => hbegan, fun _ => by decide⟩, hbatch⟩
      · exact hok
    · exact hok
  · intro k' hk'
    refine h.complete_other _ ?_ hk'
    intro x hx
    have hx : x.runKey = b.key ∧ x.state = .emitted := of_decide_eq_true hx
    exact hx.1

theorem CallOk.no_batch {began : Prop} (h : CallOk c none began) :
    c.handle = "" ∧ c.state ≠ .consumed ∧ c.execState = .none := by
  refine ⟨?_, ?_, ?_⟩
  · by_contra hne
    have := (h.handle hne).2
    cases this
  · intro hstate
    obtain ⟨b, hb, -⟩ := h.consumed hstate
    cases hb
  · cases hexec : c.execState with
    | none => rfl
    | executing =>
      obtain ⟨-, -, b, hb, -⟩ := h.executing hexec
      cases hb
    | done o =>
      have := (h.done o hexec).2.2
      cases this

/-- A batch is consumed with its calls. -/
theorem Executed.binds (h : Executed s) {a : AcquireArgs} (hbinds : Binds s a t) : Executed t := by
  cases hbinds with
  | free _ => exact h
  | consumed b hb hc hstate _ =>
    have hget := Table.get?_of_mem hb
    have hother : ∀ k, k ≠ b.key → (s.consumeBatch b.key).batches.get? k = s.batches.get? k := by
      intro k hk
      rw [get?_consumeBatch]
      cases hx : s.batches.get? k with
      | none => rfl
      | some x =>
        have hne : ¬ (x.key = b.key ∧ x.state = .complete) := by
          rintro ⟨hkey, -⟩
          exact hk ((Table.get?_key hx).symm.trans hkey)
        rw [Option.map_some, if_neg hne]
    have hthis : (s.consumeBatch b.key).batches.get? b.key = some b.consume := by
      rw [get?_consumeBatch, hget]
      simp [hstate]
    refine ⟨?_, ?_, ?_⟩
    · intro ck x' hx'
      have hx' : (s.updateCalls (fun c => c.runKey = b.key ∧ c.state = .emitted) Call.consume
        Call.consume_key).calls.get? ck = some x' := hx'
      rw [get?_updateCalls] at hx'
      obtain ⟨x, hx, rfl⟩ := Option.map_eq_some_iff.mp hx'
      have hok := h.calls ck x hx
      by_cases hk : ck.1 = b.key
      · rw [hk, hget] at hok
        rw [hk, hthis]
        -- the batch is complete: nothing executes, and nothing was consumed before
        have hexec : x.execState ≠ .executing := by
          intro hexec
          obtain ⟨-, -, y, hy, hcommitted⟩ := hok.executing hexec
          obtain rfl := Option.some.inj hy
          simp [hstate] at hcommitted
        split
        · exact ⟨fun _ => ⟨by simp [Call.consume], rfl⟩, fun _ => ⟨_, rfl, rfl⟩, hok.fresh,
            fun he => absurd he hexec,
            fun o ho => ⟨(hok.done o ho).1, (hok.done o ho).2.1, rfl⟩⟩
        · exact ⟨fun hne => ⟨(hok.handle hne).1, rfl⟩, fun _ => ⟨_, rfl, rfl⟩, hok.fresh,
            fun he => absurd he hexec,
            fun o ho => ⟨(hok.done o ho).1, (hok.done o ho).2.1, rfl⟩⟩
      · have hnot : ¬ (x.runKey = b.key ∧ x.state = .emitted) := by
          rintro ⟨hrun, -⟩
          apply hk
          rw [← Table.get?_key hx]
          exact hrun
        rw [if_neg (by simpa using hnot), hother ck.1 hk]
        exact hok
    · intro k b' hb' hopen
      by_cases hk : k = b.key
      · rw [hk, hthis] at hb'
        obtain rfl := Option.some.inj hb'
        exact absurd rfl hopen
      · rw [hother k hk] at hb'
        refine h.complete_other (k := b.key) Call.consume_key ?_ hk b' hb' hopen
        intro x hx
        have hx : x.runKey = b.key ∧ x.state = .emitted := of_decide_eq_true hx
        exact hx.1
    · intro ck claimId hck
      rcases h.begins ck claimId hck with ⟨x, hx, hid, hcommitted⟩ | hclosed
      · left
        by_cases hk : ck.1 = b.key
        · rw [hk, hget] at hx
          obtain rfl := Option.some.inj hx
          exact ⟨b.consume, hk ▸ hthis, hid, .inr (.inr rfl)⟩
        · exact ⟨x, (hother ck.1 hk).trans hx, hid, hcommitted⟩
      · exact .inr hclosed

/-- The calls of a run that ends without success are abandoned before any of them had a
handle. -/
theorem Executed.abandoned (h : Executed s) (hnone : s.batches.get? k = none) :
    Executed (s.abandonCalls k) := by
  refine ⟨?_, ?_, h.begins⟩
  · intro ck x' hx'
    have hx' : (s.updateCalls (fun c => c.runKey = k ∧ c.state = .emitted) Call.abandon
      Call.abandon_key).calls.get? ck = some x' := hx'
    rw [get?_updateCalls] at hx'
    obtain ⟨x, hx, rfl⟩ := Option.map_eq_some_iff.mp hx'
    have hok := h.calls ck x hx
    split
    · next hp =>
      obtain ⟨hrun, -⟩ : x.runKey = k ∧ x.state = .emitted := of_decide_eq_true hp
      have hk : ck.1 = k := by
        rw [← Table.get?_key hx]
        exact hrun
      rw [hk, hnone] at hok
      obtain ⟨hhandle, -, hexec⟩ := hok.no_batch
      refine ⟨fun hne => absurd hhandle hne, by simp [Call.abandon], hok.fresh, ?_, ?_⟩
      · intro he
        rw [show x.execState = .executing from he] at hexec
        cases hexec
      · intro o ho
        rw [show x.execState = .done o from ho] at hexec
        cases hexec
    · exact hok
  · intro k' b hb hopen
    by_cases hk : k' = k
    · rw [hk, show (s.abandonCalls k).batches.get? k = s.batches.get? k from rfl, hnone] at hb
      cases hb
    · refine h.complete_other Call.abandon_key ?_ hk b hb hopen
      intro x hx
      have hx : x.runKey = k ∧ x.state = .emitted := of_decide_eq_true hx
      exact hx.1

theorem Executed.froze (h : Executed s) {row : Batch} (draw : Draw)
    {batches : Table RunKey Batch Batch.key} (hnone : s.batches.get? k = none)
    (hkey : row.key = k) (hstate : row.state = .frozen) (hpending : s.pendingCalls k ≠ [])
    (hins : s.batches.insert? row = some batches) :
    Executed ({ s with batches }.assignHandles k draw) := by
  obtain ⟨-, hget⟩ := Table.insert?_eq_some hins
  have hget : ∀ k', ({ s with batches }.assignHandles k draw).batches.get? k' =
      if k' = k then some row else s.batches.get? k' := by
    rw [← hkey]
    exact hget
  have hcalls : ∀ ck, ({ s with batches }.assignHandles k draw).calls.get? ck =
      (s.calls.get? ck).map fun c => if c.runKey = k ∧ c.state = .emitted then c.withHandle draw
        else c := by
    intro ck
    refine (s.calls.get?_update _ _ (Call.withHandle_key draw) ck).trans ?_
    congr 1
    funext c
    simp only [decide_eq_true_eq]
  refine ⟨?_, ?_, ?_⟩
  · intro ck x' hx'
    rw [hcalls] at hx'
    obtain ⟨x, hx, rfl⟩ := Option.map_eq_some_iff.mp hx'
    have hok := h.calls ck x hx
    rw [hget]
    by_cases hk : ck.1 = k
    · rw [hk, hnone] at hok
      obtain ⟨hhandle, hconsumed, hexec⟩ := hok.no_batch
      rw [if_pos hk]
      split
      · next hp =>
        refine ⟨fun _ => ⟨?_, rfl⟩, fun he => absurd he hconsumed, hok.fresh, ?_, ?_⟩
        · simp [Call.withHandle, hp.2]
        · intro he
          rw [show x.execState = .executing from he] at hexec
          cases hexec
        · intro o ho
          rw [show x.execState = .done o from ho] at hexec
          cases hexec
      · refine ⟨fun hne => absurd hhandle hne, fun he => absurd he hconsumed, hok.fresh, ?_, ?_⟩
        · intro he
          rw [he] at hexec
          cases hexec
        · intro o ho
          rw [ho] at hexec
          cases hexec
    · have hnot : ¬ (x.runKey = k ∧ x.state = .emitted) := by
        rintro ⟨hrun, -⟩
        apply hk
        rw [← Table.get?_key hx]
        exact hrun
      rw [if_neg hnot, if_neg hk]
      exact hok
  · have hunfinished : ∀ k', ({ s with batches }.assignHandles k draw).unfinished k' =
        s.unfinished k' := by
      intro k'
      apply unfinished_congr
      intro ck _
      rw [hcalls]
      cases s.calls.get? ck with
      | none => rfl
      | some x =>
        simp only [Option.map_some, Option.any_some]
        split <;> rfl
    intro k' b hb hopen
    rw [hunfinished]
    rw [hget] at hb
    split at hb
    · next hk =>
      obtain rfl := Option.some.inj hb
      obtain ⟨c, hc⟩ := List.exists_mem_of_ne_nil _ hpending
      have hc : c ∈ s.calls ∧ c.runKey = k ∧ c.state = .emitted := by
        simpa [pendingCalls, Table.mem_def] using hc
      obtain ⟨hmem, hrun, hemitted⟩ := hc
      have hok := h.calls c.key c (Table.get?_of_mem hmem)
      have hbatch : s.batches.get? c.key.1 = none := by
        rw [show c.key.1 = k from hrun]
        exact hnone
      rw [hbatch] at hok
      have hunf : s.unfinished k = true := by
        refine unfinished_iff.mpr ⟨c.key, hrun, ?_⟩
        rw [Table.get?_of_mem hmem]
        simp [pending, hemitted, hok.no_batch.2.2, ExecState.isDone]
      rw [hk, hunf, hstate]
      simp
    · exact h.complete k' b hb hopen
  · intro ck claimId hck
    rcases h.begins ck claimId hck with ⟨x, hx, hid, hcommitted⟩ | hclosed
    · left
      rw [hget, if_neg]
      · exact ⟨x, hx, hid, hcommitted⟩
      · intro hk
        rw [hk, hnone] at hx
        cases hx
    · exact .inr hclosed

theorem Executed.recorded (h : Executed s) (hfenced : Fenced s) (hbatched : Batched s)
    {a : Admission} (ha : s.admissions.get? c.runKey = some a) (hrunning : a.state = .running)
    (hstate : c.state = .emitted) (hhandle : c.handle = "") (hexec : c.execState = .none) :
    Executed { s with calls := s.calls.insertIgnore c } := by
  have hnone := hbatched.no_batch ha (isActive_of_state hrunning)
  have hnew : ∀ ck x, (s.calls.insertIgnore c).get? ck = some x →
      s.calls.get? ck = some x ∨ ck = c.key ∧ x = c := by
    intro ck x hx
    rw [Table.get?_insertIgnore, Option.or_eq_some_iff] at hx
    rcases hx with hx | ⟨-, hx⟩
    · exact .inl hx
    · split at hx
      · next hk => exact .inr ⟨hk, (Option.some.inj hx).symm⟩
      · cases hx
  refine ⟨?_, ?_, h.begins⟩
  · intro ck x hx
    rcases hnew ck x hx with hx | ⟨rfl, rfl⟩
    · exact h.calls ck x hx
    · refine ⟨fun hne => absurd hhandle hne, by simp [hstate], ?_, by simp [hexec], by simp [hexec]⟩
      -- a begin would have left its batch, or a closed generation
      rintro - ⟨claimId, hbegan⟩
      rcases h.begins x.key claimId hbegan with ⟨b, hb, -⟩ | hclosed
      · rw [show x.key.1 = x.runKey from rfl, hnone] at hb
        cases hb
      · exact hfenced.not_closed (hfenced.admission x.runKey a ha) hclosed
  · intro k b hb hopen
    have hk : k ≠ c.runKey := by
      rintro rfl
      rw [show s.batches.get? c.runKey = some b from hb] at hnone
      cases hnone
    have hunfinished : ({ s with calls := s.calls.insertIgnore c } : State).unfinished k =
        s.unfinished k := by
      apply unfinished_congr
      intro ck hck
      have hne : ck ≠ c.key := by
        rintro rfl
        exact hk hck.symm
      show ((s.calls.insertIgnore c).get? ck).any pending = _
      rw [Table.get?_insertIgnore, if_neg hne, Option.or_none]
    rw [hunfinished]
    exact h.complete k b hb hopen

theorem Executed.dropped (h : Executed s) {c : ContextId}
    (hlater : ∀ c, s.Closed c → t.Closed c) (hclosed : t.Closed c)
    (hcalls : t.calls = (s.dropContext c).calls) (hbatches : t.batches = (s.dropContext c).batches)
    (hbegins : t.begins = s.begins) : Executed t := by
  have hcalls : ∀ ck, t.calls.get? ck = if ck.1.1 = c then none else s.calls.get? ck := by
    rw [hcalls]
    exact get?_calls_dropContext c
  have hbatches : ∀ k, t.batches.get? k = if k.1 = c then none else s.batches.get? k := by
    rw [hbatches]
    exact get?_batches_dropContext c
  refine ⟨?_, ?_, ?_⟩
  · intro ck x hx
    rw [hcalls] at hx
    split at hx
    · cases hx
    next hne =>
    unfold Began
    rw [hbatches, if_neg hne, hbegins]
    exact h.calls ck x hx
  · intro k b hb hopen
    rw [hbatches] at hb
    split at hb
    · cases hb
    next hne =>
    have hunfinished : t.unfinished k = s.unfinished k := by
      apply unfinished_congr
      intro ck hck
      rw [hcalls, if_neg (by rw [hck]; exact hne)]
    rw [hunfinished]
    exact h.complete k b hb hopen
  · intro ck claimId hck
    rw [hbegins] at hck
    by_cases hk : ck.1.1 = c
    · exact .inr (hk ▸ hclosed)
    · rw [hbatches, if_neg hk]
      rcases h.begins ck claimId hck with hb | hclosed
      · exact .inl hb
      · exact .inr (hlater _ hclosed)

theorem Executed.again (h : Executed s) (hc : c ∈ s.calls)
    (hb : s.batches.get? c.runKey = some b) (hexec : c.execState = .executing) :
    Executed { s with begins := (c.key, b.batchClaimId) :: s.begins } := by
  have hok := h.calls c.key c (Table.get?_of_mem hc)
  obtain ⟨hbegan, -, x, hx, hcommitted⟩ := hok.executing hexec
  rw [show c.key.1 = c.runKey from rfl, hb] at hx
  obtain rfl := Option.some.inj hx
  have hsame : ∀ ck, ({ s with begins := (c.key, b.batchClaimId) :: s.begins } : State).Began ck ↔
      s.Began ck := by
    intro ck
    constructor
    · rintro ⟨claimId, hck⟩
      rcases List.mem_cons.mp hck with heq | hck
      · obtain ⟨rfl, -⟩ := Prod.mk.inj heq
        exact hbegan
      · exact ⟨claimId, hck⟩
    · rintro ⟨claimId, hck⟩
      exact ⟨claimId, List.mem_cons_of_mem _ hck⟩
  refine ⟨?_, h.complete, ?_⟩
  · intro ck y hy
    rw [hsame]
    exact h.calls ck y hy
  · intro ck claimId hck
    rcases List.mem_cons.mp hck with heq | hck
    · obtain ⟨rfl, rfl⟩ := Prod.mk.inj heq
      exact .inl ⟨b, hb, rfl, .inl hcommitted⟩
    · exact h.begins ck claimId hck

theorem Executed.change (h : Executed s) (hfenced : Fenced s) (hbatched : Batched s)
    (hc : Change G s t) : Executed t := by
  have hlater : ∀ c, s.Closed c → t.Closed c := fun _ => (hfenced.change hc).2.closed
  cases hc with
  | rotated k row marker close hrow _ =>
    exact h.dropped hlater (closed_rotated marker close hrow) rfl rfl rfl
  | admitted a now u admissions _ _ _ _ hbinds hins =>
    exact (h.binds hbinds).congr (fun _ hc => hc) rfl rfl rfl
  | left k state a r ha hactive _ _ _ =>
    have hnone := hbatched.no_batch ha hactive
    by_cases houtcome : r.outcome ≠ "success"
    · exact (h.abandoned hnone).congr (fun _ hc => hc) (if_pos houtcome) rfl rfl
    · exact h.congr hlater (if_neg houtcome) rfl rfl
  | froze k draw version deadline eventJson now a r batches journal ha hrunning _ _ hpending _ _ _
      hins =>
      have hnone := hbatched.no_batch ha (isActive_of_state hrunning)
      exact (h.froze draw hnone rfl rfl hpending hins).congr (fun _ hc => hc) rfl rfl rfl
  | recorded c a args _ _ _ _ ha hrunning _ hstate hhandle hexec _ =>
    exact h.recorded hfenced hbatched ha hrunning hstate hhandle hexec
  | claimed b claimId deadline hb hfrozen _ _ =>
    exact h.updateBatch _ (Table.get?_of_mem hb) (steps_claimed hfrozen claimId deadline)
  | renewed b deadline hb hstate =>
    exact h.updateBatch _ (Table.get?_of_mem hb) (steps_renewed hstate deadline)
  | expired b hb hstate =>
    have hu := h.updateBatch Batch.expired_key (Table.get?_of_mem hb) (steps_expired hstate)
    exact hu.congr (fun _ hc => hc) rfl rfl rfl
  | begun c b hc hhandle hb hclaimed hexec =>
    have hkey : b.key = c.runKey := Table.get?_key hb
    have hu := h.updateBatch Batch.committed_key (hkey ▸ hb) (steps_committed hclaimed)
    have hb' : (s.updateBatch b.key Batch.committed Batch.committed_key).batches.get? c.runKey =
        some b.committed := by
      rw [get?_updateBatch, if_pos hkey.symm, hb]
      rfl
    exact hu.commit (b := b.committed) hc hhandle hb' (committed_state hclaimed) hexec
  | begunAgain c b hc _ hb _ hexec => exact h.again hc hb hexec
  | ended c b outcome resultJson hc _ hb hopen hends => exact h.ended resultJson hc hb hopen hends
  | deadline b hb hopen => exact h.deadline hb hopen
  | _ => exact h.congr hlater rfl rfl rfl

end State

end PawFlow.Agui
