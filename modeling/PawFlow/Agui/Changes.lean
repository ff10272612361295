import PawFlow.Agui.Turns

/-!
# What a transaction can change

`Change G s t` lists every change the turn machine makes to its store, each with the conditions
under which it is made. A transaction is a sequence of changes (`changes_perform`), so what
every change keeps is kept by every run, and the invariants of the later modules are proved
by cases on `Change` alone.

Rows that must move together move in one change: an admission with the fence it advances and
the batch it consumes, and a frozen batch with the end of its run.
-/

namespace PawFlow.Agui

open PawFlow.Lib

namespace State

/-- An admission moves on and stays active. -/
structure Moves (a a' : Admission) : Prop where
  key : a'.key = a.key
  bodyHash : a'.bodyHash = a.bodyHash
  parentRunId : a'.parentRunId = a.parentRunId
  fenceToken : a'.fenceToken = a.fenceToken
  before : a.isActive
  after : a'.isActive
  leaseOwner : a.state = .running → a'.state = .running ∧ a'.leaseOwner = a.leaseOwner

/-- The batch a new run consumes, if its context has one. -/
inductive Binds (s : State) (a : AcquireArgs) : State → Prop
  | consumed (b : Batch) : b ∈ s.batches → b.contextId = a.contextId → b.state = .complete →
      a.parentRunId = b.runId → Binds s a (s.consumeBatch b.key)
  | free : (∀ b ∈ s.batches, b.contextId = a.contextId → b.state = .consumed) → Binds s a s

def frozenHandles (s : State) (k : RunKey) (draw : Draw) : List String :=
  ("bh" ++ draw.handle) :: (s.pendingCalls k).map fun c => "ch" ++ draw.callHandle c.toolCallId

/-- How a call may end: without effect before it was begun, with an effect after. -/
def Ends (c : Call) (o : Outcome) : Prop :=
  c.execState = .none ∧ o ∈ Outcome.noEffect ∨ c.execState = .executing ∧ o ∈ Outcome.effect

/-- A batch in which calls may be begun. -/
def Claimed (b : Batch) : Prop := b.state = .reservedPreEffect ∨ b.state = .executionCommitted

/-- The store after a managed success: the batch is frozen, the run ends and the lease is
left. -/
def freezeAndExit (s : State) (k : RunKey) (draw : Draw) (eventJson : String) (now : Time)
    (batches : Table RunKey Batch Batch.key)
    (journal : Table (RunKey × Nat) JournalRow JournalRow.key) : State :=
  let s := { s with minted := s.frozenHandles k draw ++ s.minted, batches, journal }
  ((s.assignHandles k draw).updateRun k (advance eventJson "success" true now)
    (advance_key eventJson "success" true now)).exitLease k .terminal "success"

/-- The changes of transactions that meet the guard `G`. -/
inductive Change (G : State → Op → Prop) (s : State) : State → Prop
  | thread (k : ThreadKey) :
      Change G s { s with threads := s.threads.insertIgnore { key := k } }
  | cleaned (p : Thread → Bool) :
      Change G s { s with threads := s.threads.update p cleanedThread cleanedThread_key }
  | seen (c : ContextId) (now : Time) :
      Change G s { s with
        contexts := s.contexts.update (fun x => x.id = c) (seenContext now) (seenContext_id now) }
  | context (x : Context) (row : Thread) (contexts : Table ContextId Context Context.id) :
      s.threads.get? x.id.thread = some row → x.id.generation = row.generation →
      row.closedBeforeGeneration ≤ row.generation →
      (s.publications.get? x.id.thread.publicationId).isSome →
      s.contexts.insert? x = some contexts → Change G s { s with contexts }
  | rotated (k : ThreadKey) (row : Thread) (marker : String) (close : Bool) :
      s.threads.get? k = some row → s.activeAdmission ⟨k, row.generation⟩ = none →
      Change G s ({ s with
        threads := s.threads.update (fun t => t.key = k) (rotatedThread marker close)
          (rotatedThread_key marker close) }.dropContext ⟨k, row.generation⟩)
  | publication (p : Publication) :
      G s (.savePublication p) → Change G s { s with publications := s.publications.upsert p }
  | swept (at' : Option Time) : Change G s { s with lastSweepAt := at' }
  | opened (k : RunKey) (now : Time) :
      (s.contexts.get? k.1).isSome →
      Change G s { s with
        runs := s.runs.insertIgnore { contextId := k.1, runId := k.2, updatedAt := now } }
  | subscribed (k : RunKey) (now : Time) :
      Change G s (s.updateRun k (subscribedRun now) (subscribedRun_key now))
  | wrote (r : Run) (eventJson outcome : String) (terminal : Bool) (now : Time)
      (journal : Table (RunKey × Nat) JournalRow JournalRow.key) :
      r ∈ s.runs → r.terminal = false →
      (terminal → outcome = "success" → s.unfrozenManagedSuccess r.key = false) →
      s.journal.insert? ⟨r.contextId, r.runId, r.committedSequence + 1, eventJson, terminal⟩ =
        some journal →
      Change G s ({ s with journal }.updateRun r.key (advance eventJson outcome terminal now)
        (advance_key eventJson outcome terminal now))
  | pruned (cutoff now : Time) :
      Change G s { s with
        journal := s.journal.delete fun j => (s.runs.get? j.runKey).any (prunable cutoff)
        runs := s.runs.update (prunable cutoff) (prunedRun now) (prunedRun_key now) }
  | admitted (a : AcquireArgs) (now : Time) (t : State)
      (admissions : Table RunKey Admission Admission.key) :
      (∃ s₀, G s₀ (.acquire a)) → (s.contexts.get? a.contextId).isSome → (s.runs.get? a.key).isSome →
      s.activeAdmission a.contextId = none → Binds s a t →
      s.admissions.insert? (a.admission (s.nextToken a.contextId) now) = some admissions →
      Change G s { t with
        admissions
        fences := s.fences.upsert ⟨a.contextId, s.nextToken a.contextId⟩ }
  | moved (k : RunKey) (f : Admission → Admission) (hf : ∀ a, (f a).key = a.key) (a : Admission) :
      s.admissions.get? k = some a → Moves a (f a) → Change G s (s.updateAdmission k f hf)
  | left (k : RunKey) (state : AdmissionState) (a : Admission) (r : Run) :
      s.admissions.get? k = some a → a.isActive → s.runs.get? k = some r → r.terminal →
      state.isActive = false → Change G s (s.leave k state r.outcome)
  | froze (k : RunKey) (draw : Draw) (version : Nat) (deadline : Time) (eventJson : String)
      (now : Time) (a : Admission) (r : Run) (batches : Table RunKey Batch Batch.key)
      (journal : Table (RunKey × Nat) JournalRow JournalRow.key) :
      s.admissions.get? k = some a → a.state = .running → s.runs.get? k = some r →
      r.terminal = false → s.pendingCalls k ≠ [] →
      (s.frozenHandles k draw).Nodup → (∀ h ∈ s.frozenHandles k draw, h ∉ s.minted) →
      (s.tokenKeys.get? version).isSome →
      s.batches.insert?
        { contextId := k.1, runId := k.2, handle := "bh" ++ draw.handle, keyVersion := version
          absoluteDeadline := deadline } = some batches →
      s.journal.insert? ⟨r.contextId, r.runId, r.committedSequence + 1, eventJson, true⟩ =
        some journal →
      Change G s (s.freezeAndExit k draw eventJson now batches journal)
  | recorded (c : Call) (a : Admission) (args : CallArgs) :
      G s (.recordCall c.runKey args) → c.toolCallId = args.toolCallId → args.toolCallId ≠ "" →
      (s.managed c.contextId → args.catalogueId ≠ "" ∧ args.catalogueVersion ≠ "") →
      s.admissions.get? c.runKey = some a → a.state = .running → (s.runs.get? c.runKey).isSome →
      c.state = .emitted → c.handle = "" → c.execState = .none → c.resultKind = none →
      Change G s { s with calls := s.calls.insertIgnore c }
  | claimed (b : Batch) (claimId : String) (deadline : Time) :
      b ∈ s.batches → b.state = .frozen → claimId ≠ "" →
      s.expiredClaims.get? (b.handle, claimId) = none →
      Change G s (s.updateBatch b.key (Batch.claimed claimId deadline)
        (Batch.claimed_key claimId deadline))
  | renewed (b : Batch) (deadline : Time) :
      b ∈ s.batches → b.state = .reservedPreEffect →
      Change G s (s.updateBatch b.key (Batch.renewed deadline) (Batch.renewed_key deadline))
  | expired (b : Batch) :
      b ∈ s.batches → b.state = .reservedPreEffect → Change G s (s.expireClaim b)
  | begun (c : Call) (b : Batch) :
      c ∈ s.calls → c.handle ≠ "" → s.batches.get? c.runKey = some b → Claimed b →
      c.execState = .none → Change G s (s.commitCall c b)
  | begunAgain (c : Call) (b : Batch) :
      c ∈ s.calls → c.handle ≠ "" → s.batches.get? c.runKey = some b → Claimed b →
      c.execState = .executing → Change G s { s with begins := (c.key, b.batchClaimId) :: s.begins }
  | ended (c : Call) (b : Batch) (outcome : Outcome) (resultJson : String) :
      c ∈ s.calls → c.handle ≠ "" → s.batches.get? c.runKey = some b → b.state.isOpen →
      Ends c outcome →
      Change G s ((s.updateCalls (fun x => x.key = c.key) (Call.finish outcome resultJson)
        (Call.finish_key outcome resultJson)).completeIfDone c.runKey)
  | deadline (b : Batch) : b ∈ s.batches → b.state.isOpen → Change G s (s.expireBatch b.key)
  | keyed (secret : String) : s.tokenKeys.rows = [] → Change G s (s.addKey secret)
  | keysPruned : Change G s { s with tokenKeys := s.tokenKeys.delete s.unusedKey }
  | runToken (k : RunKey) (handle : String) (version : Nat) :
      (s.contexts.get? k.1).isSome → handle ∉ s.minted → (s.tokenKeys.get? version).isSome →
      Change G s { s with
        minted := handle :: s.minted
        runTokens := s.runTokens.insertIgnore ⟨handle, k.1, k.2, version⟩ }

abbrev Changes (G : State → Op → Prop) : State → State → Prop :=
  Relation.ReflTransGen (Change G)

variable {G : State → Op → Prop} {s s' : State}

theorem Change.changes (h : Change G s s') : Changes G s s' := .single h

variable {a : Admission} {lease : Time}

theorem isActive_of_state {state : AdmissionState} (h : a.state = state) :
    a.isActive = state.isActive := congrArg AdmissionState.isActive h

theorem activeAdmission_eq_none {c : ContextId} :
    s.activeAdmission c = none ↔ ∀ a ∈ s.admissions, a.contextId = c → a.isActive = false := by
  simp [activeAdmission, List.find?_eq_none, Table.mem_def]

/-! ## Threads -/

theorem changes_ensureThread {k : ThreadKey} {g : Int} (h : s.ensureThread k = .ok (g, s')) :
    Changes G s s' := by
  unfold ensureThread at h
  split at h
  · cases h
  split at h
  · cases h
  obtain ⟨-, rfl⟩ := ok_pair_inj h
  exact (Change.thread k).changes

variable {now : Time} {k : RunKey} {eventJson outcome : String} {draw : Draw} {scope : Scope}
  {b : Batch}

variable {p : Publication} {afterSeq : Int} {terminal : Bool}
  {effective claimId catalogueId catalogueVersion payloadJson : String}

theorem changes_resolveContext {k : ThreadKey} {generation : Int}
    {digest : String} {c : Context}
    (h : s.resolveContext p k generation digest now = .ok (c, s')) : Changes G s s' := by
  unfold resolveContext at h
  split at h
  · cases h
  · next row hrow =>
    split at h
    · cases h
    next hgen =>
    push Not at hgen
    split at h
    · obtain ⟨-, rfl⟩ := ok_pair_inj h
      exact (Change.seen _ now).changes
    · split at h
      · cases h
      next hpub =>
      dsimp only at h
      split at h
      · cases h
      next contexts hins =>
      obtain ⟨-, rfl⟩ := ok_pair_inj h
      refine (Change.context _ row contexts hrow rfl ?_ ?_ hins).changes
      · omega
      · simpa using Option.isSome_iff_ne_none.mpr (by simpa using hpub)

theorem changes_clearCleanup {k : ThreadKey} {marker : String} {generation : Option Int}
    (h : s.clearCleanup k marker generation = .ok ((), s')) : Changes G s s' := by
  obtain ⟨-, rfl⟩ := ok_pair_inj h
  exact (Change.cleaned _).changes

theorem changes_rotate {k : ThreadKey} {expected : Int} {close : Bool}
    {r : String × Int} (h : s.rotate p k expected close = .ok (r, s')) : Changes G s s' := by
  unfold rotate at h
  split at h
  · cases h
  next row hrow =>
  split at h
  · cases h
  split at h
  · cases h
  dsimp only at h
  split at h
  · cases h
  next hactive =>
  split at h
  · cases h
  obtain ⟨-, rfl⟩ := ok_pair_inj h
  exact (Change.rotated k row _ close hrow hactive).changes

theorem changes_reserveSweep {interval : Time} {b : Bool}
    (h : s.reserveSweep interval now = .ok (b, s')) : Changes G s s' := by
  unfold reserveSweep at h
  split at h
  · obtain ⟨-, rfl⟩ := ok_pair_inj h
    exact .refl
  · obtain ⟨-, rfl⟩ := ok_pair_inj h
    exact (Change.swept _).changes

/-! ## The journal -/

theorem insertRun_ok (h : s.insertRun k now = .ok s') :
    (s.contexts.get? k.1).isSome ∧ s' = { s with
      runs := s.runs.insertIgnore { contextId := k.1, runId := k.2, updatedAt := now } } := by
  unfold insertRun at h
  split at h
  · cases h
  next hcontext =>
  refine ⟨?_, (Except.ok.inj h).symm⟩
  simpa using Option.isSome_iff_ne_none.mpr (by simpa using hcontext)

variable {r : Run} {n : Nat} {c : Call}

theorem changes_openRun (h : s.openRun k now = .ok (r, s')) : Changes G s s' := by
  unfold openRun at h
  split at h
  · cases h
  obtain ⟨t, ht, h⟩ := bind_ok h
  obtain ⟨hcontext, rfl⟩ := insertRun_ok ht
  split at h
  · cases h
  obtain ⟨-, rfl⟩ := ok_pair_inj h
  exact (Change.opened k now hcontext).changes

theorem acquireSubscriber_ok {epoch committed : Nat}
    (h : s.acquireSubscriber k afterSeq now = .ok ((epoch, committed), s')) :
    ∃ r, s.runs.get? k = some r ∧ 0 ≤ afterSeq ∧ afterSeq ≤ r.committedSequence ∧
      epoch = r.subscriberEpoch + 1 ∧ committed = r.committedSequence ∧
      s' = s.updateRun k (subscribedRun now) (subscribedRun_key now) := by
  unfold acquireSubscriber at h
  split at h
  · cases h
  next hnonneg =>
  split at h
  · cases h
  next r hr =>
  split at h
  · cases h
  next hle =>
  obtain ⟨heq, rfl⟩ := ok_pair_inj h
  obtain ⟨rfl, rfl⟩ := Prod.mk.inj heq
  exact ⟨r, hr, not_lt.mp hnonneg, not_lt.mp hle, rfl, rfl, rfl⟩

theorem changes_acquireSubscriber {r : Nat × Nat}
    (h : s.acquireSubscriber k afterSeq now = .ok (r, s')) : Changes G s s' := by
  obtain ⟨epoch, committed⟩ := r
  obtain ⟨-, -, -, -, -, -, rfl⟩ := acquireSubscriber_ok h
  exact (Change.subscribed k now).changes

theorem writeEvent_ok
    (h : s.writeEvent r eventJson outcome terminal now = .ok s') :
    ∃ journal, s.journal.insert?
        ⟨r.contextId, r.runId, r.committedSequence + 1, eventJson, terminal⟩ = some journal ∧
      s' = { s with journal }.updateRun r.key (advance eventJson outcome terminal now)
        (advance_key eventJson outcome terminal now) := by
  unfold writeEvent at h
  split at h
  · cases h
  next journal hins => exact ⟨journal, hins, (Except.ok.inj h).symm⟩

theorem change_writeEvent
    (h : s.writeEvent r eventJson outcome terminal now = .ok s') (hr : r ∈ s.runs)
    (hactive : r.terminal = false)
    (hfrozen : terminal → outcome = "success" → s.unfrozenManagedSuccess r.key = false) :
    Change G s s' := by
  obtain ⟨journal, hins, rfl⟩ := writeEvent_ok h
  exact .wrote r eventJson outcome terminal now journal hr hactive hfrozen hins

theorem changes_append {a : AppendArgs} {r : Except Error Nat}
    (h : s.append k a now = .ok (r, s')) : Changes G s s' := by
  unfold append at h
  split at h
  · cases h
  split at h
  · cases h
  next row hrow =>
  obtain ⟨hmem, hkey⟩ := Table.get?_eq_some.mp hrow
  split at h
  · cases h
  next hfrozen =>
  split at h
  · cases h
  next hactive =>
  have hactive : row.terminal = false := by simpa using hactive
  dsimp only at h
  split at h
  · obtain ⟨t, ht, h⟩ := bind_ok h
    obtain ⟨-, rfl⟩ := ok_pair_inj h
    exact (change_writeEvent ht hmem hactive (by intro _ h; simp at h)).changes
  · obtain ⟨t, ht, h⟩ := bind_ok h
    obtain ⟨-, rfl⟩ := ok_pair_inj h
    refine (change_writeEvent ht hmem hactive ?_).changes
    intro hterminal houtcome
    rw [hkey]
    simpa [hterminal, houtcome] using hfrozen

theorem changes_prune {retention : Time} (h : s.prune retention now = .ok (n, s')) :
    Changes G s s' := by
  obtain ⟨-, rfl⟩ := ok_pair_inj h
  exact (Change.pruned _ now).changes

/-! ## Dispatch and lease -/

variable {deadline : Time} {owner worker : String} {token receipt : Token}

theorem moves_dispatchedTo (h : dispatchable now a) : Moves a (dispatchedTo owner deadline a) := by
  simp only [dispatchable, decide_eq_true_eq] at h
  refine ⟨rfl, rfl, rfl, rfl, ?_, rfl, ?_⟩
  · rcases h with h | ⟨h, -⟩ <;> exact isActive_of_state h
  · intro hrunning
    rcases h with h | ⟨h, -⟩ <;> simp [h] at hrunning

theorem changes_claimDispatch {r : Option Admission}
    (h : s.claimDispatch owner deadline now = .ok (r, s')) : Changes G s s' := by
  unfold claimDispatch at h
  split at h
  · cases h
  split at h
  · obtain ⟨-, rfl⟩ := ok_pair_inj h
    exact .refl
  next a ha =>
  obtain ⟨-, rfl⟩ := ok_pair_inj h
  have hmem := List.mem_of_head? ha
  rw [List.mem_insertionSort, List.mem_filter] at hmem
  exact (Change.moved a.key _ _ a (Table.get?_of_mem hmem.1) (moves_dispatchedTo hmem.2)).changes

theorem changes_ackDispatch {b : Bool}
    (h : s.ackDispatch k owner = .ok (b, s')) : Changes G s s' := by
  unfold ackDispatch at h
  split at h
  · obtain ⟨-, rfl⟩ := ok_pair_inj h
    exact .refl
  next a ha =>
  split at h
  · obtain ⟨-, rfl⟩ := ok_pair_inj h
    exact .refl
  split at h
  · obtain ⟨-, rfl⟩ := ok_pair_inj h
    exact .refl
  next hstate =>
  push Not at hstate
  obtain ⟨-, rfl⟩ := ok_pair_inj h
  refine (Change.moved k _ _ a ha ⟨rfl, rfl, rfl, rfl, ?_, rfl, ?_⟩).changes
  · exact isActive_of_state hstate.1
  · intro hrunning
    simp [hstate.1] at hrunning

theorem changes_adopt {token : Nat}
    (h : s.adopt k worker now = .ok (token, s')) : Changes G s s' := by
  unfold adopt at h
  split at h
  · cases h
  split at h
  · cases h
  next a ha =>
  split at h
  · split at h
    · cases h
    · obtain ⟨-, rfl⟩ := ok_pair_inj h
      exact .refl
  next hstate =>
  split at h
  · cases h
  next hactive =>
  obtain ⟨-, rfl⟩ := ok_pair_inj h
  exact (Change.moved k _ _ a ha
    ⟨rfl, rfl, rfl, rfl, by simpa using hactive, rfl, fun hrunning => absurd hrunning hstate⟩).changes

theorem changes_start {token : Nat}
    (h : s.start k worker now = .ok (token, s')) : Changes G s s' := by
  unfold start at h
  split at h
  · cases h
  split at h
  · cases h
  next a ha =>
  split at h
  · cases h
  next hstate =>
  rw [not_ne_iff] at hstate
  obtain ⟨-, rfl⟩ := ok_pair_inj h
  refine (Change.moved k _ _ a ha ⟨rfl, rfl, rfl, rfl, ?_, rfl, ?_⟩).changes
  · exact isActive_of_state hstate
  · intro hrunning
    simp [hstate] at hrunning

theorem changes_heartbeat {b : Bool}
    (h : s.heartbeat k worker now = .ok (b, s')) : Changes G s s' := by
  unfold heartbeat at h
  split at h
  · obtain ⟨-, rfl⟩ := ok_pair_inj h
    exact .refl
  next a ha =>
  split at h
  · obtain ⟨-, rfl⟩ := ok_pair_inj h
    exact .refl
  next hstate =>
  push Not at hstate
  obtain ⟨-, rfl⟩ := ok_pair_inj h
  refine (Change.moved k _ _ a ha ⟨rfl, rfl, rfl, rfl, ?_, ?_, fun hrunning => ⟨hrunning, rfl⟩⟩).changes
  · exact isActive_of_state hstate.1
  · exact isActive_of_state (a := heartbeatAt now a) hstate.1

/-! ## Keys -/

theorem maxVersion_eq (versions : List Nat) : maxVersion versions = versions.max?.getD 0 := by
  simp [maxVersion, List.foldl_max]

theorem maxVersion_mem {versions : List Nat} (h : versions ≠ []) :
    maxVersion versions ∈ versions := by
  obtain ⟨m, hm⟩ := Option.isSome_iff_exists.mp (List.isSome_max?_of_ne_nil h)
  rw [maxVersion_eq, hm]
  exact (List.max?_eq_some_iff.mp hm).1

theorem currentKeyVersion_spec {secret : String} {version : Nat}
    (h : s.currentKeyVersion secret = (version, s')) :
    Changes G s s' ∧ (s'.tokenKeys.get? version).isSome ∧
      s' = { s with tokenKeys := s'.tokenKeys, keyHighWater := s'.keyHighWater } := by
  unfold currentKeyVersion at h
  split at h
  · next hempty =>
    have hempty : s.tokenKeys.rows = [] := List.isEmpty_iff.mp hempty
    obtain ⟨rfl, rfl⟩ := Prod.mk.inj h
    refine ⟨(Change.keyed secret hempty).changes, ?_, rfl⟩
    have hnew : (⟨s.freshVersion, secret⟩ : TokenKey) ∈ (s.addKey secret).tokenKeys :=
      Table.mem_insertIgnore.mpr (.inr ⟨rfl, by simp [Table.get?, hempty]⟩)
    rw [Table.get?_of_mem hnew]
    rfl
  · next hkeys =>
    obtain ⟨rfl, rfl⟩ := Prod.mk.inj h
    have hmem : maxVersion (s.tokenKeys.rows.map TokenKey.version) ∈
        s.tokenKeys.rows.map TokenKey.version := maxVersion_mem (by simpa using hkeys)
    obtain ⟨key, hkey, hversion⟩ := List.mem_map.mp hmem
    refine ⟨.refl, ?_, rfl⟩
    rw [← hversion, Table.get?_of_mem hkey]
    rfl

theorem currentKeyVersion_minted (secret : String) (s : State) (minted : List String) :
    { s with minted }.currentKeyVersion secret =
      ((s.currentKeyVersion secret).1, { (s.currentKeyVersion secret).2 with minted }) := by
  unfold currentKeyVersion
  split <;> rfl

theorem changes_pruneKeys (h : s.pruneKeys = .ok (n, s')) : Changes G s s' := by
  unfold pruneKeys at h
  split at h
  · obtain ⟨-, rfl⟩ := ok_pair_inj h
    exact .refl
  · obtain ⟨-, rfl⟩ := ok_pair_inj h
    exact Change.keysPruned.changes

/-! ## Leaving the lease -/

theorem terminalizeRun_ok
    (h : s.terminalizeRun k outcome eventJson now = .ok (effective, s')) :
    ∃ r, s.runs.get? k = some r ∧
      (r.terminal ∧ effective = r.outcome ∧ s' = s ∨
        r.terminal = false ∧ effective = outcome ∧ ∃ journal,
          s.journal.insert? ⟨r.contextId, r.runId, r.committedSequence + 1, eventJson, true⟩ =
            some journal ∧
          s' = { s with journal }.updateRun k (advance eventJson outcome true now)
            (advance_key eventJson outcome true now)) := by
  unfold terminalizeRun at h
  split at h
  · cases h
  next r hr =>
  refine ⟨r, hr, ?_⟩
  split at h
  · next hterminal =>
    obtain ⟨rfl, rfl⟩ := ok_pair_inj h
    exact .inl ⟨hterminal, rfl, rfl⟩
  · next hactive =>
    obtain ⟨t, ht, h⟩ := bind_ok h
    obtain ⟨rfl, rfl⟩ := ok_pair_inj h
    obtain ⟨journal, hins, rfl⟩ := writeEvent_ok ht
    exact .inr ⟨by simpa using hactive, rfl, journal, hins, by rw [Table.get?_key hr]⟩

theorem changes_terminalizeRun
    (h : s.terminalizeRun k outcome eventJson now = .ok (effective, s'))
    (hfrozen : outcome = "success" → (s.runs.get? k).any (fun r => ¬ r.terminal) →
      s.unfrozenManagedSuccess k = false) :
    Changes G s s' ∧ s'.admissions = s.admissions ∧
      ∃ r, s'.runs.get? k = some r ∧ r.terminal ∧ r.outcome = effective := by
  obtain ⟨r, hr, ⟨hterminal, rfl, rfl⟩ | ⟨hactive, rfl, journal, hins, rfl⟩⟩ := terminalizeRun_ok h
  · exact ⟨.refl, rfl, r, hr, hterminal, rfl⟩
  · obtain ⟨hmem, rfl⟩ := Table.get?_eq_some.mp hr
    refine ⟨(Change.wrote r eventJson effective true now journal hmem hactive ?_ hins).changes, rfl,
      advance eventJson effective true now r, ?_, rfl, rfl⟩
    · intro _ houtcome
      exact hfrozen houtcome (by simp [hr, hactive])
    · simp [updateRun, Table.get?_update, hr]

theorem mint_ok {handles : List String} (h : s.mint handles = .ok s') :
    handles.Nodup ∧ (∀ x ∈ handles, x ∉ s.minted) ∧
      s' = { s with minted := handles ++ s.minted } := by
  unfold mint at h
  split at h
  · next hfresh => exact ⟨hfresh.1, hfresh.2, (Except.ok.inj h).symm⟩
  · cases h

theorem freezeBatch_ok {mac : Mac} (h : s.freezeBatch mac k deadline now draw = .ok (token, s')) :
    ∃ version keys highWater batches,
      let u := { s with tokenKeys := keys, keyHighWater := highWater }
      Changes G s u ∧ (keys.get? version).isSome ∧
      (u.frozenHandles k draw).Nodup ∧ (∀ x ∈ u.frozenHandles k draw, x ∉ u.minted) ∧
      u.batches.insert?
        { contextId := k.1, runId := k.2, handle := "bh" ++ draw.handle, keyVersion := version
          absoluteDeadline := now + max second deadline } = some batches ∧
      s' = { u with minted := u.frozenHandles k draw ++ u.minted, batches }.assignHandles k draw := by
  unfold freezeBatch at h
  obtain ⟨t, ht, h⟩ := bind_ok h
  obtain ⟨hnodup, hfresh, rfl⟩ := mint_ok ht
  rw [currentKeyVersion_minted] at h
  obtain ⟨hchanges, hversion, hu⟩ :=
    currentKeyVersion_spec (G := G) (Prod.mk.eta (p := s.currentKeyVersion draw.secret)).symm
  generalize (s.currentKeyVersion draw.secret).1 = version at h hversion
  generalize (s.currentKeyVersion draw.secret).2 = u at h hversion hchanges hu
  dsimp only at h
  split at h
  · cases h
  next batches hins =>
  obtain ⟨token', -, h⟩ := bind_ok h
  obtain ⟨-, rfl⟩ := ok_pair_inj h
  obtain ⟨keys, highWater, rfl⟩ : ∃ keys highWater,
      u = { s with tokenKeys := keys, keyHighWater := highWater } := ⟨_, _, hu⟩
  exact ⟨version, keys, highWater, batches, hchanges, hversion, hnodup, hfresh, hins, rfl⟩

@[simp] theorem admissions_leave (k : RunKey) (state : AdmissionState) (outcome : String) :
    (s.leave k state outcome).admissions =
      s.admissions.update (fun a => a.key = k) (leftWith state outcome)
        (leftWith_key state outcome) := rfl

theorem changes_finish {mac : Mac} {a : FinishArgs}
    (h : s.finish mac k a now draw = .ok (outcome, s')) : Changes G s s' := by
  unfold finish at h
  split at h
  · cases h
  obtain ⟨-, -, h⟩ := bind_ok h
  split at h
  · cases h
  next row hrow =>
  split at h
  · cases h
  next howner =>
  push Not at howner
  obtain ⟨⟨token, t⟩, ht, h⟩ := bind_ok h
  obtain ⟨⟨effective, u⟩, hu, h⟩ := bind_ok h
  obtain ⟨rfl, rfl⟩ := ok_pair_inj h
  unfold freezeIfManaged at ht
  split at ht
  · next hmanaged =>
    obtain ⟨houtcome, -, hpending, hrun⟩ := hmanaged
    obtain ⟨⟨token', t'⟩, ht', ht⟩ := bind_ok ht
    obtain ⟨rfl, rfl⟩ := ok_pair_inj ht
    obtain ⟨version, keys, highWater, batches, hchanges, hversion, hnodup, hfresh, hins, rfl⟩ :=
      freezeBatch_ok (G := G) ht'
    rw [houtcome] at hu
    obtain ⟨r, hr, ⟨hterminal, -, -⟩ | ⟨hactive, rfl, journal, hjournal, rfl⟩⟩ :=
      terminalizeRun_ok hu
    · have hr : s.runs.get? k = some r := hr
      simp [hr, hterminal] at hrun
    · refine hchanges.tail ?_
      exact .froze k draw version _ _ now row r batches journal hrow howner.1 hr hactive hpending
        hnodup hfresh hversion hins hjournal
  · next hclassic =>
    obtain ⟨rfl, rfl⟩ := ok_pair_inj ht
    obtain ⟨hchanges, hadmissions, r, hr, hterminal, rfl⟩ := changes_terminalizeRun (G := G) hu
      (by
        intro houtcome hrun
        by_contra hunfrozen
        simp only [unfrozenManagedSuccess, Bool.not_eq_false, Bool.and_eq_true,
          Bool.not_eq_true', List.isEmpty_eq_false_iff] at hunfrozen
        exact hclassic ⟨houtcome, hunfrozen.1.1, hunfrozen.1.2, hrun⟩)
    refine hchanges.tail (.left k .terminal row r ?_ ?_ hr hterminal rfl)
    · rw [hadmissions]
      exact hrow
    · exact isActive_of_state howner.1

/-- What an orphaned turn leaves: every other admission is untouched. -/
theorem changes_orphanOne
    (h : s.orphanOne k now = .ok s') (ha : s.admissions.get? k = some a) (hactive : a.isActive) :
    Changes G s s' ∧ ∀ k', k' ≠ k → s'.admissions.get? k' = s.admissions.get? k' := by
  have hother : ∀ (t : State) state outcome k', t.admissions = s.admissions → k' ≠ k →
      (t.leave k state outcome).admissions.get? k' = s.admissions.get? k' := by
    intro t state outcome k' hadmissions hne
    rw [admissions_leave, Table.get?_update, hadmissions]
    cases hget : s.admissions.get? k' with
    | none => rfl
    | some x =>
      have hkey : ¬ x.key = k := by rwa [Table.get?_key hget]
      simp [hkey]
  unfold orphanOne at h
  split at h
  · next r hr =>
    split at h
    · next hterminal =>
      obtain rfl := Except.ok.inj h
      exact ⟨(Change.left k .terminal a r ha hactive hr hterminal rfl).changes,
        fun k' hne => hother s _ _ k' rfl hne⟩
    · obtain ⟨⟨effective, t⟩, ht, h⟩ := bind_ok h
      obtain rfl := Except.ok.inj h
      have heffective : effective = "run_lost" := by
        obtain ⟨r', hr', ⟨hterminal, -⟩ | ⟨-, rfl, -⟩⟩ := terminalizeRun_ok ht
        · simp_all
        · rfl
      obtain ⟨hchanges, hadmissions, r', hr', hterminal, houtcome⟩ :=
        changes_terminalizeRun (G := G) ht (by simp)
      refine ⟨hchanges.tail ?_, fun k' hne => hother t _ _ k' hadmissions hne⟩
      have hleft := Change.left (G := G) (s := t) k .orphaned a r' (hadmissions ▸ ha) hactive hr'
        hterminal rfl
      rwa [houtcome, heffective] at hleft
  · cases h

theorem changes_orphanAll {ks : List RunKey} (h : s.orphanAll now ks = .ok s')
    (hnodup : ks.Nodup) (hactive : ∀ k ∈ ks, ∃ a, s.admissions.get? k = some a ∧ a.isActive) :
    Changes G s s' := by
  induction ks generalizing s with
  | nil =>
    obtain rfl := Except.ok.inj h
    exact .refl
  | cons k rest ih =>
    obtain ⟨t, ht, h⟩ := bind_ok h
    obtain ⟨a, ha, hrunning⟩ := hactive k (List.mem_cons_self ..)
    obtain ⟨hchanges, hother⟩ := changes_orphanOne (G := G) ht ha hrunning
    obtain ⟨hk, hrest⟩ := List.nodup_cons.mp hnodup
    refine hchanges.trans (ih h hrest ?_)
    intro k' hk'
    rw [hother k' (by rintro rfl; exact hk hk')]
    exact hactive k' (List.mem_cons_of_mem _ hk')

theorem changes_orphanExpired {timeout : Time}
    (h : s.orphanExpired timeout now = .ok (n, s')) : Changes G s s' := by
  obtain ⟨t, ht, h⟩ := bind_ok h
  obtain ⟨-, rfl⟩ := ok_pair_inj h
  refine changes_orphanAll ht ?_ ?_
  · exact s.admissions.unique.sublist (List.filter_sublist.map Admission.key)
  · intro k hk
    obtain ⟨a, ha, rfl⟩ := List.mem_map.mp hk
    rw [List.mem_filter] at ha
    have hrunning : a.state = .running ∧ a.leaseHeartbeatAt ≤ now - max second timeout := by
      simpa using ha.2
    exact ⟨a, Table.get?_of_mem ha.1, isActive_of_state hrunning.1⟩

theorem changes_cancel {mac : Mac}
    {r : String × Bool} (h : s.cancel mac token scope now = .ok (r, s')) : Changes G s s' := by
  obtain ⟨k, -, h⟩ := bind_ok h
  split at h
  · cases h
  next a ha =>
  split at h
  · obtain ⟨-, rfl⟩ := ok_pair_inj h
    exact .refl
  next hactive =>
  rw [not_not] at hactive
  obtain ⟨⟨effective, t⟩, ht, h⟩ := bind_ok h
  obtain ⟨-, rfl⟩ := ok_pair_inj h
  obtain ⟨hchanges, hadmissions, r, hr, hterminal, rfl⟩ :=
    changes_terminalizeRun (G := G) ht (by simp)
  have ha' : t.admissions.get? k = some a := hadmissions ▸ ha
  refine (hchanges.tail (.moved k clearDispatch clearDispatch_key a ha' ?_)).tail ?_
  · exact ⟨rfl, rfl, rfl, rfl, hactive, hactive, fun hrunning => ⟨hrunning, rfl⟩⟩
  · refine .left k .terminal (clearDispatch a) r ?_ hactive hr hterminal rfl
    simp [updateAdmission, Table.get?_update, ha', Table.get?_key ha']

/-! ## The call ledger and admission -/

theorem changes_recordCall {a : CallArgs}
    (h : s.recordCall k a now = .ok ((), s')) (hok : G s (.recordCall k a)) : Changes G s s' := by
  unfold recordCall at h
  split at h
  · cases h
  next hid =>
  split at h
  · cases h
  next row hrow =>
  split at h
  · cases h
  next hrunning =>
  split at h
  · cases h
  next hcatalogue =>
  push Not at hcatalogue
  split at h
  · cases h
  next hrun =>
  obtain ⟨-, rfl⟩ := ok_pair_inj h
  refine (Change.recorded _ row a hok rfl hid hcatalogue hrow (not_ne_iff.mp hrunning) ?_ rfl rfl
    rfl rfl).changes
  simpa using Option.isSome_iff_ne_none.mpr (by simpa using hrun)

theorem bindParent_ok {a : AcquireArgs} (h : s.bindParent a.contextId a.parentRunId = .ok s') :
    Binds s a s' := by
  unfold bindParent at h
  split at h
  · next b hb =>
    obtain ⟨hcontext, -⟩ : b.contextId = a.contextId ∧ b.state ≠ .consumed := by
      simpa using List.find?_some hb
    split at h
    · cases h
    next hstate =>
    split at h
    · cases h
    next hparent =>
    obtain rfl := Except.ok.inj h
    exact .consumed b (List.mem_of_find?_eq_some hb) hcontext (not_ne_iff.mp hstate)
      (not_ne_iff.mp hparent)
  · next hfree =>
    have hbinds : Binds s a s := .free (by simpa [Table.mem_def] using hfree)
    dsimp only at h
    split at h
    · split at h
      · cases h
      · obtain rfl := Except.ok.inj h
        exact hbinds
    · split at h
      · cases h
      · obtain rfl := Except.ok.inj h
        exact hbinds

theorem changes_ensureRunTokens (h : s.ensureRunTokens k draw = .ok s')
    (hcontext : (s.contexts.get? k.1).isSome) : Changes G s s' := by
  unfold ensureRunTokens at h
  split at h
  · obtain rfl := Except.ok.inj h
    exact .refl
  obtain ⟨hchanges, hversion, hu⟩ :=
    currentKeyVersion_spec (G := G) (Prod.mk.eta (p := s.currentKeyVersion draw.secret)).symm
  dsimp only at h
  generalize (s.currentKeyVersion draw.secret).1 = version at h hversion
  generalize (s.currentKeyVersion draw.secret).2 = u at h hversion hchanges hu
  obtain ⟨t, ht, h⟩ := bind_ok h
  obtain ⟨-, hfresh, rfl⟩ := mint_ok ht
  obtain rfl := Except.ok.inj h
  refine hchanges.tail (.runToken k _ version ?_ (hfresh _ (List.mem_singleton_self _)) hversion)
  rw [hu]
  exact hcontext

theorem changes_reserve {a : AcquireArgs} {row : Admission} {t : State}
    (h : t.reserve a now draw = .ok (row, s')) (hok : ∃ s₀, G s₀ (.acquire a))
    (hactive : s.activeAdmission a.contextId = none) (hbinds : Binds s a t) : Changes G s s' := by
  have htables : t.admissions = s.admissions ∧ t.fences = s.fences ∧ t.runs = s.runs ∧
      t.contexts = s.contexts := by
    cases hbinds <;> exact ⟨rfl, rfl, rfl, rfl⟩
  obtain ⟨hadmissions, hfences, hruns, hcontexts⟩ := htables
  have htoken : t.nextToken a.contextId = s.nextToken a.contextId := by
    unfold nextToken
    rw [hfences]
  unfold reserve at h
  rw [htoken, hadmissions, hfences] at h
  dsimp only at h
  split at h
  · cases h
  next admissions hins =>
  obtain ⟨u, hu, h⟩ := bind_ok h
  obtain ⟨hcontext, rfl⟩ := insertRun_ok hu
  obtain ⟨u, hu, h⟩ := bind_ok h
  obtain ⟨-, rfl⟩ := ok_pair_inj h
  have hcontext' : (s.contexts.get? a.contextId).isSome := hcontexts ▸ hcontext
  -- the journal run is opened first, so that the admission never stands without it
  refine .trans ((Change.opened a.key now hcontext').changes.tail ?_)
    (changes_ensureRunTokens hu hcontext)
  let w : State := { s with
    runs := s.runs.insertIgnore { contextId := a.contextId, runId := a.runId, updatedAt := now } }
  have hrun : (w.runs.get? a.key).isSome := Table.isSome_get?_insertIgnore s.runs _
  cases hbinds with
  | consumed b hb hc hstate hparent =>
    exact .admitted (s := w) a now _ admissions hok hcontext' hrun hactive
      (.consumed b hb hc hstate hparent) hins
  | free hfree =>
    exact .admitted (s := w) a now _ admissions hok hcontext' hrun hactive (.free hfree) hins

theorem changes_acquire {a : AcquireArgs} {r : Admission × Bool}
    (h : s.acquire a now draw = .ok (r, s')) (hok : ∃ s₀, G s₀ (.acquire a)) : Changes G s s' := by
  unfold acquire at h
  split at h
  · cases h
  split at h
  · cases h
  split at h
  · cases h
  split at h
  · cases h
  split at h
  · split at h
    · cases h
    · obtain ⟨-, rfl⟩ := ok_pair_inj h
      exact .refl
  split at h
  · cases h
  split at h
  · cases h
  next hactive =>
  obtain ⟨t, ht, h⟩ := bind_ok h
  obtain ⟨⟨row, u⟩, hu, h⟩ := bind_ok h
  obtain ⟨-, rfl⟩ := ok_pair_inj h
  exact changes_reserve hu hok hactive (bindParent_ok ht)

/-! ## Batches -/

theorem changes_claimIn {mac : Mac}
    {r : Except Error ClaimReply} (h : s.claimIn mac b claimId lease now = .ok (r, s'))
    (hb : b ∈ s.batches) (hid : claimId ≠ "") : Changes G s s' := by
  unfold claimIn at h
  split at h
  · obtain ⟨-, rfl⟩ := ok_pair_inj h
    exact .refl
  next hexpired =>
  have hexpired : s.expiredClaims.get? (b.handle, claimId) = none := by simpa using hexpired
  have hreply : ∀ {d u}, ((claimReply mac d u).bind fun reply => .ok (.ok reply, u)) =
      (.ok (r, s') : Except Error (Except Error ClaimReply × State)) → s' = u := by
    intro d u hu
    obtain ⟨reply, -, hu⟩ := bind_ok hu
    exact (ok_pair_inj hu).2.symm
  split at h
  · next hfrozen =>
    obtain rfl := hreply h
    exact (Change.claimed b claimId _ hb hfrozen hid hexpired).changes
  all_goals first
    | cases h
    | split at h
      · cases h
      · obtain rfl := hreply h
        exact .refl

theorem mem_expireClaim (hb : b ∈ s.batches) : b.expired ∈ (s.expireClaim b).batches :=
  (Table.mem_update Batch.expired_key).mpr ⟨b, hb, by simp⟩

theorem leaseOver_state (h : b.leaseOver now) : b.state = .reservedPreEffect := by
  simp only [Batch.leaseOver, decide_eq_true_eq] at h
  exact h.1

theorem changes_claimBatch {mac : Mac} {r : Except Error ClaimReply}
    (h : s.claimBatch mac token claimId lease scope now = .ok (r, s')) : Changes G s s' := by
  unfold claimBatch at h
  split at h
  · cases h
  next hid =>
  split at h
  · cases h
  next b hfind =>
  have hb : b ∈ s.batches := List.mem_of_find?_eq_some hfind
  split at h
  · cases h
  obtain ⟨-, -, h⟩ := bind_ok h
  split at h
  · cases h
  split at h
  · next hover =>
    exact .head (.expired b hb (leaseOver_state hover))
      (changes_claimIn h (mem_expireClaim hb) hid)
  · exact changes_claimIn h hb hid

theorem changes_renewBatch {mac : Mac}
    {r : Except Error Unit} (h : s.renewBatch mac token lease scope now = .ok (r, s')) :
    Changes G s s' := by
  unfold renewBatch at h
  split at h
  · cases h
  next b hfind =>
  have hb : b ∈ s.batches := List.mem_of_find?_eq_some hfind
  split at h
  · cases h
  obtain ⟨-, -, h⟩ := bind_ok h
  split at h
  · obtain ⟨-, rfl⟩ := ok_pair_inj h
    exact .refl
  split at h
  · cases h
  next hstate =>
  rw [not_ne_iff] at hstate
  split at h
  · cases h
  split at h
  · obtain ⟨-, rfl⟩ := ok_pair_inj h
    exact (Change.expired b hb hstate).changes
  · obtain ⟨-, rfl⟩ := ok_pair_inj h
    exact (Change.renewed b _ hb hstate).changes

theorem callByReceipt_ok {mac : Mac} (h : s.callByReceipt mac receipt scope = .ok (c, b)) :
    c ∈ s.calls ∧ c.handle ≠ "" ∧ c.handle = receipt.handle ∧
      s.batches.get? c.runKey = some b ∧ s.inScope c.contextId scope ∧
      verifyGenerationBound mac s receipt b.keyVersion c.handle .receipt
        ⟨c.runKey, some c.toolCallId⟩ b.claimGeneration = .ok () := by
  unfold callByReceipt at h
  split at h
  · cases h
  next hhandle =>
  split at h
  · cases h
  next c' hfind =>
  have hfound : c'.handle = receipt.handle := by simpa using List.find?_some hfind
  split at h
  · cases h
  next hscope =>
  split at h
  · cases h
  next b' hb =>
  obtain ⟨u, hverify, h⟩ := bind_ok h
  obtain ⟨rfl, rfl⟩ := Prod.mk.inj (Except.ok.inj h)
  exact ⟨List.mem_of_find?_eq_some hfind, hfound ▸ hhandle, hfound, hb, not_not.mp hscope, hverify⟩

theorem changes_beginIn
    {r : Except Error Unit} (h : s.beginIn c b catalogueId catalogueVersion = .ok (r, s'))
    (hc : c ∈ s.calls) (hhandle : c.handle ≠ "") (hb : s.batches.get? c.runKey = some b)
    (hclaimed : Claimed b) : Changes G s s' := by
  unfold beginIn at h
  split at h
  · next hexec =>
    obtain ⟨-, rfl⟩ := ok_pair_inj h
    exact (Change.begunAgain c b hc hhandle hb hclaimed hexec).changes
  · cases h
  next hexec =>
  split at h
  · next outcome hrejected =>
    obtain ⟨-, rfl⟩ := ok_pair_inj h
    refine (Change.ended c b outcome _ hc hhandle hb ?_ (.inl ⟨hexec, ?_⟩)).changes
    · rcases hclaimed with hstate | hstate <;> simp [hstate, BatchState.isOpen]
    · unfold catalogueRejection at hrejected
      split at hrejected
      · cases hrejected
      split at hrejected
      · obtain rfl := Option.some.inj hrejected
        decide
      split at hrejected
      · obtain rfl := Option.some.inj hrejected
        decide
      · cases hrejected
  · obtain ⟨-, rfl⟩ := ok_pair_inj h
    exact (Change.begun c b hc hhandle hb hclaimed hexec).changes

theorem changes_beginCall {mac : Mac}
    {r : Except Error Unit}
    (h : s.beginCall mac receipt catalogueId catalogueVersion scope now = .ok (r, s')) :
    Changes G s s' := by
  obtain ⟨⟨c, b⟩, hresolved, h⟩ := bind_ok h
  obtain ⟨hc, hhandle, -, hb, -, -⟩ := callByReceipt_ok hresolved
  dsimp only at h
  split at h
  · cases h
  split at h
  · cases h
  split at h
  · next hstate =>
    split at h
    · obtain ⟨-, rfl⟩ := ok_pair_inj h
      exact (Change.expired b (Table.get?_mem hb) hstate).changes
    · exact changes_beginIn h hc hhandle hb (.inl hstate)
  split at h
  · next hstate => exact changes_beginIn h hc hhandle hb (.inr hstate)
  · cases h

theorem isOpen_of_not_over (h : ¬ (b.state = .complete ∨ b.state = .consumed)) :
    b.state.isOpen := by
  cases hstate : b.state <;> simp_all [BatchState.isOpen]

theorem changes_depositIn {outcome : Outcome}
    {r : Except Error DepositReply} (h : s.depositIn c outcome payloadJson = .ok (r, s'))
    (hc : c ∈ s.calls) (hhandle : c.handle ≠ "") (hb : s.batches.get? c.runKey = some b)
    (hopen : b.state.isOpen) (hends : Ends c outcome) : Changes G s s' := by
  obtain ⟨-, rfl⟩ := ok_pair_inj h
  exact (Change.ended c b outcome payloadJson hc hhandle hb hopen hends).changes

theorem changes_depositCall {mac : Mac} {kind : String} {r : Except Error DepositReply}
    (h : s.depositCall mac receipt kind payloadJson scope now = .ok (r, s')) : Changes G s s' := by
  obtain ⟨⟨c, b⟩, hresolved, h⟩ := bind_ok h
  obtain ⟨hc, hhandle, -, hb, -, -⟩ := callByReceipt_ok hresolved
  dsimp only at h
  split at h
  · split at h
    · obtain ⟨-, rfl⟩ := ok_pair_inj h
      exact .refl
    split at h
    · obtain ⟨-, rfl⟩ := ok_pair_inj h
      exact .refl
    · cases h
  · next hexec =>
    split at h
    · obtain ⟨-, rfl⟩ := ok_pair_inj h
      exact .refl
    next hover =>
    split at h
    · cases h
    next outcome hfind =>
    exact changes_depositIn h hc hhandle hb (isOpen_of_not_over hover)
      (.inr ⟨hexec, List.mem_of_find?_eq_some hfind⟩)
  · next hexec =>
    split at h
    · obtain ⟨-, rfl⟩ := ok_pair_inj h
      exact .refl
    next hover =>
    split at h
    · cases h
    next outcome hfind =>
    split at h
    · next hlease =>
      obtain ⟨-, rfl⟩ := ok_pair_inj h
      exact (Change.expired b (Table.get?_mem hb) (leaseOver_state hlease)).changes
    · exact changes_depositIn h hc hhandle hb (isOpen_of_not_over hover)
        (.inl ⟨hexec, List.mem_of_find?_eq_some hfind⟩)

theorem changes_expireNext {r : Bool} (h : s.expireNext now = .ok (r, s')) : Changes G s s' := by
  unfold expireNext at h
  split at h
  · obtain ⟨-, rfl⟩ := ok_pair_inj h
    exact .refl
  next b hhead =>
  obtain ⟨-, rfl⟩ := ok_pair_inj h
  have hmem := List.mem_of_head? hhead
  rw [List.mem_insertionSort, List.mem_filter] at hmem
  have hopen : b.state.isOpen ∧ b.absoluteDeadline ≤ now := by simpa using hmem.2
  exact (Change.deadline b hmem.1 hopen.1).changes

/-! ## Runs -/

variable {mac : Mac}

/-- Every transaction is a sequence of changes. -/
theorem changes_perform (s : State) (x : Tx) (hok : G s x.op) : Changes G s (s.perform mac x) := by
  unfold perform
  cases hop : x.op with
  | ensureThread => exact settle_rel .refl fun _ _ h => changes_ensureThread h
  | resolveContext => exact settle_rel .refl fun _ _ h => changes_resolveContext h
  | clearCleanup => exact settle_rel .refl fun _ _ h => changes_clearCleanup h
  | rotate => exact settle_rel .refl fun _ _ h => changes_rotate h
  | reserveSweep => exact settle_rel .refl fun _ _ h => changes_reserveSweep h
  | savePublication p =>
    refine settle_rel .refl ?_
    intro _ _ h
    obtain ⟨-, rfl⟩ := ok_pair_inj h
    exact (Change.publication p (hop ▸ hok)).changes
  | openRun => exact settle_rel .refl fun _ _ h => changes_openRun h
  | acquireSubscriber => exact settle_rel .refl fun _ _ h => changes_acquireSubscriber h
  | append => exact settle_rel .refl fun _ _ h => changes_append h
  | prune => exact settle_rel .refl fun _ _ h => changes_prune h
  | acquire a => exact settle_rel .refl fun _ _ h => changes_acquire h ⟨s, hop ▸ hok⟩
  | claimDispatch => exact settle_rel .refl fun _ _ h => changes_claimDispatch h
  | ackDispatch => exact settle_rel .refl fun _ _ h => changes_ackDispatch h
  | adopt => exact settle_rel .refl fun _ _ h => changes_adopt h
  | start => exact settle_rel .refl fun _ _ h => changes_start h
  | heartbeat => exact settle_rel .refl fun _ _ h => changes_heartbeat h
  | finish => exact settle_rel .refl fun _ _ h => changes_finish h
  | orphanExpired => exact settle_rel .refl fun _ _ h => changes_orphanExpired h
  | cancel => exact settle_rel .refl fun _ _ h => changes_cancel h
  | recordCall k a => exact settle_rel .refl fun _ _ h => changes_recordCall h (hop ▸ hok)
  | claimBatch => exact settle_rel .refl fun _ _ h => changes_claimBatch h
  | renewBatch => exact settle_rel .refl fun _ _ h => changes_renewBatch h
  | beginCall => exact settle_rel .refl fun _ _ h => changes_beginCall h
  | depositCall => exact settle_rel .refl fun _ _ h => changes_depositCall h
  | expireNext => exact settle_rel .refl fun _ _ h => changes_expireNext h
  | pruneKeys => exact settle_rel .refl fun _ _ h => changes_pruneKeys h

theorem changes_of_runs (h : Runs (step mac) (fun s x => G s x.op) s s') : Changes G s s' := by
  refine h.changes ?_
  intro t x u hok hstep
  obtain rfl := Option.some.inj hstep
  exact changes_perform t x hok

theorem changes_of_reach (h : Reach (step mac) s s') : Changes (fun _ _ => True) s s' :=
  changes_of_runs h

end State

end PawFlow.Agui
