import PawFlow.StandardApi.Runs

/-!
# What a transaction of the standard API can change

`Change G s t` lists every change the store makes, each with the conditions under which it is
made; `G` is a guard on transactions, for results that hold only of some runs. A transaction
is a sequence of changes (`changes_perform`), and the invariants of the later modules are
proved by cases on `Change`.
-/

namespace PawFlow.StandardApi

open PawFlow.Lib

namespace State

def limits (p : Publication) : Int × Int := (p.apiMaxSessionsPerKey, p.apiMaxConcurrentRunsPerKey)

def ofCurrentGeneration (s : State) (x : Session) : Bool :=
  (s.publications.get? x.ns.publicationId).any fun p => p.apiGeneration = x.ns.apiGeneration

/-- The session of an admission, at the moment it is admitted. -/
structure Admissible (s : State) (a : AcquireArgs) (x : Session) (now : Time) : Prop where
  found : s.sessions.get? a.sessionId = some x
  state : x.state = .idle ∧ now < x.expiresAt ∨ x.state = .waitingTool ∧
    s.hasPendingBatch a.sessionId a.expectedHeadHash a.expectedItemCount
  head : x.visibleHeadHash = a.expectedHeadHash
  count : x.itemCount = a.expectedItemCount
  free : s.admissions.get? (a.key x.ns) = none
  fresh : ∀ r ∈ s.admissions, r.runId ≠ a.runId
  unused : s.runs.get? a.runId = none
  generation : s.ofCurrentGeneration x
  quota : ∃ p, s.publications.get? x.ns.publicationId = some p ∧
    (s.sessions.count (leased x.ns.publicationId x.ns.keyId now) : Int) <
      p.apiMaxConcurrentRunsPerKey

/-- The store after an admission. -/
def admittedBy (s : State) (a : AcquireArgs) (x : Session) (now : Time)
    (runs : Table String Run Run.runId) : State :=
  { s with
    admissions := s.admissions.insertIgnore (a.admission x.ns now)
    sessions := s.sessions.update
      (fun y => y.sessionId = a.sessionId ∧ y.state ∈ [.idle, .waitingTool] ∧
        y.visibleHeadHash = a.expectedHeadHash ∧ y.itemCount = a.expectedItemCount)
      (a.leasedSession now) (a.leasedSession_sessionId now)
    runs }

/-- The changes of transactions that meet the guard `G`. -/
inductive Change (G : State → Tx → Prop) (s : State) : State → Prop
  | ticked (now : Time) : Change G s (s.tick now)
  | published (p : Publication) :
      (∀ q, s.publications.get? p.publicationId = some q → limits q = limits p ∨
        ∃ p' now, G s ⟨.configure p', now⟩ ∧ p'.publicationId = p.publicationId ∧
          limits p' = limits p) →
      Change G s { s with publications := s.publications.upsert p }
  | keyed (keys : Table String ApiKey ApiKey.keyId) : Change G s { s with keys }
  | aged (publicationId : String) (generation : Nat) (now : Time) :
      Change G s (s.expireOldGenerations publicationId generation now)
  | created (a : CreateArgs) (x : Session) (now : Time) (p : Publication)
      (sessions : Table String Session Session.sessionId) :
      G s ⟨.create a, now⟩ → now ≤ s.clock → x.ns = a.ns → x.state = .idle → x.itemCount = a.itemCount →
      s.publications.get? a.ns.publicationId = some p →
      (s.sessions.count (retained a.ns.publicationId a.ns.keyId now) : Int) <
        p.apiMaxSessionsPerKey →
      s.sessions.insert? x = some sessions → Change G s { s with sessions }
  | dropped (p : Session → Bool) :
      (∀ x ∈ s.sessions, p x → x.state = .expired ∨
        x.state = .idle ∧ ∀ r ∈ s.runs, r.sessionId ≠ x.sessionId) →
      Change G s (s.dropSessions p)
  | closed (p : Session → Bool) (state : SessionState) (expires : Time → Time) :
      (∀ x ∈ s.sessions, p x → x.state ∈ [.idle, .quarantined, .expired]) →
      state ∈ [SessionState.quarantined, .expired] → Change G s (s.closeSessions p state expires)
  | pruned (now : Time) : now ≤ s.clock → Change G s (s.pruneAdmissions now)
  | admitted (a : AcquireArgs) (x : Session) (now : Time) (runs : Table String Run Run.runId) :
      -- the guard was met before the reservations were pruned
      now ≤ s.clock → (∃ u, G u ⟨.acquire a, now⟩ ∧ u.clock = s.clock) → s.Admissible a x now → s.runs.insert? (a.run now) = some runs →
      Change G s (s.admittedBy a x now runs)
  | renewed (runId leaseId : String) (duration now : Time) :
      G s ⟨.heartbeat runId leaseId duration, now⟩ →
      Change G s { s with
        sessions := s.sessions.update (fun x => x.leaseId = leaseId ∧ x.state = .running)
          (renewedSession (now + duration)) (renewedSession_sessionId (now + duration)) }
  | settled (b : ToolBatch) (r : Run) (results : List (String × String)) (now : Time) :
      s.runs.get? r.runId = some r → r.status = .running → b ∈ s.batches → b.state = .pending →
      b.sessionId = r.sessionId → Change G s (s.settleBatch b r.runId results now)
  | finalized (a : FinalizeArgs) (r : Run) (x : Session) (rows : List ToolCall) (now : Time)
      (t : State) (responses : Table String Response Response.responseId) :
      G s ⟨.finalize a, now⟩ → s.runs.get? a.runId = some r → s.sessions.get? r.sessionId = some x →
      ownsLease r x a.leaseId → r.parentItemCount ≤ a.itemCount →
      (∀ c ∈ rows, c.batchId = a.batchId ∧ c.state = .pending ∧ c.resultFingerprint = "" ∧
        c.settledAt = 0) →
      (rows ≠ [] → ∀ b ∈ s.batches, b.sessionId = x.sessionId → b.state ≠ .pending) →
      s.insertBatch a x.sessionId rows now = .ok t →
      Change G s ({ t with responses }.publish a x.sessionId (rows ≠ []) (s.nextExpiry x now))
  | failed (r : Run) (x : Session) (status : RunStatus) (now : Time) :
      s.runs.get? r.runId = some r → s.sessions.get? r.sessionId = some x →
      ownsLease r x r.leaseId → status = .failed ∨ status = .canceled →
      Change G s (s.failLease r status now)
  | lapsed (a : AcquireArgs) (x : Session) (now : Time) :
      G s ⟨.acquire a, now⟩ → s.sessions.get? a.sessionId = some x → overdue now x →
      Change G s (s.expireLease a.sessionId)
  | abandoned (x : Session) :
      s.sessions.get? x.sessionId = some x → x.state = .running →
      Change G s (s.abandonSession x.sessionId)

/-- Any number of changes. -/
abbrev Changes (G : State → Tx → Prop) : State → State → Prop := Relation.ReflTransGen (Change G)

variable {G : State → Tx → Prop} {s t : State}

theorem Change.changes (h : Change G s t) : Changes G s t := .single h

/-! ## Publications and sessions -/

variable {now : Time} {x : Session} {sessionId leaseId runId : String} {a : FinalizeArgs}

variable {r : Unit} {publicationId : String} {reply : AcquireReply}
  {schema : String → Option String}

variable {p : Publication} {results : List (String × String)} {canceled : Bool} {errorCode : String}
  {rows : List ToolCall}

theorem changes_configure
    (h : s.configure p now = .ok (r, t)) (hok : G s ⟨.configure p, now⟩) : Changes G s t := by
  unfold configure at h
  split at h
  · next hnone =>
    obtain ⟨-, rfl⟩ := ok_pair_inj h
    refine (Change.published _ ?_).changes
    intro q hq
    rw [show s.publications.get? p.publicationId = none from hnone] at hq
    cases hq
  · next row hrow =>
    split at h
    · cases h
    dsimp only at h
    obtain ⟨-, rfl⟩ := ok_pair_inj h
    have hpublished : Changes G s { s with
        publications := s.publications.upsert { p with
          apiGeneration := nextGeneration row p
          deleteRequested := false } } := by
      refine (Change.published _ ?_).changes
      intro q hq
      exact .inr ⟨p, now, hok, rfl, rfl⟩
    split
    · exact .tail hpublished (.aged _ _ _)
    · exact hpublished

theorem changes_resetSessions
    (h : s.resetSessions publicationId now = .ok (r, t)) : Changes G s t := by
  unfold resetSessions at h
  split at h
  · cases h
  next row hrow =>
  split at h
  · cases h
  obtain ⟨-, rfl⟩ := ok_pair_inj h
  refine .tail (Change.published _ ?_).changes (.aged _ _ _)
  intro q hq
  rw [show s.publications.get? row.publicationId = some row from
    Table.get?_of_mem (Table.get?_mem hrow)] at hq
  obtain rfl := Option.some.inj hq
  exact .inl rfl

theorem changes_requestDelete (h : s.requestDelete publicationId = .ok (r, t)) : Changes G s t := by
  unfold requestDelete at h
  split at h
  · cases h
  next row hrow =>
  split at h
  · obtain ⟨-, rfl⟩ := ok_pair_inj h
    exact .refl
  · obtain ⟨-, rfl⟩ := ok_pair_inj h
    refine (Change.published _ ?_).changes
    intro q hq
    rw [show s.publications.get? row.publicationId = some row from
      Table.get?_of_mem (Table.get?_mem hrow)] at hq
    obtain rfl := Option.some.inj hq
    exact .inl rfl

theorem changes_createKey {keyId : String}
    (h : s.createKey keyId publicationId = .ok (r, t)) : Changes G s t := by
  unfold createKey at h
  split at h
  · cases h
  split at h
  · cases h
  obtain ⟨-, rfl⟩ := ok_pair_inj h
  exact (Change.keyed _).changes

theorem validateNamespace_ok {ns : Namespace}
    (h : s.validateNamespace ns = .ok p) :
    s.publications.get? ns.publicationId = some p ∧ p.apiGeneration = ns.apiGeneration := by
  unfold validateNamespace at h
  split at h
  · next row key hrow hkey =>
    split at h
    · cases h
    split at h
    · cases h
    split at h
    · cases h
    next hgeneration =>
    split at h
    · cases h
    split at h
    · cases h
    obtain rfl := Except.ok.inj h
    exact ⟨hrow, not_not.mp hgeneration⟩
  · cases h

theorem create_ok {a : CreateArgs} (h : s.create a now = .ok (x, t)) :
    ∃ p sessions, s.publications.get? a.ns.publicationId = some p ∧
      (s.sessions.count (retained a.ns.publicationId a.ns.keyId now) : Int) <
        p.apiMaxSessionsPerKey ∧
      x.ns = a.ns ∧ x.state = .idle ∧ x.itemCount = a.itemCount ∧
      s.sessions.insert? x = some sessions ∧ t = { s with sessions } := by
  unfold create at h
  split at h
  · cases h
  split at h
  · cases h
  obtain ⟨p, hp, h⟩ := bind_ok h
  obtain ⟨hp, -⟩ := validateNamespace_ok hp
  dsimp only at h
  split at h
  · cases h
  next hquota =>
  split at h
  · cases h
  split at h
  · cases h
  next sessions hins =>
  obtain ⟨rfl, rfl⟩ := ok_pair_inj h
  exact ⟨p, sessions, hp, lt_of_not_ge fun hle => hquota (.inr hle), rfl, rfl, rfl, hins, rfl⟩

theorem changes_create {a : CreateArgs}
    (h : s.create a now = .ok (x, t)) (hok : G s ⟨.create a, now⟩) (hclock : now ≤ s.clock) :
    Changes G s t := by
  obtain ⟨p, sessions, hp, hquota, hns, hstate, hcount, hins, rfl⟩ := create_ok h
  exact (Change.created a x now p sessions hok hclock hns hstate hcount hp hquota hins).changes

theorem unstarted_spec (h : unstarted sessionId s x = true) :
    x.state = .idle ∧ ∀ r ∈ s.runs, r.sessionId ≠ x.sessionId := by
  simp only [unstarted, Bool.decide_and, Bool.and_eq_true, decide_eq_true_eq,
    List.all_eq_true] at h
  obtain ⟨rfl, hidle, hruns⟩ := h
  exact ⟨hidle, hruns⟩

theorem changes_discardEmpty {r : Bool}
    (h : s.discardEmpty sessionId = .ok (r, t)) : Changes G s t := by
  obtain ⟨-, rfl⟩ := ok_pair_inj h
  exact (Change.dropped _ fun x _ hp => .inr (unstarted_spec hp)).changes

theorem changes_quarantineUnstarted {r : Bool}
    (h : s.quarantineUnstarted sessionId now = .ok (r, t)) : Changes G s t := by
  obtain ⟨-, rfl⟩ := ok_pair_inj h
  refine (Change.closed _ .quarantined _ ?_ (by decide)).changes
  intro x _ hp
  rw [(unstarted_spec hp).1]
  decide

theorem changes_claimSweep {limit : Nat} {rows : List Session}
    (h : s.claimSweep now limit = .ok (rows, t)) : Changes G s t := by
  unfold claimSweep at h
  split at h
  · cases h
  obtain ⟨rfl, rfl⟩ := ok_pair_inj h
  -- one change for each claimed row
  have hfold : ∀ (rows : List Session) (s : State), Changes G s (rows.foldl (fun s row =>
      s.closeSessions (fun x => x.sessionId = row.sessionId ∧ x.state ∈ [.idle, .quarantined])
        .expired id) s) := by
    intro rows
    induction rows with
    | nil => exact fun s => .refl
    | cons row rows ih =>
      intro s
      refine .head (.closed _ .expired id ?_ (by decide)) (ih _)
      intro x _ hp
      simp only [decide_eq_true_eq] at hp
      rcases List.mem_cons.mp hp.2 with hstate | hstate
      · simp [hstate]
      · simp [List.mem_singleton.mp hstate]
  exact hfold _ s

theorem changes_finishSweep {removed : Bool}
    (h : s.finishSweep sessionId removed now = .ok (r, t)) : Changes G s t := by
  obtain ⟨-, rfl⟩ := ok_pair_inj h
  split
  · refine (Change.dropped _ ?_).changes
    intro x _ hp
    simp only [decide_eq_true_eq] at hp
    exact .inl hp.2
  · refine (Change.closed _ .quarantined _ ?_ (by decide)).changes
    intro x _ hp
    simp only [decide_eq_true_eq] at hp
    simp [hp.2]

/-! ## Runs -/

theorem changes_findActive {key : AdmissionKey} {r : Option (Session × Run)}
    (h : s.findActive key now = .ok (r, t)) (hclock : now ≤ s.clock) : Changes G s t := by
  obtain ⟨-, rfl⟩ := ok_pair_inj h
  exact (Change.pruned now hclock).changes

theorem changes_heartbeat {duration : Time} {r : Bool}
    (h : s.heartbeat runId leaseId duration now = .ok (r, t))
    (hok : G s ⟨.heartbeat runId leaseId duration, now⟩) : Changes G s t := by
  obtain ⟨-, rfl⟩ := ok_pair_inj h
  exact (Change.renewed runId leaseId duration now hok).changes

theorem ownsLease_iff {r : Run} :
    ownsLease r x leaseId = true ↔
      r.status = .running ∧ x.state = .running ∧ r.leaseId = leaseId ∧ x.leaseId = leaseId := by
  simp [ownsLease]

/-- What an admission that came through has found and written. -/
theorem reserveRun_ok {a : AcquireArgs} (h : s.reserveRun a x now = .ok (reply, t)) :
    (∃ y r, reply = .attached y r) ∧ t = s ∨
    (s.admissions.get? (a.key x.ns) = none ∧ ∀ r ∈ s.admissions, r.runId ≠ a.runId) ∧
      ((reply = .conflict ∧ ¬ ∃ y ∈ s.sessions, y.sessionId = a.sessionId ∧
          y.state ∈ [.idle, .waitingTool] ∧ y.visibleHeadHash = a.expectedHeadHash ∧
          y.itemCount = a.expectedItemCount) ∨
        reply = .acquired (a.leasedSession now x) (a.run now) ∧
          ∃ runs, s.runs.insert? (a.run now) = some runs ∧ t = s.admittedBy a x now runs) := by
  unfold reserveRun at h
  split at h
  · split at h
    · obtain ⟨rfl, rfl⟩ := ok_pair_inj h
      exact .inl ⟨⟨_, _, rfl⟩, rfl⟩
    · cases h
  next hfree =>
  have hfree : s.admissions.get? (a.key x.ns) = none ∧ ∀ r ∈ s.admissions, r.runId ≠ a.runId := by
    simpa [Table.mem_def] using hfree
  right
  refine ⟨hfree, ?_⟩
  dsimp only at h
  split at h
  · next hconflict =>
    obtain ⟨rfl, -⟩ := ok_pair_inj h
    refine .inl ⟨rfl, ?_⟩
    rintro ⟨y, hy, hmatch⟩
    have hnone := List.all_eq_true.mp hconflict y hy
    simp only [Bool.not_eq_true', decide_eq_false_iff_not] at hnone
    exact hnone hmatch
  split at h
  · cases h
  next runs hruns =>
  obtain ⟨rfl, rfl⟩ := ok_pair_inj h
  exact .inr ⟨rfl, runs, hruns, rfl⟩

/-- Everything `acquire_api_session` can do. -/
theorem acquire_ok {a : AcquireArgs} (h : s.acquire a now = .ok (reply, t)) :
    (∀ y r, reply ≠ .acquired y r) ∧ (t = s ∨ t = s.pruneAdmissions now ∨
      (∃ x, s.sessions.get? a.sessionId = some x ∧ overdue now x ∧ t = s.expireLease a.sessionId) ∨
      t = s.closeSessions (fun y => y.sessionId = a.sessionId ∧ y.state = .idle) .expired id) ∨
    ∃ x runs, (s.pruneAdmissions now).Admissible a x now ∧
      reply = .acquired (a.leasedSession now x) (a.run now) ∧
      s.runs.insert? (a.run now) = some runs ∧
      t = (s.pruneAdmissions now).admittedBy a x now runs := by
  unfold acquire at h
  split at h
  · cases h
  split at h
  · cases h
  split at h
  · obtain ⟨rfl, rfl⟩ := ok_pair_inj h
    exact .inl ⟨by simp, .inl rfl⟩
  next x hx =>
  split at h
  · next hrunning =>
    split at h
    · next hover =>
      obtain ⟨rfl, rfl⟩ := ok_pair_inj h
      exact .inl ⟨by simp, .inr (.inr (.inl ⟨x, hx, by simp [overdue, hrunning, hover], rfl⟩))⟩
    · split at h
      · obtain ⟨rfl, rfl⟩ := ok_pair_inj h
        exact .inl ⟨by simp, .inl rfl⟩
      · obtain ⟨rfl, rfl⟩ := ok_pair_inj h
        exact .inl ⟨by simp, .inl rfl⟩
  split at h
  · obtain ⟨rfl, rfl⟩ := ok_pair_inj h
    exact .inl ⟨by simp, .inl rfl⟩
  next hopen =>
  split at h
  · obtain ⟨rfl, rfl⟩ := ok_pair_inj h
    exact .inl ⟨by simp, .inr (.inr (.inr rfl))⟩
  next hunexpired =>
  split at h
  · obtain ⟨rfl, rfl⟩ := ok_pair_inj h
    exact .inl ⟨by simp, .inl rfl⟩
  next hhead =>
  split at h
  · obtain ⟨rfl, rfl⟩ := ok_pair_inj h
    exact .inl ⟨by simp, .inl rfl⟩
  next hwaiting =>
  obtain ⟨p, hp, h⟩ := bind_ok h
  obtain ⟨hp, hgeneration⟩ := validateNamespace_ok hp
  have hcurrent : s.ofCurrentGeneration x = true := by
    rw [ofCurrentGeneration, hp, Option.any_some, decide_eq_true_eq]
    exact hgeneration
  dsimp only at h
  split at h
  · obtain ⟨rfl, rfl⟩ := ok_pair_inj h
    exact .inl ⟨by simp, .inr (.inl rfl)⟩
  split at h
  · split at h
    · obtain ⟨rfl, rfl⟩ := ok_pair_inj h
      exact .inl ⟨by simp, .inr (.inl rfl)⟩
    · cases h
  next hunused =>
  split at h
  · cases h
  next hquota =>
  obtain ⟨hhash, hcount⟩ : x.visibleHeadHash = a.expectedHeadHash ∧
      x.itemCount = a.expectedItemCount := by
    simpa [not_or] using hhead
  rcases reserveRun_ok h with ⟨⟨y, r, rfl⟩, rfl⟩ | ⟨⟨hfree, hfresh⟩, ⟨-, hnone⟩ | ⟨rfl, runs, hruns, rfl⟩⟩
  · exact .inl ⟨by simp, .inr (.inl rfl)⟩
  · refine absurd ⟨x, Table.get?_mem hx, Table.get?_key hx, not_not.mp hopen, hhash, hcount⟩ hnone
  · have hbelow := lt_of_not_ge fun hle => hquota (.inr hle)
    refine .inr ⟨x, runs, ⟨hx, ?_, hhash, hcount, hfree, hfresh, hunused, hcurrent, p, hp, hbelow⟩,
      rfl, hruns, rfl⟩
    rcases List.mem_cons.mp (not_not.mp hopen) with hidle | hother
    · exact .inl ⟨hidle, lt_of_not_ge fun hle => hunexpired ⟨hidle, hle⟩⟩
    · refine .inr ⟨List.mem_singleton.mp hother, ?_⟩
      by_contra hnone
      exact hwaiting ⟨List.mem_singleton.mp hother, hnone⟩

theorem changes_acquire {a : AcquireArgs}
    (h : s.acquire a now = .ok (reply, t)) (hok : G s ⟨.acquire a, now⟩) (hclock : now ≤ s.clock) :
    Changes G s t := by
  rcases acquire_ok h with ⟨-, rfl | rfl | ⟨x, hx, hover, rfl⟩ | rfl⟩ |
    ⟨x, runs, hadmissible, -, hruns, rfl⟩
  · exact .refl
  · exact (Change.pruned now hclock).changes
  · exact (Change.lapsed a x now hok hx hover).changes
  · refine (Change.closed _ .expired id ?_ (by decide)).changes
    intro x _ hp
    simp only [decide_eq_true_eq] at hp
    simp [hp.2]
  · exact .tail (Change.pruned now hclock).changes
      (.admitted a x now runs hclock ⟨s, hok, rfl⟩ hadmissible hruns)

/-! ## Tool batches and the end of a run -/

theorem parentBatch_spec {r : Run} {b : ToolBatch} (h : s.parentBatch r = some b) :
    b ∈ s.batches ∧ b.sessionId = r.sessionId ∧ b.visibleHeadHash = r.parentHeadHash ∧
      b.itemCount = r.parentItemCount := by
  have hmem := List.mem_of_head? h
  rw [List.mem_insertionSort, List.mem_filter] at hmem
  simpa [Table.mem_def] using hmem

/-- What a settlement that came through has checked and written. -/
theorem settle_ok {idempotent : Bool} {row : ToolBatch}
    (h : s.settle runId leaseId results schema now = .ok ((idempotent, row), t)) :
    ∃ results' r x b, normalizedResults [] results = .ok results' ∧ s.runs.get? runId = some r ∧
      s.sessions.get? r.sessionId = some x ∧ ownsLease r x leaseId ∧ s.parentBatch r = some b ∧
      unknownIds results' (s.callsOf b.batchId) = [] ∧ missingIds results' (s.callsOf b.batchId) = [] ∧
      changedSchema schema (s.callsOf b.batchId) = none ∧
      ((b.state = .settled ∧ b.settledByRunId = runId ∧ idempotent = true ∧ row = b ∧ t = s) ∨
        b.state = .pending ∧ idempotent = false ∧ row = settledBatch runId now b ∧
          t = s.settleBatch b runId results' now) := by
  unfold State.settle at h
  split at h
  · cases h
  obtain ⟨results', hresults, h⟩ := bind_ok h
  split at h
  · cases h
  next r hr =>
  split at h
  · cases h
  next howns =>
  obtain ⟨x, hx, howns⟩ : ∃ x, s.sessions.get? r.sessionId = some x ∧ ownsLease r x leaseId := by
    simpa [Option.any_eq_true] using howns
  split at h
  · cases h
  next b hb =>
  dsimp only at h
  split at h
  · cases h
  · cases h
  · cases h
  next hunknown hmissing hschema =>
  have hunknown : unknownIds results' (s.callsOf b.batchId) = [] := List.head?_eq_none_iff.mp hunknown
  refine ⟨results', r, x, b, hresults, hr, hx, howns, hb, hunknown, hmissing, hschema, ?_⟩
  split at h
  · next hstate =>
    split at h
    · cases h
    next hsame =>
    split at h
    · cases h
    obtain ⟨hreply, rfl⟩ := ok_pair_inj h
    obtain ⟨rfl, rfl⟩ := Prod.mk.inj hreply
    exact .inl ⟨hstate, not_not.mp hsame, rfl, rfl, rfl⟩
  · split at h
    · cases h
    next hpending =>
    obtain ⟨hreply, rfl⟩ := ok_pair_inj h
    obtain ⟨rfl, rfl⟩ := Prod.mk.inj hreply
    exact .inr ⟨not_not.mp hpending, rfl, rfl, rfl⟩

theorem changes_settle {reply : Bool × ToolBatch}
    (h : s.settle runId leaseId results schema now = .ok (reply, t)) : Changes G s t := by
  obtain ⟨results', r, x, b, -, hr, -, howns, hb, -, -, -, hcases⟩ := settle_ok h
  obtain ⟨hmem, hsession, -, -⟩ := parentBatch_spec hb
  obtain rfl := Table.get?_key hr
  rcases hcases with ⟨-, -, -, -, rfl⟩ | ⟨hpending, -, -, rfl⟩
  · exact .refl
  · exact (Change.settled b r results' now hr (ownsLease_iff.mp howns).1 hmem hpending
      hsession).changes

theorem fail_ok {reply : Bool}
    (h : s.fail runId leaseId errorCode canceled now = .ok (reply, t)) :
    ∃ r, s.runs.get? runId = some r ∧
      ((reply = false ∧ t = s) ∨ reply = true ∧ ∃ x, s.sessions.get? r.sessionId = some x ∧
        ownsLease r x leaseId ∧
        t = s.failLease r (if canceled then .canceled else .failed) now) := by
  unfold fail at h
  dsimp only at h
  generalize (if canceled then RunStatus.canceled else .failed) = status at h ⊢
  split at h
  · cases h
  split at h
  · cases h
  next r hr =>
  refine ⟨r, hr, ?_⟩
  split at h
  · obtain ⟨rfl, rfl⟩ := ok_pair_inj h
    exact .inl ⟨rfl, rfl⟩
  split at h
  · cases h
  next howns =>
  obtain ⟨x, hx, howns⟩ : ∃ x, s.sessions.get? r.sessionId = some x ∧ ownsLease r x leaseId := by
    simpa [Option.any_eq_true] using howns
  obtain ⟨rfl, rfl⟩ := ok_pair_inj h
  exact .inr ⟨rfl, x, hx, howns, rfl⟩

theorem changes_fail
    {reply : Bool} (h : s.fail runId leaseId errorCode canceled now = .ok (reply, t)) :
    Changes G s t := by
  obtain ⟨r, hr, ⟨-, rfl⟩ | ⟨-, x, hx, howns, rfl⟩⟩ := fail_ok h
  · exact .refl
  · obtain rfl := Table.get?_key hr
    obtain ⟨hstatus, hstate, hlease, hlease'⟩ := ownsLease_iff.mp howns
    refine (Change.failed r x _ now hr hx (ownsLease_iff.mpr ⟨hstatus, hstate, rfl, ?_⟩) ?_).changes
    · exact hlease'.trans hlease.symm
    · cases canceled with
      | true => exact .inr rfl
      | false => exact .inl rfl

theorem get?_abandonSession {id : String} (hne : x.sessionId ≠ sessionId)
    (hx : s.sessions.get? id = some x) : (s.abandonSession sessionId).sessions.get? id = some x := by
  refine (s.sessions.get?_update _ _ quarantinedSession_sessionId id).trans ?_
  rw [hx, Option.map_some, if_neg (by simp [hne])]

theorem changes_abandonExpired {n : Nat} (h : s.abandonExpired now = .ok (n, t)) :
    Changes G s t := by
  obtain ⟨-, rfl⟩ := ok_pair_inj h
  -- the sessions still to come are the ones that were selected
  have hfold : ∀ (xs : List Session) (s : State), (xs.map Session.sessionId).Nodup →
      (∀ x ∈ xs, s.sessions.get? x.sessionId = some x ∧ x.state = .running) →
      Changes G s (xs.foldl (fun s x => s.abandonSession x.sessionId) s) := by
    intro xs
    induction xs with
    | nil => exact fun s _ _ => .refl
    | cons x xs ih =>
      intro s hnodup hxs
      obtain ⟨hx, hrunning⟩ := hxs x List.mem_cons_self
      rw [List.map_cons, List.nodup_cons] at hnodup
      refine .head (.abandoned x hx hrunning) (ih _ hnodup.2 ?_)
      intro y hy
      obtain ⟨hget, hstate⟩ := hxs y (List.mem_cons_of_mem _ hy)
      refine ⟨get?_abandonSession ?_ hget, hstate⟩
      intro heq
      exact hnodup.1 (heq ▸ List.mem_map_of_mem hy)
  apply hfold
  · exact s.sessions.unique.sublist (List.filter_sublist.map _)
  · intro x hx
    obtain ⟨hmem, hover⟩ := List.mem_filter.mp hx
    simp only [overdue, decide_eq_true_eq] at hover
    exact ⟨Table.get?_of_mem hmem, hover.1⟩

theorem pendingRows_spec {batchId : String} {position : Nat}
    {seen : List String} {calls : List ClientCall}
    (h : pendingRows schema batchId position seen calls = .ok rows) :
    ∀ c ∈ rows, c.batchId = batchId ∧ c.state = .pending ∧ c.resultFingerprint = "" ∧
      c.settledAt = 0 := by
  induction calls generalizing position seen rows with
  | nil =>
    obtain rfl := Except.ok.inj h
    intro c hc
    cases hc
  | cons call calls ih =>
    unfold pendingRows at h
    dsimp only at h
    split at h
    · cases h
    split at h
    · cases h
    split at h
    · cases h
    cases hrest : pendingRows schema batchId (position + 1) (strip call.id :: seen) calls with
    | error e =>
      rw [hrest] at h
      cases h
    | ok rest =>
      rw [hrest] at h
      obtain rfl := Except.ok.inj h
      intro c hc
      rcases List.mem_cons.mp hc with rfl | hc
      · exact ⟨rfl, rfl, rfl, rfl⟩
      · exact ih hrest c hc

theorem insertBatch_ok (h : s.insertBatch a sessionId rows now = .ok t) :
    ∃ batches calls, t = { s with
      batches
      calls } ∧
      (rows = [] ∧ batches = s.batches ∧ calls = s.calls ∨
        rows ≠ [] ∧ s.batches.insert? (a.batch sessionId now) = some batches ∧
          rows.foldlM (fun calls c => calls.insert? c) s.calls = some calls) := by
  unfold insertBatch at h
  split at h
  · next hnil =>
    obtain rfl := Except.ok.inj h
    exact ⟨s.batches, s.calls, rfl, .inl ⟨hnil, rfl, rfl⟩⟩
  next hrows =>
  split at h
  · cases h
  split at h
  · next batches calls hbatches hcalls =>
    obtain rfl := Except.ok.inj h
    exact ⟨batches, calls, rfl, .inr ⟨hrows, hbatches, hcalls⟩⟩
  · cases h

theorem insertResponse_ok {values : Option ResponseValues}
    (h : s.insertResponse a sessionId values = .ok t) : ∃ responses, t = { s with responses } := by
  unfold insertResponse at h
  split at h
  · obtain rfl := Except.ok.inj h
    exact ⟨s.responses, rfl⟩
  · split at h
    · cases h
    split at h
    · cases h
    obtain rfl := Except.ok.inj h
    exact ⟨_, rfl⟩

/-- What a finalization that came through has checked and written. -/
theorem finalize_ok {again : Bool} (h : s.finalize a now = .ok (again, t)) :
    (again = true ∧ t = s) ∨ again = false ∧ ∃ r x rows u responses,
      pendingToolRows a.schema a.batchId a.pendingCalls = .ok rows ∧
      s.runs.get? a.runId = some r ∧ s.sessions.get? r.sessionId = some x ∧
      ownsLease r x a.leaseId ∧ r.parentItemCount ≤ a.itemCount ∧
      (rows ≠ [] → ∀ b ∈ s.batches, b.sessionId = x.sessionId → b.state ≠ .pending) ∧
      s.insertBatch a x.sessionId rows now = .ok u ∧
      t = { u with responses }.publish a x.sessionId (rows ≠ []) (s.nextExpiry x now) := by
  unfold finalize at h
  split at h
  · cases h
  obtain ⟨rows, hrows, h⟩ := bind_ok h
  obtain ⟨values, -, h⟩ := bind_ok h
  split at h
  · cases h
  next r hr =>
  split at h
  · cases h
  next x hx =>
  split at h
  · cases h
  split at h
  · obtain ⟨-, -, h⟩ := bind_ok h
    obtain ⟨rfl, rfl⟩ := ok_pair_inj h
    exact .inl ⟨rfl, rfl⟩
  split at h
  · cases h
  next howns =>
  split at h
  · cases h
  next hcount =>
  split at h
  · cases h
  next hpending =>
  split at h
  · cases h
  obtain ⟨u, hu, h⟩ := bind_ok h
  obtain ⟨v, hv, h⟩ := bind_ok h
  obtain ⟨responses, rfl⟩ := insertResponse_ok hv
  obtain ⟨rfl, rfl⟩ := ok_pair_inj h
  refine .inr ⟨rfl, r, x, rows, u, responses, hrows, hr, hx, not_not.mp howns, not_lt.mp hcount, ?_,
    hu, rfl⟩
  intro hne b hb hsession hstate
  refine hpending ⟨hne, List.any_eq_true.mpr ⟨b, hb, ?_⟩⟩
  simp [hsession, hstate]

theorem changes_finalize {again : Bool}
    (h : s.finalize a now = .ok (again, t)) (hok : G s ⟨.finalize a, now⟩) : Changes G s t := by
  rcases finalize_ok h with ⟨-, rfl⟩ |
    ⟨-, r, x, rows, u, responses, hrows, hr, hx, howns, hcount, hpending, hu, rfl⟩
  · exact .refl
  · have hrows : ∀ c ∈ rows, c.batchId = a.batchId ∧ c.state = .pending ∧
        c.resultFingerprint = "" ∧ c.settledAt = 0 := by
      unfold pendingToolRows at hrows
      split at hrows
      · cases hrows
      · exact pendingRows_spec hrows
    exact (Change.finalized a r x rows now u responses hok hr hx howns hcount hrows hpending
      hu).changes

/-! ## Transactions and runs -/

theorem changes_perform (s : State) (x : Tx) (hok : G (s.tick x.now) x) :
    Changes G s (s.perform x) := by
  obtain ⟨op, now⟩ := x
  have hclock : now ≤ (s.tick now).clock := le_max_right _ _
  refine .trans (Change.ticked now).changes ?_
  unfold perform
  cases op with
  | configure => exact settle_rel .refl fun _ _ h => changes_configure h hok
  | resetSessions => exact settle_rel .refl fun _ _ h => changes_resetSessions h
  | requestDelete => exact settle_rel .refl fun _ _ h => changes_requestDelete h
  | createKey => exact settle_rel .refl fun _ _ h => changes_createKey h
  | create => exact settle_rel .refl fun _ _ h => changes_create h hok hclock
  | discardEmpty => exact settle_rel .refl fun _ _ h => changes_discardEmpty h
  | quarantineUnstarted => exact settle_rel .refl fun _ _ h => changes_quarantineUnstarted h
  | findActive => exact settle_rel .refl fun _ _ h => changes_findActive h hclock
  | acquire => exact settle_rel .refl fun _ _ h => changes_acquire h hok hclock
  | heartbeat => exact settle_rel .refl fun _ _ h => changes_heartbeat h hok
  | settle => exact settle_rel .refl fun _ _ h => changes_settle h
  | finalize => exact settle_rel .refl fun _ _ h => changes_finalize h hok
  | fail => exact settle_rel .refl fun _ _ h => changes_fail h
  | abandonExpired => exact settle_rel .refl fun _ _ h => changes_abandonExpired h
  | claimSweep => exact settle_rel .refl fun _ _ h => changes_claimSweep h
  | finishSweep => exact settle_rel .refl fun _ _ h => changes_finishSweep h

theorem changes_of_runs (h : Runs step (fun s x => G (s.tick x.now) x) s t) : Changes G s t := by
  refine h.changes ?_
  intro u x v hok hstep
  obtain rfl := Option.some.inj hstep
  exact changes_perform u x hok

theorem changes_of_reach (h : Reach step s t) : Changes (fun _ _ => True) s t := changes_of_runs h

end State

end PawFlow.StandardApi
