import PawFlow.StandardApi.Batches

/-!
# The quotas of a key

A key may have so many sessions and so many concurrent runs. Both quotas are checked by a
count, when a session is created and when a run is admitted, and what happens to the counted
rows afterwards decides whether they hold. `Counted` excludes the two transactions that get
past the counts: a creation while a session that still waits for tool results is past its
`expires_at`, and a heartbeat of a lease that has expired.
-/

namespace PawFlow.StandardApi

open PawFlow.Lib

namespace State

def waits (s : State) (sessionId : String) : Bool :=
  s.batches.rows.any fun b => b.sessionId = sessionId ∧ b.state = .pending

/-- The session is running, or could still be acquired. -/
def live (s : State) (now : Time) (x : Session) : Bool :=
  x.state = .running ∨ x.state = .idle ∧ now < x.expiresAt ∨
    x.state = .waitingTool ∧ s.waits x.sessionId

def ofKey (publicationId keyId : String) (x : Session) : Bool :=
  x.ns.publicationId = publicationId ∧ x.ns.keyId = keyId

/-- The sessions of a key that are running or could still be acquired. -/
def usable (s : State) (publicationId keyId : String) (now : Time) (x : Session) : Bool :=
  ofKey publicationId keyId x ∧ s.live now x

structure Bounded (s : State) : Prop where
  published : ∀ x ∈ s.sessions, (s.publications.get? x.ns.publicationId).isSome
  sessions : ∀ p ∈ s.publications, 0 < p.apiMaxSessionsPerKey → ∀ keyId,
    (s.sessions.count (s.usable p.publicationId keyId s.clock) : Int) ≤ p.apiMaxSessionsPerKey
  runs : ∀ p ∈ s.publications, 0 < p.apiMaxConcurrentRunsPerKey → ∀ keyId,
    (s.sessions.count (leased p.publicationId keyId s.clock) : Int) ≤ p.apiMaxConcurrentRunsPerKey

/-- Time does not go back, and the limits of a publication stay. -/
def Orderly (s : State) (x : Tx) : Prop :=
  s.clock ≤ x.now ∧ ∀ p, x.op = .configure p →
    ∀ q, s.publications.get? p.publicationId = some q → limits q = limits p

/-- A creation finds no session of its key waiting beyond `expires_at`, and a heartbeat finds
its lease in time. -/
def Counted (s : State) (x : Tx) : Prop :=
  (∀ a, x.op = .create a → ∀ y ∈ s.sessions, ofKey a.ns.publicationId a.ns.keyId y →
    y.state = .waitingTool → s.waits y.sessionId → x.now < y.expiresAt) ∧
  ∀ runId leaseId duration, x.op = .heartbeat runId leaseId duration →
    ∀ y ∈ s.sessions, y.leaseId = leaseId → y.state = .running → x.now < y.leaseDeadline

def Regular (s : State) (x : Tx) : Prop := s.Orderly x ∧ s.Counted x

theorem Regular.tick {s : State} {x : Tx} (h : s.Regular x) : (s.tick x.now).Regular x := by
  obtain ⟨⟨hclock, hlimits⟩, hcounted⟩ := h
  exact ⟨⟨(max_eq_right hclock).le, hlimits⟩, hcounted⟩

variable {G : State → Tx → Prop} {s t : State}

variable {sessionId : String}

theorem waits_iff :
    s.waits sessionId = true ↔ ∃ b ∈ s.batches, b.sessionId = sessionId ∧ b.state = .pending := by
  simp [waits, Table.mem_def]

variable {now : Time} {x : Session} {f : Session → Session}

theorem live_iff :
    s.live now x = true ↔ x.state = .running ∨ x.state = .idle ∧ now < x.expiresAt ∨
      x.state = .waitingTool ∧ s.waits x.sessionId = true := by
  simp [live]

variable {keyId publicationId : String} {p : Publication}

theorem leased_iff :
    leased publicationId keyId now x = true ↔
      ofKey publicationId keyId x = true ∧ x.state = .running ∧ now < x.leaseDeadline := by
  simp [leased, ofKey, and_assoc]

theorem usable_iff :
    s.usable publicationId keyId now x = true ↔
      ofKey publicationId keyId x = true ∧ s.live now x = true := by
  simp [usable]

/-! ## Sessions that get no more usable -/

/-- A session becomes `x'` and is no more usable than before. -/
structure Fades (s t : State) (x x' : Session) : Prop where
  ns : x'.ns = x.ns
  live : t.live t.clock x' = true → s.live s.clock x = true

/-- Neither is its lease. -/
structure Wanes (s t : State) (x x' : Session) : Prop extends Fades s t x x' where
  lease : x'.state = .running → t.clock < x'.leaseDeadline →
    x.state = .running ∧ s.clock < x.leaseDeadline

theorem ofKey_congr {x' : Session} (h : x'.ns = x.ns) :
    ofKey publicationId keyId x' = ofKey publicationId keyId x := by
  simp only [ofKey, h]

theorem Bounded.faded (h : Bounded s) (hpublications : t.publications = s.publications)
    (hsub : t.sessions.rows.Sublist (s.sessions.rows.map f))
    (hf : ∀ x ∈ s.sessions, Fades s t x (f x))
    (hruns : ∀ p ∈ s.publications, 0 < p.apiMaxConcurrentRunsPerKey → ∀ keyId,
      (t.sessions.count (leased p.publicationId keyId t.clock) : Int) ≤
        p.apiMaxConcurrentRunsPerKey) : Bounded t where
  published := by
    intro x hx
    obtain ⟨y, hy, rfl⟩ := List.mem_map.mp (hsub.subset hx)
    rw [hpublications, (hf y hy).ns]
    exact h.published y hy
  sessions := by
    rw [hpublications]
    intro p hp hpos keyId
    refine le_trans (Int.ofNat_le.mpr (Table.count_le_of_sublist_map hsub ?_))
      (h.sessions p hp hpos keyId)
    intro x hx hcount
    rw [usable_iff, ofKey_congr (hf x hx).ns] at hcount
    exact usable_iff.mpr ⟨hcount.1, (hf x hx).live hcount.2⟩
  runs := by
    rw [hpublications]
    exact hruns

theorem Bounded.waned (h : Bounded s) (hpublications : t.publications = s.publications)
    (hsub : t.sessions.rows.Sublist (s.sessions.rows.map f))
    (hf : ∀ x ∈ s.sessions, Wanes s t x (f x)) : Bounded t := by
  refine h.faded hpublications hsub (fun x hx => (hf x hx).toFades) ?_
  intro p hp hpos keyId
  refine le_trans (Int.ofNat_le.mpr (Table.count_le_of_sublist_map hsub ?_)) (h.runs p hp hpos keyId)
  intro x hx hcount
  rw [leased_iff, ofKey_congr (hf x hx).ns] at hcount
  exact leased_iff.mpr ⟨hcount.1, (hf x hx).lease hcount.2.1 hcount.2.2⟩

theorem Bounded.update (h : Bounded s) (hpublications : t.publications = s.publications)
    {p : Session → Bool} (hf : ∀ x, (f x).sessionId = x.sessionId)
    (hsessions : t.sessions = s.sessions.update p f hf)
    (hchanged : ∀ x ∈ s.sessions, p x = true → Wanes s t x (f x))
    (hother : ∀ x ∈ s.sessions, p x = false → Wanes s t x x) : Bounded t := by
  refine h.waned (f := fun x => if p x then f x else x) hpublications ?_ ?_
  · rw [hsessions]
    exact List.Sublist.refl _
  · intro x hx
    split
    · next hp => exact hchanged x hx hp
    · next hp => exact hother x hx (by simpa using hp)

theorem wanes_self (hclock : s.clock ≤ t.clock)
    (hwaits : x.state = .waitingTool → t.waits x.sessionId = true → s.waits x.sessionId = true) :
    Wanes s t x x where
  ns := rfl
  live := by
    rw [live_iff, live_iff]
    rintro (hrunning | ⟨hidle, hexpires⟩ | ⟨hwaiting, hbatch⟩)
    · exact .inl hrunning
    · exact .inr (.inl ⟨hidle, hclock.trans_lt hexpires⟩)
    · exact .inr (.inr ⟨hwaiting, hwaits hwaiting hbatch⟩)
  lease := fun hrunning hdeadline => ⟨hrunning, hclock.trans_lt hdeadline⟩

theorem wanes_closed {x' : Session} (hns : x'.ns = x.ns)
    (hstate : x'.state ∈ [SessionState.quarantined, .expired]) : Wanes s t x x' where
  ns := hns
  live := by
    intro hlive
    rcases List.mem_cons.mp hstate with hstate | hstate
    · simp [live_iff, hstate] at hlive
    · simp [live_iff, List.mem_singleton.mp hstate] at hlive
  lease := by
    intro hrunning _
    rcases List.mem_cons.mp hstate with hstate | hstate
    · simp [hstate] at hrunning
    · simp [List.mem_singleton.mp hstate] at hrunning

theorem Bounded.congr (h : Bounded s) (hpublications : t.publications = s.publications)
    (hsessions : t.sessions = s.sessions) (hclock : s.clock ≤ t.clock)
    (hwaits : ∀ id, t.waits id = true → s.waits id = true) : Bounded t := by
  refine h.waned (f := id) hpublications ?_ ?_
  · rw [hsessions, List.map_id]
  · intro x _
    exact wanes_self hclock fun _ => hwaits x.sessionId

/-! ## The changes -/

theorem waits_of_update {p : ToolBatch → Bool} {f : ToolBatch → ToolBatch}
    (hf : ∀ b, (f b).batchId = b.batchId) (hbatches : t.batches = s.batches.update p f hf)
    (hopened : ∀ b ∈ s.batches, p b = true → (f b).state = .pending →
      (f b).sessionId ≠ sessionId) (h : t.waits sessionId = true) : s.waits sessionId = true := by
  obtain ⟨b', hb', hsession, hstate⟩ := waits_iff.mp h
  rw [hbatches] at hb'
  obtain ⟨b, hb, rfl⟩ := (Table.mem_update hf).mp hb'
  split at hsession
  · next hp =>
    rw [if_pos hp] at hstate
    exact absurd hsession (hopened b hb hp hstate)
  · next hp =>
    rw [if_neg hp] at hstate
    exact waits_iff.mpr ⟨b, hb, hsession, hstate⟩

theorem Bounded.aged (h : Bounded s) (publicationId : String) (generation : Nat) (now : Time) :
    Bounded (s.expireOldGenerations publicationId generation now) := by
  have hwaits : ∀ id, (s.expireOldGenerations publicationId generation now).waits id = true →
      s.waits id = true := by
    intro id
    refine waits_of_update (canceledBatch_batchId now) rfl ?_
    intro b _ _ hstate
    cases hstate
  refine h.update rfl (agedSession_sessionId now) rfl ?_ ?_
  · intro x _ hp
    simp only [decide_eq_true_eq] at hp
    refine ⟨⟨rfl, ?_⟩, ?_⟩
    · intro hlive
      rcases live_iff.mp hlive with hrunning | ⟨hidle, hexpires⟩ | ⟨hwaiting, -⟩
      · -- a running session is not aged
        have hstate := hp.2.2
        simp only [agedSession] at hrunning
        split at hrunning
        · cases hrunning
        · simp [hrunning] at hstate
      · simp only [agedSession] at hidle
        split at hidle
        · cases hidle
        · exact live_iff.mpr (.inr (.inl ⟨hidle, lt_of_lt_of_le hexpires (min_le_left _ _)⟩))
      · simp only [agedSession] at hwaiting
        split at hwaiting
        · cases hwaiting
        · next hne => exact absurd hwaiting hne
    · intro hrunning _
      have hstate := hp.2.2
      simp only [agedSession] at hrunning
      split at hrunning
      · cases hrunning
      · simp [hrunning] at hstate
  · intro x _ _
    exact wanes_self (le_refl _) fun _ => hwaits x.sessionId

/-- A count of sessions that held for each publication still does when one is replaced under
the same limit. -/
theorem count_upsert {limit : Publication → Int} {q : String → String → Session → Bool}
    (hq : ∀ publicationId keyId x, q publicationId keyId x = true → ofKey publicationId keyId x)
    (hpublished : ∀ x ∈ s.sessions, (s.publications.get? x.ns.publicationId).isSome)
    (hlimit : ∀ p', s.publications.get? p.publicationId = some p' → limit p' = limit p)
    (h : ∀ p' ∈ s.publications, 0 < limit p' → ∀ keyId,
      (s.sessions.count (q p'.publicationId keyId) : Int) ≤ limit p') :
    ∀ p' ∈ s.publications.upsert p, 0 < limit p' → ∀ keyId,
      (s.sessions.count (q p'.publicationId keyId) : Int) ≤ limit p' := by
  intro p' hp' hpos keyId
  have hp' := Table.get?_of_mem hp'
  rw [Table.get?_upsert] at hp'
  split at hp'
  · obtain rfl := Option.some.inj hp'
    cases hold : s.publications.get? p.publicationId with
    | none =>
      -- a publication without a predecessor has no sessions
      have hzero : s.sessions.count (q p.publicationId keyId) = 0 := by
        refine List.countP_eq_zero.mpr ?_
        intro x hx hcount
        have hid := hq _ _ x hcount
        simp only [ofKey, decide_eq_true_eq] at hid
        have hsome := hpublished x hx
        rw [hid.1, hold] at hsome
        cases hsome
      exact le_trans (Int.ofNat_le.mpr hzero.le) hpos.le
    | some p' =>
      have hle := hlimit p' hold
      have hbound := h p' (Table.get?_mem hold) (hle ▸ hpos) keyId
      rw [hle, Table.get?_key hold] at hbound
      exact hbound
  · exact h p' (Table.get?_mem hp') hpos keyId

theorem Bounded.upserted (h : Bounded s)
    (hlimits : ∀ q, s.publications.get? p.publicationId = some q → limits q = limits p) :
    Bounded { s with publications := s.publications.upsert p } where
  published := by
    intro x hx
    refine (congrArg Option.isSome (s.publications.get?_upsert p _)).trans ?_
    split
    · rfl
    · exact h.published x hx
  sessions := count_upsert (fun _ _ _ hx => (usable_iff.mp hx).1) h.published
    (fun q hq => (Prod.mk.inj (hlimits q hq)).1) h.sessions
  runs := count_upsert (fun _ _ _ hx => (leased_iff.mp hx).1) h.published
    (fun q hq => (Prod.mk.inj (hlimits q hq)).2) h.runs

/-- A creation that found fewer retained sessions than the quota allows, all of which are the
live ones. -/
theorem Bounded.created (h : Bounded s) {a : CreateArgs}
    {sessions : Table String Session Session.sessionId}
    (hguard : s.Regular ⟨.create a, now⟩) (hclock : now ≤ s.clock) (hns : x.ns = a.ns)
    (hstate : x.state = .idle) (hp : s.publications.get? a.ns.publicationId = some p)
    (hquota : (s.sessions.count (retained a.ns.publicationId a.ns.keyId now) : Int) <
      p.apiMaxSessionsPerKey) (hins : s.sessions.insert? x = some sessions) :
    Bounded { s with sessions } := by
  obtain ⟨⟨hnow, -⟩, hwaiting, -⟩ := hguard
  obtain rfl : now = s.clock := le_antisymm hclock hnow
  have hrows : sessions.rows = s.sessions.rows ++ [x] := Table.insert?_rows hins
  have hretained : s.sessions.count (s.usable a.ns.publicationId a.ns.keyId s.clock) ≤
      s.sessions.count (retained a.ns.publicationId a.ns.keyId s.clock) := by
    refine List.countP_mono_left ?_
    intro y hy husable
    obtain ⟨hkey, hlive⟩ := usable_iff.mp husable
    have hkey' := hkey
    simp only [ofKey, decide_eq_true_eq] at hkey'
    simp only [retained, decide_eq_true_eq]
    refine ⟨hkey'.1, hkey'.2, ?_⟩
    rcases live_iff.mp hlive with hrunning | ⟨hidle, hexpires⟩ | ⟨hwait, hbatch⟩
    · exact ⟨by simp [hrunning], .inl hrunning⟩
    · exact ⟨by simp [hidle], .inr hexpires⟩
    · exact ⟨by simp [hwait], .inr (hwaiting a rfl y hy hkey hwait hbatch)⟩
  constructor
  · intro y hy
    rcases (Table.mem_insert? hins).mp hy with hy | rfl
    · exact h.published y hy
    · rw [hns]
      exact Option.isSome_iff_exists.mpr ⟨p, hp⟩
  · intro p' hp' hpos keyId
    have hbound := h.sessions p' hp' hpos keyId
    have hsplit : sessions.count (s.usable p'.publicationId keyId s.clock) =
        s.sessions.count (s.usable p'.publicationId keyId s.clock) +
          if s.usable p'.publicationId keyId s.clock x then 1 else 0 := by
      rw [Table.count, hrows, List.countP_append, List.countP_singleton]
      rfl
    change (sessions.count (s.usable p'.publicationId keyId s.clock) : Int) ≤ _
    rw [hsplit]
    split
    · next husable =>
      have hkey := (usable_iff.mp husable).1
      simp only [ofKey, hns, decide_eq_true_eq] at hkey
      obtain ⟨hid, rfl⟩ := hkey
      rw [hid, Table.get?_of_mem hp'] at hp
      obtain rfl := Option.some.inj hp
      rw [← hid]
      push_cast
      have : (s.sessions.count (s.usable a.ns.publicationId a.ns.keyId s.clock) : Int) ≤
          s.sessions.count (retained a.ns.publicationId a.ns.keyId s.clock) :=
        Int.ofNat_le.mpr hretained
      exact Int.add_one_le_iff.mpr (lt_of_le_of_lt this hquota)
    · simpa using hbound
  · intro p' hp' hpos keyId
    have hsplit : sessions.count (leased p'.publicationId keyId s.clock) =
        s.sessions.count (leased p'.publicationId keyId s.clock) := by
      rw [Table.count, hrows, List.countP_append, List.countP_singleton]
      simp [leased, hstate, Table.count]
    change (sessions.count (leased p'.publicationId keyId s.clock) : Int) ≤ _
    rw [hsplit]
    exact h.runs p' hp' hpos keyId

theorem Bounded.dropped (h : Bounded s) (p : Session → Bool) : Bounded (s.dropSessions p) := by
  refine h.waned (f := id) rfl ?_ ?_
  · rw [List.map_id]
    exact List.filter_sublist
  · intro x _
    refine wanes_self (le_refl _) fun _ hwaits => ?_
    obtain ⟨b, hb, hsession, hstate⟩ := waits_iff.mp hwaits
    exact waits_iff.mpr ⟨b, (Table.mem_delete.mp hb).1, hsession, hstate⟩

theorem Bounded.closed (h : Bounded s) (p : Session → Bool) {state : SessionState}
    (expires : Time → Time) (hstate : state ∈ [SessionState.quarantined, .expired]) :
    Bounded (s.closeSessions p state expires) := by
  refine h.update rfl (closedSession_sessionId state expires) rfl ?_ ?_
  · intro x _ _
    exact wanes_closed rfl hstate
  · intro x _ _
    exact wanes_self (le_refl _) fun _ => id

/-- An admission that found fewer leases than the quota allows, on a session that was live. -/
theorem Bounded.admitted (h : Bounded s) {a : AcquireArgs}
    (hnow : now = s.clock) (hadmissible : s.Admissible a x now)
    (runs : Table String Run Run.runId) : Bounded (s.admittedBy a x now runs) := by
  subst hnow
  have hx : ∀ y ∈ s.sessions, y.sessionId = a.sessionId → y = x := by
    intro y hy hid
    have hfound := hadmissible.found
    rw [← hid, Table.get?_of_mem hy] at hfound
    exact Option.some.inj hfound
  have hlive : s.live s.clock x = true := by
    rcases hadmissible.state with ⟨hidle, hexpires⟩ | ⟨hwaiting, hbatch⟩
    · exact live_iff.mpr (.inr (.inl ⟨hidle, hexpires⟩))
    · refine live_iff.mpr (.inr (.inr ⟨hwaiting, ?_⟩))
      obtain ⟨b, hb, hpending⟩ := List.any_eq_true.mp hbatch
      simp only [decide_eq_true_eq] at hpending
      exact waits_iff.mpr ⟨b, hb, hpending.1.trans (Table.get?_key hadmissible.found).symm,
        hpending.2.2.2⟩
  refine h.faded (f := fun y => if y.sessionId = a.sessionId ∧ y.state ∈ [.idle, .waitingTool] ∧
    y.visibleHeadHash = a.expectedHeadHash ∧ y.itemCount = a.expectedItemCount then
      a.leasedSession s.clock y else y) rfl ?_ ?_ ?_
  · simp [admittedBy, Table.update]
  · intro y hy
    split
    · next hfree =>
      refine ⟨rfl, fun _ => ?_⟩
      rw [hx y hy hfree.1]
      exact hlive
    · exact (wanes_self (t := s.admittedBy a x s.clock runs) (le_refl s.clock) fun _ => id).toFades
  · intro p hp hpos keyId
    by_cases hkey : ofKey p.publicationId keyId x = true
    · -- the count the admission has made, and one more
      obtain ⟨p', hp', hquota⟩ := hadmissible.quota
      simp only [ofKey, decide_eq_true_eq] at hkey
      obtain ⟨hid, rfl⟩ := hkey
      rw [hid, Table.get?_of_mem hp] at hp'
      obtain rfl := Option.some.inj hp'
      rw [hid] at hquota
      refine le_trans (Int.ofNat_le.mpr (s.sessions.count_update_le
        (a.leasedSession_sessionId s.clock) (k := a.sessionId) ?_ _)) ?_
      · intro y hy
        simp only [decide_eq_true_eq] at hy
        exact hy.1
      · push_cast
        exact Int.add_one_le_iff.mpr hquota
    · refine le_trans (Int.ofNat_le.mpr (Table.count_le_of_sublist_map (List.Sublist.refl _) ?_))
        (h.runs p hp hpos keyId)
      intro y hy hcount
      split at hcount
      · next hfree =>
        simp only [decide_eq_true_eq] at hfree
        have hother := (leased_iff.mp hcount).1
        rw [ofKey_congr (show (a.leasedSession s.clock y).ns = y.ns from rfl),
          hx y hy hfree.1] at hother
        exact absurd hother hkey
      · exact hcount

theorem Bounded.renewed (h : Bounded s) {runId leaseId : String} {duration : Time}
    (hguard : s.Regular ⟨.heartbeat runId leaseId duration, now⟩) :
    Bounded { s with
      sessions := s.sessions.update (fun x => x.leaseId = leaseId ∧ x.state = .running)
        (renewedSession (now + duration)) (renewedSession_sessionId (now + duration)) } := by
  obtain ⟨⟨hclock, -⟩, -, hlease⟩ := hguard
  refine h.update rfl (renewedSession_sessionId (now + duration)) rfl ?_ ?_
  · intro x hx hp
    simp only [decide_eq_true_eq] at hp
    refine ⟨⟨rfl, fun _ => live_iff.mpr (.inl hp.2)⟩, fun _ _ => ⟨hp.2, ?_⟩⟩
    exact lt_of_le_of_lt hclock (hlease runId leaseId duration rfl x hx hp.1 hp.2)
  · intro x _ _
    exact wanes_self (le_refl _) fun _ => id

theorem Bounded.settled (h : Bounded s) (b : ToolBatch) (runId : String)
    (results : List (String × String)) (now : Time) :
    Bounded (s.settleBatch b runId results now) := by
  refine h.congr rfl rfl (le_refl _) ?_
  intro id
  refine waits_of_update (settledBatch_batchId runId now) rfl ?_
  intro b _ _ hstate
  cases hstate

theorem Bounded.ended (h : Bounded s) (hbatched : Batched s) (sessionId : String)
    (q : String → Bool) {p : Session → Bool} (hf : ∀ x, (f x).sessionId = x.sessionId)
    (hpublications : t.publications = s.publications) (hclock : t.clock = s.clock)
    (hsessions : t.sessions = s.sessions.update p f hf)
    (hbatches : t.batches = (s.reopenBatches q).batches)
    (hq : ∀ id r, s.runs.get? id = some r → q id = true → r.sessionId = sessionId)
    (hp : ∀ x ∈ s.sessions, x.sessionId = sessionId → p x = true)
    (hstate : ∀ x, (f x).ns = x.ns ∧ (f x).state = .quarantined) : Bounded t := by
  refine h.update hpublications hf hsessions ?_ ?_
  · intro x _ _
    exact wanes_closed (hstate x).1 (by simp [(hstate x).2])
  · intro x hx hother
    refine wanes_self hclock.ge fun _ => ?_
    refine waits_of_update reopenedBatch_batchId hbatches ?_
    intro b hb hreopened _ hsession
    simp only [Bool.decide_and, Bool.and_eq_true, decide_eq_true_eq] at hreopened
    obtain ⟨r, hr, hid⟩ := hbatched.settler b hb hreopened.1
    have hsame : x.sessionId = sessionId := by
      rw [← hq _ r hr hreopened.2, hid]
      exact hsession.symm
    rw [hp x hx hsame] at hother
    cases hother

theorem Bounded.finalized (h : Bounded s) {a : FinalizeArgs} {r : Run}
    {rows : List ToolCall} {expiresAt : Time} {u : State} {waits : Bool}
    (responses : Table String Response Response.responseId)
    (hx : s.sessions.get? r.sessionId = some x) (howns : ownsLease r x a.leaseId)
    (hu : s.insertBatch a x.sessionId rows now = .ok u) :
    Bounded ({ u with responses }.publish a x.sessionId waits expiresAt) := by
  obtain ⟨batches, calls, rfl, hcases⟩ := insertBatch_ok hu
  have hlive : s.live s.clock x = true := live_iff.mpr (.inl (ownsLease_iff.mp howns).2.1)
  have hself : ∀ y ∈ s.sessions, y.sessionId = x.sessionId → y = x := by
    intro y hy hid
    exact Table.eq_of_key hy (Table.get?_mem hx) hid
  refine h.update rfl (a.publishedSession_sessionId waits expiresAt) rfl ?_ ?_
  · intro y hy hp
    simp only [decide_eq_true_eq] at hp
    obtain rfl := hself y hy hp.1
    refine ⟨⟨rfl, fun _ => hlive⟩, ?_⟩
    intro hrunning
    simp only [FinalizeArgs.publishedSession] at hrunning
    split at hrunning <;> cases hrunning
  · intro y hy hp
    by_cases hid : y.sessionId = x.sessionId
    · obtain rfl := hself y hy hid
      exact absurd ⟨rfl, (ownsLease_iff.mp howns).2.2.2⟩ (of_decide_eq_false hp)
    · refine wanes_self (le_refl s.clock) fun _ hwaits => ?_
      obtain ⟨b, hb, hsession, hstate⟩ := waits_iff.mp hwaits
      rcases hcases with ⟨-, rfl, -⟩ | ⟨-, hins, -⟩
      · exact waits_iff.mpr ⟨b, hb, hsession, hstate⟩
      · rcases (Table.mem_insert? hins).mp hb with hb | rfl
        · exact waits_iff.mpr ⟨b, hb, hsession, hstate⟩
        · exact absurd hsession.symm hid

theorem Bounded.change (h : Bounded s) (hbatched : Batched s)
    (hc : Change Regular s t) : Bounded t := by
  cases hc with
  | ticked now => exact h.congr rfl rfl (le_max_left _ _) fun _ => id
  | published p hlimits =>
    refine h.upserted ?_
    intro q hq
    rcases hlimits q hq with hsame | ⟨p', now, hguard, hid, hsame⟩
    · exact hsame
    · exact (hguard.1.2 p' rfl q (hid ▸ hq)).trans hsame
  | keyed keys => exact h.congr rfl rfl (le_refl _) fun _ => id
  | aged publicationId generation now => exact h.aged publicationId generation now
  | created a x now p sessions hguard hclock hns hstate _ hp hquota hins =>
    exact h.created hguard hclock hns hstate hp hquota hins
  | dropped p _ => exact h.dropped p
  | closed p state expires _ hstate => exact h.closed p expires hstate
  | pruned now _ => exact h.congr rfl rfl (le_refl _) fun _ => id
  | admitted a x now runs hclock hguard hadmissible _ =>
    obtain ⟨u, ⟨⟨hnow, -⟩, -⟩, hu⟩ := hguard
    exact h.admitted (le_antisymm hclock (hu ▸ hnow)) hadmissible runs
  | renewed runId leaseId duration now hguard => exact h.renewed hguard
  | settled b r results now _ _ _ _ _ => exact h.settled b r.runId results now
  | finalized a r x rows now u responses _ hr hx howns _ _ _ hu =>
    exact h.finalized responses hx howns hu
  | failed r x status now hr hx howns _ =>
    refine h.ended hbatched r.sessionId (fun id => id = r.runId) (failedSession_sessionId now) rfl
      rfl rfl rfl ?_ ?_ fun _ => ⟨rfl, rfl⟩
    · intro id r' hr' hid
      rw [of_decide_eq_true hid, hr] at hr'
      obtain rfl := Option.some.inj hr'
      rfl
    · intro y hy hid
      obtain rfl := Table.eq_of_key hy (Table.get?_mem hx) (hid.trans (Table.get?_key hx).symm)
      exact decide_eq_true ⟨hid, (ownsLease_iff.mp howns).2.2.2⟩
  | lapsed a x now _ hx _ =>
    refine h.update rfl quarantinedSession_sessionId rfl ?_ ?_
    · intro y _ _
      exact wanes_closed rfl (by simp [quarantinedSession])
    · intro y _ _
      exact wanes_self (le_refl s.clock) fun _ => id
  | abandoned x hx hstate =>
    refine h.ended hbatched x.sessionId (s.runningIn x.sessionId) quarantinedSession_sessionId rfl
      rfl rfl rfl ?_ ?_ fun _ => ⟨rfl, rfl⟩
    · intro id r hr hid
      rw [runningIn, hr, Option.any_some, decide_eq_true_eq] at hid
      exact hid.1
    · intro y hy hid
      obtain rfl := Table.eq_of_key hy (Table.get?_mem hx) hid
      exact decide_eq_true ⟨rfl, hstate⟩

theorem bounded_init : Bounded init := by
  constructor
  · intro x hx
    exact absurd hx (Table.not_mem_empty x)
  · intro p hp
    exact absurd hp (Table.not_mem_empty p)
  · intro p hp
    exact absurd hp (Table.not_mem_empty p)

theorem bounded_of_runs (hs : Runs step Regular init s) : Bounded s := by
  have hchanges : Changes Regular init s := changes_of_runs (hs.mono fun _ _ => Regular.tick)
  refine (changes_invariant (fun s => Leased s ∧ Batched s ∧ Bounded s) ?_ hchanges
    ⟨leased_init, batched_init, bounded_init⟩).2.2
  rintro t u ⟨hleased, hbatched, h⟩ hc
  exact ⟨hleased.change hc, hbatched.change hleased hc, h.change hbatched hc⟩

/-- **Quotas.** In a run of regular transactions, and from each state until the next one, a key
has no more sessions that are running or could be acquired, and no more leases, than its
publication allows. -/
theorem quotas_hold (hs : Runs step Regular init s) :
    ∀ p ∈ s.publications, ∀ keyId now, s.clock ≤ now →
      (0 < p.apiMaxSessionsPerKey →
        (s.sessions.count (s.usable p.publicationId keyId now) : Int) ≤ p.apiMaxSessionsPerKey) ∧
      (0 < p.apiMaxConcurrentRunsPerKey →
        (s.sessions.count (leased p.publicationId keyId now) : Int) ≤
          p.apiMaxConcurrentRunsPerKey) := by
  intro p hp keyId now hnow
  -- nothing but time has passed since the last transaction
  have h : Bounded (s.tick now) :=
    (bounded_of_runs hs).congr rfl rfl (le_max_left _ _) fun _ => id
  have hclock : (s.tick now).clock = now := max_eq_right hnow
  have hsessions := h.sessions p hp
  have hruns := h.runs p hp
  rw [hclock] at hsessions hruns
  exact ⟨fun hpos => hsessions hpos keyId, fun hpos => hruns hpos keyId⟩

/-- `Orderly` as it is evaluated along a sample run. -/
def orderlyCheck (s : State) (x : Tx) : Bool :=
  s.clock ≤ x.now && match x.op with
  | .configure p => (s.publications.get? p.publicationId).all fun q => limits q = limits p
  | _ => true

theorem orderly_of_check {x : Tx} (h : orderlyCheck s x = true) : Orderly s x := by
  simp only [orderlyCheck, Bool.and_eq_true, decide_eq_true_eq] at h
  refine ⟨h.1, ?_⟩
  intro p hp q hq
  have hlimits := h.2
  simpa [hp, hq] using hlimits

/-- `Counted` as it is evaluated along a sample run. -/
def countedCheck (s : State) (x : Tx) : Bool :=
  match x.op with
  | .create a => s.sessions.rows.all fun y => !ofKey a.ns.publicationId a.ns.keyId y ||
      !decide (y.state = .waitingTool) || !s.waits y.sessionId || x.now < y.expiresAt
  | .heartbeat _ leaseId _ => s.sessions.rows.all fun y => !decide (y.leaseId = leaseId) ||
      !decide (y.state = .running) || x.now < y.leaseDeadline
  | _ => true

theorem counted_of_check {x : Tx} (h : countedCheck s x = true) : Counted s x := by
  constructor
  · intro a ha y hy hkey hstate hwaits
    simp only [countedCheck, ha] at h
    simpa [hkey, hstate, hwaits] using List.all_eq_true.mp h y hy
  · intro runId leaseId duration hop y hy hlease hstate
    simp only [countedCheck, hop] at h
    simpa [hlease, hstate] using List.all_eq_true.mp h y hy

/-- Both sessions of a key are leased, the first until it was renewed. -/
def sampleLeases : List Tx :=
  sampleSetup ++
    [⟨.create { ns := sampleNamespace, internalConversationId := "c2", token := "2" }, 1⟩,
      ⟨.acquire (sampleRequest "apis_1" "r1" "1"), 2⟩,
      ⟨.acquire { sampleRequest "apis_2" "r2" "2" with bodyFingerprint := "other" }, 3⟩,
      ⟨.heartbeat "r1" "apil_1" (120 * second), 4⟩]

theorem quotas_hold_sampleLeases :
    ∃ s, Runs step Regular init s ∧
      s.sessions.count (leased "pub" "key" (100 * second)) = 2 ∧
      ∀ p ∈ s.publications, (s.sessions.count (leased p.publicationId "key" (100 * second)) : Int) ≤
        p.apiMaxConcurrentRunsPerKey := by
  have hrun : Runs step (fun s x => orderlyCheck s x = true ∧ countedCheck s x = true) init
      (sampleLeases.foldl perform init) :=
    runs_of_guarded (fun _ _ => rfl) (by decide +kernel)
  have hrun : Runs step Regular init (sampleLeases.foldl perform init) :=
    hrun.mono fun _ _ h => ⟨orderly_of_check h.1, counted_of_check h.2⟩
  have hpositive : ∀ p ∈ (sampleLeases.foldl perform init).publications.rows,
      0 < p.apiMaxConcurrentRunsPerKey := by
    decide +kernel
  refine ⟨_, hrun, by decide +kernel, ?_⟩
  intro p hp
  exact (quotas_hold hrun p hp "key" (100 * second) (by decide +kernel)).2 (hpositive p hp)

/-! ## Past the counts -/

def sampleNarrow (sessions runs : Int) : List Tx :=
  [⟨.configure { samplePublication with
      apiMaxSessionsPerKey := sessions
      apiMaxConcurrentRunsPerKey := runs }, 0⟩, ⟨.createKey "key" "pub", 0⟩,
    ⟨.create { ns := sampleNamespace, internalConversationId := "c1", token := "1" }, 0⟩]

/-- The session waits for a tool result when its time is over, and a second one is created. -/
def sampleWaiting : List Tx :=
  sampleNarrow 1 1 ++
    [⟨.acquire (sampleRequest "apis_1" "r1" "1"), 1⟩,
      ⟨.finalize
        { runId := "r1", leaseId := "apil_1", visibleHeadHash := "h1", itemCount := 2
          pendingCalls := [⟨"c1", "tool", "{}"⟩], schema := sampleSchema, token := "1" }, 2⟩,
      ⟨.create { ns := sampleNamespace, internalConversationId := "c2", token := "2" },
        4000 * second⟩]

/-- A lease expires, another run is admitted, and the first lease is renewed. -/
def sampleRevived : List Tx :=
  sampleNarrow 2 1 ++
    [⟨.create { ns := sampleNamespace, internalConversationId := "c2", token := "2" }, 1⟩,
      ⟨.acquire (sampleRequest "apis_1" "r1" "1"), 2⟩,
      ⟨.acquire { sampleRequest "apis_2" "r2" "2" with bodyFingerprint := "other" },
        121 * second⟩,
      ⟨.heartbeat "r1" "apil_1" (120 * second), 122 * second⟩]

theorem quotas_exceeded :
    (∃ s, Runs step Orderly init s ∧ s.clock ≤ 4000 * second ∧ ∃ p ∈ s.publications.rows,
      p.apiMaxSessionsPerKey = 1 ∧
        s.sessions.count (s.usable p.publicationId "key" (4000 * second)) = 2) ∧
    ∃ s, Runs step Orderly init s ∧ s.clock ≤ 122 * second ∧ ∃ p ∈ s.publications.rows,
      p.apiMaxConcurrentRunsPerKey = 1 ∧
        s.sessions.count (leased p.publicationId "key" (122 * second)) = 2 := by
  have hwaiting : Runs step (fun s x => orderlyCheck s x = true) init
      (sampleWaiting.foldl perform init) :=
    runs_of_guarded (fun _ _ => rfl) (by decide +kernel)
  have hrevived : Runs step (fun s x => orderlyCheck s x = true) init
      (sampleRevived.foldl perform init) :=
    runs_of_guarded (fun _ _ => rfl) (by decide +kernel)
  exact ⟨⟨_, hwaiting.mono fun _ _ => orderly_of_check, by decide +kernel, by decide +kernel⟩,
    _, hrevived.mono fun _ _ => orderly_of_check, by decide +kernel, by decide +kernel⟩

end State

end PawFlow.StandardApi
