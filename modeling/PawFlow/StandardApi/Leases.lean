import PawFlow.StandardApi.Changes

/-!
# One writer for each session

`Leased` ties the three places that know of a run in progress: the run, the session that
carries its lease and its head, and the reservation that makes retries attach to it. From it
follow the single writer of a session, that a retry does not run twice, and that a reservation
which is taken always belongs to a run to attach to.
-/

namespace PawFlow.StandardApi

open PawFlow.Lib

namespace State

structure Leased (s : State) : Prop where
  run : ∀ r ∈ s.runs, r.status = .running → ∃ x, s.sessions.get? r.sessionId = some x ∧
    x.state = .running ∧ x.leaseId = r.leaseId ∧ x.visibleHeadHash = r.parentHeadHash ∧
    x.itemCount = r.parentItemCount
  one : ∀ r ∈ s.runs, ∀ r' ∈ s.runs, r.status = .running → r'.status = .running →
    r.sessionId = r'.sessionId → r = r'
  session : ∀ x ∈ s.sessions, x.state = .running →
    ∃ r ∈ s.runs, r.sessionId = x.sessionId ∧ r.status = .running
  admission : ∀ a ∈ s.admissions, ∃ r x, r ∈ s.runs ∧ r.runId = a.runId ∧ r.status = .running ∧
    s.sessions.get? r.sessionId = some x ∧ a.sessionId = r.sessionId ∧
    a.key = ⟨x.ns, r.parentHeadHash, r.parentItemCount, r.bodyFingerprint⟩ ∧
    a.replayUntil = r.replayUntil
  reserved : ∀ r ∈ s.runs, r.status = .running → s.clock ≤ r.replayUntil →
    ∃ a ∈ s.admissions, a.runId = r.runId

/-- What the holder of a lease relies on. -/
structure SameLease (x x' : Session) : Prop where
  state : x'.state = .running
  leaseId : x'.leaseId = x.leaseId
  head : x'.visibleHeadHash = x.visibleHeadHash
  count : x'.itemCount = x.itemCount
  ns : x'.ns = x.ns

variable {G : State → Tx → Prop} {s t : State}

variable {x : Session} {p : Session → Bool} {now : Time} {a : AcquireArgs}

theorem SameLease.refl (h : x.state = .running) : SameLease x x :=
  ⟨h, rfl, rfl, rfl, rfl⟩

theorem Leased.of_sessions (h : Leased s) (hruns : t.runs = s.runs)
    (hadmissions : t.admissions = s.admissions) (hclock : s.clock ≤ t.clock)
    (hkept : ∀ id x, s.sessions.get? id = some x → x.state = .running →
      ∃ x', t.sessions.get? id = some x' ∧ SameLease x x')
    (hback : ∀ x' ∈ t.sessions, x'.state = .running →
      ∃ x ∈ s.sessions, x.sessionId = x'.sessionId ∧ x.state = .running) : Leased t := by
  constructor
  · rw [hruns]
    intro r hr hrunning
    obtain ⟨x, hx, hstate, hlease, hhead, hcount⟩ := h.run r hr hrunning
    obtain ⟨x', hx', hsame⟩ := hkept _ x hx hstate
    exact ⟨x', hx', hsame.state, hsame.leaseId.trans hlease, hsame.head.trans hhead,
      hsame.count.trans hcount⟩
  · rw [hruns]
    exact h.one
  · rw [hruns]
    intro x' hx' hstate
    obtain ⟨x, hx, hid, hstate⟩ := hback x' hx' hstate
    rw [← hid]
    exact h.session x hx hstate
  · rw [hruns, hadmissions]
    intro a ha
    obtain ⟨r, x, hr, hid, hrunning, hx, hsession, hkey, huntil⟩ := h.admission a ha
    obtain ⟨y, hy, hstate, -⟩ := h.run r hr hrunning
    rw [hx] at hy
    obtain rfl := Option.some.inj hy
    obtain ⟨x', hx', hsame⟩ := hkept _ x hx hstate
    exact ⟨r, x', hr, hid, hrunning, hx', hsession, by rw [hsame.ns, hkey], huntil⟩
  · rw [hruns, hadmissions]
    intro r hr hrunning huntil
    exact h.reserved r hr hrunning (hclock.trans huntil)

theorem Leased.congr (h : Leased s) (hsessions : t.sessions = s.sessions)
    (hruns : t.runs = s.runs) (hadmissions : t.admissions = s.admissions)
    (hclock : s.clock ≤ t.clock) : Leased t := by
  refine h.of_sessions hruns hadmissions hclock ?_ ?_
  · intro id x hx hstate
    exact ⟨x, hsessions ▸ hx, .refl hstate⟩
  · intro x hx hstate
    exact ⟨x, hsessions ▸ hx, rfl, hstate⟩

variable {f : Session → Session} {sessionId : String}

theorem Leased.update (h : Leased s)
    (hf : ∀ x, (f x).sessionId = x.sessionId)
    (hkept : ∀ x ∈ s.sessions, p x → x.state = .running → SameLease x (f x))
    (hback : ∀ x ∈ s.sessions, p x → (f x).state = .running → x.state = .running)
    (hsessions : t.sessions = s.sessions.update p f hf) (hruns : t.runs = s.runs)
    (hadmissions : t.admissions = s.admissions) (hclock : t.clock = s.clock) : Leased t := by
  refine h.of_sessions hruns hadmissions hclock.ge ?_ ?_
  · intro id x hx hstate
    rw [hsessions, Table.get?_update, hx]
    refine ⟨_, rfl, ?_⟩
    dsimp only
    split
    · next hp => exact hkept x (Table.get?_mem hx) hp hstate
    · exact .refl hstate
  · intro x' hx' hstate
    rw [hsessions] at hx'
    obtain ⟨x, hx, rfl⟩ := (Table.mem_update hf).mp hx'
    split at hstate
    · next hp =>
      refine ⟨x, hx, ?_, hback x hx hp hstate⟩
      rw [if_pos hp]
      exact (hf x).symm
    · next hp =>
      refine ⟨x, hx, ?_, hstate⟩
      rw [if_neg hp]

theorem Leased.created (h : Leased s) (hstate : x.state = .idle)
    {sessions : Table String Session Session.sessionId} (hins : s.sessions.insert? x = some sessions) :
    Leased { s with sessions } := by
  obtain ⟨hfree, hget⟩ := Table.insert?_eq_some hins
  refine h.of_sessions rfl rfl le_rfl ?_ ?_
  · intro id y hy hrunning
    refine ⟨y, ?_, .refl hrunning⟩
    show sessions.get? id = some y
    rw [hget, if_neg ?_]
    · exact hy
    · rintro rfl
      rw [hfree] at hy
      cases hy
  · intro y hy hrunning
    rcases (Table.mem_insert? hins).mp hy with hy | rfl
    · exact ⟨y, hy, rfl, hrunning⟩
    · rw [hstate] at hrunning
      cases hrunning

theorem Leased.pruned (h : Leased s) (hnow : now ≤ s.clock) : Leased (s.pruneAdmissions now) := by
  refine ⟨h.run, h.one, h.session, ?_, ?_⟩
  · intro a ha
    exact h.admission a (Table.mem_delete.mp ha).1
  · intro r hr hrunning huntil
    obtain ⟨a, ha, hid⟩ := h.reserved r hr hrunning huntil
    refine ⟨a, Table.mem_delete.mpr ⟨ha, ?_⟩, hid⟩
    -- the reservation runs as long as the window of its run
    obtain ⟨r', x, hr', hid', -, -, -, -, hsame⟩ := h.admission a ha
    obtain rfl := Table.eq_of_key hr hr' (hid.symm.trans hid'.symm)
    simp only [decide_eq_false_iff_not, not_lt]
    exact hnow.trans (huntil.trans hsame.ge)

theorem Leased.dropped (h : Leased s)
    (hp : ∀ x ∈ s.sessions, p x → x.state ≠ .running) : Leased (s.dropSessions p) := by
  have hkept : ∀ r ∈ s.runs, r.status = .running →
      (s.sessions.get? r.sessionId).any p = false := by
    intro r hr hrunning
    obtain ⟨x, hx, hstate, -⟩ := h.run r hr hrunning
    rw [hx, Option.any_some, Bool.eq_false_iff]
    exact fun hpx => hp x (Table.get?_mem hx) hpx hstate
  have hsession : ∀ r ∈ s.runs, r.status = .running → ∀ x, s.sessions.get? r.sessionId = some x →
      (s.dropSessions p).sessions.get? r.sessionId = some x := by
    intro r hr hrunning x hx
    refine (s.sessions.get?_delete p _).trans ?_
    have hpx := hkept r hr hrunning
    rw [hx, Option.any_some] at hpx
    rw [hx, Option.filter_some, hpx]
    rfl
  constructor
  · intro r hr hrunning
    have hr := (Table.mem_delete.mp hr).1
    obtain ⟨x, hx, hrest⟩ := h.run r hr hrunning
    exact ⟨x, hsession r hr hrunning x hx, hrest⟩
  · intro r hr r' hr'
    exact h.one r (Table.mem_delete.mp hr).1 r' (Table.mem_delete.mp hr').1
  · intro x hx hstate
    obtain ⟨r, hr, hid, hrunning⟩ := h.session x (Table.mem_delete.mp hx).1 hstate
    exact ⟨r, Table.mem_delete.mpr ⟨hr, hkept r hr hrunning⟩, hid, hrunning⟩
  · intro a ha
    obtain ⟨r, x, hr, hid, hrunning, hx, hrest⟩ := h.admission a (Table.mem_delete.mp ha).1
    exact ⟨r, x, Table.mem_delete.mpr ⟨hr, hkept r hr hrunning⟩, hid, hrunning,
      hsession r hr hrunning x hx, hrest⟩
  · intro r hr hrunning huntil
    have hr := (Table.mem_delete.mp hr).1
    obtain ⟨a, ha, hid⟩ := h.reserved r hr hrunning huntil
    refine ⟨a, Table.mem_delete.mpr ⟨ha, ?_⟩, hid⟩
    obtain ⟨r', -, hr', hid', -, -, hsame, -⟩ := h.admission a ha
    obtain rfl := Table.eq_of_key hr hr' (hid.symm.trans hid'.symm)
    rw [hsame]
    exact hkept r hr hrunning

/-- The runs of one session end: its reservations go, and it runs no more. -/
structure Ended (s t : State) (sessionId : String) : Prop where
  runs : ∀ r, r ∈ t.runs ∧ r.status = .running ↔
    (r ∈ s.runs ∧ r.status = .running) ∧ r.sessionId ≠ sessionId
  sessions : ∀ id, id ≠ sessionId → t.sessions.get? id = s.sessions.get? id
  stopped : ∀ x ∈ t.sessions, x.sessionId = sessionId → x.state ≠ .running
  admissions : ∀ a, a ∈ t.admissions ↔ a ∈ s.admissions ∧ a.sessionId ≠ sessionId
  clock : t.clock = s.clock

theorem Leased.ended (h : Leased s) (hended : Ended s t sessionId) :
    Leased t := by
  constructor
  · intro r hr hrunning
    obtain ⟨⟨hr, -⟩, hne⟩ := (hended.runs r).mp ⟨hr, hrunning⟩
    rw [hended.sessions _ hne]
    exact h.run r hr hrunning
  · intro r hr r' hr' hrunning hrunning'
    exact h.one r ((hended.runs r).mp ⟨hr, hrunning⟩).1.1 r'
      ((hended.runs r').mp ⟨hr', hrunning'⟩).1.1 hrunning hrunning'
  · intro x hx hstate
    have hne : x.sessionId ≠ sessionId := fun heq => hended.stopped x hx heq hstate
    have hx : s.sessions.get? x.sessionId = some x :=
      (hended.sessions _ hne).symm.trans (Table.get?_of_mem hx)
    obtain ⟨r, hr, hid, hrunning⟩ := h.session x (Table.get?_mem hx) hstate
    exact ⟨r, ((hended.runs r).mpr ⟨⟨hr, hrunning⟩, hid ▸ hne⟩).1, hid, hrunning⟩
  · intro a ha
    obtain ⟨ha, hne⟩ := (hended.admissions a).mp ha
    obtain ⟨r, x, hr, hid, hrunning, hx, hsession, hrest⟩ := h.admission a ha
    rw [hsession] at hne
    exact ⟨r, x, ((hended.runs r).mpr ⟨⟨hr, hrunning⟩, hne⟩).1, hid, hrunning,
      (hended.sessions _ hne).trans hx, hsession, hrest⟩
  · intro r hr hrunning huntil
    obtain ⟨⟨hr, -⟩, hne⟩ := (hended.runs r).mp ⟨hr, hrunning⟩
    rw [hended.clock] at huntil
    obtain ⟨a, ha, hid⟩ := h.reserved r hr hrunning huntil
    obtain ⟨r', -, hr', hid', -, -, hsession, -⟩ := h.admission a ha
    obtain rfl := Table.eq_of_key hr hr' (hid.symm.trans hid'.symm)
    exact ⟨a, (hended.admissions a).mpr ⟨ha, hsession ▸ hne⟩, hid⟩

variable {r : Run}

theorem Leased.only (h : Leased s) (hr : r ∈ s.runs) (hrunning : r.status = .running) :
    (∀ r' ∈ s.runs, r'.status = .running → r'.sessionId = r.sessionId → r' = r) ∧
      ∀ a ∈ s.admissions, a.sessionId = r.sessionId ↔ a.runId = r.runId := by
  refine ⟨fun r' hr' hrunning' hsession => h.one r' hr' r hr hrunning' hrunning hsession, ?_⟩
  intro a ha
  obtain ⟨r', -, hr', hid, hrunning', -, hsession, -⟩ := h.admission a ha
  rw [hsession, ← hid]
  constructor
  · intro heq
    rw [h.one r' hr' r hr hrunning' hrunning heq]
  · intro heq
    rw [Table.eq_of_key hr' hr heq]

theorem Leased.ended_run (h : Leased s) (hr : s.runs.get? r.runId = some r)
    (hx : s.sessions.get? r.sessionId = some x) (howns : ownsLease r x r.leaseId)
    {f : Run → Run} (hf : ∀ r, (f r).runId = r.runId) (hstatus : ∀ r, (f r).status ≠ .running)
    {g : Session → Session} (hg : ∀ x, (g x).sessionId = x.sessionId)
    (hstate : ∀ x, (g x).state ≠ .running)
    (hsessions : t.sessions = s.sessions.update
      (fun y => y.sessionId = r.sessionId ∧ y.leaseId = r.leaseId) g hg)
    (hruns : t.runs = s.runs.update (fun r' => r'.runId = r.runId ∧ r'.leaseId = r.leaseId) f hf)
    (hadmissions : t.admissions = s.admissions.delete fun a => a.runId = r.runId)
    (hclock : t.clock = s.clock) : Ended s t r.sessionId := by
  obtain ⟨hrunning, -, -, hlease⟩ := ownsLease_iff.mp howns
  obtain ⟨honly, hadmission⟩ := h.only (Table.get?_mem hr) hrunning
  constructor
  · intro r'
    rw [hruns]
    constructor
    · rintro ⟨hr', hrunning'⟩
      obtain ⟨r₀, hr₀, rfl⟩ := (Table.mem_update hf).mp hr'
      split at hrunning'
      · exact absurd hrunning' (hstatus r₀)
      · next hother =>
        rw [if_neg hother]
        refine ⟨⟨hr₀, hrunning'⟩, ?_⟩
        intro hsession
        obtain rfl := honly r₀ hr₀ hrunning' hsession
        simp at hother
    · rintro ⟨⟨hr', hrunning'⟩, hne⟩
      refine ⟨(Table.mem_update hf).mpr ⟨r', hr', ?_⟩, hrunning'⟩
      rw [if_neg]
      simp only [decide_eq_true_eq, not_and]
      intro hid
      rw [Table.eq_of_key hr' (Table.get?_mem hr) hid] at hne
      exact absurd rfl hne
  · intro id hne
    rw [hsessions, Table.get?_update]
    cases hy : s.sessions.get? id with
    | none => rfl
    | some y =>
      have hid := Table.get?_key hy
      rw [Option.map_some, if_neg (by simp [hid, hne])]
  · intro y hy hid
    rw [hsessions] at hy
    obtain ⟨y₀, hy₀, rfl⟩ := (Table.mem_update hg).mp hy
    split
    · exact hstate y₀
    · next hother =>
      rw [if_neg hother] at hid
      obtain rfl := Table.eq_of_key hy₀ (Table.get?_mem hx) (hid.trans (Table.get?_key hx).symm)
      simp [hid, hlease] at hother
  · intro a
    rw [hadmissions, Table.mem_delete]
    constructor
    · rintro ⟨ha, hne⟩
      refine ⟨ha, ?_⟩
      rw [Ne, hadmission a ha]
      simpa using hne
    · rintro ⟨ha, hne⟩
      rw [Ne, hadmission a ha] at hne
      exact ⟨ha, by simpa using hne⟩
  · exact hclock

/-- The end of every run of a session whose lease is over. -/
theorem ended_session
    (hx : s.sessions.get? sessionId = some x) (hp : ∀ y, p y → y.sessionId = sessionId)
    (hpx : p x = true)
    (hsessions : t.sessions = s.sessions.update p quarantinedSession quarantinedSession_sessionId)
    (hruns : t.runs = s.runs.update (fun r => r.sessionId = sessionId ∧ r.status = .running)
      abandonedRun abandonedRun_runId)
    (hadmissions : t.admissions = s.admissions.delete fun a => a.sessionId = sessionId)
    (hclock : t.clock = s.clock) : Ended s t sessionId := by
  constructor
  · intro r
    rw [hruns]
    constructor
    · rintro ⟨hr, hrunning⟩
      obtain ⟨r₀, hr₀, rfl⟩ := (Table.mem_update abandonedRun_runId).mp hr
      split at hrunning
      · cases hrunning
      · next hother =>
        rw [if_neg hother]
        refine ⟨⟨hr₀, hrunning⟩, ?_⟩
        intro hsession
        simp [hsession, hrunning] at hother
    · rintro ⟨⟨hr, hrunning⟩, hne⟩
      refine ⟨(Table.mem_update abandonedRun_runId).mpr ⟨r, hr, ?_⟩, hrunning⟩
      rw [if_neg (by simp [hne])]
  · intro id hne
    rw [hsessions, Table.get?_update]
    cases hy : s.sessions.get? id with
    | none => rfl
    | some y =>
      have hid := Table.get?_key hy
      rw [Option.map_some, if_neg]
      intro hpy
      exact hne (hid.symm.trans (hp y hpy))
  · intro y hy hid
    rw [hsessions] at hy
    obtain ⟨y₀, hy₀, rfl⟩ := (Table.mem_update quarantinedSession_sessionId).mp hy
    split
    · simp [quarantinedSession]
    · next hother =>
      rw [if_neg hother] at hid
      obtain rfl := Table.eq_of_key hy₀ (Table.get?_mem hx) (hid.trans (Table.get?_key hx).symm)
      exact absurd hpx hother
  · intro a
    rw [hadmissions, Table.mem_delete]
    simp
  · exact hclock

theorem get?_sessions_admittedBy
    (h : s.Admissible a x now) (runs : Table String Run Run.runId) (id : String) :
    (s.admittedBy a x now runs).sessions.get? id =
      if id = a.sessionId then some (a.leasedSession now x) else s.sessions.get? id := by
  refine (s.sessions.get?_update _ _ (a.leasedSession_sessionId now) id).trans ?_
  split
  · next heq =>
    have hopen : x.state ∈ [SessionState.idle, .waitingTool] := by
      rcases h.state with ⟨hidle, -⟩ | ⟨hwaiting, -⟩
      · simp [hidle]
      · simp [hwaiting]
    rw [heq, h.found, Option.map_some, if_pos]
    simp [Table.get?_key h.found, hopen, h.head, h.count]
  · next hne =>
    cases hy : s.sessions.get? id with
    | none => rfl
    | some y => rw [Option.map_some, if_neg (by simp [Table.get?_key hy, hne])]

theorem Admissible.not_running (h : s.Admissible a x now) : x.state ≠ .running := by
  rcases h.state with ⟨hidle, -⟩ | ⟨hwaiting, -⟩
  · simp [hidle]
  · simp [hwaiting]

theorem Leased.admitted (h : Leased s)
    {runs : Table String Run Run.runId} (hadmissible : s.Admissible a x now)
    (hruns : s.runs.insert? (a.run now) = some runs) : Leased (s.admittedBy a x now runs) := by
  have hget := get?_sessions_admittedBy hadmissible runs
  have helsewhere : ∀ r ∈ s.runs, r.status = .running → r.sessionId ≠ a.sessionId := by
    intro r hr hrunning hsession
    obtain ⟨y, hy, hstate, -⟩ := h.run r hr hrunning
    rw [hsession, hadmissible.found] at hy
    obtain rfl := Option.some.inj hy
    exact hadmissible.not_running hstate
  have hmem : ∀ r, r ∈ (s.admittedBy a x now runs).runs ↔ r ∈ s.runs ∨ r = a.run now :=
    fun r => Table.mem_insert? hruns
  have hadmissions : ∀ b, b ∈ (s.admittedBy a x now runs).admissions ↔
      b ∈ s.admissions ∨ b = a.admission x.ns now := by
    intro b
    refine Table.mem_insertIgnore.trans ?_
    rw [show s.admissions.get? (a.admission x.ns now).key = none from hadmissible.free]
    simp
  constructor
  · intro r hr hrunning
    rw [hget]
    rcases (hmem r).mp hr with hr | rfl
    · rw [if_neg (helsewhere r hr hrunning)]
      exact h.run r hr hrunning
    · exact ⟨_, if_pos rfl, rfl, rfl, hadmissible.head, hadmissible.count⟩
  · intro r hr r' hr' hrunning hrunning' hsession
    rcases (hmem r).mp hr with hr | rfl <;> rcases (hmem r').mp hr' with hr' | rfl
    · exact h.one r hr r' hr' hrunning hrunning' hsession
    · exact absurd hsession (helsewhere r hr hrunning)
    · exact absurd hsession.symm (helsewhere r' hr' hrunning')
    · rfl
  · intro y hy hstate
    have hy := Table.get?_of_mem hy
    rw [hget] at hy
    split at hy
    · next heq =>
      exact ⟨a.run now, (hmem _).mpr (.inr rfl), heq.symm, rfl⟩
    · obtain ⟨r, hr, hrest⟩ := h.session y (Table.get?_mem hy) hstate
      exact ⟨r, (hmem r).mpr (.inl hr), hrest⟩
  · intro b hb
    rcases (hadmissions b).mp hb with hb | rfl
    · obtain ⟨r, y, hr, hid, hrunning, hy, hrest⟩ := h.admission b hb
      refine ⟨r, y, (hmem r).mpr (.inl hr), hid, hrunning, ?_, hrest⟩
      rw [hget, if_neg (helsewhere r hr hrunning)]
      exact hy
    · exact ⟨a.run now, a.leasedSession now x, (hmem _).mpr (.inr rfl), rfl, rfl,
        (hget _).trans (if_pos rfl), rfl, rfl, rfl⟩
  · intro r hr hrunning huntil
    rcases (hmem r).mp hr with hr | rfl
    · obtain ⟨b, hb, hid⟩ := h.reserved r hr hrunning huntil
      exact ⟨b, (hadmissions b).mpr (.inl hb), hid⟩
    · exact ⟨_, (hadmissions _).mpr (.inr rfl), rfl⟩

theorem Leased.change (h : Leased s) (hc : Change G s t) : Leased t := by
  cases hc with
  | ticked now => exact h.congr rfl rfl rfl (le_max_left _ _)
  | published p _ => exact h.congr rfl rfl rfl le_rfl
  | keyed keys => exact h.congr rfl rfl rfl le_rfl
  | aged publicationId generation now =>
    refine h.update (agedSession_sessionId now) ?_ ?_ rfl rfl rfl rfl
    · intro x _ hp hstate
      simp [hstate] at hp
    · intro x _ hp hstate
      simp only [agedSession] at hstate
      split at hstate
      · cases hstate
      · exact hstate
  | created a x now p sessions _ _ _ hstate _ _ _ hins => exact h.created hstate hins
  | dropped p hp =>
    refine h.dropped ?_
    intro x hx hpx hstate
    rcases hp x hx hpx with hexpired | ⟨hidle, -⟩
    · rw [hexpired] at hstate
      cases hstate
    · rw [hidle] at hstate
      cases hstate
  | closed p state expires hp hstate =>
    refine h.update (closedSession_sessionId state expires) ?_ ?_ rfl rfl rfl rfl
    · intro x hx hpx hrunning
      have hmem := hp x hx hpx
      simp [hrunning] at hmem
    · intro x hx hpx hrunning
      have hrunning : state = .running := hrunning
      simp [hrunning] at hstate
  | pruned now hnow => exact h.pruned hnow
  | admitted a x now runs _ _ hadmissible hruns => exact h.admitted hadmissible hruns
  | renewed runId leaseId duration now _ =>
    refine h.update (renewedSession_sessionId (now + duration)) ?_ ?_ rfl rfl rfl rfl
    · intro x _ _ hstate
      exact ⟨hstate, rfl, rfl, rfl, rfl⟩
    · exact fun x _ _ hstate => hstate
  | settled b r results now _ _ _ _ _ => exact h.congr rfl rfl rfl le_rfl
  | finalized a r x rows now u responses _ hr hx howns _ _ _ hu =>
    obtain ⟨batches, calls, rfl, -⟩ := insertBatch_ok hu
    obtain ⟨hrunning, hstate, hlease, hlease'⟩ := ownsLease_iff.mp howns
    have hid := Table.get?_key hr
    have hsession := Table.get?_key hx
    refine h.ended (h.ended_run (hid ▸ hr) hx
      (ownsLease_iff.mpr ⟨hrunning, hstate, rfl, hlease'.trans hlease.symm⟩) a.completedRun_runId
      ?_ (a.publishedSession_sessionId (rows ≠ []) (s.nextExpiry x now)) ?_ ?_ ?_ ?_ rfl)
    · intro r'
      simp [FinalizeArgs.completedRun]
    · intro y
      simp only [FinalizeArgs.publishedSession]
      split <;> simp
    · rw [hlease, ← hsession]
      rfl
    · rw [hlease, hid]
      rfl
    · rw [hid]
      rfl
  | failed r x status now hr hx howns hstatus =>
    refine h.ended (h.ended_run hr hx howns (failedRun_runId status) ?_
      (failedSession_sessionId now) ?_ rfl rfl rfl rfl)
    · intro r'
      rcases hstatus with rfl | rfl <;> simp [failedRun]
    · intro y
      simp [failedSession, quarantinedSession]
  | lapsed a x now _ hx hover =>
    exact h.ended (ended_session hx (fun y hy => by simpa using hy)
      (by simpa using Table.get?_key hx) rfl rfl rfl rfl)
  | abandoned x hx hrunning =>
    refine h.ended (ended_session hx (p := fun y => y.sessionId = x.sessionId ∧
      y.state = .running) ?_ ?_ rfl rfl rfl rfl)
    · intro y hy
      simp only [decide_eq_true_eq] at hy
      exact hy.1
    · simp [hrunning]

theorem leased_init : Leased init := by
  constructor
  · intro r hr
    cases hr
  · intro r hr
    cases hr
  · intro x hx
    cases hx
  · intro a ha
    cases ha
  · intro r hr
    cases hr

theorem Leased.changes (h : Leased s) (hc : Changes G s t) : Leased t :=
  changes_invariant Leased (fun _ _ h hc => h.change hc) hc h

theorem leased_of_reach (h : Reach step init s) : Leased s := leased_init.changes (changes_of_reach h)

/-! ## The head of a session -/

def SameHead (x x' : Session) : Prop :=
  x'.visibleHeadHash = x.visibleHeadHash ∧ x'.itemCount = x.itemCount

/-- Every session was there before, with the head it has now. -/
def KeepsHeads (s t : State) : Prop :=
  ∀ id x', t.sessions.get? id = some x' → ∃ x, s.sessions.get? id = some x ∧ SameHead x x'

theorem keepsHeads_of_eq (h : t.sessions = s.sessions) : KeepsHeads s t := by
  intro id x hx
  exact ⟨x, h ▸ hx, rfl, rfl⟩

theorem keepsHeads_update
    (hf : ∀ x, (f x).sessionId = x.sessionId) (hsame : ∀ x, SameHead x (f x))
    (hsessions : t.sessions = s.sessions.update p f hf) : KeepsHeads s t := by
  intro id x' hx'
  rw [hsessions, Table.get?_update] at hx'
  obtain ⟨x, hx, rfl⟩ := Option.map_eq_some_iff.mp hx'
  refine ⟨x, hx, ?_⟩
  split
  · exact hsame x
  · exact ⟨rfl, rfl⟩

theorem keepsHeads_change (hc : Change G s t) (hcreate : ∀ s a now, ¬ G s ⟨.create a, now⟩)
    (hfinalize : ∀ s a now, ¬ G s ⟨.finalize a, now⟩) : KeepsHeads s t := by
  cases hc with
  | created a x now p sessions hok => exact absurd hok (hcreate s a now)
  | finalized a r x rows now u responses hok => exact absurd hok (hfinalize s a now)
  | aged publicationId generation now =>
    exact keepsHeads_update (agedSession_sessionId now) (fun x => ⟨rfl, rfl⟩) rfl
  | closed p state expires _ _ =>
    exact keepsHeads_update (closedSession_sessionId state expires) (fun x => ⟨rfl, rfl⟩) rfl
  | admitted a x now runs _ _ _ _ =>
    exact keepsHeads_update (a.leasedSession_sessionId now) (fun x => ⟨rfl, rfl⟩) rfl
  | renewed runId leaseId duration now _ =>
    exact keepsHeads_update (renewedSession_sessionId (now + duration)) (fun x => ⟨rfl, rfl⟩) rfl
  | failed r x status now _ _ _ _ =>
    exact keepsHeads_update (failedSession_sessionId now) (fun x => ⟨rfl, rfl⟩) rfl
  | lapsed a x now _ _ _ =>
    exact keepsHeads_update quarantinedSession_sessionId (fun x => ⟨rfl, rfl⟩) rfl
  | abandoned x _ _ =>
    exact keepsHeads_update quarantinedSession_sessionId (fun x => ⟨rfl, rfl⟩) rfl
  | dropped p _ =>
    intro id x hx
    have hx : (s.sessions.delete p).get? id = some x := hx
    rw [Table.get?_delete, Option.filter_eq_some_iff] at hx
    exact ⟨x, hx.1, rfl, rfl⟩
  | ticked now => exact keepsHeads_of_eq rfl
  | published p _ => exact keepsHeads_of_eq rfl
  | keyed keys => exact keepsHeads_of_eq rfl
  | pruned now _ => exact keepsHeads_of_eq rfl
  | settled b r results now _ _ _ _ _ => exact keepsHeads_of_eq rfl

theorem keepsHeads_changes (hc : Changes G s t) (hcreate : ∀ s a now, ¬ G s ⟨.create a, now⟩)
    (hfinalize : ∀ s a now, ¬ G s ⟨.finalize a, now⟩) : KeepsHeads s t := by
  induction hc with
  | refl => exact keepsHeads_of_eq rfl
  | tail _ hc ih =>
    intro id x' hx'
    obtain ⟨y, hy, hhash, hcount⟩ := keepsHeads_change hc hcreate hfinalize id x' hx'
    obtain ⟨x, hx, hhash', hcount'⟩ := ih id y hy
    exact ⟨x, hx, hhash.trans hhash', hcount.trans hcount'⟩

theorem Leased.head_finalize (h : Leased s) {a : FinalizeArgs} {again : Bool}
    (hfinal : s.finalize a now = .ok (again, t)) {id : String} {x' : Session}
    (hx : s.sessions.get? id = some x) (hx' : t.sessions.get? id = some x') :
    SameHead x x' ∨
      x.state = .running ∧ a.leaseId = x.leaseId ∧ x.itemCount ≤ x'.itemCount := by
  rcases finalize_ok hfinal with ⟨-, rfl⟩ |
    ⟨-, r, y, rows, u, responses, -, hr, hy, howns, hcount, -, hu, rfl⟩
  · rw [hx] at hx'
    obtain rfl := Option.some.inj hx'
    exact .inl ⟨rfl, rfl⟩
  · obtain ⟨batches, calls, rfl, -⟩ := insertBatch_ok hu
    obtain ⟨hrunning, hstate, -, hlease⟩ := ownsLease_iff.mp howns
    have hx' := (s.sessions.get?_update _ _
      (a.publishedSession_sessionId (rows ≠ []) (s.nextExpiry y now)) id).symm.trans hx'
    rw [hx, Option.map_some] at hx'
    obtain rfl := Option.some.inj hx'
    split
    · next hmatch =>
      simp only [decide_eq_true_eq] at hmatch
      -- the session is the one of the run, at the head the run started from
      have hid : id = r.sessionId := by
        rw [← Table.get?_key hx, hmatch.1, Table.get?_key hy]
      rw [hid, hy] at hx
      obtain rfl := Option.some.inj hx
      obtain ⟨z, hz, -, -, -, hparent⟩ := h.run r (Table.get?_mem hr) hrunning
      rw [hy] at hz
      obtain rfl := Option.some.inj hz
      exact .inr ⟨hstate, hmatch.2.symm, hparent.trans_le hcount⟩
    · exact .inl ⟨rfl, rfl⟩

theorem Leased.head_perform (h : Leased s) {x : Tx} {id : String} {y y' : Session}
    (hy : s.sessions.get? id = some y) (hy' : (s.perform x).sessions.get? id = some y') :
    SameHead y y' ∨ ∃ a, x.op = .finalize a ∧ y.state = .running ∧ a.leaseId = y.leaseId ∧
      y.itemCount ≤ y'.itemCount := by
  obtain ⟨op, now⟩ := x
  have hkeeps : (∀ a, op ≠ .create a) → (∀ a, op ≠ .finalize a) → SameHead y y' := by
    intro hcreate hfinalize
    have hc : Changes (fun _ z => z = ⟨op, now⟩) s (s.perform ⟨op, now⟩) := changes_perform s _ rfl
    obtain ⟨z, hz, hsame⟩ := keepsHeads_changes hc (fun _ a _ h => hcreate a (Tx.mk.inj h).1.symm)
      (fun _ a _ h => hfinalize a (Tx.mk.inj h).1.symm) id y' hy'
    rw [hy] at hz
    obtain rfl := Option.some.inj hz
    exact hsame
  cases op with
  | create a =>
    left
    have hy' : (Lib.settle (s.tick now) ((s.tick now).create a now)).sessions.get? id = some y' :=
      hy'
    cases hcreate : (s.tick now).create a now with
    | error e =>
      rw [hcreate] at hy'
      rw [show s.sessions.get? id = some y' from hy'] at hy
      obtain rfl := Option.some.inj hy
      exact ⟨rfl, rfl⟩
    | ok reply =>
      rw [hcreate] at hy'
      obtain ⟨p, sessions, -, -, -, -, -, hins, ht⟩ := create_ok hcreate
      obtain ⟨hfree, hget⟩ := Table.insert?_eq_some hins
      have hy' : sessions.get? id = some y' := by
        rw [← hy']
        show _ = reply.2.sessions.get? id
        rw [ht]
      rw [hget, if_neg] at hy'
      · rw [show s.sessions.get? id = some y' from hy'] at hy
        obtain rfl := Option.some.inj hy
        exact ⟨rfl, rfl⟩
      · rintro rfl
        rw [show s.sessions.get? _ = none from hfree] at hy
        cases hy
  | finalize a =>
    have hy' : (Lib.settle (s.tick now) ((s.tick now).finalize a now)).sessions.get? id = some y' :=
      hy'
    cases hfinal : (s.tick now).finalize a now with
    | error e =>
      rw [hfinal] at hy'
      rw [show s.sessions.get? id = some y' from hy'] at hy
      obtain rfl := Option.some.inj hy
      exact .inl ⟨rfl, rfl⟩
    | ok reply =>
      rw [hfinal] at hy'
      have hticked : Leased (s.tick now) := h.congr rfl rfl rfl (le_max_left _ _)
      rcases hticked.head_finalize hfinal hy hy' with hsame | hmoved
      · exact .inl hsame
      · exact .inr ⟨a, rfl, hmoved⟩
  | _ => exact .inl (hkeeps (by simp) (by simp))

/-! ## Retries -/

theorem Leased.not_acquired (h : Leased s) {y : Session} (hr : r ∈ s.runs)
    (hrunning : r.status = .running) (hx : s.sessions.get? r.sessionId = some x)
    {reply : AcquireReply} (hy : s.sessions.get? a.sessionId = some y)
    (hns : y.ns = x.ns) (hhead : a.expectedHeadHash = r.parentHeadHash)
    (hcount : a.expectedItemCount = r.parentItemCount)
    (hbody : a.bodyFingerprint = r.bodyFingerprint) (hclock : s.clock ≤ r.replayUntil)
    (hnow : now ≤ r.replayUntil) (hacquire : s.acquire a now = .ok (reply, t)) :
    ∀ y' r', reply ≠ .acquired y' r' := by
  rcases acquire_ok hacquire with ⟨hnot, -⟩ | ⟨z, runs, hadmissible, -, -, -⟩
  · exact hnot
  · exfalso
    obtain ⟨b, hb, hid⟩ := h.reserved r hr hrunning hclock
    obtain ⟨r', x', hr', hid', -, hx', -, hkey, huntil⟩ := h.admission b hb
    obtain rfl := Table.eq_of_key hr hr' (hid.symm.trans hid'.symm)
    rw [hx] at hx'
    obtain rfl := Option.some.inj hx'
    rw [show s.sessions.get? a.sessionId = some z from hadmissible.found] at hy
    obtain rfl := Option.some.inj hy
    have hkept : b ∈ (s.pruneAdmissions now).admissions := by
      refine Table.mem_delete.mpr ⟨hb, ?_⟩
      simp only [decide_eq_false_iff_not, not_lt]
      exact hnow.trans huntil.ge
    have hsame : b.key = a.key z.ns := by
      rw [hkey, AcquireArgs.key, hns, hhead, hcount, hbody]
    have htaken := Table.get?_of_mem hkept
    rw [hsame, hadmissible.free] at htaken
    cases htaken

/-- Where a `RuntimeError` of `acquire_api_session` comes from. -/
theorem acquire_runtimeError {message : String}
    (h : s.acquire a now = .error (.runtimeError message)) :
    s.runs.get? a.runId = none ∧ ∃ x, (s.pruneAdmissions now).reserveRun a x now =
      .error (.runtimeError message) := by
  unfold acquire at h
  split at h
  · cases h
  split at h
  · cases h
  split at h
  · cases h
  next x hx =>
  split at h
  · split at h
    · cases h
    · split at h
      · cases h
      · cases h
  split at h
  · cases h
  split at h
  · cases h
  split at h
  · cases h
  split at h
  · cases h
  cases hvalid : s.validateNamespace x.ns with
  | error e =>
    rw [hvalid] at h
    obtain rfl := Except.error.inj h
    unfold validateNamespace at hvalid
    split at hvalid
    · repeat' split at hvalid
      all_goals cases hvalid
    · cases hvalid
  | ok p =>
    rw [hvalid] at h
    dsimp only [Except.bind] at h
    split at h
    · cases h
    split at h
    · split at h
      · cases h
      · cases h
    next hunused =>
    split at h
    · cases h
    exact ⟨hunused, x, h⟩

theorem Leased.no_conflict (h : Leased s) (a : AcquireArgs) (now : Time) (message : String) :
    s.acquire a now ≠ .error (.runtimeError message) := by
  intro herror
  obtain ⟨hunused, x, hadmit⟩ := acquire_runtimeError herror
  unfold reserveRun at hadmit
  split at hadmit
  · next htaken =>
    -- the reservation that is in the way is that of a run to attach to
    cases hb : (s.pruneAdmissions now).admissions.get? (a.key x.ns) with
    | none =>
      rw [hb] at htaken
      simp only [Option.isSome_none, Bool.false_eq_true, false_or, List.any_eq_true,
        decide_eq_true_eq] at htaken
      obtain ⟨b, hb, hid⟩ := htaken
      obtain ⟨r, -, hr, hid', -⟩ := h.admission b (Table.mem_delete.mp hb).1
      have hused := Table.get?_of_mem hr
      rw [hid', hid, hunused] at hused
      cases hused
    | some b =>
      have hmem := Table.mem_delete.mp (Table.get?_mem hb)
      obtain ⟨r, y, hr, hid, hrunning, hy, hsession, -⟩ := h.admission b hmem.1
      have hget : s.runs.get? b.runId = some r := hid ▸ Table.get?_of_mem hr
      have hy : s.sessions.get? b.sessionId = some y := hsession ▸ hy
      have hnow : now ≤ b.replayUntil := by simpa using hmem.2
      have hattach : ((s.pruneAdmissions now).admissions.get? (a.key x.ns)).bind (fun r =>
          ((s.pruneAdmissions now).runs.get? r.runId).bind fun run =>
            if run.status = .running ∧ now ≤ r.replayUntil then
              ((s.pruneAdmissions now).sessions.get? r.sessionId).map fun y => (y, run)
            else none) = some (y, r) := by
        rw [hb, Option.bind_some, show (s.pruneAdmissions now).runs.get? b.runId = some r from hget,
          Option.bind_some, if_pos ⟨hrunning, hnow⟩,
          show (s.pruneAdmissions now).sessions.get? b.sessionId = some y from hy]
        rfl
      rw [hattach] at hadmit
      cases hadmit
  · dsimp only at hadmit
    split at hadmit
    · cases hadmit
    split at hadmit
    · cases hadmit
    · cases hadmit

/-- **One writer, and retries run once.** In every reachable state a session runs exactly when
it has one running run, which has the same lease; a transaction moves the head of a session
only by a finalization that presents the lease, and never back; a request equal to one that
is running within its replay window is not admitted again, on any session of the namespace;
and a reservation never conflicts. -/
theorem one_writer (hs : Reach step init s) :
    (∀ x ∈ s.sessions, x.state = .running ↔ ∃ r ∈ s.runs, r.sessionId = x.sessionId ∧
      r.status = .running ∧ r.leaseId = x.leaseId ∧
      ∀ r' ∈ s.runs, r'.sessionId = x.sessionId → r'.status = .running → r' = r) ∧
    (∀ x : Tx, ∀ y ∈ s.sessions, ∀ y' ∈ (s.perform x).sessions, y'.sessionId = y.sessionId →
      y.itemCount ≤ y'.itemCount ∧ (SameHead y y' ∨
        ∃ a, x.op = .finalize a ∧ y.state = .running ∧ a.leaseId = y.leaseId)) ∧
    (∀ r ∈ s.runs, ∀ x ∈ s.sessions, r.status = .running → x.sessionId = r.sessionId →
      s.clock ≤ r.replayUntil → ∀ a now y reply t, y ∈ s.sessions → y.sessionId = a.sessionId →
      y.ns = x.ns → a.expectedHeadHash = r.parentHeadHash →
      a.expectedItemCount = r.parentItemCount → a.bodyFingerprint = r.bodyFingerprint →
      now ≤ r.replayUntil → s.acquire a now = .ok (reply, t) →
      ∀ y' r', reply ≠ .acquired y' r') ∧
    ∀ a now, s.acquire a now ≠
      .error (.runtimeError "Conflicting active API admission reservation") := by
  have h := leased_of_reach hs
  refine ⟨?_, ?_, ?_, fun a now => h.no_conflict a now _⟩
  · intro x hx
    constructor
    · intro hstate
      obtain ⟨r, hr, hsession, hrunning⟩ := h.session x hx hstate
      obtain ⟨y, hy, -, hlease, -⟩ := h.run r hr hrunning
      rw [hsession, Table.get?_of_mem hx] at hy
      obtain rfl := Option.some.inj hy
      refine ⟨r, hr, hsession, hrunning, hlease.symm, ?_⟩
      intro r' hr' hsession' hrunning'
      exact (h.only hr hrunning).1 r' hr' hrunning' (hsession'.trans hsession.symm)
    · rintro ⟨r, hr, hsession, hrunning, -⟩
      obtain ⟨y, hy, hstate, -⟩ := h.run r hr hrunning
      rw [hsession, Table.get?_of_mem hx] at hy
      obtain rfl := Option.some.inj hy
      exact hstate
  · intro x y hy y' hy' hid
    have hy' := Table.get?_of_mem hy'
    rw [hid] at hy'
    rcases h.head_perform (Table.get?_of_mem hy) hy' with hsame | ⟨a, ha, hrunning, hlease, hle⟩
    · exact ⟨hsame.2.ge, .inl hsame⟩
    · exact ⟨hle, .inr ⟨a, ha, hrunning, hlease⟩⟩
  · intro r hr x hx hrunning hsession hclock a now y reply t hy hid hns hhead hcount hbody hnow
      hacquire
    exact h.not_acquired hr hrunning (hsession ▸ Table.get?_of_mem hx)
      (hid ▸ Table.get?_of_mem hy) hns hhead hcount hbody hclock hnow hacquire

def samplePublication : Publication :=
  { publicationId := "pub", enabled := true, isolated := true, standardApiEnabled := true
    apiModelId := "model", apiSessionTtlSeconds := 3600, apiMaxSessionsPerKey := 2
    apiMaxConcurrentRunsPerKey := 2, dialects := fun _ => true }

def sampleNamespace : Namespace :=
  { publicationId := "pub", apiGeneration := 1, keyId := "key", dialect := .chatCompletions
    apiModelId := "model" }

def sampleSetup : List Tx :=
  [⟨.configure samplePublication, 0⟩, ⟨.createKey "key" "pub", 0⟩,
    ⟨.create { ns := sampleNamespace, internalConversationId := "c1", token := "1" }, 0⟩]

def sampleRequest (sessionId runId token : String) : AcquireArgs :=
  { sessionId, expectedHeadHash := "", expectedItemCount := 0, runId, requestId := runId
    bodyFingerprint := "body", token }

/-- Two sessions of one key, and a run on the first. -/
def oneRunning : State :=
  [⟨.create { ns := sampleNamespace, internalConversationId := "c2", token := "2" }, 1⟩,
    ⟨.acquire (sampleRequest "apis_1" "r1" "1"), 2⟩].foldl perform (sampleSetup.foldl perform init)

theorem one_writer_oneRunning :
    oneRunning.runs.rows.map Run.status = [.running] ∧
      ∀ reply t, oneRunning.acquire (sampleRequest "apis_2" "r2" "2") 3 = .ok (reply, t) →
        ∀ y r, reply ≠ .acquired y r := by
  have hs : Reach step init oneRunning :=
    (reach_foldl (fun _ _ => rfl) sampleSetup _).trans (reach_foldl (fun _ _ => rfl) _ _)
  obtain ⟨-, -, hretry, -⟩ := one_writer hs
  obtain ⟨r, hr⟩ : ∃ r, oneRunning.runs.get? "r1" = some r :=
    Option.isSome_iff_exists.mp (by decide +kernel)
  obtain ⟨x, hx⟩ : ∃ x, oneRunning.sessions.get? "apis_1" = some x :=
    Option.isSome_iff_exists.mp (by decide +kernel)
  obtain ⟨y, hy⟩ : ∃ y, oneRunning.sessions.get? "apis_2" = some y :=
    Option.isSome_iff_exists.mp (by decide +kernel)
  have hrun : (oneRunning.runs.get? "r1").any (fun r => r.status = .running ∧
      r.sessionId = "apis_1" ∧ r.parentHeadHash = "" ∧ r.parentItemCount = 0 ∧
      r.bodyFingerprint = "body" ∧ oneRunning.clock ≤ r.replayUntil ∧ 3 ≤ r.replayUntil) = true := by
    decide +kernel
  have hns : (oneRunning.sessions.get? "apis_2").map Session.ns =
      (oneRunning.sessions.get? "apis_1").map Session.ns := by
    decide +kernel
  rw [hr, Option.any_some, decide_eq_true_eq] at hrun
  rw [hx, hy] at hns
  obtain ⟨hstatus, hsession, hhead, hcount, hbody, hclock, hnow⟩ := hrun
  refine ⟨by decide +kernel, ?_⟩
  intro reply t hacquire
  exact hretry r (Table.get?_mem hr) x (Table.get?_mem hx) hstatus
    ((Table.get?_key hx).trans hsession.symm) hclock _ 3 y reply t (Table.get?_mem hy)
    (Table.get?_key hy) (Option.some.inj hns) hhead.symm hcount.symm hbody.symm hnow hacquire

end State

end PawFlow.StandardApi
