import PawFlow.StandardApi.Leases

/-!
# Client tool batches

A run settles the batch its parent left before it is known whether the run succeeds, and the
end of a run that fails undoes the settlement. `Batched` is the invariant of batches and their
calls: a session has at most one batch that is pending or may become pending again.

The lease check inside `acquire_api_session` does not undo anything. `Undoes` is the condition
under which this makes no difference: the run it abandons has settled no batch.
-/

namespace PawFlow.StandardApi

open PawFlow.Lib

namespace State

/-- The batch waits for results, or would again if the run that settled it failed. -/
def Open (s : State) (b : ToolBatch) : Prop :=
  b.state = .pending ∨ b.state = .settled ∧
    ∃ r, s.runs.get? b.settledByRunId = some r ∧ r.status = .running

/-- Nothing is left of a settlement that does not stand. -/
def CleanBatch (b : ToolBatch) : Prop :=
  b.state ≠ .settled → b.settledByRunId = "" ∧ (b.state = .pending → b.settledAt = 0)

def CleanCall (c : ToolCall) : Prop :=
  c.state ≠ .settled → c.resultFingerprint = "" ∧ c.settledAt = 0

structure Batched (s : State) : Prop where
  one : ∀ b ∈ s.batches, ∀ b' ∈ s.batches, s.Open b → s.Open b' → b.sessionId = b'.sessionId →
    b = b'
  settler : ∀ b ∈ s.batches, b.state = .settled →
    ∃ r, s.runs.get? b.settledByRunId = some r ∧ r.sessionId = b.sessionId
  clean : ∀ b ∈ s.batches, CleanBatch b
  call : ∀ c ∈ s.calls, CleanCall c ∧ ∃ b, s.batches.get? c.batchId = some b ∧ c.state = b.state

/-- Runs stay with their session, and only new ones start. -/
structure RunsGo (s t : State) : Prop where
  kept : ∀ id r, s.runs.get? id = some r →
    ∃ r', t.runs.get? id = some r' ∧ r'.sessionId = r.sessionId
  back : ∀ id r r', s.runs.get? id = some r → t.runs.get? id = some r' → r'.status = .running →
    r.status = .running

variable {G : State → Tx → Prop} {s t : State}

theorem runsGo_of_eq (h : t.runs = s.runs) : RunsGo s t := by
  constructor
  · intro id r hr
    exact ⟨r, h ▸ hr, rfl⟩
  · intro id r r' hr hr' hrunning
    rw [h, hr] at hr'
    obtain rfl := Option.some.inj hr'
    exact hrunning

variable {f : Run → Run} {p : Run → Bool}

theorem runsGo_update (hf : ∀ r, (f r).runId = r.runId)
    (hsession : ∀ r, (f r).sessionId = r.sessionId) (hstatus : ∀ r, (f r).status ≠ .running)
    (hruns : t.runs = s.runs.update p f hf) : RunsGo s t := by
  have hget : ∀ id r, s.runs.get? id = some r →
      t.runs.get? id = some (if p r then f r else r) := by
    intro id r hr
    rw [hruns, Table.get?_update, hr]
    rfl
  constructor
  · intro id r hr
    refine ⟨_, hget id r hr, ?_⟩
    split
    · exact hsession r
    · rfl
  · intro id r r' hr hr' hrunning
    rw [hget id r hr] at hr'
    obtain rfl := Option.some.inj hr'
    split at hrunning
    · exact absurd hrunning (hstatus r)
    · exact hrunning

variable {b : ToolBatch}

theorem Batched.open_back (h : Batched s) (hgo : RunsGo s t) (hb : b ∈ s.batches)
    (hopen : t.Open b) : s.Open b := by
  rcases hopen with hpending | ⟨hsettled, r', hr', hrunning⟩
  · exact .inl hpending
  · obtain ⟨r, hr, -⟩ := h.settler b hb hsettled
    exact .inr ⟨hsettled, r, hr, hgo.back _ r r' hr hr' hrunning⟩

theorem Batched.update (h : Batched s) (hgo : RunsGo s t) {p : ToolBatch → Bool}
    {f : ToolBatch → ToolBatch} (hf : ∀ b, (f b).batchId = b.batchId) {q : ToolCall → Bool}
    {g : ToolCall → ToolCall} (hg : ∀ c, (g c).key = c.key)
    (hbatches : t.batches = s.batches.update p f hf) (hcalls : t.calls = s.calls.update q g hg)
    (hsession : ∀ b, (f b).sessionId = b.sessionId)
    (hopen : ∀ b ∈ s.batches, p b → t.Open (f b) → s.Open b)
    (hsettler : ∀ b ∈ s.batches, p b → (f b).state = .settled →
      ∃ r, t.runs.get? (f b).settledByRunId = some r ∧ r.sessionId = b.sessionId)
    (hclean : ∀ b ∈ s.batches, p b → CleanBatch (f b))
    (hcall : ∀ c ∈ s.calls, ∀ b, s.batches.get? c.batchId = some b → c.state = b.state →
      (if q c then g c else c).state = (if p b then f b else b).state ∧ (q c → CleanCall (g c))) :
    Batched t := by
  have hopen : ∀ b ∈ s.batches, t.Open (if p b then f b else b) → s.Open b := by
    intro b hb ho
    split at ho
    · next hp => exact hopen b hb hp ho
    · exact h.open_back hgo hb ho
  have hsession : ∀ b, (if p b then f b else b).sessionId = b.sessionId := by
    intro b
    split
    · exact hsession b
    · rfl
  constructor
  · rw [hbatches]
    intro b hb b' hb' ho ho' hsame
    obtain ⟨b₀, hb₀, rfl⟩ := (Table.mem_update hf).mp hb
    obtain ⟨b₁, hb₁, rfl⟩ := (Table.mem_update hf).mp hb'
    rw [hsession, hsession] at hsame
    rw [h.one b₀ hb₀ b₁ hb₁ (hopen b₀ hb₀ ho) (hopen b₁ hb₁ ho') hsame]
  · rw [hbatches]
    intro b hb hstate
    obtain ⟨b₀, hb₀, rfl⟩ := (Table.mem_update hf).mp hb
    rw [hsession]
    split at hstate
    · next hp =>
      rw [if_pos hp]
      exact hsettler b₀ hb₀ hp hstate
    · next hp =>
      rw [if_neg hp]
      obtain ⟨r, hr, hid⟩ := h.settler b₀ hb₀ hstate
      obtain ⟨r', hr', hid'⟩ := hgo.kept _ r hr
      exact ⟨r', hr', hid'.trans hid⟩
  · rw [hbatches]
    intro b hb
    obtain ⟨b₀, hb₀, rfl⟩ := (Table.mem_update hf).mp hb
    split
    · next hp => exact hclean b₀ hb₀ hp
    · exact h.clean b₀ hb₀
  · rw [hbatches, hcalls]
    intro c hc
    obtain ⟨c₀, hc₀, rfl⟩ := (Table.mem_update hg).mp hc
    obtain ⟨hok, b, hb, hstate⟩ := h.call c₀ hc₀
    obtain ⟨hsame, hnew⟩ := hcall c₀ hc₀ b hb hstate
    have hid : (if q c₀ then g c₀ else c₀).batchId = c₀.batchId := by
      split
      · exact congrArg Prod.fst (hg c₀)
      · rfl
    refine ⟨?_, _, by rw [hid, Table.get?_update, hb]; rfl, hsame⟩
    split
    · next hq => exact hnew hq
    · exact hok

theorem Batched.runs (h : Batched s) (hgo : RunsGo s t) (hbatches : t.batches = s.batches)
    (hcalls : t.calls = s.calls) : Batched t := by
  constructor
  · rw [hbatches]
    intro b hb b' hb' ho ho'
    exact h.one b hb b' hb' (h.open_back hgo hb ho) (h.open_back hgo hb' ho')
  · rw [hbatches]
    intro b hb hstate
    obtain ⟨r, hr, hid⟩ := h.settler b hb hstate
    obtain ⟨r', hr', hid'⟩ := hgo.kept _ r hr
    exact ⟨r', hr', hid'.trans hid⟩
  · rw [hbatches]
    exact h.clean
  · rw [hbatches, hcalls]
    exact h.call

theorem Batched.congr (h : Batched s) (hruns : t.runs = s.runs) (hbatches : t.batches = s.batches)
    (hcalls : t.calls = s.calls) : Batched t :=
  h.runs (runsGo_of_eq hruns) hbatches hcalls

theorem Batched.aged (h : Batched s) (publicationId : String) (generation : Nat) (now : Time) :
    Batched (s.expireOldGenerations publicationId generation now) := by
  refine h.update (runsGo_of_eq rfl) (canceledBatch_batchId now) canceledCall_key rfl rfl
    (fun _ => rfl) ?_ ?_ ?_ ?_
  · rintro b - - (hpending | ⟨hsettled, -⟩)
    · cases hpending
    · cases hsettled
  · intro b _ _ hstate
    cases hstate
  · intro b hb hp _
    simp only [decide_eq_true_eq, Bool.decide_and, Bool.and_eq_true] at hp
    refine ⟨(h.clean b hb (by simp [hp.1])).1, ?_⟩
    intro hpending
    cases hpending
  · intro c hc b hb hstate
    have hok := (h.call c hc).1
    rw [hb, Option.any_some]
    have hsame : decide (c.state = .pending ∧ s.ofOlderGeneration publicationId generation
        b.sessionId = true) = decide (b.state = .pending ∧ s.ofOlderGeneration publicationId
        generation b.sessionId = true) := by
      rw [hstate]
    rw [hsame]
    split
    · next hp =>
      refine ⟨rfl, ?_⟩
      intro _ _
      simp only [decide_eq_true_eq] at hp
      exact hok (by simp [hstate, hp.1])
    · next hp => exact ⟨hstate, fun hq => absurd hq hp⟩

variable {r : Run} {now : Time} {x : Session} {id : String}

theorem Batched.settled (h : Batched s) (results : List (String × String))
    (now : Time) (hr : s.runs.get? r.runId = some r) (hb : b ∈ s.batches)
    (hstate : b.state = .pending) (hsession : b.sessionId = r.sessionId) :
    Batched (s.settleBatch b r.runId results now) := by
  have hmatch : ∀ b' ∈ s.batches,
      decide (b'.batchId = b.batchId ∧ b'.state = .pending) = true → b' = b := by
    intro b' hb' hp
    simp only [decide_eq_true_eq] at hp
    exact Table.eq_of_key hb' hb hp.1
  refine h.update (runsGo_of_eq rfl) (settledBatch_batchId r.runId now)
    (settledCall_key results now) rfl rfl (fun _ => rfl) ?_ ?_ ?_ ?_
  · intro b' hb' hp _
    rw [hmatch b' hb' hp]
    exact .inl hstate
  · intro b' hb' hp _
    rw [hmatch b' hb' hp]
    exact ⟨r, hr, hsession.symm⟩
  · intro b' _ _ hne
    exact absurd rfl hne
  · intro c hc b' hb' hsame
    have hid : c.batchId = b'.batchId := (Table.get?_key hb').symm
    rw [hid, hsame]
    split
    · exact ⟨rfl, fun _ hne => absurd rfl hne⟩
    · next hp => exact ⟨hsame, fun hq => absurd hq hp⟩

theorem Batched.reopened (h : Batched s) (hgo : RunsGo s t) {p : String → Bool}
    (hp : ∀ id, p id → ∃ r, s.runs.get? id = some r ∧ r.status = .running)
    (hbatches : t.batches = (s.reopenBatches p).batches)
    (hcalls : t.calls = (s.reopenBatches p).calls) : Batched t := by
  refine h.update hgo reopenedBatch_batchId reopenedCall_key hbatches hcalls (fun _ => rfl) ?_ ?_ ?_ ?_
  · intro b _ hmatch _
    simp only [decide_eq_true_eq] at hmatch
    exact .inr ⟨hmatch.1, hp _ hmatch.2⟩
  · intro b _ _ hstate
    cases hstate
  · intro b _ _ _
    exact ⟨rfl, fun _ => rfl⟩
  · intro c hc b hb hstate
    rw [hb, Option.any_some, hstate]
    have hsame : decide (b.state = .settled ∧ decide (b.state = .settled ∧
        p b.settledByRunId = true) = true) =
        decide (b.state = .settled ∧ p b.settledByRunId = true) := by
      simp
    rw [hsame]
    split
    · exact ⟨rfl, fun _ _ => ⟨rfl, rfl⟩⟩
    · next hother => exact ⟨hstate, fun hq => absurd hq hother⟩

theorem Batched.dropped (h : Batched s) (p : Session → Bool) : Batched (s.dropSessions p) := by
  have hrun : ∀ id r, (s.dropSessions p).runs.get? id = some r → s.runs.get? id = some r := by
    intro id r hr
    have hr : (s.runs.delete fun r => (s.sessions.get? r.sessionId).any p).get? id = some r := hr
    rw [Table.get?_delete, Option.filter_eq_some_iff] at hr
    exact hr.1
  have hback : ∀ b, (s.dropSessions p).Open b → s.Open b := by
    rintro b (hpending | ⟨hsettled, r, hr, hrunning⟩)
    · exact .inl hpending
    · exact .inr ⟨hsettled, r, hrun _ r hr, hrunning⟩
  constructor
  · intro b hb b' hb' ho ho'
    exact h.one b (Table.mem_delete.mp hb).1 b' (Table.mem_delete.mp hb').1 (hback b ho)
      (hback b' ho')
  · intro b hb hstate
    obtain ⟨hb, hkept⟩ := Table.mem_delete.mp hb
    obtain ⟨r, hr, hsession⟩ := h.settler b hb hstate
    refine ⟨r, ?_, hsession⟩
    refine (s.runs.get?_delete _ _).trans ?_
    rw [Option.filter_eq_some_iff]
    exact ⟨hr, by rw [hsession, hkept]; rfl⟩
  · intro b hb
    exact h.clean b (Table.mem_delete.mp hb).1
  · intro c hc
    obtain ⟨hc, hkept⟩ := Table.mem_delete.mp hc
    obtain ⟨hok, b, hb, hstate⟩ := h.call c hc
    refine ⟨hok, b, ?_, hstate⟩
    refine (s.batches.get?_delete _ _).trans ?_
    rw [hb, Option.any_some] at hkept
    rw [Option.filter_eq_some_iff]
    exact ⟨hb, by rw [hkept]; rfl⟩

theorem Batched.finalized (h : Batched s) (hleased : Leased s) {a : FinalizeArgs}
    {rows : List ToolCall} {u : State}
    (hr : s.runs.get? a.runId = some r) (hx : s.sessions.get? r.sessionId = some x)
    (howns : ownsLease r x a.leaseId)
    (hrows : ∀ c ∈ rows, c.batchId = a.batchId ∧ c.state = .pending ∧ c.resultFingerprint = "" ∧
      c.settledAt = 0)
    (hpending : rows ≠ [] → ∀ b ∈ s.batches, b.sessionId = x.sessionId → b.state ≠ .pending)
    (hu : s.insertBatch a x.sessionId rows now = .ok u) (hbatches : t.batches = u.batches)
    (hcalls : t.calls = u.calls)
    (hruns : t.runs = s.runs.update (fun r' => r'.runId = a.runId ∧ r'.leaseId = a.leaseId)
      a.completedRun a.completedRun_runId) : Batched t := by
  obtain ⟨batches, calls, rfl, hcases⟩ := insertBatch_ok hu
  have hgo : RunsGo s t := by
    refine runsGo_update a.completedRun_runId (fun _ => rfl) ?_ hruns
    intro r'
    simp [FinalizeArgs.completedRun]
  rcases hcases with ⟨-, rfl, rfl⟩ | ⟨hne, hins, hfold⟩
  · exact h.runs hgo hbatches hcalls
  obtain ⟨hfree, hget⟩ := Table.insert?_eq_some hins
  obtain ⟨hrunning, -, hlease, -⟩ := ownsLease_iff.mp howns
  have hbatch : ∀ b, b ∈ t.batches ↔ b ∈ s.batches ∨ b = a.batch x.sessionId now := by
    intro b
    rw [hbatches]
    exact Table.mem_insert? hins
  have hnone : ∀ b ∈ s.batches, b.sessionId = x.sessionId → ¬ t.Open b := by
    rintro b hb hsession (hstate | ⟨hsettled, r', hr', hrunning'⟩)
    · exact hpending hne b hb hsession hstate
    · -- the run that settled it is the one that ends here
      obtain ⟨r₀, hr₀, hid₀⟩ := h.settler b hb hsettled
      have hrunning₀ := hgo.back _ r₀ r' hr₀ hr' hrunning'
      obtain rfl := hleased.one r₀ (Table.get?_mem hr₀) r (Table.get?_mem hr) hrunning₀ hrunning
        (hid₀.trans (hsession.trans (Table.get?_key hx)))
      rw [hruns, Table.get?_update, hr₀, Option.map_some, if_pos] at hr'
      · obtain rfl := Option.some.inj hr'
        cases hrunning'
      · simp [Table.get?_key hr, hlease]
  constructor
  · intro b hb b' hb' ho ho' hsame
    rcases (hbatch b).mp hb with hb | rfl <;> rcases (hbatch b').mp hb' with hb' | rfl
    · exact h.one b hb b' hb' (h.open_back hgo hb ho) (h.open_back hgo hb' ho') hsame
    · exact absurd ho (hnone b hb hsame)
    · exact absurd ho' (hnone b' hb' hsame.symm)
    · rfl
  · intro b hb hstate
    rcases (hbatch b).mp hb with hb | rfl
    · obtain ⟨r', hr', hid⟩ := h.settler b hb hstate
      obtain ⟨r'', hr'', hid'⟩ := hgo.kept _ r' hr'
      exact ⟨r'', hr'', hid'.trans hid⟩
    · cases hstate
  · intro b hb
    rcases (hbatch b).mp hb with hb | rfl
    · exact h.clean b hb
    · exact fun _ => ⟨rfl, fun _ => rfl⟩
  · rw [hcalls, hbatches]
    intro c hc
    rcases (Table.mem_foldlM_insert? hfold).mp hc with hc | hc
    · obtain ⟨hok, b, hb, hstate⟩ := h.call c hc
      refine ⟨hok, b, ?_, hstate⟩
      refine (hget _).trans ?_
      rw [if_neg]
      · exact hb
      · intro heq
        rw [heq, hfree] at hb
        cases hb
    · obtain ⟨hid, hstate, hresult, hsettledAt⟩ := hrows c hc
      refine ⟨fun _ => ⟨hresult, hsettledAt⟩, a.batch x.sessionId now, ?_, hstate⟩
      exact (hget _).trans (if_pos hid)

theorem Batched.change (h : Batched s) (hleased : Leased s) (hc : Change G s t) : Batched t := by
  cases hc with
  | ticked now => exact h.congr rfl rfl rfl
  | published p _ => exact h.congr rfl rfl rfl
  | keyed keys => exact h.congr rfl rfl rfl
  | aged publicationId generation now => exact h.aged publicationId generation now
  | created a x now p sessions => exact h.congr rfl rfl rfl
  | dropped p _ => exact h.dropped p
  | closed p state expires _ _ => exact h.congr rfl rfl rfl
  | pruned now _ => exact h.congr rfl rfl rfl
  | admitted a x now runs _ _ hadmissible hruns =>
    obtain ⟨hfree, hget⟩ := Table.insert?_eq_some hruns
    refine h.runs ?_ rfl rfl
    have hold : ∀ id r, s.runs.get? id = some r → runs.get? id = some r := by
      intro id r hr
      rw [hget, if_neg]
      · exact hr
      · rintro rfl
        rw [hfree] at hr
        cases hr
    constructor
    · intro id r hr
      exact ⟨r, hold id r hr, rfl⟩
    · intro id r r' hr hr' hrunning
      rw [show (s.admittedBy a x now runs).runs.get? id = some r from hold id r hr] at hr'
      obtain rfl := Option.some.inj hr'
      exact hrunning
  | renewed runId leaseId duration now _ => exact h.congr rfl rfl rfl
  | settled b r results now hr _ hb hstate hsession => exact h.settled results now hr hb hstate hsession
  | finalized a r x rows now u responses _ hr hx howns _ hrows hpending hu =>
    refine h.finalized hleased hr hx howns hrows hpending hu rfl rfl ?_
    obtain ⟨batches, calls, rfl, -⟩ := insertBatch_ok hu
    rfl
  | failed r x status now hr _ howns hstatus =>
    refine h.reopened ?_ ?_ (p := fun id => id = r.runId) rfl rfl
    · refine runsGo_update (failedRun_runId status) (fun _ => rfl) ?_ rfl
      intro r'
      rcases hstatus with rfl | rfl <;> simp [failedRun]
    · intro id hid
      rw [of_decide_eq_true hid]
      exact ⟨r, hr, (ownsLease_iff.mp howns).1⟩
  | lapsed a x now _ _ _ =>
    refine h.runs (runsGo_update abandonedRun_runId (fun _ => rfl) ?_ rfl) rfl rfl
    intro r
    simp [abandonedRun]
  | abandoned x _ _ =>
    refine h.reopened ?_ ?_ (p := s.runningIn x.sessionId) rfl rfl
    · refine runsGo_update abandonedRun_runId (fun _ => rfl) ?_ rfl
      intro r
      simp [abandonedRun]
    · intro id hid
      obtain ⟨r, hr, hrunning⟩ := (Option.any_eq_true _ _).mp hid
      exact ⟨r, hr, (of_decide_eq_true hrunning).2⟩

theorem batched_init : Batched init := by
  constructor
  · intro b hb
    cases hb
  · intro b hb
    cases hb
  · intro b hb
    cases hb
  · intro c hc
    cases hc

theorem Batched.changes (hleased : Leased s) (h : Batched s) (hc : Changes G s t) : Batched t :=
  (changes_invariant (fun s => Leased s ∧ Batched s)
    (fun _ _ h hc => ⟨h.1.change hc, h.2.change h.1 hc⟩) hc ⟨hleased, h⟩).2

theorem batched_of_reach (h : Reach step init s) : Batched s :=
  batched_init.changes leased_init (changes_of_reach h)

/-! ## A settlement by a run that succeeded -/

def KeepsSettled (s t : State) : Prop :=
  ∀ id b b' r, s.batches.get? id = some b → t.batches.get? id = some b' → b.state = .settled →
    s.runs.get? b.settledByRunId = some r → r.status = .completed → b' = b

theorem keepsSettled_update {p : ToolBatch → Bool} {f : ToolBatch → ToolBatch}
    (hf : ∀ b, (f b).batchId = b.batchId) (hbatches : t.batches = s.batches.update p f hf)
    (hp : ∀ b ∈ s.batches, p b → b.state = .settled →
      ∃ r, s.runs.get? b.settledByRunId = some r ∧ r.status = .running) : KeepsSettled s t := by
  intro id b b' r hb hb' hstate hr hcompleted
  rw [hbatches, Table.get?_update, hb, Option.map_some] at hb'
  obtain rfl := Option.some.inj hb'
  split
  · next hmatch =>
    obtain ⟨r', hr', hrunning⟩ := hp b (Table.get?_mem hb) hmatch hstate
    rw [hr] at hr'
    obtain rfl := Option.some.inj hr'
    rw [hcompleted] at hrunning
    cases hrunning
  · rfl

theorem keepsSettled_of_eq (h : t.batches = s.batches) : KeepsSettled s t := by
  intro id b b' r hb hb' _ _ _
  rw [h, hb] at hb'
  exact (Option.some.inj hb').symm

theorem keepsSettled_change (hc : Change G s t) : KeepsSettled s t := by
  cases hc with
  | aged publicationId generation now =>
    refine keepsSettled_update (canceledBatch_batchId now) rfl ?_
    intro b _ hp hstate
    simp [hstate] at hp
  | dropped p _ =>
    intro id b b' r hb hb' _ _ _
    have hb' : (s.batches.delete _).get? id = some b' := hb'
    rw [Table.get?_delete, Option.filter_eq_some_iff, hb] at hb'
    exact (Option.some.inj hb'.1).symm
  | settled b r results now _ _ _ _ _ =>
    refine keepsSettled_update (settledBatch_batchId r.runId now) rfl ?_
    intro b' _ hp hstate
    simp [hstate] at hp
  | finalized a r x rows now u responses _ _ _ _ _ _ _ hu =>
    obtain ⟨batches, calls, rfl, hcases⟩ := insertBatch_ok hu
    intro id b b' r hb hb' _ _ _
    have hb' : batches.get? id = some b' := hb'
    rcases hcases with ⟨-, rfl, -⟩ | ⟨-, hins, -⟩
    · rw [hb] at hb'
      exact (Option.some.inj hb').symm
    · obtain ⟨hfree, hget⟩ := Table.insert?_eq_some hins
      rw [hget, if_neg, hb] at hb'
      · exact (Option.some.inj hb').symm
      · rintro rfl
        rw [hfree] at hb
        cases hb
  | failed r x status now hr _ howns _ =>
    refine keepsSettled_update reopenedBatch_batchId rfl ?_
    intro b _ hp _
    simp only [decide_eq_true_eq] at hp
    exact ⟨r, by rw [hp.2, hr], (ownsLease_iff.mp howns).1⟩
  | abandoned x _ _ =>
    refine keepsSettled_update reopenedBatch_batchId rfl ?_
    intro b _ hp _
    simp only [decide_eq_true_eq] at hp
    obtain ⟨r, hr, hrunning⟩ := (Option.any_eq_true _ _).mp hp.2
    exact ⟨r, hr, (of_decide_eq_true hrunning).2⟩
  | ticked now => exact keepsSettled_of_eq rfl
  | published p _ => exact keepsSettled_of_eq rfl
  | keyed keys => exact keepsSettled_of_eq rfl
  | created a x now p sessions => exact keepsSettled_of_eq rfl
  | closed p state expires _ _ => exact keepsSettled_of_eq rfl
  | pruned now _ => exact keepsSettled_of_eq rfl
  | admitted a x now runs _ _ _ _ => exact keepsSettled_of_eq rfl
  | renewed runId leaseId duration now _ => exact keepsSettled_of_eq rfl
  | lapsed a x now _ _ _ => exact keepsSettled_of_eq rfl

def KeepsCompleted (s t : State) : Prop :=
  ∀ id r r', s.runs.get? id = some r → t.runs.get? id = some r' → r.status = .completed → r' = r

theorem keepsCompleted_of_eq (h : t.runs = s.runs) : KeepsCompleted s t := by
  intro id r r' hr hr' _
  rw [h, hr] at hr'
  exact (Option.some.inj hr').symm

theorem keepsCompleted_update (hf : ∀ r, (f r).runId = r.runId)
    (hruns : t.runs = s.runs.update p f hf) (hp : ∀ r ∈ s.runs, p r → r.status = .running) :
    KeepsCompleted s t := by
  intro id r r' hr hr' hcompleted
  rw [hruns, Table.get?_update, hr, Option.map_some] at hr'
  obtain rfl := Option.some.inj hr'
  split
  · next hmatch =>
    have hrunning := hp r (Table.get?_mem hr) hmatch
    rw [hcompleted] at hrunning
    cases hrunning
  · rfl

theorem keepsCompleted_change (hc : Change G s t) : KeepsCompleted s t := by
  cases hc with
  | dropped p _ =>
    intro id r r' hr hr' _
    have hr' : (s.runs.delete _).get? id = some r' := hr'
    rw [Table.get?_delete, Option.filter_eq_some_iff, hr] at hr'
    exact (Option.some.inj hr'.1).symm
  | admitted a x now runs _ _ _ hruns =>
    obtain ⟨hfree, hget⟩ := Table.insert?_eq_some hruns
    intro id r r' hr hr' _
    have hr' : runs.get? id = some r' := hr'
    rw [hget, if_neg, hr] at hr'
    · exact (Option.some.inj hr').symm
    · rintro rfl
      rw [hfree] at hr
      cases hr
  | finalized a r x rows now u responses _ hr _ howns _ _ _ hu =>
    obtain ⟨batches, calls, rfl, -⟩ := insertBatch_ok hu
    refine keepsCompleted_update a.completedRun_runId rfl ?_
    intro r' hr' hp
    simp only [decide_eq_true_eq] at hp
    rw [Table.eq_of_key hr' (Table.get?_mem hr) (hp.1.trans (Table.get?_key hr).symm)]
    exact (ownsLease_iff.mp howns).1
  | failed r x status now hr _ howns _ =>
    refine keepsCompleted_update (failedRun_runId status) rfl ?_
    intro r' hr' hp
    simp only [decide_eq_true_eq] at hp
    rw [Table.eq_of_key hr' (Table.get?_mem hr) hp.1]
    exact (ownsLease_iff.mp howns).1
  | lapsed a x now _ _ _ =>
    refine keepsCompleted_update abandonedRun_runId rfl ?_
    intro r _ hp
    simp only [decide_eq_true_eq] at hp
    exact hp.2
  | abandoned x _ _ =>
    refine keepsCompleted_update abandonedRun_runId rfl ?_
    intro r _ hp
    simp only [decide_eq_true_eq] at hp
    exact hp.2
  | ticked now => exact keepsCompleted_of_eq rfl
  | published p _ => exact keepsCompleted_of_eq rfl
  | keyed keys => exact keepsCompleted_of_eq rfl
  | aged publicationId generation now => exact keepsCompleted_of_eq rfl
  | created a x now p sessions => exact keepsCompleted_of_eq rfl
  | closed p state expires _ _ => exact keepsCompleted_of_eq rfl
  | pruned now _ => exact keepsCompleted_of_eq rfl
  | renewed runId leaseId duration now _ => exact keepsCompleted_of_eq rfl
  | settled b r results now _ _ _ _ _ => exact keepsCompleted_of_eq rfl

theorem batch_before (hc : Change G s t) (hfinalize : ∀ s a now, ¬ G s ⟨.finalize a, now⟩)
    (h : (t.batches.get? id).isSome) : (s.batches.get? id).isSome := by
  have hupdate : ∀ {p : ToolBatch → Bool} {f : ToolBatch → ToolBatch}
      (hf : ∀ b, (f b).batchId = b.batchId), ((s.batches.update p f hf).get? id).isSome →
      (s.batches.get? id).isSome := by
    intro p f hf h
    rwa [Table.get?_update, Option.isSome_map] at h
  cases hc with
  | finalized a r x rows now u responses hok => exact absurd hok (hfinalize s a now)
  | aged publicationId generation now => exact hupdate (canceledBatch_batchId now) h
  | settled b r results now _ _ _ _ _ => exact hupdate (settledBatch_batchId r.runId now) h
  | failed r x status now _ _ _ _ => exact hupdate reopenedBatch_batchId h
  | abandoned x _ _ => exact hupdate reopenedBatch_batchId h
  | dropped p _ =>
    obtain ⟨b, hb⟩ := Option.isSome_iff_exists.mp h
    have hb : (s.batches.delete _).get? id = some b := hb
    rw [Table.get?_delete, Option.filter_eq_some_iff] at hb
    exact Option.isSome_iff_exists.mpr ⟨b, hb.1⟩
  | ticked now => exact h
  | published p _ => exact h
  | keyed keys => exact h
  | created a x now p sessions => exact h
  | closed p state expires _ _ => exact h
  | pruned now _ => exact h
  | admitted a x now runs _ _ _ _ => exact h
  | renewed runId leaseId duration now _ => exact h
  | lapsed a x now _ _ _ => exact h

variable {b' : ToolBatch} {results : List (String × String)}

theorem Batched.keeps_changes (hleased : Leased s) (h : Batched s) (hc : Changes G s t)
    (hfinalize : ∀ s a now, ¬ G s ⟨.finalize a, now⟩)
    (hb : s.batches.get? id = some b) (hsettled : b.state = .settled)
    (hr : s.runs.get? b.settledByRunId = some r) (hcompleted : r.status = .completed)
    (hb' : t.batches.get? id = some b') : b' = b ∧ t.runs.get? b.settledByRunId = some r := by
  induction hc generalizing b' with
  | refl =>
    rw [hb] at hb'
    exact ⟨(Option.some.inj hb').symm, hr⟩
  | @tail u v hrun hc ih =>
    obtain ⟨c, hmid⟩ := Option.isSome_iff_exists.mp
      (batch_before hc hfinalize (Option.isSome_iff_exists.mpr ⟨b', hb'⟩))
    obtain ⟨rfl, hr'⟩ := ih hmid
    obtain rfl := keepsSettled_change hc id c b' r hmid hb' hsettled hr' hcompleted
    have hv : Batched v := Batched.changes hleased h (hrun.tail hc)
    obtain ⟨r'', hr'', -⟩ := hv.settler b' (Table.get?_mem hb') hsettled
    obtain rfl := keepsCompleted_change hc _ r r'' hr' hr'' hcompleted
    exact ⟨rfl, hr''⟩

theorem Batched.keeps_perform (hleased : Leased s) (h : Batched s) {x : Tx}
    (hb : s.batches.get? id = some b) (hsettled : b.state = .settled)
    (hr : s.runs.get? b.settledByRunId = some r) (hcompleted : r.status = .completed)
    (hb' : (s.perform x).batches.get? id = some b') : b' = b := by
  obtain ⟨op, now⟩ := x
  by_cases hop : ∃ a, op = .finalize a
  · obtain ⟨a, rfl⟩ := hop
    have hb' : (Lib.settle (s.tick now) ((s.tick now).finalize a now)).batches.get? id = some b' :=
      hb'
    cases hfinal : (s.tick now).finalize a now with
    | error e =>
      rw [hfinal] at hb'
      rw [show s.batches.get? id = some b' from hb'] at hb
      exact Option.some.inj hb
    | ok reply =>
      rw [hfinal] at hb'
      rcases finalize_ok hfinal with ⟨-, hsame⟩ |
        ⟨-, r₀, x, rows, u, responses, -, hr₀, hx, howns, hcount, hpending, hu, ht⟩
      · rw [show Lib.settle (s.tick now) (.ok reply) = reply.2 from rfl, hsame] at hb'
        rw [show s.batches.get? id = some b' from hb'] at hb
        exact Option.some.inj hb
      · have hb' : u.batches.get? id = some b' := by
          rw [show Lib.settle (s.tick now) (.ok reply) = reply.2 from rfl, ht] at hb'
          exact hb'
        obtain ⟨batches, calls, rfl, hcases⟩ := insertBatch_ok hu
        rcases hcases with ⟨-, rfl, -⟩ | ⟨-, hins, -⟩
        · rw [show s.batches.get? id = some b' from hb'] at hb
          exact Option.some.inj hb
        · obtain ⟨hfree, hget⟩ := Table.insert?_eq_some hins
          have hb' : batches.get? id = some b' := hb'
          rw [hget, if_neg] at hb'
          · rw [show s.batches.get? id = some b' from hb'] at hb
            exact Option.some.inj hb
          · rintro rfl
            rw [show s.batches.get? _ = none from hfree] at hb
            cases hb
  · have hc : Changes (fun _ z => z = ⟨op, now⟩) s (s.perform ⟨op, now⟩) := changes_perform s _ rfl
    exact (Batched.keeps_changes hleased h hc (fun _ a _ heq => hop ⟨a, (Tx.mk.inj heq).1.symm⟩) hb
      hsettled hr hcompleted hb').1

/-! ## A settlement by a run that did not -/

/-- The condition on `acquire_api_session`: where it finds the lease of a session expired, the
run it abandons has settled no batch. -/
def Undoes (s : State) (x : Tx) : Prop :=
  ∀ a, x.op = .acquire a → ∀ y, s.sessions.get? a.sessionId = some y → overdue x.now y →
    ∀ b ∈ s.batches, b.state = .settled → s.runningIn a.sessionId b.settledByRunId = false

def Stands (s : State) : Prop :=
  ∀ b ∈ s.batches, b.state = .settled → ∃ r, s.runs.get? b.settledByRunId = some r ∧
    (r.status = .running ∨ r.status = .completed)

theorem Stands.congr (h : Stands s) (hbatches : t.batches = s.batches) (hruns : t.runs = s.runs) :
    Stands t := by
  unfold Stands
  rw [hbatches, hruns]
  exact h

theorem Stands.update (h : Stands s)
    (hf : ∀ r, (f r).runId = r.runId) (hruns : t.runs = s.runs.update p f hf)
    (hback : ∀ b ∈ t.batches, b.state = .settled → b ∈ s.batches ∧
      ∀ r, s.runs.get? b.settledByRunId = some r → p r → (f r).status = .completed) : Stands t := by
  intro b hb hstate
  obtain ⟨hb, hp⟩ := hback b hb hstate
  obtain ⟨r, hr, hstatus⟩ := h b hb hstate
  refine ⟨if p r then f r else r, ?_, ?_⟩
  · rw [hruns, Table.get?_update, hr]
    rfl
  · split
    · next hmatch => exact .inr (hp r hr hmatch)
    · exact hstatus

theorem mem_reopened {p : String → Bool}
    (hb : b ∈ (s.reopenBatches p).batches) (hstate : b.state = .settled) :
    b ∈ s.batches ∧ p b.settledByRunId = false := by
  obtain ⟨b₀, hb₀, rfl⟩ := (Table.mem_update reopenedBatch_batchId).mp hb
  split at hstate
  · cases hstate
  · next hother =>
    rw [if_neg hother]
    refine ⟨hb₀, ?_⟩
    by_contra hp
    exact hother (decide_eq_true ⟨hstate, by simpa using hp⟩)

theorem Stands.change (h : Stands s) (hbatched : Batched s) (hc : Change Undoes s t) :
    Stands t := by
  cases hc with
  | aged publicationId generation now =>
    intro b hb hstate
    obtain ⟨b₀, hb₀, rfl⟩ := (Table.mem_update (canceledBatch_batchId now)).mp hb
    split at hstate
    · cases hstate
    · next hother =>
      rw [if_neg hother]
      exact h b₀ hb₀ hstate
  | dropped p _ =>
    intro b hb hstate
    obtain ⟨hb, hkept⟩ := Table.mem_delete.mp hb
    obtain ⟨r, hr, hstatus⟩ := h b hb hstate
    obtain ⟨r', hr', hsession⟩ := hbatched.settler b hb hstate
    rw [hr] at hr'
    obtain rfl := Option.some.inj hr'
    refine ⟨r, ?_, hstatus⟩
    refine (s.runs.get?_delete _ _).trans ?_
    rw [Option.filter_eq_some_iff]
    exact ⟨hr, by rw [hsession, hkept]; rfl⟩
  | admitted a x now runs _ _ _ hruns =>
    obtain ⟨hfree, hget⟩ := Table.insert?_eq_some hruns
    intro b hb hstate
    obtain ⟨r, hr, hstatus⟩ := h b hb hstate
    refine ⟨r, ?_, hstatus⟩
    show runs.get? _ = some r
    rw [hget, if_neg]
    · exact hr
    · intro heq
      rw [heq, hfree] at hr
      cases hr
  | settled b r results now hr hrunning _ _ _ =>
    intro b' hb' hstate
    obtain ⟨b₀, hb₀, rfl⟩ := (Table.mem_update (settledBatch_batchId r.runId now)).mp hb'
    split at hstate
    · next hmatch =>
      rw [if_pos hmatch]
      exact ⟨r, hr, .inl hrunning⟩
    · next hother =>
      rw [if_neg hother]
      exact h b₀ hb₀ hstate
  | finalized a r x rows now u responses _ _ _ _ _ _ _ hu =>
    obtain ⟨batches, calls, rfl, hcases⟩ := insertBatch_ok hu
    refine h.update a.completedRun_runId rfl ?_
    intro b hb hstate
    refine ⟨?_, fun _ _ _ => rfl⟩
    have hb : b ∈ batches := hb
    rcases hcases with ⟨-, rfl, -⟩ | ⟨-, hins, -⟩
    · exact hb
    · rcases (Table.mem_insert? hins).mp hb with hb | rfl
      · exact hb
      · cases hstate
  | failed r x status now hr _ _ _ =>
    refine h.update (failedRun_runId status) rfl ?_
    intro b hb hstate
    obtain ⟨hb, hother⟩ := mem_reopened (s := s) (p := fun id => id = r.runId) hb hstate
    refine ⟨hb, ?_⟩
    intro r' hr' hmatch
    simp only [decide_eq_true_eq] at hmatch
    simp [← Table.get?_key hr', hmatch.1] at hother
  | lapsed a x now hok hx hover =>
    refine h.update abandonedRun_runId rfl ?_
    intro b hb hstate
    refine ⟨hb, ?_⟩
    intro r hr hmatch
    simp only [decide_eq_true_eq] at hmatch
    have hnone := hok a rfl x hx hover b hb hstate
    simp [runningIn, hr, hmatch] at hnone
  | abandoned x _ _ =>
    refine h.update abandonedRun_runId rfl ?_
    intro b hb hstate
    obtain ⟨hb, hother⟩ := mem_reopened hb hstate
    refine ⟨hb, ?_⟩
    intro r hr hmatch
    simp only [decide_eq_true_eq] at hmatch
    simp [runningIn, hr, hmatch] at hother
  | ticked now => exact h.congr rfl rfl
  | published p _ => exact h.congr rfl rfl
  | keyed keys => exact h.congr rfl rfl
  | created a x now p sessions => exact h.congr rfl rfl
  | closed p state expires _ _ => exact h.congr rfl rfl
  | pruned now _ => exact h.congr rfl rfl
  | renewed runId leaseId duration now _ => exact h.congr rfl rfl

theorem stands_of_runs (hs : Runs step Undoes init s) : Stands s := by
  have hguard : Runs step (fun s x => Undoes (s.tick x.now) x) init s := hs
  have hc := changes_of_runs hguard
  refine (changes_invariant (fun s => (Leased s ∧ Batched s) ∧ Stands s) ?_ hc
    ⟨⟨leased_init, batched_init⟩, ?_⟩).2
  · intro t u h hc
    exact ⟨⟨h.1.1.change hc, h.1.2.change h.1.1 hc⟩, h.2.change h.1.2 hc⟩
  · intro b hb
    cases hb

/-! ## The lease check of an admission against the abandonment -/

/-- The two leave the same store exactly when there is nothing to undo. -/
theorem expireLease_eq_iff {sessionId : String}
    (hx : s.sessions.get? sessionId = some x) (hrunning : x.state = .running) (hbatched : Batched s) :
    s.expireLease sessionId = s.abandonSession sessionId ↔
      ∀ b ∈ s.batches, b.state = .settled → s.runningIn sessionId b.settledByRunId = false := by
  constructor
  · intro heq b hb hstate
    by_contra hsettler
    have hmem : b ∈ (s.abandonSession sessionId).batches := by
      rw [← heq]
      exact hb
    exact hsettler (mem_reopened hmem hstate).2
  · intro hnone
    have hsessions : s.sessions.update (fun y => y.sessionId = sessionId) quarantinedSession
        quarantinedSession_sessionId = s.sessions.update
        (fun y => y.sessionId = sessionId ∧ y.state = .running) quarantinedSession
        quarantinedSession_sessionId := by
      refine Table.update_congr quarantinedSession_sessionId ?_
      intro y hy
      by_cases hid : y.sessionId = sessionId
      · rw [Table.eq_of_key hy (Table.get?_mem hx) (hid.trans (Table.get?_key hx).symm)]
        simp [Table.get?_key hx, hrunning]
      · simp [hid]
    have hbatches : (s.reopenBatches (s.runningIn sessionId)).batches = s.batches := by
      refine Table.update_eq_self reopenedBatch_batchId ?_
      intro b hb
      rw [decide_eq_false_iff_not]
      rintro ⟨hstate, hsettler⟩
      rw [hnone b hb hstate] at hsettler
      cases hsettler
    have hcalls : (s.reopenBatches (s.runningIn sessionId)).calls = s.calls := by
      refine Table.update_eq_self reopenedCall_key ?_
      intro c hc
      obtain ⟨-, b, hb, -⟩ := hbatched.call c hc
      rw [hb, Option.any_some, decide_eq_false_iff_not]
      rintro ⟨-, hsettler⟩
      simp only [decide_eq_true_eq] at hsettler
      rw [hnone b (Table.get?_mem hb) hsettler.1] at hsettler
      cases hsettler.2
    unfold expireLease abandonSession
    dsimp only
    rw [hbatches, hcalls, hsessions]
    rfl

theorem acquire_overdue {a : AcquireArgs}
    (hids : a.sessionId ≠ "" ∧ a.runId ≠ "" ∧ a.requestId ≠ "" ∧ a.bodyFingerprint ≠ "")
    (hdurations : 0 < a.leaseDuration ∧ 0 ≤ a.replayWindow)
    (hx : s.sessions.get? a.sessionId = some x) (hover : overdue now x) :
    s.acquire a now = .ok (.unavailable, s.expireLease a.sessionId) := by
  simp only [overdue, decide_eq_true_eq] at hover
  have hids' : ¬ (a.sessionId = "" ∨ a.runId = "" ∨ a.requestId = "" ∨ a.bodyFingerprint = "") := by
    tauto
  have hdurations' : ¬ (a.leaseDuration ≤ 0 ∨ a.replayWindow < 0) := by
    rintro (hle | hlt)
    · exact absurd hdurations.1 (not_lt.mpr hle)
    · exact absurd hdurations.2 (not_le.mpr hlt)
  unfold acquire
  rw [if_neg hids', if_neg hdurations', hx]
  dsimp only
  rw [if_pos hover.1, if_pos hover.2]

/-! ## What a settlement has checked -/

theorem normalizedResults_ids {seen : List String} {results' : List (String × String)}
    (h : normalizedResults seen results = .ok results') :
    results'.map Prod.fst = results.map fun p => strip p.1 := by
  induction results generalizing seen results' with
  | nil =>
    obtain rfl := Except.ok.inj h
    rfl
  | cons p results ih =>
    unfold normalizedResults at h
    dsimp only at h
    split at h
    · cases h
    split at h
    · cases h
    cases hrest : normalizedResults (strip p.1 :: seen) results with
    | error e =>
      rw [hrest] at h
      cases h
    | ok rest =>
      rw [hrest] at h
      obtain rfl := Except.ok.inj h
      rw [List.map_cons, List.map_cons, ih hrest]

theorem mem_callsOf {batchId : String} {c : ToolCall} :
    c ∈ s.callsOf batchId ↔ c ∈ s.calls ∧ c.batchId = batchId := by
  unfold callsOf
  rw [List.mem_insertionSort, List.mem_filter, decide_eq_true_eq]
  rfl

/-- A settlement names exactly the calls of the batch, under the definitions they were made
with. -/
theorem settle_exact {runId leaseId : String}
    {schema : String → Option String} {idempotent : Bool} {row : ToolBatch}
    (h : s.settle runId leaseId results schema now = .ok ((idempotent, row), t)) :
    (∀ id, id ∈ results.map (fun p => strip p.1) ↔
      ∃ c ∈ s.calls, c.batchId = row.batchId ∧ c.callId = id) ∧
    ∀ c ∈ s.calls, c.batchId = row.batchId → schema c.toolName = some c.schemaFingerprint := by
  obtain ⟨results', r, x, b, hresults, -, -, -, -, hunknown, hmissing, hschema, hcases⟩ := settle_ok h
  have hid : row.batchId = b.batchId := by
    rcases hcases with ⟨-, -, -, rfl, -⟩ | ⟨-, -, rfl, -⟩
    · rfl
    · rfl
  rw [hid, ← normalizedResults_ids hresults]
  refine ⟨?_, ?_⟩
  · intro id
    constructor
    · intro hmem
      by_contra hnone
      have hfound : id ∈ unknownIds results' (s.callsOf b.batchId) := by
        unfold unknownIds
        rw [List.mem_insertionSort, List.mem_filter]
        refine ⟨hmem, List.all_eq_true.mpr ?_⟩
        intro c hc
        obtain ⟨hc, hbatch⟩ := mem_callsOf.mp hc
        simp only [decide_eq_true_eq]
        exact fun heq => hnone ⟨c, hc, hbatch, heq⟩
      rw [hunknown] at hfound
      cases hfound
    · rintro ⟨c, hc, hbatch, rfl⟩
      by_contra hnone
      have hfound : c.callId ∈ missingIds results' (s.callsOf b.batchId) := by
        unfold missingIds
        rw [List.mem_filter]
        exact ⟨List.mem_map_of_mem (mem_callsOf.mpr ⟨hc, hbatch⟩), by simpa using hnone⟩
      rw [hmissing] at hfound
      cases hfound
  · intro c hc hbatch
    have hnot := List.find?_eq_none.mp hschema c (mem_callsOf.mpr ⟨hc, hbatch⟩)
    simpa using hnot

/-- **Client tool batches settle exactly once.** In every run in which an admission that finds
a lease expired finds no settlement to undo: a session has at most one pending batch; a
settled batch was settled by a run of its session that is running or succeeded, and nothing of
an undone settlement is left; what a successful run settled stays; a settlement names exactly
the calls of the batch, with unchanged schemas. And the lease check of an admission leaves
the store the abandonment would leave exactly when the run it abandons has settled nothing. -/
theorem batches_settle_once (hs : Runs step Undoes init s) :
    (∀ b ∈ s.batches, ∀ b' ∈ s.batches, b.state = .pending → b'.state = .pending →
      b.sessionId = b'.sessionId → b = b') ∧
    (∀ b ∈ s.batches, b.state = .settled → ∃ r ∈ s.runs, r.runId = b.settledByRunId ∧
      r.sessionId = b.sessionId ∧ (r.status = .running ∨ r.status = .completed)) ∧
    (∀ b ∈ s.batches, b.state = .pending → b.settledByRunId = "" ∧ b.settledAt = 0 ∧
      ∀ c ∈ s.calls, c.batchId = b.batchId →
        c.state = .pending ∧ c.resultFingerprint = "" ∧ c.settledAt = 0) ∧
    (∀ x : Tx, ∀ b ∈ s.batches, ∀ r ∈ s.runs, b.state = .settled → b.settledByRunId = r.runId →
      r.status = .completed → ∀ b' ∈ (s.perform x).batches, b'.batchId = b.batchId → b' = b) ∧
    (∀ runId leaseId results schema now idempotent row t,
      s.settle runId leaseId results schema now = .ok ((idempotent, row), t) →
      (∀ id, id ∈ results.map (fun p => strip p.1) ↔
        ∃ c ∈ s.calls, c.batchId = row.batchId ∧ c.callId = id) ∧
      ∀ c ∈ s.calls, c.batchId = row.batchId → schema c.toolName = some c.schemaFingerprint) ∧
    ∀ a now, ∀ x ∈ s.sessions, x.sessionId = a.sessionId → overdue now x →
      a.sessionId ≠ "" ∧ a.runId ≠ "" ∧ a.requestId ≠ "" ∧ a.bodyFingerprint ≠ "" →
      0 < a.leaseDuration ∧ 0 ≤ a.replayWindow →
      ∃ t, s.acquire a now = .ok (.unavailable, t) ∧ (t = s.abandonSession a.sessionId ↔
        ∀ b ∈ s.batches, b.state = .settled →
          s.runningIn a.sessionId b.settledByRunId = false) := by
  have hreach : Reach step init s := hs.mono fun _ _ _ => trivial
  have hleased := leased_of_reach hreach
  have h := batched_of_reach hreach
  refine ⟨?_, ?_, ?_, ?_, ?_, ?_⟩
  · intro b hb b' hb' hstate hstate' hsession
    exact h.one b hb b' hb' (.inl hstate) (.inl hstate') hsession
  · intro b hb hstate
    obtain ⟨r, hr, hsession⟩ := h.settler b hb hstate
    obtain ⟨r', hr', hstatus⟩ := stands_of_runs hs b hb hstate
    rw [hr] at hr'
    obtain rfl := Option.some.inj hr'
    exact ⟨r, Table.get?_mem hr, Table.get?_key hr, hsession, hstatus⟩
  · intro b hb hstate
    obtain ⟨hby, hat⟩ := h.clean b hb (by simp [hstate])
    refine ⟨hby, hat hstate, ?_⟩
    intro c hc hbatch
    obtain ⟨hok, b', hb', hsame⟩ := h.call c hc
    rw [hbatch, Table.get?_of_mem hb] at hb'
    obtain rfl := Option.some.inj hb'
    have hpending : c.state = .pending := hsame.trans hstate
    exact ⟨hpending, hok (by simp [hpending])⟩
  · intro x b hb r hr hstate hby hcompleted b' hb' hid
    have hb' := Table.get?_of_mem hb'
    rw [hid] at hb'
    exact Batched.keeps_perform hleased h (Table.get?_of_mem hb) hstate
      (hby ▸ Table.get?_of_mem hr) hcompleted hb'
  · intro runId leaseId results schema now idempotent row t hsettle
    exact settle_exact hsettle
  · intro a now x hx hid hover hids hdurations
    have hx : s.sessions.get? a.sessionId = some x := hid ▸ Table.get?_of_mem hx
    refine ⟨_, acquire_overdue hids hdurations hx hover, expireLease_eq_iff hx ?_ h⟩
    simp only [overdue, decide_eq_true_eq] at hover
    exact hover.1

/-! ## A settlement that is not undone -/

def sampleSchema (name : String) : Option String := if name = "tool" then some "fp" else none

/-- A first run leaves a call for the client, a second one settles it. -/
def sampleSettled : List Tx :=
  sampleSetup ++
    [⟨.acquire (sampleRequest "apis_1" "r1" "1"), 1⟩,
      ⟨.finalize
        { runId := "r1", leaseId := "apil_1", visibleHeadHash := "h1", itemCount := 2
          pendingCalls := [⟨"c1", "tool", "{}"⟩], schema := sampleSchema, token := "1" }, 2⟩,
      ⟨.acquire { sampleRequest "apis_1" "r2" "2" with
        expectedHeadHash := "h1", expectedItemCount := 2 }, 3⟩,
      ⟨.settle "r2" "apil_2" [("c1", "res")] sampleSchema, 4⟩]

/-- The guard as it is evaluated along a sample run. -/
def undoesCheck (s : State) (x : Tx) : Bool :=
  match x.op with
  | .acquire a => (s.sessions.get? a.sessionId).all fun y => !overdue x.now y ||
      s.batches.rows.all fun b =>
        !decide (b.state = .settled) || !s.runningIn a.sessionId b.settledByRunId
  | _ => true

theorem undoes_of_check {x : Tx} (h : undoesCheck s x = true) : Undoes s x := by
  intro a ha y hy hover b hb hstate
  simp only [undoesCheck, ha, hy, Option.all_some, hover, Bool.not_true, Bool.false_or] at h
  have hrow := List.all_eq_true.mp h b hb
  simpa [hstate] using hrow

/-- The second run fails, and the batch is pending again. -/
theorem batches_settle_once_reopened :
    ∃ s, Runs step Undoes init s ∧
      s.batches.rows.map (fun b => (b.state, b.settledByRunId)) = [(.pending, "")] ∧
      ∀ b ∈ s.batches, b.state = .pending → b.settledByRunId = "" ∧ b.settledAt = 0 ∧
        ∀ c ∈ s.calls, c.batchId = b.batchId →
          c.state = .pending ∧ c.resultFingerprint = "" ∧ c.settledAt = 0 := by
  have hrun : Runs step (fun s x => undoesCheck s x = true) init
      (List.foldl perform init (sampleSettled ++ [⟨.fail "r2" "apil_2" "boom" false, 5⟩])) :=
    runs_of_guarded (fun _ _ => rfl) (by decide +kernel)
  have hrun := hrun.mono fun _ _ => undoes_of_check
  obtain ⟨-, -, hclean, -⟩ := batches_settle_once hrun
  exact ⟨_, hrun, by decide +kernel, hclean⟩

/-- An `acquire` after the deadline abandons the second run and leaves the batch settled. The
loop over the expired leases would have reopened it. -/
theorem settlement_survives_abandonment :
    (∃ s, Reach step init s ∧ ∃ b ∈ s.batches.rows, b.state = .settled ∧
      ∃ r ∈ s.runs.rows, r.runId = b.settledByRunId ∧ r.status = .abandoned) ∧
    ∃ s, Reach step init s ∧ ∃ x ∈ s.sessions.rows, overdue (200 * second) x = true ∧
      ∃ t, s.acquire (sampleRequest "apis_1" "r3" "3") (200 * second) = .ok (.unavailable, t) ∧
        t.batches.rows ≠ (s.abandonSession x.sessionId).batches.rows := by
  have hsettled : Reach step init (sampleSettled.foldl perform init) :=
    reach_foldl (fun _ _ => rfl) sampleSettled init
  refine ⟨⟨_, hsettled.snoc (a := ⟨.acquire (sampleRequest "apis_1" "r3" "3"), 200 * second⟩)
    trivial rfl, by decide +kernel⟩, _, hsettled, ?_⟩
  have hover : ∃ x ∈ (sampleSettled.foldl perform init).sessions.rows,
      overdue (200 * second) x = true ∧ x.sessionId = "apis_1" := by
    decide +kernel
  obtain ⟨x, hx, hover, hid⟩ := hover
  refine ⟨x, hx, hover, _, acquire_overdue (by decide) (by decide) ?_ hover, ?_⟩
  · exact Table.get?_eq_some.mpr ⟨hx, hid⟩
  · rw [hid]
    decide +kernel

end State

end PawFlow.StandardApi
