import PawFlow.StandardApi.Batches

/-!
# Cleanup of expired sessions

`abandon_expired_api_runs` followed by a sweep with room for every session. The sweep selects
idle and quarantined sessions, so that what it can miss are sessions that are already marked
expired (by a late `acquire_api_session`, or by a sweep that was interrupted after its claim)
and sessions that wait for tool results in a generation that is over.
-/

namespace PawFlow.StandardApi

open PawFlow.Lib

namespace State

/-- The last transaction for a claimed row; it counts the row when it was deleted. -/
def sweepRow (deleteConversation : String → Bool) (now : Time) (acc : Nat × State) (row : Session) :
    Nat × State :=
  let removed := deleteConversation row.internalConversationId
  let found := acc.2.sessions.rows.any fun x => x.sessionId = row.sessionId ∧ x.state = .expired
  (acc.1 + if removed && found then 1 else 0,
    Lib.settle acc.2 (acc.2.finishSweep row.sessionId removed now))

/-- `sweep_expired_api_sessions`. -/
def sweepExpired (deleteConversation : String → Bool) (now : Time) (limit : Nat) (s : State) :
    Except Error (Nat × State) :=
  (s.claimSweep now limit).map fun claim =>
    claim.1.foldl (sweepRow deleteConversation now) (0, claim.2)

/-- A run could still be admitted on the session, in the current generation. -/
def acquirable (s : State) (now : Time) (x : Session) : Bool :=
  s.ofCurrentGeneration x ∧ (x.state = .idle ∧ now < x.expiresAt ∨ x.state = .waitingTool ∧
    s.hasPendingBatch x.sessionId x.visibleHeadHash x.itemCount)

def Waiting (s : State) : Prop :=
  ∀ x ∈ s.sessions, x.state = .waitingTool → ∃ b ∈ s.batches, b.sessionId = x.sessionId ∧
    b.visibleHeadHash = x.visibleHeadHash ∧ b.itemCount = x.itemCount ∧ b.state = .pending

variable {G : State → Tx → Prop} {s t : State}

theorem hasPendingBatch_iff {sessionId headHash : String} {itemCount : Int} :
    s.hasPendingBatch sessionId headHash itemCount = true ↔ ∃ b ∈ s.batches,
      b.sessionId = sessionId ∧ b.visibleHeadHash = headHash ∧ b.itemCount = itemCount ∧
      b.state = .pending := by
  simp [hasPendingBatch, Table.mem_def]

/-! ## Waiting sessions -/

theorem Waiting.of_sessions (h : Waiting s)
    (hsessions : ∀ x ∈ t.sessions, x.state = .waitingTool → x ∈ s.sessions)
    (hbatches : ∀ x ∈ t.sessions, x.state = .waitingTool → ∀ b ∈ s.batches,
      b.sessionId = x.sessionId → b.state = .pending → b ∈ t.batches) : Waiting t := by
  intro x hx hstate
  obtain ⟨b, hb, hsession, hhead, hcount, hpending⟩ := h x (hsessions x hx hstate) hstate
  exact ⟨b, hbatches x hx hstate b hb hsession hpending, hsession, hhead, hcount, hpending⟩

theorem Waiting.congr (h : Waiting s) (hsessions : t.sessions = s.sessions)
    (hbatches : t.batches = s.batches) : Waiting t := by
  refine h.of_sessions ?_ ?_
  · rw [hsessions]
    exact fun _ hx _ => hx
  · rw [hbatches]
    exact fun _ _ _ _ hb _ _ => hb

theorem Waiting.update (h : Waiting s) {p : Session → Bool} {f : Session → Session}
    (hf : ∀ x, (f x).sessionId = x.sessionId) (hsessions : t.sessions = s.sessions.update p f hf)
    (hstate : ∀ x ∈ s.sessions, p x = true → (f x).state ≠ .waitingTool)
    (hbatches : ∀ b ∈ s.batches, b.state = .pending → b ∈ t.batches) : Waiting t := by
  refine h.of_sessions ?_ fun _ _ _ b hb _ hpending => hbatches b hb hpending
  intro x hx hwaiting
  rw [hsessions] at hx
  obtain ⟨y, hy, rfl⟩ := (Table.mem_update hf).mp hx
  split at hwaiting
  · next hp => exact absurd hwaiting (hstate y hy hp)
  · next hp =>
    rw [if_neg hp]
    exact hy

theorem mem_reopenBatches {q : String → Bool} {b : ToolBatch} (hb : b ∈ s.batches)
    (hpending : b.state = .pending) : b ∈ (s.reopenBatches q).batches := by
  refine (Table.mem_update reopenedBatch_batchId).mpr ⟨b, hb, ?_⟩
  rw [if_neg (by simp [hpending])]

theorem Waiting.aged (h : Waiting s) (publicationId : String) (generation : Nat) (now : Time) :
    Waiting (s.expireOldGenerations publicationId generation now) := by
  -- a session that waits afterwards is not of an older generation
  have hback : ∀ x ∈ (s.expireOldGenerations publicationId generation now).sessions,
      x.state = .waitingTool → x ∈ s.sessions ∧
        ¬ (x.ns.publicationId = publicationId ∧ x.ns.apiGeneration ≠ generation) := by
    intro x hx hwaiting
    obtain ⟨y, hy, rfl⟩ := (Table.mem_update (agedSession_sessionId now)).mp hx
    split at hwaiting
    · simp only [agedSession] at hwaiting
      split at hwaiting
      · cases hwaiting
      · next hne => exact absurd hwaiting hne
    · next hp =>
      rw [if_neg hp]
      refine ⟨hy, ?_⟩
      rintro ⟨hid, holder⟩
      exact hp (decide_eq_true ⟨hid, holder, by simp [hwaiting]⟩)
  refine h.of_sessions (fun x hx hwaiting => (hback x hx hwaiting).1) ?_
  intro x hx hwaiting b hb hsession _
  obtain ⟨hmem, hcurrent⟩ := hback x hx hwaiting
  refine (Table.mem_update (canceledBatch_batchId now)).mpr ⟨b, hb, ?_⟩
  rw [if_neg]
  simp only [Bool.decide_and, Bool.and_eq_true, decide_eq_true_eq, not_and]
  intro _ holder
  rw [ofOlderGeneration, hsession, Table.get?_of_mem hmem, Option.any_some,
    decide_eq_true_eq] at holder
  exact hcurrent holder

theorem Waiting.dropped (h : Waiting s) (p : Session → Bool) : Waiting (s.dropSessions p) := by
  refine h.of_sessions (fun x hx _ => (Table.mem_delete.mp hx).1) ?_
  intro x hx _ b hb hsession _
  obtain ⟨hmem, hkept⟩ := Table.mem_delete.mp hx
  refine Table.mem_delete.mpr ⟨hb, ?_⟩
  change (s.sessions.get? b.sessionId).any p = false
  rw [hsession, Table.get?_of_mem hmem, Option.any_some, hkept]

theorem Waiting.settled (h : Waiting s) (hleased : Leased s) {b : ToolBatch} {r : Run}
    (results : List (String × String)) (now : Time) (hr : s.runs.get? r.runId = some r)
    (hrunning : r.status = .running) (hb : b ∈ s.batches) (hsession : b.sessionId = r.sessionId) :
    Waiting (s.settleBatch b r.runId results now) := by
  refine h.of_sessions (fun x hx _ => hx) ?_
  intro x hx hwaiting b' hb' hid _
  refine (Table.mem_update (settledBatch_batchId r.runId now)).mpr ⟨b', hb', ?_⟩
  rw [if_neg]
  intro hsettles
  have hsame := Table.eq_of_key hb' hb (of_decide_eq_true hsettles).1
  obtain ⟨y, hy, hstate, -⟩ := hleased.run r (Table.get?_mem hr) hrunning
  rw [← hsession, ← hsame, hid] at hy
  have hy := hy.symm.trans (Table.get?_of_mem hx)
  obtain rfl := Option.some.inj hy
  rw [hwaiting] at hstate
  cases hstate

variable {now : Time} {limit : Nat} {deleteConversation : String → Bool}

variable {x : Session} {m : Nat}

theorem Waiting.finalized (h : Waiting s) {a : FinalizeArgs} {rows : List ToolCall}
    {expiresAt : Time} {u : State} (responses : Table String Response Response.responseId)
    (hu : s.insertBatch a x.sessionId rows now = .ok u) :
    Waiting ({ u with responses }.publish a x.sessionId (rows ≠ []) expiresAt) := by
  obtain ⟨batches, calls, rfl, hcases⟩ := insertBatch_ok hu
  have hkept : ∀ b ∈ s.batches, b ∈ batches := by
    intro b hb
    rcases hcases with ⟨-, rfl, -⟩ | ⟨-, hins, -⟩
    · exact hb
    · exact (Table.mem_insert? hins).mpr (.inl hb)
  intro y hy hwaiting
  obtain ⟨y₀, hy₀, rfl⟩ := (Table.mem_update (a.publishedSession_sessionId _ _)).mp hy
  split at hwaiting
  · next hp =>
    rw [if_pos hp]
    simp only [decide_eq_true_eq] at hp
    rcases hcases with ⟨hnil, -, -⟩ | ⟨-, hins, -⟩
    · simp [FinalizeArgs.publishedSession, hnil] at hwaiting
    · exact ⟨a.batch x.sessionId now, (Table.mem_insert? hins).mpr (.inr rfl), hp.1.symm, rfl, rfl,
        rfl⟩
  · next hp =>
    rw [if_neg hp]
    obtain ⟨b, hb, hbatch⟩ := h y₀ hy₀ hwaiting
    exact ⟨b, hkept b hb, hbatch⟩

theorem Waiting.change (h : Waiting s) (hleased : Leased s) (hc : Change G s t) : Waiting t := by
  cases hc with
  | ticked now => exact h.congr rfl rfl
  | published p _ => exact h.congr rfl rfl
  | keyed keys => exact h.congr rfl rfl
  | pruned now _ => exact h.congr rfl rfl
  | aged publicationId generation now => exact h.aged publicationId generation now
  | created a x now p sessions _ _ _ hstate _ _ _ hins =>
    refine h.of_sessions ?_ fun _ _ _ _ hb _ _ => hb
    intro y hy hwaiting
    rcases (Table.mem_insert? hins).mp hy with hy | rfl
    · exact hy
    · rw [hstate] at hwaiting
      cases hwaiting
  | dropped p _ => exact h.dropped p
  | closed p state expires _ hstate =>
    refine h.update (closedSession_sessionId state expires) rfl ?_ fun _ hb _ => hb
    intro x _ _ hwaiting
    simp only [closedSession] at hwaiting
    simp [hwaiting] at hstate
  | admitted a x now runs _ _ _ _ =>
    refine h.update (a.leasedSession_sessionId now) rfl ?_ fun _ hb _ => hb
    intro x _ _ hwaiting
    cases hwaiting
  | renewed runId leaseId duration now _ =>
    refine h.update (renewedSession_sessionId (now + duration)) rfl ?_ fun _ hb _ => hb
    intro x _ hp hwaiting
    simp only [decide_eq_true_eq] at hp
    rw [show (renewedSession (now + duration) x).state = .running from hp.2] at hwaiting
    cases hwaiting
  | settled b r results now hr hrunning hb _ hsession =>
    exact h.settled hleased results now hr hrunning hb hsession
  | finalized a r x rows now u responses _ _ _ _ _ _ _ hu => exact h.finalized responses hu
  | failed r x status now _ _ _ _ =>
    refine h.update (failedSession_sessionId now) rfl ?_ fun _ hb hpending =>
      mem_reopenBatches (q := fun id => id = r.runId) hb hpending
    intro x _ _ hwaiting
    cases hwaiting
  | lapsed a x now _ _ _ =>
    refine h.update quarantinedSession_sessionId rfl ?_ fun _ hb _ => hb
    intro x _ _ hwaiting
    cases hwaiting
  | abandoned x _ _ =>
    refine h.update quarantinedSession_sessionId rfl ?_ fun _ => mem_reopenBatches
    intro x _ _ hwaiting
    cases hwaiting

theorem Waiting.changes (hleased : Leased s) (h : Waiting s) (hc : Changes G s t) : Waiting t := by
  refine (changes_invariant (fun s => Leased s ∧ Waiting s) ?_ hc ⟨hleased, h⟩).2
  rintro t u ⟨hleased, h⟩ hc
  exact ⟨hleased.change hc, h.change hleased hc⟩

theorem waiting_of_reach (hs : Reach step init s) : Waiting s := by
  refine Waiting.changes leased_init ?_ (changes_of_reach hs)
  intro x hx
  exact absurd hx (Table.not_mem_empty x)

/-! ## What the two passes leave -/

/-- The row of a session once the expired leases are gone. -/
def afterAbandon (now : Time) (x : Session) : Session :=
  if overdue now x then quarantinedSession x else x

variable {n : Nat}

/-- `abandon_expired_api_runs` quarantines the overdue sessions and no others. -/
theorem get?_abandonExpired (h : s.abandonExpired now = .ok (n, t))
    (id : String) : t.sessions.get? id = (s.sessions.get? id).map (afterAbandon now) := by
  obtain ⟨-, rfl⟩ := ok_pair_inj h
  refine (foldl_at Session.sessionId (fun s id => s.sessions.get? id)
    (f := Option.map fun x => if x.state = .running then quarantinedSession x else x) ?_ ?_ _ s
      id).trans ?_
  · intro o
    rw [Option.map_map]
    congr 1
    funext x
    by_cases hstate : x.state = .running
    · simp [hstate, quarantinedSession]
    · simp [hstate]
  · intro s x k
    refine (s.sessions.get?_update _ _ quarantinedSession_sessionId k).trans ?_
    cases hk : s.sessions.get? k with
    | none => simp
    | some y =>
      have hkey := Table.get?_key hk
      by_cases heq : k = x.sessionId
      · simp [heq, hkey.trans heq]
      · simp [heq, hkey]
  · cases hid : s.sessions.get? id with
    | none => simp
    | some x =>
      have hkey := Table.get?_key hid
      by_cases hover : overdue now x = true
      · have hmem : id ∈ (s.sessions.rows.filter (overdue now)).map Session.sessionId :=
          List.mem_map.mpr ⟨x, List.mem_filter.mpr ⟨Table.get?_mem hid, hover⟩, hkey⟩
        have hstate : x.state = .running := (of_decide_eq_true hover).1
        simp [hmem, afterAbandon, hover, hstate]
      · have hmem : id ∉ (s.sessions.rows.filter (overdue now)).map Session.sessionId := by
          intro hmem
          obtain ⟨y, hy, heq⟩ := List.mem_map.mp hmem
          obtain ⟨hy, hover'⟩ := List.mem_filter.mp hy
          rw [Table.eq_of_key hy (Table.get?_mem hid) (heq.trans hkey.symm)] at hover'
          exact hover hover'
        rw [if_neg hmem]
        simp [afterAbandon, hover]

theorem mem_sweepRows (hlimit : s.sessions.rows.length ≤ limit) :
    x ∈ s.sweepRows now limit ↔ x ∈ s.sessions ∧ sweepable now x = true := by
  have hlength : ((s.sessions.rows.filter (sweepable now)).insertionSort
      (fun x y => x.expiresAt ≤ y.expiresAt)).length ≤ limit := by
    rw [List.length_insertionSort]
    exact (List.length_filter_le _ _).trans hlimit
  rw [sweepRows, List.take_of_length_le hlength, List.mem_insertionSort, List.mem_filter]
  rfl

theorem get?_claimed (rows : List Session) (s : State) (k : String) :
    (rows.foldl (fun s row => s.closeSessions (fun x => x.sessionId = row.sessionId ∧
      x.state ∈ [.idle, .quarantined]) .expired id) s).sessions.get? k =
      if k ∈ rows.map Session.sessionId then (s.sessions.get? k).map fun x =>
        if x.state ∈ [.idle, .quarantined] then closedSession .expired id x else x
      else s.sessions.get? k := by
  refine foldl_at Session.sessionId (fun s k => s.sessions.get? k) ?_ ?_ rows s k
  · intro o
    rw [Option.map_map]
    congr 1
    funext x
    by_cases hstate : x.state ∈ [.idle, .quarantined]
    · simp only [Function.comp_apply, if_pos hstate]
      rw [if_neg (by simp [closedSession])]
    · simp only [Function.comp_apply, if_neg hstate]
  · intro s x k
    refine (s.sessions.get?_update _ _ (closedSession_sessionId .expired id) k).trans ?_
    cases hk : s.sessions.get? k with
    | none => simp
    | some y =>
      have hkey := Table.get?_key hk
      by_cases heq : k = x.sessionId
      · simp [heq, hkey.trans heq]
      · simp [heq, hkey]

theorem get?_swept (rows : List Session)
    (acc : Nat × State) (hdelete : ∀ c, deleteConversation c = true) (k : String) :
    (rows.foldl (sweepRow deleteConversation now) acc).2.sessions.get? k =
      if k ∈ rows.map Session.sessionId then
        (acc.2.sessions.get? k).filter fun x => x.state ≠ .expired
      else acc.2.sessions.get? k := by
  refine foldl_at Session.sessionId (fun (acc : Nat × State) k => acc.2.sessions.get? k) ?_ ?_ rows
    acc k
  · intro o
    cases o with
    | none => rfl
    | some x => by_cases hstate : x.state = .expired <;> simp [Option.filter, hstate]
  · intro acc x k
    have hdrop : (sweepRow deleteConversation now acc x).2 =
        acc.2.dropSessions fun y => y.sessionId = x.sessionId ∧ y.state = .expired := by
      simp only [sweepRow, hdelete, finishSweep, Lib.settle, if_true]
    rw [hdrop]
    refine (acc.2.sessions.get?_delete _ k).trans ?_
    cases hk : acc.2.sessions.get? k with
    | none => simp
    | some y =>
      have hkey := Table.get?_key hk
      by_cases heq : k = x.sessionId
      · simp [Option.filter, heq, hkey.trans heq]
      · simp [Option.filter, heq, hkey]

theorem get?_sweepExpired
    (hdelete : ∀ c, deleteConversation c = true) (hlimit : s.sessions.rows.length ≤ limit)
    (h : s.sweepExpired deleteConversation now limit = .ok (m, t)) (k : String) :
    t.sessions.get? k = (s.sessions.get? k).filter fun x => !sweepable now x := by
  unfold sweepExpired claimSweep at h
  split at h
  · cases h
  have h := Except.ok.inj h
  rw [show t = (_ : Nat × State).2 from (congrArg Prod.snd h).symm, get?_swept _ _ hdelete,
    get?_claimed]
  cases hk : s.sessions.get? k with
  | none => simp
  | some x =>
    have hmem : k ∈ (s.sweepRows now limit).map Session.sessionId ↔ sweepable now x = true := by
      rw [List.mem_map]
      constructor
      · rintro ⟨y, hy, rfl⟩
        obtain ⟨hy, hsweep⟩ := (mem_sweepRows hlimit).mp hy
        rw [Table.get?_of_mem hy] at hk
        obtain rfl := Option.some.inj hk
        exact hsweep
      · intro hsweep
        exact ⟨x, (mem_sweepRows hlimit).mpr ⟨Table.get?_mem hk, hsweep⟩, Table.get?_key hk⟩
    by_cases hsweep : sweepable now x = true
    · -- claimed, so marked, and therefore deleted
      have hstate : x.state ∈ [.idle, .quarantined] := (of_decide_eq_true hsweep).1
      rw [if_pos (hmem.mpr hsweep), if_pos (hmem.mpr hsweep), Option.map_some, if_pos hstate]
      simp [Option.filter, closedSession, hsweep]
    · rw [if_neg (mt hmem.mp hsweep), if_neg (mt hmem.mp hsweep)]
      simp [Option.filter, hsweep]

theorem changes_sweepRow (acc : Nat × State)
    (row : Session) : Changes G acc.2 (sweepRow deleteConversation now acc row).2 :=
  settle_rel .refl fun _ _ h => changes_finishSweep h

theorem sweepExpired_ok (h : s.sweepExpired deleteConversation now limit = .ok (m, t)) :
    ∃ rows u, s.claimSweep now limit = .ok (rows, u) ∧
      t = (rows.foldl (sweepRow deleteConversation now) (0, u)).2 := by
  unfold sweepExpired at h
  cases hclaim : s.claimSweep now limit with
  | error e =>
    rw [hclaim] at h
    cases h
  | ok claim =>
    rw [hclaim] at h
    exact ⟨claim.1, claim.2, rfl, (congrArg Prod.snd (Except.ok.inj h)).symm⟩

theorem changes_sweepExpired
    (h : s.sweepExpired deleteConversation now limit = .ok (m, t)) : Changes G s t := by
  obtain ⟨rows, u, hclaim, rfl⟩ := sweepExpired_ok h
  have hrows : ∀ (rows : List Session) (acc : Nat × State),
      Changes G acc.2 (rows.foldl (sweepRow deleteConversation now) acc).2 := by
    intro rows
    induction rows with
    | nil => exact fun _ => .refl
    | cons row rows ih => exact fun acc => (changes_sweepRow acc row).trans (ih _)
  exact (changes_claimSweep hclaim).trans (hrows rows (0, u))

theorem publications_abandonExpired (h : s.abandonExpired now = .ok (n, t)) :
    t.publications = s.publications := by
  obtain ⟨-, rfl⟩ := ok_pair_inj h
  refine foldl_frame (g := State.publications) ?_ _ s
  exact fun _ _ => rfl

theorem publications_sweepExpired (h : s.sweepExpired deleteConversation now limit = .ok (m, t)) :
    t.publications = s.publications := by
  obtain ⟨rows, u, hclaim, rfl⟩ := sweepExpired_ok h
  have hrows : (rows.foldl (sweepRow deleteConversation now) (0, u)).2.publications =
      u.publications := by
    refine foldl_frame (g := fun acc : Nat × State => acc.2.publications) ?_ rows (0, u)
    intro acc row
    simp only [sweepRow, finishSweep, Lib.settle]
    split <;> rfl
  refine hrows.trans ?_
  unfold claimSweep at hclaim
  split at hclaim
  · cases hclaim
  obtain ⟨-, rfl⟩ := ok_pair_inj hclaim
  refine foldl_frame (g := State.publications) ?_ _ s
  exact fun _ _ => rfl

/-- Both passes, one after the other: a session is left when it was neither to be swept nor
overdue and then to be swept. -/
theorem mem_cleaned {u : State}
    (hdelete : ∀ c, deleteConversation c = true) (hlimit : s.sessions.rows.length ≤ limit)
    (ht : s.abandonExpired now = .ok (n, t))
    (hu : t.sweepExpired deleteConversation now limit = .ok (m, u)) :
    x ∈ u.sessions ↔
      ∃ y ∈ s.sessions, x = afterAbandon now y ∧ sweepable now x = false := by
  have hlength : t.sessions.rows.length ≤ limit := by
    obtain ⟨-, rfl⟩ := ok_pair_inj ht
    refine le_trans (le_of_eq ?_) hlimit
    refine foldl_frame (g := fun s : State => s.sessions.rows.length) ?_ _ s
    intro s x
    exact List.length_map _
  constructor
  · intro hx
    have hget := Table.get?_of_mem hx
    rw [get?_sweepExpired hdelete hlength hu, Option.filter_eq_some_iff,
      get?_abandonExpired ht, Option.map_eq_some_iff] at hget
    obtain ⟨⟨y, hy, rfl⟩, hkept⟩ := hget
    exact ⟨y, Table.get?_mem hy, rfl, by simpa using hkept⟩
  · rintro ⟨y, hy, rfl, hkept⟩
    refine Table.get?_mem (k := y.sessionId) ?_
    rw [get?_sweepExpired hdelete hlength hu, get?_abandonExpired ht, Table.get?_of_mem hy,
      Option.map_some]
    simp [Option.filter, hkept]

theorem Admissible.acquirable {a : AcquireArgs}
    (h : s.Admissible a x now) : s.acquirable now x = true := by
  refine decide_eq_true ⟨h.generation, ?_⟩
  rcases h.state with hidle | ⟨hwaiting, hbatch⟩
  · exact .inl hidle
  · refine .inr ⟨hwaiting, ?_⟩
    rw [Table.get?_key h.found, h.head, h.count]
    exact hbatch

/-- **Cleanup.** After both passes every expired session that is left is running or can still be
acquired, exactly when no expired session had been marked before and none was waiting in a
generation that is over. -/
theorem cleanup_complete_iff {deleteConversation : String → Bool} (hs : Reach step init s)
    (hdelete : ∀ c, deleteConversation c = true) (now : Time) (limit : Nat)
    (hlimit : 1 ≤ limit ∧ s.sessions.rows.length ≤ limit) :
    ∃ n t m u, s.abandonExpired now = .ok (n, t) ∧
      t.sweepExpired deleteConversation now limit = .ok (m, u) ∧
      (∀ a y r v, u.acquire a now = .ok (.acquired y r, v) →
        ∃ x ∈ u.sessions, x.sessionId = a.sessionId ∧ u.acquirable now x = true) ∧
      ((∀ x ∈ u.sessions, x.expiresAt ≤ now → x.state = .running ∨ u.acquirable now x = true) ↔
        ∀ x ∈ s.sessions, x.expiresAt ≤ now → x.state ≠ .expired ∧
          (x.state = .waitingTool → s.ofCurrentGeneration x = true)) := by
  obtain ⟨n, t, ht⟩ : ∃ n t, s.abandonExpired now = .ok (n, t) := ⟨_, _, rfl⟩
  obtain ⟨m, u, hu⟩ : ∃ m u, t.sweepExpired deleteConversation now limit = .ok (m, u) := by
    unfold sweepExpired claimSweep
    rw [if_neg (Nat.not_lt.mpr hlimit.1)]
    exact ⟨_, _, rfl⟩
  have hmem := fun {x} => mem_cleaned (x := x) hdelete hlimit.2 ht hu
  have hgeneration : ∀ x, u.ofCurrentGeneration x = s.ofCurrentGeneration x := by
    intro x
    rw [ofCurrentGeneration, publications_sweepExpired hu, publications_abandonExpired ht]
    rfl
  have hwaiting : Waiting u := (waiting_of_reach hs).changes (leased_of_reach hs)
    ((changes_abandonExpired (G := fun _ _ => True) ht).trans (changes_sweepExpired hu))
  refine ⟨n, t, m, u, ht, hu, ?_, ?_⟩
  · intro a y r v hacquire
    rcases acquire_ok hacquire with ⟨hother, -⟩ | ⟨x, runs, hadmissible, -⟩
    · exact absurd rfl (hother y r)
    · exact ⟨x, Table.get?_mem hadmissible.found, Table.get?_key hadmissible.found,
        hadmissible.acquirable⟩
  constructor
  · intro hclean x hx hexpires
    -- neither kind is overdue or swept, so it is left
    have hleft : x.state = .expired ∨ x.state = .waitingTool → x.state = .running ∨
        u.acquirable now x = true := by
      intro hstate
      refine hclean x (hmem.mpr ⟨x, hx, ?_, ?_⟩) hexpires
      · rcases hstate with hstate | hstate <;> simp [afterAbandon, overdue, hstate]
      · rcases hstate with hstate | hstate <;> simp [sweepable, hstate]
    constructor
    · intro hstate
      rcases hleft (.inl hstate) with hrunning | hacquirable
      · simp [hstate] at hrunning
      · simp [acquirable, hstate] at hacquirable
    · intro hstate
      rcases hleft (.inr hstate) with hrunning | hacquirable
      · simp [hstate] at hrunning
      · rw [← hgeneration]
        exact (of_decide_eq_true hacquirable).1
  · intro hbefore x hx hexpires
    obtain ⟨y, hy, rfl, hkept⟩ := hmem.mp hx
    unfold afterAbandon at hx hexpires hkept ⊢
    split at hkept
    · next hover =>
      rw [if_pos hover] at hexpires
      simp [sweepable, quarantinedSession] at hkept hexpires
      exact absurd hexpires (not_le.mpr hkept)
    · next hover =>
      rw [if_neg hover] at hx hexpires ⊢
      obtain ⟨hmarked, hstale⟩ := hbefore y hy hexpires
      cases hstate : y.state with
      | running => exact .inl rfl
      | idle => simp [sweepable, hstate, hexpires] at hkept
      | quarantined => simp [sweepable, hstate, hexpires] at hkept
      | expired => exact absurd hstate hmarked
      | waitingTool =>
        refine .inr (decide_eq_true ⟨?_, .inr ⟨hstate, ?_⟩⟩)
        · rw [hgeneration]
          exact hstale hstate
        · exact hasPendingBatch_iff.mpr (hwaiting y hx hstate)

/-- The second of two sessions has expired when both passes run. -/
def sampleExpired : List Tx :=
  sampleSetup ++
    [⟨.create { ns := sampleNamespace, internalConversationId := "c2", token := "2" }, 1⟩,
      ⟨.acquire (sampleRequest "apis_1" "r1" "1"), 2⟩]

theorem cleanup_complete_sampleExpired :
    ∃ n t m u, (sampleExpired.foldl perform init).abandonExpired (4000 * second) = .ok (n, t) ∧
      t.sweepExpired (fun _ => true) (4000 * second) 10 = .ok (m, u) ∧
      ∀ x ∈ u.sessions, x.expiresAt ≤ 4000 * second →
        x.state = .running ∨ u.acquirable (4000 * second) x = true := by
  have hs : Reach step init (sampleExpired.foldl perform init) :=
    reach_foldl (fun _ _ => rfl) sampleExpired init
  obtain ⟨n, t, m, u, ht, hu, -, hclean⟩ :=
    cleanup_complete_iff hs (fun _ => rfl) (4000 * second) 10 (by decide +kernel)
  have hbefore : ∀ x ∈ (sampleExpired.foldl perform init).sessions.rows,
      x.expiresAt ≤ 4000 * second → x.state ≠ .expired ∧ (x.state = .waitingTool →
        (sampleExpired.foldl perform init).ofCurrentGeneration x = true) := by
    decide +kernel
  exact ⟨n, t, m, u, ht, hu, hclean.mpr hbefore⟩

/-! ## Sessions that are never swept -/

/-- A late request marks the session. -/
def sampleMarked : List Tx :=
  sampleSetup ++ [⟨.acquire (sampleRequest "apis_1" "r1" "1"), 4000 * second⟩]

/-- The run is finalized with a call for the client after its generation was reset. -/
def sampleStale : List Tx :=
  sampleSetup ++
    [⟨.acquire (sampleRequest "apis_1" "r1" "1"), 1⟩, ⟨.resetSessions "pub", 2⟩,
      ⟨.finalize
        { runId := "r1", leaseId := "apil_1", visibleHeadHash := "h1", itemCount := 2
          pendingCalls := [⟨"c1", "tool", "{}"⟩], schema := sampleSchema, token := "1" }, 3⟩]

/-- Both times the session that is left has expired, is not running and cannot be acquired. -/
theorem cleanup_misses :
    (∃ s, Reach step init s ∧ ∃ n t m u, s.abandonExpired (4000 * second) = .ok (n, t) ∧
      t.sweepExpired (fun _ => true) (4000 * second) 10 = .ok (m, u) ∧
      ∃ x ∈ u.sessions.rows, x.expiresAt ≤ 4000 * second ∧ x.state = .expired ∧
        u.acquirable (4000 * second) x = false) ∧
    ∃ s, Reach step init s ∧ ∃ n t m u, s.abandonExpired (4000 * second) = .ok (n, t) ∧
      t.sweepExpired (fun _ => true) (4000 * second) 10 = .ok (m, u) ∧
      ∃ x ∈ u.sessions.rows, x.expiresAt ≤ 4000 * second ∧ x.state = .waitingTool ∧
        u.acquirable (4000 * second) x = false := by
  constructor
  · exact ⟨_, reach_foldl (fun _ _ => rfl) sampleMarked init, _, _, _, _, rfl, rfl,
      by decide +kernel⟩
  · exact ⟨_, reach_foldl (fun _ _ => rfl) sampleStale init, _, _, _, _, rfl, rfl,
      by decide +kernel⟩

end State

end PawFlow.StandardApi
