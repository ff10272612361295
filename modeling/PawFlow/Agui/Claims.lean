import PawFlow.Agui.Handles
import PawFlow.Agui.OneOwner

/-!
# What a claim keeps and what an expiry takes

The keyring, the claim ids and the rows a claim is about, from one state of a run to another.
A claim keeps its generation, its key version and the calls it lists until its lease expires;
the expiry moves the generation on for good and takes the claim id out of use. A key version
that a row refers to stays in the keyring, and no version is ever given another secret.
-/

namespace PawFlow.Agui

open PawFlow.Lib

namespace State

variable {s t : State}

/-! ## Keys and claim ids -/

/-- The invariant of the keyring and of the claim ids. -/
structure Credited (s : State) : Prop where
  batch : ∀ b ∈ s.batches, (s.tokenKeys.get? b.keyVersion).isSome
  run : ∀ r ∈ s.runTokens, (s.tokenKeys.get? r.keyVersion).isSome
  water : ∀ key ∈ s.tokenKeys, key.version ≤ s.keyHighWater
  claimed : ∀ b ∈ s.batches, b.state = .reservedPreEffect → b.batchClaimId ≠ ""
  current : ∀ b ∈ s.batches, s.expiredClaims.get? (b.handle, b.batchClaimId) = none
  named : ∀ e ∈ s.expiredClaims, e.batchClaimId ≠ ""

/-- Versions only grow, and a version that was used keeps its secret. -/
structure SameKeys (s t : State) : Prop where
  water : s.keyHighWater ≤ t.keyHighWater
  keys : ∀ key ∈ t.tokenKeys, key.version ≤ s.keyHighWater → key ∈ s.tokenKeys

theorem SameKeys.refl (s : State) : SameKeys s s := ⟨le_rfl, fun _ hkey _ => hkey⟩

variable {u : State}

theorem SameKeys.trans (h : SameKeys s t) (h' : SameKeys t u) : SameKeys s u := by
  constructor
  · exact h.water.trans h'.water
  · intro key hkey hle
    exact h.keys key (h'.keys key hkey (hle.trans h.water)) hle

theorem sameKeys_of_eq (hkeys : t.tokenKeys = s.tokenKeys)
    (hwater : t.keyHighWater = s.keyHighWater) : SameKeys s t := by
  constructor
  · rw [hwater]
  · rw [hkeys]
    exact fun _ hkey _ => hkey

/-- A batch row after a change that leaves its claim alone. -/
structure Kin (b b' : Batch) : Prop where
  handle : b'.handle = b.handle
  keyVersion : b'.keyVersion = b.keyVersion
  batchClaimId : b'.batchClaimId = b.batchClaimId
  reserved : b'.state = .reservedPreEffect → b.state = .reservedPreEffect

theorem Kin.refl (b : Batch) : Kin b b := ⟨rfl, rfl, rfl, id⟩

theorem Credited.of_rows (h : Credited s) (hkeys : t.tokenKeys = s.tokenKeys)
    (hwater : t.keyHighWater = s.keyHighWater) (hexpired : t.expiredClaims = s.expiredClaims)
    (hruns : ∀ r ∈ t.runTokens, r ∈ s.runTokens)
    (hbatches : ∀ b' ∈ t.batches, ∃ b ∈ s.batches, Kin b b') : Credited t ∧ SameKeys s t := by
  refine ⟨⟨?_, ?_, ?_, ?_, ?_, ?_⟩, sameKeys_of_eq hkeys hwater⟩
  · intro b' hb'
    obtain ⟨b, hb, hkin⟩ := hbatches b' hb'
    rw [hkeys, hkin.keyVersion]
    exact h.batch b hb
  · intro r hr
    rw [hkeys]
    exact h.run r (hruns r hr)
  · rw [hkeys, hwater]
    exact h.water
  · intro b' hb' hstate
    obtain ⟨b, hb, hkin⟩ := hbatches b' hb'
    rw [hkin.batchClaimId]
    exact h.claimed b hb (hkin.reserved hstate)
  · intro b' hb'
    obtain ⟨b, hb, hkin⟩ := hbatches b' hb'
    rw [hexpired, hkin.handle, hkin.batchClaimId]
    exact h.current b hb
  · rw [hexpired]
    exact h.named

variable {f : Batch → Batch} {batches : Table RunKey Batch Batch.key} {p : Call → Bool}

theorem kin_of_update {p : Batch → Bool} (hf : ∀ b, (f b).key = b.key)
    (hkin : ∀ b, Kin b (f b)) (b' : Batch) (hb' : b' ∈ s.batches.update p f hf) :
    ∃ b ∈ s.batches, Kin b b' := by
  obtain ⟨b, hb, rfl⟩ := (Table.mem_update hf).mp hb'
  refine ⟨b, hb, ?_⟩
  split
  · exact hkin b
  · exact .refl b

variable {k : RunKey} {b : Batch}

theorem kin_completeIfDone (b' : Batch) (hb' : b' ∈ (s.completeIfDone k).batches) :
    ∃ b ∈ s.batches, Kin b b' := by
  unfold completeIfDone at hb'
  dsimp only at hb'
  split at hb'
  · exact ⟨b', hb', .refl b'⟩
  · exact kin_of_update Batch.completed_key (fun _ => ⟨rfl, rfl, rfl, fun h => by cases h⟩) b' hb'

theorem kin_committed (b : Batch) : Kin b b.committed := by
  refine ⟨rfl, rfl, rfl, ?_⟩
  intro hstate
  unfold Batch.committed at hstate
  dsimp only at hstate
  split at hstate
  · cases hstate
  · exact hstate

theorem Credited.claim (h : Credited s) {claimId : String} (deadline : Time)
    (hb : b ∈ s.batches) (hid : claimId ≠ "")
    (hexpired : s.expiredClaims.get? (b.handle, claimId) = none) :
    Credited (s.updateBatch b.key (Batch.claimed claimId deadline)
      (Batch.claimed_key claimId deadline)) := by
  have hrows : ∀ b' ∈ (s.updateBatch b.key (Batch.claimed claimId deadline)
      (Batch.claimed_key claimId deadline)).batches,
      b' ∈ s.batches ∨ b' = b.claimed claimId deadline := by
    intro b' hb'
    obtain ⟨x, hx, rfl⟩ := (Table.mem_update (Batch.claimed_key claimId deadline)).mp hb'
    split
    · next hp =>
      obtain rfl := Table.eq_of_key hx hb (of_decide_eq_true hp)
      exact .inr rfl
    · exact .inl hx
  refine ⟨?_, h.run, h.water, ?_, ?_, h.named⟩
  · intro b' hb'
    rcases hrows b' hb' with hb' | rfl
    · exact h.batch b' hb'
    · exact h.batch b hb
  · intro b' hb' hstate
    rcases hrows b' hb' with hb' | rfl
    · exact h.claimed b' hb' hstate
    · exact hid
  · intro b' hb'
    rcases hrows b' hb' with hb' | rfl
    · exact h.current b' hb'
    · exact hexpired

/-- The expiry of a claim: its id is taken out of use, and the batch has none. -/
theorem Credited.expire (h : Credited s) (hhandled : Handled s) (hb : b ∈ s.batches)
    (hstate : b.state = .reservedPreEffect) : Credited (s.expireClaim b) := by
  have hid := h.claimed b hb hstate
  have hnamed : ∀ e ∈ s.expiredClaims.insertIgnore ⟨b.handle, b.batchClaimId⟩,
      e.batchClaimId ≠ "" := by
    intro e he
    rcases Table.mem_insertIgnore.mp he with he | ⟨rfl, -⟩
    · exact h.named e he
    · exact hid
  have hrows : ∀ b' ∈ (s.expireClaim b).batches,
      b' ∈ s.batches ∧ b'.key ≠ b.key ∨ b' = b.expired := by
    intro b' hb'
    obtain ⟨x, hx, rfl⟩ := (Table.mem_update Batch.expired_key).mp hb'
    split
    · next hp =>
      obtain rfl := Table.eq_of_key hx hb (of_decide_eq_true hp)
      exact .inr rfl
    · next hp => exact .inl ⟨hx, by simpa using hp⟩
  refine ⟨?_, h.run, h.water, ?_, ?_, hnamed⟩
  · intro b' hb'
    rcases hrows b' hb' with ⟨hb', -⟩ | rfl
    · exact h.batch b' hb'
    · exact h.batch b hb
  · intro b' hb' hreserved
    rcases hrows b' hb' with ⟨hb', -⟩ | rfl
    · exact h.claimed b' hb' hreserved
    · cases hreserved
  · intro b' hb'
    show (s.expiredClaims.insertIgnore ⟨b.handle, b.batchClaimId⟩).get? _ = none
    rcases hrows b' hb' with ⟨hb', hne⟩ | rfl
    · rw [Table.get?_insertIgnore, h.current b' hb', Option.none_or, if_neg]
      intro heq
      -- two batches do not share a handle
      have hhandle : b'.handle = b.handle := congrArg Prod.fst heq
      have hholder := hhandled.unique b.handle (.batch b'.key) (.batch b.key)
        (hhandle ▸ .batch hb') (.batch hb)
      exact hne (Holder.batch.inj hholder)
    · rw [Table.get?_eq_none]
      intro hmem
      obtain ⟨e, he, hkey⟩ := List.mem_map.mp hmem
      exact hnamed e he (congrArg Prod.snd hkey)

theorem Credited.freeze (h : Credited s) {row : Batch}
    (hins : s.batches.insert? row = some batches) (hstate : row.state = .frozen)
    (hid : row.batchClaimId = "") (hversion : (s.tokenKeys.get? row.keyVersion).isSome) :
    Credited { s with batches } := by
  refine ⟨?_, h.run, h.water, ?_, ?_, h.named⟩
  · intro b hb
    rcases (Table.mem_insert? hins).mp hb with hb | rfl
    · exact h.batch b hb
    · exact hversion
  · intro b hb hreserved
    rcases (Table.mem_insert? hins).mp hb with hb | rfl
    · exact h.claimed b hb hreserved
    · rw [hstate] at hreserved
      cases hreserved
  · intro b hb
    rcases (Table.mem_insert? hins).mp hb with hb | rfl
    · exact h.current b hb
    · show s.expiredClaims.get? _ = none
      rw [Table.get?_eq_none, hid]
      intro hmem
      obtain ⟨e, he, hkey⟩ := List.mem_map.mp hmem
      exact h.named e he (congrArg Prod.snd hkey)

/-! ## The keyring -/

theorem Credited.addKey (h : Credited s) (secret : String) :
    Credited (s.addKey secret) ∧ SameKeys s (s.addKey secret) := by
  refine ⟨⟨?_, ?_, ?_, h.claimed, h.current, h.named⟩, ⟨le_max_left .., ?_⟩⟩
  · exact fun b hb => Table.isSome_insertIgnore _ (h.batch b hb)
  · exact fun r hr => Table.isSome_insertIgnore _ (h.run r hr)
  · intro key hkey
    rcases Table.mem_insertIgnore.mp hkey with hkey | ⟨rfl, -⟩
    · exact (h.water key hkey).trans (le_max_left ..)
    · exact le_max_right ..
  · intro key hkey hle
    rcases Table.mem_insertIgnore.mp hkey with hkey | ⟨rfl, -⟩
    · exact hkey
    · -- the new version is above everything that was ever used
      have hfresh : s.keyHighWater < s.freshVersion := by
        unfold freshVersion
        omega
      exact absurd hle (not_le.mpr hfresh)

theorem Credited.pruneKeys (h : Credited s) :
    Credited { s with tokenKeys := s.tokenKeys.delete s.unusedKey } ∧
      SameKeys s { s with tokenKeys := s.tokenKeys.delete s.unusedKey } := by
  have hused : ∀ v, (s.tokenKeys.get? v).isSome → (∀ key ∈ s.tokenKeys, key.version = v →
      s.unusedKey key = false) → ((s.tokenKeys.delete s.unusedKey).get? v).isSome := by
    intro v hsome hused
    obtain ⟨key, hkey⟩ := Option.isSome_iff_exists.mp hsome
    obtain ⟨hmem, hversion⟩ := Table.get?_eq_some.mp hkey
    rw [Table.get?_delete, hkey]
    simp [Option.filter, hused key hmem hversion]
  refine ⟨⟨?_, ?_, ?_, h.claimed, h.current, h.named⟩, ⟨le_rfl, ?_⟩⟩
  · intro b hb
    refine hused b.keyVersion (h.batch b hb) ?_
    intro key _ hversion
    have href : key.version ∈ s.batches.rows.map Batch.keyVersion :=
      hversion ▸ List.mem_map_of_mem hb
    simp [unusedKey, href]
  · intro r hr
    refine hused r.keyVersion (h.run r hr) ?_
    intro key _ hversion
    have href : key.version ∈ s.runTokens.rows.map RunToken.keyVersion :=
      hversion ▸ List.mem_map_of_mem hr
    simp [unusedKey, href]
  · exact fun key hkey => h.water key (Table.mem_delete.mp hkey).1
  · exact fun key hkey _ => (Table.mem_delete.mp hkey).1

theorem Credited.runToken (h : Credited s) {row : RunToken} {minted : List String}
    (hversion : (s.tokenKeys.get? row.keyVersion).isSome) :
    Credited { s with minted, runTokens := s.runTokens.insertIgnore row } := by
  refine ⟨h.batch, ?_, h.water, h.claimed, h.current, h.named⟩
  intro r hr
  rcases Table.mem_insertIgnore.mp hr with hr | ⟨rfl, -⟩
  · exact h.run r hr
  · exact hversion

variable {G : State → Op → Prop} {mac : Mac}

theorem Credited.change (h : Credited s) (hhandled : Handled s) (hc : Change G s t) :
    Credited t ∧ SameKeys s t := by
  have hrun : ∀ r ∈ s.runTokens, r ∈ s.runTokens := fun _ hr => hr
  have hbatch : ∀ b ∈ s.batches, ∃ b' ∈ s.batches, Kin b' b := fun b hb => ⟨b, hb, .refl b⟩
  cases hc with
  | rotated k row marker close _ _ =>
    exact h.of_rows rfl rfl rfl (fun r hr => (Table.mem_delete.mp hr).1)
      (fun b hb => hbatch b (Table.mem_delete.mp hb).1)
  | admitted a now u admissions _ _ _ _ hbinds _ =>
    cases hbinds with
    | free _ => exact h.of_rows rfl rfl rfl hrun hbatch
    | consumed b _ _ _ _ =>
      exact h.of_rows rfl rfl rfl hrun (kin_of_update Batch.consume_key
        fun _ => ⟨rfl, rfl, rfl, fun h => by cases h⟩)
  | froze k draw version deadline eventJson now a r batches journal _ _ _ _ _ _ _ hversion hins _ =>
    have hu := h.freeze hins rfl rfl hversion
    exact ⟨(hu.of_rows (t := s.freezeAndExit k draw eventJson now batches journal) rfl rfl rfl hrun
      fun b hb => ⟨b, hb, .refl b⟩).1, sameKeys_of_eq rfl rfl⟩
  | claimed b claimId deadline hb _ hid hexpired =>
    exact ⟨h.claim deadline hb hid hexpired, sameKeys_of_eq rfl rfl⟩
  | renewed b deadline _ _ =>
    exact h.of_rows rfl rfl rfl hrun (kin_of_update (Batch.renewed_key deadline)
      fun _ => ⟨rfl, rfl, rfl, id⟩)
  | expired b hb hstate => exact ⟨h.expire hhandled hb hstate, sameKeys_of_eq rfl rfl⟩
  | begun c b _ _ _ _ _ =>
    exact h.of_rows rfl rfl rfl hrun (kin_of_update Batch.committed_key kin_committed)
  | ended c b outcome resultJson _ _ _ _ _ =>
    exact h.of_rows rfl rfl rfl hrun kin_completeIfDone
  | deadline b _ _ => exact h.of_rows rfl rfl rfl hrun kin_completeIfDone
  | keyed secret _ => exact h.addKey secret
  | keysPruned => exact h.pruneKeys
  | runToken k handle version _ _ hversion => exact ⟨h.runToken hversion, sameKeys_of_eq rfl rfl⟩
  | _ => exact h.of_rows rfl rfl rfl hrun hbatch

/-! ## What a claim keeps -/

def ledger (s : State) (k : RunKey) : List (String × String × Time) :=
  (s.pendingCalls k).map fun c => (c.toolCallId, c.handle, c.createdAt)

theorem ledger_congr (hcalls : t.calls = s.calls) (k : RunKey) : t.ledger k = s.ledger k := by
  unfold ledger pendingCalls
  rw [hcalls]

/-- An `UPDATE` of calls that changes nothing a claim lists. -/
theorem ledger_update {f : Call → Call} (hf : ∀ c, (f c).key = c.key)
    (hcalls : t.calls = s.calls.update p f hf)
    (hsame : ∀ c, p c → c.runKey = k →
      (f c).state = c.state ∧ (f c).handle = c.handle ∧ (f c).createdAt = c.createdAt) :
    t.ledger k = s.ledger k := by
  have hrow : ∀ c, (if p c then f c else c).key = c.key ∧ (c.runKey = k →
      (if p c then f c else c).state = c.state ∧ (if p c then f c else c).handle = c.handle ∧
        (if p c then f c else c).createdAt = c.createdAt) := by
    intro c
    split
    · next hp => exact ⟨hf c, hsame c hp⟩
    · exact ⟨rfl, fun _ => ⟨rfl, rfl, rfl⟩⟩
  have hrun : ∀ c, (if p c then f c else c).runKey = c.runKey := fun c =>
    congrArg Prod.fst (hrow c).1
  unfold ledger pendingCalls
  rw [hcalls]
  show ((s.calls.rows.map _).filter _).map _ = _
  rw [List.filter_map, List.map_map]
  have hfilter : s.calls.rows.filter ((fun c : Call => decide (c.runKey = k ∧ c.state = .emitted)) ∘
      fun c => if p c then f c else c) =
      s.calls.rows.filter fun c => decide (c.runKey = k ∧ c.state = .emitted) := by
    apply List.filter_congr
    intro c _
    simp only [Function.comp_apply, hrun, decide_eq_decide]
    constructor
    · rintro ⟨hk, hstate⟩
      exact ⟨hk, ((hrow c).2 hk).1 ▸ hstate⟩
    · rintro ⟨hk, hstate⟩
      exact ⟨hk, ((hrow c).2 hk).1.trans hstate⟩
  rw [hfilter]
  apply List.map_congr_left
  intro c hc
  have hk : c.runKey = k := (of_decide_eq_true (List.mem_filter.mp hc).2).1
  obtain ⟨-, hhandle, hcreated⟩ := (hrow c).2 hk
  have htool : (if p c then f c else c).toolCallId = c.toolCallId := congrArg Prod.snd (hrow c).1
  simp only [Function.comp_apply, htool, hhandle, hcreated]

theorem ledger_recorded {c : Call} (hk : c.runKey ≠ k) :
    ({ s with calls := s.calls.insertIgnore c } : State).ledger k = s.ledger k := by
  unfold ledger pendingCalls
  dsimp only
  unfold Table.insertIgnore
  cases hins : s.calls.insert? c with
  | none => rfl
  | some calls =>
    rw [Option.getD_some, Table.insert?_rows hins, List.filter_append]
    simp [hk]

theorem ledger_dropContext {c : ContextId} (hk : k.1 ≠ c) :
    (s.dropContext c).ledger k = s.ledger k := by
  unfold ledger pendingCalls
  show ((s.calls.rows.filter _).filter _).map _ = _
  rw [List.filter_filter]
  congr 1
  apply List.filter_congr
  intro x _
  by_cases hx : x.runKey = k
  · have hne : x.contextId ≠ c := fun hc => hk (by rw [← hx]; exact hc)
    simp [hne]
  · simp [hx]

/-- What becomes of a batch: its claim stays, or it expired and the generation moved on. -/
structure Follows (t : State) (b b' : Batch) : Prop where
  handle : b'.handle = b.handle
  keyVersion : b'.keyVersion = b.keyVersion
  generation : b.claimGeneration ≤ b'.claimGeneration
  consumed : b.state = .consumed → b'.state = .consumed
  claim : b.state ≠ .frozen →
    (b'.claimGeneration = b.claimGeneration ∧ b'.batchClaimId = b.batchClaimId ∧
      b'.state ≠ .frozen) ∨
    (b.claimGeneration < b'.claimGeneration ∧
      (t.expiredClaims.get? (b.handle, b.batchClaimId)).isSome)

theorem Follows.refl (t : State) (b : Batch) : Follows t b b :=
  ⟨rfl, rfl, le_rfl, id, fun hstate => .inl ⟨rfl, rfl, hstate⟩⟩

theorem Follows.trans {b' b'' : Batch} (h : Follows t b b') (h' : Follows u b' b'')
    (hexpired : ∀ e, (t.expiredClaims.get? e).isSome → (u.expiredClaims.get? e).isSome) :
    Follows u b b'' := by
  refine ⟨h'.handle.trans h.handle, h'.keyVersion.trans h.keyVersion,
    h.generation.trans h'.generation, fun hstate => h'.consumed (h.consumed hstate), ?_⟩
  intro hstate
  rcases h.claim hstate with ⟨hgen, hid, hstate'⟩ | ⟨hlt, hgone⟩
  · rcases h'.claim hstate' with ⟨hgen', hid', hstate''⟩ | ⟨hlt, hgone⟩
    · exact .inl ⟨hgen'.trans hgen, hid'.trans hid, hstate''⟩
    · rw [h.handle, hid] at hgone
      exact .inr ⟨hgen ▸ hlt, hgone⟩
  · exact .inr ⟨hlt.trans_le h'.generation, hexpired _ hgone⟩

/-- From `s` to `t` no claim changes its credentials, and none comes back. -/
structure Steady (s t : State) : Prop where
  expired : ∀ e, (s.expiredClaims.get? e).isSome → (t.expiredClaims.get? e).isSome
  batches : ∀ k b, s.batches.get? k = some b →
    (∃ b', t.batches.get? k = some b' ∧ Follows t b b' ∧
      (b'.state = .consumed ∨ t.ledger k = s.ledger k)) ∨ t.Closed k.1

theorem Steady.refl (s : State) : Steady s s :=
  ⟨fun _ h => h, fun _ b hb => .inl ⟨b, hb, .refl s b, .inr rfl⟩⟩

theorem steady_trans (h : Steady s t) (h' : Steady t u) (hlater : Later t u) : Steady s u := by
  constructor
  · exact fun e he => h'.expired e (h.expired e he)
  · intro k b hb
    rcases h.batches k b hb with ⟨b', hb', hfollows, hledger⟩ | hclosed
    · rcases h'.batches k b' hb' with ⟨b'', hb'', hfollows', hledger'⟩ | hclosed
      · refine .inl ⟨b'', hb'', hfollows.trans hfollows' h'.expired, ?_⟩
        rcases hledger with hconsumed | hledger
        · exact .inl (hfollows'.consumed hconsumed)
        · rcases hledger' with hconsumed | hledger'
          · exact .inl hconsumed
          · exact .inr (hledger'.trans hledger)
      · exact .inr hclosed
    · exact .inr (hlater.closed hclosed)

theorem steady_of_calls (hexpired : t.expiredClaims = s.expiredClaims)
    (hbatches : t.batches = s.batches)
    (hledger : ∀ k b, s.batches.get? k = some b → t.ledger k = s.ledger k) : Steady s t := by
  constructor
  · rw [hexpired]
    exact fun _ he => he
  · intro k b hb
    refine .inl ⟨b, ?_, .refl t b, .inr (hledger k b hb)⟩
    rw [hbatches]
    exact hb

theorem steady_updateBatch (hf : ∀ b, (f b).key = b.key)
    (hb : s.batches.get? k = some b) (hfollows : Follows t b (f b))
    (hbatches : ∀ k', t.batches.get? k' = (s.updateBatch k f hf).batches.get? k')
    (hexpired : ∀ e, (s.expiredClaims.get? e).isSome → (t.expiredClaims.get? e).isSome)
    (hledger : ∀ k, t.ledger k = s.ledger k) : Steady s t := by
  refine ⟨hexpired, ?_⟩
  intro k' b' hb'
  left
  rw [hbatches, get?_updateBatch]
  split
  · next hk =>
    rw [hk, hb] at hb'
    obtain rfl := Option.some.inj hb'
    rw [hk, hb]
    exact ⟨f b, rfl, hfollows, .inr (hledger k)⟩
  · exact ⟨b', hb', .refl t b', .inr (hledger k')⟩

theorem follows_completed (t : State) (hopen : b.state.isOpen) : Follows t b b.completed := by
  refine ⟨rfl, rfl, le_rfl, ?_, ?_⟩
  · exact fun hstate => absurd hstate (not_consumed_of_open hopen)
  · exact fun _ => .inl ⟨rfl, rfl, by simp [Batch.completed]⟩

theorem steady_completeIfDone {f : Call → Call}
    (hf : ∀ c, (f c).key = c.key) (hb : s.batches.get? k = some b) (hopen : b.state.isOpen)
    (hsame : ∀ c, (f c).state = c.state ∧ (f c).handle = c.handle ∧ (f c).createdAt = c.createdAt) :
    Steady s ((s.updateCalls p f hf).completeIfDone k) := by
  have hledger : ∀ k', ((s.updateCalls p f hf).completeIfDone k).ledger k' = s.ledger k' :=
    fun k' => ledger_update hf rfl fun c _ _ => hsame c
  refine ⟨fun _ he => he, ?_⟩
  intro k' b' hb'
  left
  rw [get?_completeIfDone, show (s.updateCalls p f hf).batches.get? k' = some b' from hb']
  split
  · next hk =>
    rw [hk.1, hb] at hb'
    obtain rfl := Option.some.inj hb'
    exact ⟨b.completed, rfl, follows_completed _ hopen, .inr (hledger k')⟩
  · exact ⟨b', rfl, .refl _ b', .inr (hledger k')⟩

theorem steady_admitted {a : AcquireArgs} {admissions : Table RunKey Admission Admission.key}
    {fences : Table ContextId Fence Fence.contextId} (hbinds : Binds s a t) :
    Steady s { t with admissions, fences } := by
  cases hbinds with
  | free _ => exact steady_of_calls rfl rfl fun k _ _ => ledger_congr rfl k
  | consumed b hb _ hstate _ =>
    refine ⟨fun _ he => he, ?_⟩
    intro k x hx
    left
    show ∃ b', (s.consumeBatch b.key).batches.get? k = some b' ∧ _
    rw [get?_consumeBatch, hx, Option.map_some]
    refine ⟨_, rfl, ?_⟩
    split
    · refine ⟨⟨rfl, rfl, le_rfl, fun _ => rfl, ?_⟩, .inl rfl⟩
      exact fun _ => .inl ⟨rfl, rfl, by simp [Batch.consume]⟩
    · next hother =>
      refine ⟨.refl _ x, .inr (ledger_update Call.consume_key rfl ?_)⟩
      intro c hp hk
      -- the consumed batch is another one
      have hrun : c.runKey = b.key := (of_decide_eq_true hp).1
      have hkey : x.key = b.key := (Table.get?_key hx).trans (hk.symm.trans hrun)
      obtain rfl := Table.eq_of_key (Table.get?_mem hx) hb hkey
      exact absurd ⟨rfl, hstate⟩ hother

theorem steady_froze {draw : Draw} {eventJson : String} {now : Time} {row : Batch}
    {journal : Table (RunKey × Nat) JournalRow JournalRow.key} (hkey : row.key = k)
    (hins : s.batches.insert? row = some batches) :
    Steady s (s.freezeAndExit k draw eventJson now batches journal) := by
  obtain ⟨hnone, hget⟩ := Table.insert?_eq_some hins
  rw [hkey] at hnone hget
  refine ⟨fun _ he => he, ?_⟩
  intro k' b hb
  have hne : k' ≠ k := by
    rintro rfl
    rw [hb] at hnone
    cases hnone
  refine .inl ⟨b, ?_, .refl _ b, .inr (ledger_update (Call.withHandle_key draw) rfl ?_)⟩
  · show batches.get? k' = some b
    rw [hget, if_neg hne]
    exact hb
  · intro c hp hk
    exact absurd (hk.symm.trans (of_decide_eq_true hp).1) hne

theorem steady_dropContext {k : ThreadKey} {row : Thread} (marker : String) (close : Bool)
    (hrow : s.threads.get? k = some row) :
    Steady s ({ s with
      threads := s.threads.update (fun t => t.key = k) (rotatedThread marker close)
        (rotatedThread_key marker close) }.dropContext ⟨k, row.generation⟩) := by
  refine ⟨fun _ he => he, ?_⟩
  intro k' b hb
  by_cases hk : k'.1 = ⟨k, row.generation⟩
  · exact .inr (hk ▸ closed_rotated marker close hrow)
  · refine .inl ⟨b, ?_, .refl _ b, .inr (ledger_dropContext hk)⟩
    rw [get?_batches_dropContext, if_neg hk]
    exact hb

theorem steady_change (hsound : Sound s) (hc : Change G s t) : Steady s t := by
  cases hc with
  | rotated k row marker close hrow _ => exact steady_dropContext marker close hrow
  | admitted a now u admissions _ _ _ _ hbinds _ => exact steady_admitted hbinds
  | left k state a r ha hactive _ _ _ =>
    refine steady_of_calls rfl rfl ?_
    intro k' b hb
    by_cases houtcome : r.outcome ≠ "success"
    · refine ledger_update Call.abandon_key (if_pos houtcome) ?_
      intro c hp hk
      -- the calls given up belong to a run without a batch
      have hrun : k' = k := hk.symm.trans (of_decide_eq_true hp).1
      rw [hrun, hsound.batched.no_batch ha hactive] at hb
      cases hb
    · exact ledger_congr (if_neg houtcome) k'
  | froze k draw version deadline eventJson now a r batches journal _ _ _ _ _ _ _ _ hins _ =>
    exact steady_froze rfl hins
  | recorded c a args _ _ _ _ ha hrunning =>
    refine steady_of_calls rfl rfl ?_
    intro k b hb
    refine ledger_recorded ?_
    rintro rfl
    rw [hsound.batched.no_batch ha (isActive_of_state hrunning)] at hb
    cases hb
  | claimed b claimId deadline hb hfrozen _ _ =>
    refine steady_updateBatch (Batch.claimed_key claimId deadline) (Table.get?_of_mem hb) ?_
      (fun _ => rfl) (fun _ he => he) (ledger_congr rfl)
    refine ⟨rfl, rfl, Nat.le_succ _, ?_, fun hstate => absurd hfrozen hstate⟩
    intro hstate
    rw [hfrozen] at hstate
    cases hstate
  | renewed b deadline hb hstate =>
    refine steady_updateBatch (Batch.renewed_key deadline) (Table.get?_of_mem hb) ?_
      (fun _ => rfl) (fun _ he => he) (ledger_congr rfl)
    exact ⟨rfl, rfl, le_rfl, id, fun hstate => .inl ⟨rfl, rfl, hstate⟩⟩
  | expired b hb hstate =>
    have hgone : ∀ e, (s.expiredClaims.get? e).isSome →
        ((s.expireClaim b).expiredClaims.get? e).isSome := fun _ he =>
      Table.isSome_insertIgnore _ he
    refine steady_updateBatch Batch.expired_key (Table.get?_of_mem hb) ?_ (fun _ => rfl) hgone
      (ledger_congr rfl)
    refine ⟨rfl, rfl, Nat.le_succ _, ?_, ?_⟩
    · intro hconsumed
      rw [hstate] at hconsumed
      cases hconsumed
    · intro _
      refine .inr ⟨Nat.lt_succ_self _, ?_⟩
      exact Table.isSome_get?_insertIgnore s.expiredClaims ⟨b.handle, b.batchClaimId⟩
  | begun c b _ _ hb hclaimed _ =>
    refine steady_updateBatch Batch.committed_key (Table.get?_of_mem (Table.get?_mem hb)) ?_
      (fun _ => rfl) (fun _ he => he)
      (fun k => ledger_update Call.execute_key rfl fun _ _ _ => ⟨rfl, rfl, rfl⟩)
    refine ⟨rfl, rfl, le_rfl, ?_, fun _ => .inl ⟨rfl, rfl, ?_⟩⟩
    · exact fun hconsumed => absurd hconsumed (not_consumed_of_claimed hclaimed)
    · simp [committed_state hclaimed]
  | ended c b outcome resultJson _ _ hb hopen _ =>
    exact steady_completeIfDone (Call.finish_key outcome resultJson) hb hopen
      (fun _ => ⟨rfl, rfl, rfl⟩)
  | deadline b hb hopen =>
    exact steady_completeIfDone Call.expire_key (Table.get?_of_mem hb) hopen Call.expire_row
  | _ => exact steady_of_calls rfl rfl fun k _ _ => ledger_congr rfl k

/-! ## Runs -/

/-- The invariant of the credentials. -/
structure Trusted (s : State) : Prop where
  sound : Sound s
  handled : Handled s
  credited : Credited s

/-- What two states of one run have in common. -/
structure Onward (s t : State) : Prop where
  steady : Steady s t
  held : Held s t
  keys : SameKeys s t
  later : Later s t

theorem Onward.refl (s : State) : Onward s s := ⟨.refl s, .refl s, .refl s, .refl s⟩

theorem Onward.trans (h : Onward s t) (h' : Onward t u) : Onward s u :=
  ⟨steady_trans h.steady h'.steady h'.later, h.held.trans h'.held, h.keys.trans h'.keys,
    h.later.trans h'.later⟩

theorem Trusted.change (h : Trusted s) (hc : Change G s t) : Trusted t ∧ Onward s t := by
  obtain ⟨hhandled, hheld⟩ := h.handled.change hc
  obtain ⟨hcredited, hkeys⟩ := h.credited.change h.handled hc
  exact ⟨⟨h.sound.change hc, hhandled, hcredited⟩,
    ⟨steady_change h.sound hc, hheld, hkeys, (h.sound.fenced.change hc).2⟩⟩

theorem Trusted.changes (h : Trusted s) (hc : Changes G s t) : Trusted t ∧ Onward s t := by
  constructor
  · exact changes_invariant Trusted (fun _ _ h hc => (h.change hc).1) hc h
  · exact changes_preserves Trusted Onward .refl (fun _ _ _ h h' => h.trans h')
      (fun _ _ h hc => (h.change hc).1) (fun _ _ h hc => (h.change hc).2) hc h

theorem credited_init : Credited init where
  batch _ h := by cases h
  run _ h := by cases h
  water _ h := by cases h
  claimed _ h := by cases h
  current _ h := by cases h
  named _ h := by cases h

theorem trusted_init : Trusted init := ⟨sound_init, handled_init, credited_init⟩

theorem trusted_of_reach (h : Reach (step mac) init s) : Trusted s :=
  (trusted_init.changes (changes_of_reach h)).1

theorem Trusted.follows (h : Trusted t) (honward : Onward s t) {b' : Batch}
    (hb : s.batches.get? k = some b) (hb' : t.batches.get? k = some b') :
    Follows t b b' ∧ (b'.state = .consumed ∨ t.ledger k = s.ledger k) := by
  rcases honward.steady.batches k b hb with ⟨x, hx, hfollows⟩ | hclosed
  · rw [hb'] at hx
    obtain rfl := Option.some.inj hx
    exact hfollows
  · exact absurd hclosed (h.sound.fenced.not_closed (h.sound.live_batch hb'))

theorem Trusted.key_eq (h : Trusted s) (honward : Onward s t) {key key' : TokenKey}
    (hkey : key ∈ s.tokenKeys) (hkey' : key' ∈ t.tokenKeys) (hversion : key'.version = key.version) :
    key' = key := by
  have hwater := h.credited.water key hkey
  exact Table.eq_of_key (honward.keys.keys key' hkey' (hversion ▸ hwater)) hkey hversion

end State

end PawFlow.Agui
