import PawFlow.Agui.Claims

/-!
# Claim credentials

Credentials are not stored: owner tokens and receipts are derived again from the handle, the
usage, the row and the claim generation, under the key version the batch pins. So a claim has
the same credentials however often it is replayed, an expiry revokes them, and a credential
is accepted as what it was derived for and nothing else.
-/

namespace PawFlow.Agui

open PawFlow.Lib

/-- What is used of the MAC being injective: messages with one MAC agree in usage and
generation. -/
def Mac.Injective (mac : Mac) : Prop :=
  ∀ ⦃secret handle usage identity generation secret' handle' usage' identity' generation'⦄,
    mac secret handle usage identity generation =
      mac secret' handle' usage' identity' generation' → usage = usage' ∧ generation = generation'

namespace State

variable {s t : State} {mac : Mac}

/-! ## What a row issues -/

/-- The row behind a credential: its handle, its identity, the generation and the key version
that go into the derivation. -/
inductive Row (s : State) : Usage → String → Identity → Nat → Nat → Prop
  | batch {b : Batch} : b ∈ s.batches → Row s .batch b.handle ⟨b.key, none⟩ 0 b.keyVersion
  | owner {b : Batch} : b ∈ s.batches →
      Row s .owner b.handle ⟨b.key, none⟩ b.claimGeneration b.keyVersion
  | receipt {c : Call} {b : Batch} : c ∈ s.calls → c.handle ≠ "" →
      s.batches.get? c.runKey = some b →
      Row s .receipt c.handle ⟨c.runKey, some c.toolCallId⟩ b.claimGeneration b.keyVersion
  | attach {r : RunToken} : r ∈ s.runTokens → Row s .attach r.handle ⟨r.key, none⟩ 0 r.keyVersion
  | cancel {r : RunToken} : r ∈ s.runTokens → Row s .cancel r.handle ⟨r.key, none⟩ 0 r.keyVersion

/-- The row a credential of an identity belongs to. -/
def holderOf (usage : Usage) (identity : Identity) : Holder :=
  match usage with
  | .batch | .owner => .batch identity.run
  | .receipt => .call (identity.run, identity.toolCallId.getD "")
  | .attach | .cancel => .run identity.run

variable {generation : Nat} {handle : String} {identity identity' : Identity} {usage : Usage}
  {token : Token} {b : Batch} {reply : ClaimReply}

variable {version generation' : Nat}

theorem Row.holds (h : Row s usage handle identity generation version) :
    Holds s handle (holderOf usage identity) := by
  cases h with
  | batch hb => exact .batch hb
  | owner hb => exact .batch hb
  | receipt hc hne _ => exact .call hc hne
  | attach hr => exact .run hr
  | cancel hr => exact .run hr

theorem Row.identity_eq {handle' : String} {version' : Nat}
    (h : Row s usage handle identity generation version)
    (h' : Row t usage handle' identity' generation' version')
    (hholder : holderOf usage identity' = holderOf usage identity) : identity' = identity := by
  cases h with
  | batch | owner =>
    cases h'
    exact congrArg (Identity.mk · none) (Holder.batch.inj hholder)
  | receipt =>
    cases h'
    exact congrArg (fun k : CallKey => Identity.mk k.1 (some k.2)) (Holder.call.inj hholder)
  | attach | cancel =>
    cases h'
    exact congrArg (Identity.mk · none) (Holder.run.inj hholder)

/-- The credential a row of the store stands for. -/
def Issues (mac : Mac) (s : State) (token : Token) (usage : Usage) (identity : Identity)
    (generation : Nat) : Prop :=
  ∃ handle version, Row s usage handle identity generation version ∧
    deriveToken mac s version handle usage identity generation = .ok token

theorem deriveToken_ok
        (h : deriveToken mac s version handle usage identity generation = .ok token) :
    ∃ key ∈ s.tokenKeys, key.version = version ∧
      token = ⟨version, handle, mac key.secret handle usage identity generation⟩ := by
  unfold deriveToken at h
  split at h
  · cases h
  next key hkey =>
  obtain ⟨hmem, hversion⟩ := Table.get?_eq_some.mp hkey
  exact ⟨key, hmem, hversion, (Except.ok.inj h).symm⟩

variable {usage' : Usage} {claimId : String}

theorem Trusted.issues_eq (h : Trusted s) (honward : Onward s t) (hmac : mac.Injective)
    (hissues : Issues mac s token usage identity generation)
    (hissues' : Issues mac t token usage' identity' generation') :
    usage' = usage ∧ identity' = identity ∧ generation' = generation := by
  obtain ⟨handle, version, hrow, hderive⟩ := hissues
  obtain ⟨handle', version', hrow', hderive'⟩ := hissues'
  obtain ⟨key, -, -, rfl⟩ := deriveToken_ok hderive
  obtain ⟨key', -, -, htoken⟩ := deriveToken_ok hderive'
  obtain ⟨-, rfl, hmacs⟩ := Token.mk.inj htoken
  obtain ⟨rfl, rfl⟩ := hmac hmacs
  refine ⟨rfl, ?_, rfl⟩
  -- the handle has not changed hands
  exact hrow.identity_eq hrow' (h.handled.holder_eq honward.held hrow.holds hrow'.holds)

/-! ## What a claim returns -/

/-- The receipt of one listed call. -/
def receiptOf (mac : Mac) (b : Batch) (secret : String) (e : String × String × Time) :
    String × Token :=
  (e.1, ⟨b.keyVersion, e.2.1, mac secret e.2.1 .receipt ⟨b.key, some e.1⟩ b.claimGeneration⟩)

theorem receiptsFor_ok {key : TokenKey} (hkey : s.tokenKeys.get? b.keyVersion = some key)
    (calls : List Call) :
    receiptsFor mac s b calls =
      .ok ((calls.map fun c => (c.toolCallId, c.handle, c.createdAt)).map
        (receiptOf mac b key.secret)) := by
  induction calls with
  | nil => rfl
  | cons c rest ih =>
    unfold receiptsFor deriveToken
    rw [hkey, ih]
    rfl

theorem claimReply_ok (h : claimReply mac b s = .ok reply) :
    ∃ key, s.tokenKeys.get? b.keyVersion = some key ∧ reply =
      ⟨b.key, b.state, b.claimGeneration,
        ⟨b.keyVersion, b.handle, mac key.secret b.handle .owner ⟨b.key, none⟩ b.claimGeneration⟩,
        ((s.ledger b.key).insertionSort fun e e' => e.2.2 ≤ e'.2.2).map
          (receiptOf mac b key.secret)⟩ := by
  unfold claimReply at h
  obtain ⟨owner, howner, h⟩ := bind_ok h
  obtain ⟨receipts, hreceipts, h⟩ := bind_ok h
  obtain ⟨key, hmem, hversion, rfl⟩ := deriveToken_ok howner
  have hkey : s.tokenKeys.get? b.keyVersion = some key := Table.get?_eq_some.mpr ⟨hmem, hversion⟩
  rw [receiptsFor_ok hkey] at hreceipts
  obtain rfl := Except.ok.inj hreceipts
  refine ⟨key, hkey, ?_⟩
  obtain rfl := Except.ok.inj h
  unfold ledger
  rw [List.map_insertionSort (r := fun c d : Call => c.createdAt ≤ d.createdAt)
    (s := fun e e' : String × String × Time => e.2.2 ≤ e'.2.2)]
  exact fun _ _ _ _ => Iff.rfl

theorem claimIn_ok {lease now : Time}
    (h : s.claimIn mac b claimId lease now = .ok (.ok reply, t)) (hb : s.batches.get? b.key = some b) :
    ∃ b', t.batches.get? b.key = some b' ∧ b'.key = b.key ∧ b'.handle = b.handle ∧ Claimed b' ∧
      b'.batchClaimId = claimId ∧ claimReply mac b' t = .ok reply := by
  unfold claimIn at h
  split at h
  · cases (ok_pair_inj h).1
  split at h
  · obtain ⟨reply', hreply, h⟩ := bind_ok h
    obtain ⟨heq, rfl⟩ := ok_pair_inj h
    obtain rfl := Except.ok.inj heq
    refine ⟨b.claimed claimId (now + max second lease), ?_, rfl, rfl, .inl rfl, rfl, hreply⟩
    rw [get?_updateBatch, if_pos rfl, hb]
    rfl
  · next hstate =>
    split at h
    · cases h
    next hid =>
    obtain ⟨reply', hreply, h⟩ := bind_ok h
    obtain ⟨heq, rfl⟩ := ok_pair_inj h
    obtain rfl := Except.ok.inj heq
    exact ⟨b, hb, rfl, rfl, .inl hstate, not_ne_iff.mp hid, hreply⟩
  · next hstate =>
    split at h
    · cases h
    next hid =>
    obtain ⟨reply', hreply, h⟩ := bind_ok h
    obtain ⟨heq, rfl⟩ := ok_pair_inj h
    obtain rfl := Except.ok.inj heq
    exact ⟨b, hb, rfl, rfl, .inr hstate, not_ne_iff.mp hid, hreply⟩
  · cases h
  · cases h

/-- A claim that succeeds: the batch is claimed under that id afterwards, and the reply is read
off its row. -/
theorem claimBatch_ok {lease now : Time} {scope : Scope}
    (h : s.claimBatch mac token claimId lease scope now = .ok (.ok reply, t)) :
    ∃ b, t.batches.get? b.key = some b ∧ b.handle = token.handle ∧ Claimed b ∧
      b.batchClaimId = claimId ∧ claimReply mac b t = .ok reply ∧
      Issues mac s token .batch ⟨b.key, none⟩ 0 := by
  unfold claimBatch at h
  split at h
  · cases h
  split at h
  · cases h
  next b hfind =>
  have hb : b ∈ s.batches := List.mem_of_find?_eq_some hfind
  have hhandle : b.handle = token.handle := by simpa using List.find?_some hfind
  split at h
  · cases h
  obtain ⟨u, hverify, h⟩ := bind_ok h
  have hissues : Issues mac s token .batch ⟨b.key, none⟩ 0 := by
    obtain ⟨expected, hderive, hverify⟩ := bind_ok hverify
    split at hverify
    · next heq => exact ⟨b.handle, b.keyVersion, .batch hb, heq ▸ hderive⟩
    · cases hverify
  split at h
  · cases h
  split at h
  · have hexpired : (s.expireClaim b).batches.get? b.key = some b.expired := by
      unfold expireClaim
      rw [get?_updateBatch, if_pos rfl, show Table.get? _ b.key = some b from Table.get?_of_mem hb]
      rfl
    obtain ⟨b', hb', hkey, hsame, hclaimed, hid, hreply⟩ := claimIn_ok h hexpired
    refine ⟨b', ?_, hsame.trans hhandle, hclaimed, hid, hreply, ?_⟩
    · rw [hkey]
      exact hb'
    · rw [hkey]
      exact hissues
  · obtain ⟨b', hb', hkey, hsame, hclaimed, hid, hreply⟩ := claimIn_ok h (Table.get?_of_mem hb)
    refine ⟨b', ?_, hsame.trans hhandle, hclaimed, hid, hreply, ?_⟩
    · rw [hkey]
      exact hb'
    · rw [hkey]
      exact hissues

/-! ## What is accepted -/

/-- A credential is accepted, as what and for which row: the operations that take one. -/
inductive Accepted (mac : Mac) (s : State) (token : Token) : Usage → Identity → Prop
  | claim {claimId : String} {lease now : Time} {scope : Scope} {reply : ClaimReply} {t : State} :
      s.claimBatch mac token claimId lease scope now = .ok (.ok reply, t) →
      Accepted mac s token .batch ⟨reply.run, none⟩
  | renew {lease now : Time} {scope : Scope} {t : State} {b : Batch} :
      s.batches.rows.find? (fun b => b.handle = token.handle) = some b →
      s.renewBatch mac token lease scope now = .ok (.ok (), t) →
      Accepted mac s token .owner ⟨b.key, none⟩
  | begun {catalogueId catalogueVersion : String} {scope : Scope} {now : Time} {t : State}
      {c : Call} {b : Batch} :
      s.callByReceipt mac token scope = .ok (c, b) →
      s.beginCall mac token catalogueId catalogueVersion scope now = .ok (.ok (), t) →
      Accepted mac s token .receipt ⟨c.runKey, some c.toolCallId⟩
  | deposit {kind payloadJson : String} {scope : Scope} {now : Time} {t : State} {c : Call}
      {b : Batch} {reply : DepositReply} :
      s.callByReceipt mac token scope = .ok (c, b) →
      s.depositCall mac token kind payloadJson scope now = .ok (.ok reply, t) →
      Accepted mac s token .receipt ⟨c.runKey, some c.toolCallId⟩
  | run {usage : Usage} {scope : Scope} {k : RunKey} : usage = .attach ∨ usage = .cancel →
      s.resolveRunToken mac token usage scope = .ok k → Accepted mac s token usage ⟨k, none⟩

theorem verifyGenerationBound_ok
        (h : verifyGenerationBound mac s token version handle usage identity generation = .ok ()) :
    deriveToken mac s version handle usage identity generation = .ok token := by
  obtain ⟨expected, hderive, h⟩ := bind_ok h
  split at h
  · next heq => exact heq ▸ hderive
  · split at h
    · cases h
    · cases h

theorem issues_of_receipt {receipt : Token} {scope : Scope} {c : Call}
    (h : s.callByReceipt mac receipt scope = .ok (c, b)) :
    Issues mac s receipt .receipt ⟨c.runKey, some c.toolCallId⟩ b.claimGeneration := by
  obtain ⟨hc, hne, -, hb, -, hverify⟩ := callByReceipt_ok h
  exact ⟨c.handle, b.keyVersion, .receipt hc hne hb, verifyGenerationBound_ok hverify⟩

/-- Only the credential its row stands for right now is accepted. -/
theorem Accepted.issues (h : Accepted mac s token usage identity) :
    ∃ generation, Issues mac s token usage identity generation := by
  cases h with
  | claim h =>
    obtain ⟨b, -, -, -, -, hreply, hissues⟩ := claimBatch_ok h
    obtain ⟨key, -, rfl⟩ := claimReply_ok hreply
    exact ⟨0, hissues⟩
  | @renew lease now scope t b hfind h =>
    unfold renewBatch at h
    rw [hfind] at h
    dsimp only at h
    split at h
    · cases h
    obtain ⟨u, hverify, -⟩ := bind_ok h
    exact ⟨b.claimGeneration, b.handle, b.keyVersion, .owner (List.mem_of_find?_eq_some hfind),
      verifyGenerationBound_ok hverify⟩
  | begun hresolved _ => exact ⟨_, issues_of_receipt hresolved⟩
  | deposit hresolved _ => exact ⟨_, issues_of_receipt hresolved⟩
  | run husage h =>
    unfold resolveRunToken at h
    split at h
    · cases h
    next r hfind =>
    have hr : r ∈ s.runTokens := List.mem_of_find?_eq_some hfind
    split at h
    · cases h
    obtain ⟨u, hverify, h⟩ := bind_ok h
    obtain rfl := Except.ok.inj h
    obtain ⟨expected, hderive, hverify⟩ := bind_ok hverify
    split at hverify
    · next heq =>
      subst heq
      rcases husage with rfl | rfl
      · exact ⟨0, r.handle, r.keyVersion, .attach hr, hderive⟩
      · exact ⟨0, r.handle, r.keyVersion, .cancel hr, hderive⟩
    · cases hverify

/-! ## Runs -/

/-- Two claims of one batch under one id are one claim. -/
theorem Trusted.claim_replayed (ht : Trusted t) {v : State} (hv : Trusted v)
    (honward : Onward t v) {b' : Batch} {reply' : ClaimReply}
    (hb : t.batches.get? b.key = some b) (hclaimed : Claimed b)
    (hreply : claimReply mac b t = .ok reply) (hb' : v.batches.get? b'.key = some b')
    (hclaimed' : Claimed b') (hreply' : claimReply mac b' v = .ok reply')
    (hhandle : b'.handle = b.handle) (hid : b'.batchClaimId = b.batchClaimId) :
    reply'.ownerToken = reply.ownerToken ∧ reply'.receipts = reply.receipts := by
  have hkey : b'.key = b.key := Holder.batch.inj
    (ht.handled.holder_eq honward.held (.batch (Table.get?_mem hb))
      (hhandle ▸ .batch (Table.get?_mem hb')))
  rw [hkey] at hb'
  obtain ⟨hfollows, hledger⟩ := hv.follows honward hb hb'
  have hnotFrozen : b.state ≠ .frozen := by
    rcases hclaimed with hstate | hstate <;> simp [hstate]
  have hledger : v.ledger b.key = t.ledger b.key := by
    rcases hledger with hconsumed | hledger
    · exact absurd hconsumed (not_consumed_of_claimed hclaimed')
    · exact hledger
  have hgeneration : b'.claimGeneration = b.claimGeneration := by
    rcases hfollows.claim hnotFrozen with ⟨hgen, -, -⟩ | ⟨-, hgone⟩
    · exact hgen
    · -- an expired id is not the id of a batch
      have hcurrent := hv.credited.current b' (Table.get?_mem hb')
      rw [hhandle, hid] at hcurrent
      rw [hcurrent] at hgone
      cases hgone
  obtain ⟨key, hkeyed, rfl⟩ := claimReply_ok hreply
  obtain ⟨key', hkeyed', rfl⟩ := claimReply_ok hreply'
  obtain ⟨hmem, hversion⟩ := Table.get?_eq_some.mp hkeyed
  obtain ⟨hmem', hversion'⟩ := Table.get?_eq_some.mp hkeyed'
  have hsecret : key' = key := by
    refine ht.key_eq honward hmem hmem' ?_
    rw [hversion, hversion', hfollows.keyVersion]
  subst hsecret
  have hreceipt : receiptOf mac b' key'.secret = receiptOf mac b key'.secret := by
    funext e
    unfold receiptOf
    rw [hkey, hgeneration, hfollows.keyVersion]
  constructor
  · show Token.mk _ _ _ = Token.mk _ _ _
    rw [hkey, hgeneration, hfollows.keyVersion, hhandle]
  · show List.map _ _ = List.map _ _
    rw [hreceipt, hkey, hledger]

theorem Trusted.generation_lt (hv : Trusted s) (honward : Onward t s) {b' : Batch}
    (hb : t.batches.get? b.key = some b) (hclaimed : Claimed b)
    (hgone : (s.expiredClaims.get? (b.handle, b.batchClaimId)).isSome)
    (hb' : s.batches.get? b.key = some b') : b.claimGeneration < b'.claimGeneration := by
  obtain ⟨hfollows, -⟩ := hv.follows honward hb hb'
  have hnotFrozen : b.state ≠ .frozen := by
    rcases hclaimed with hstate | hstate <;> simp [hstate]
  rcases hfollows.claim hnotFrozen with ⟨-, hid, -⟩ | ⟨hlt, -⟩
  · have hcurrent := hv.credited.current b' (Table.get?_mem hb')
    rw [hfollows.handle, hid] at hcurrent
    rw [hcurrent] at hgone
    cases hgone
  · exact hlt

theorem issues_of_reply (hb : t.batches.get? b.key = some b)
    (hreply : claimReply mac b t = .ok reply) :
    Issues mac t reply.ownerToken .owner ⟨b.key, none⟩ b.claimGeneration ∧
      ∀ r ∈ reply.receipts,
        (∃ secret, r.2.mac = mac secret r.2.handle .receipt ⟨b.key, some r.1⟩ b.claimGeneration) ∧
        (r.2.handle ≠ "" → Issues mac t r.2 .receipt ⟨b.key, some r.1⟩ b.claimGeneration) := by
  obtain ⟨key, hkey, rfl⟩ := claimReply_ok hreply
  have hderive : ∀ handle usage identity generation,
      deriveToken mac t b.keyVersion handle usage identity generation =
        .ok ⟨b.keyVersion, handle, mac key.secret handle usage identity generation⟩ := by
    intro handle usage identity generation
    unfold deriveToken
    rw [hkey]
  refine ⟨⟨b.handle, b.keyVersion, .owner (Table.get?_mem hb), hderive ..⟩, ?_⟩
  intro r hr
  obtain ⟨e, he, rfl⟩ := List.mem_map.mp hr
  rw [List.mem_insertionSort] at he
  obtain ⟨c, hc, rfl⟩ := List.mem_map.mp he
  obtain ⟨hmem, hp⟩ := List.mem_filter.mp hc
  have hrun : c.runKey = b.key := (of_decide_eq_true hp).1
  refine ⟨⟨key.secret, rfl⟩, ?_⟩
  intro hne
  refine ⟨c.handle, b.keyVersion, ?_, hderive ..⟩
  have hrow : Row t .receipt c.handle ⟨c.runKey, some c.toolCallId⟩ b.claimGeneration
      b.keyVersion := .receipt hmem hne (hrun ▸ hb)
  rw [hrun] at hrow
  exact hrow

theorem not_issues_of_empty (hmac : mac.Injective) {secret : String} (hempty : token.handle = "")
    (htoken : token.mac = mac secret token.handle .receipt identity generation) :
    ¬ Issues mac s token usage identity' generation' := by
  rintro ⟨handle, version, hrow, hderive⟩
  obtain ⟨key, -, -, rfl⟩ := deriveToken_ok hderive
  obtain ⟨rfl, -⟩ := hmac htoken
  have hempty : handle = "" := hempty
  subst hempty
  generalize hhandle : "" = handle at hrow
  cases hrow with
  | receipt _ hne _ => exact hne hhandle.symm

theorem Issues.batch_generation (h : Issues mac s token usage identity generation)
    (husage : usage = .owner ∨ usage = .receipt) :
    ∃ b, s.batches.get? identity.run = some b ∧ b.claimGeneration = generation := by
  obtain ⟨handle, version, hrow, -⟩ := h
  cases hrow with
  | batch => rcases husage with h | h <;> cases h
  | owner hb => exact ⟨_, Table.get?_of_mem hb, rfl⟩
  | receipt _ _ hb => exact ⟨_, hb, rfl⟩
  | attach => rcases husage with h | h <;> cases h
  | cancel => rcases husage with h | h <;> cases h

theorem Trusted.not_accepted (ht : Trusted t) (hs : Trusted s) (honward : Onward t s)
    (hmac : mac.Injective) (hb : t.batches.get? b.key = some b) (hclaimed : Claimed b)
    (hgone : (s.expiredClaims.get? (b.handle, b.batchClaimId)).isSome)
    (hissues : Issues mac t token usage identity b.claimGeneration)
    (husage : usage = .owner ∨ usage = .receipt) (hrun : identity.run = b.key) :
    ¬ Accepted mac s token usage' identity' := by
  intro haccepted
  obtain ⟨generation, hissues'⟩ := haccepted.issues
  obtain ⟨rfl, rfl, rfl⟩ := ht.issues_eq honward hmac hissues hissues'
  obtain ⟨b', hb', hgeneration⟩ := hissues'.batch_generation husage
  rw [hrun] at hb'
  have hlt := hs.generation_lt honward hb hclaimed hgone hb'
  omega

/-- **Claim credentials are stable and revocable**, over every interleaving, with any clock
readings, for a MAC that is injective. Successful claims of one batch under one claim id
return one owner token and the same receipts; once the expiry of the lease was observed, the id
never succeeds again and neither the owner token nor a receipt is ever accepted again; a
credential is accepted only as what it was derived for and only for that row; and the key
version of a batch or a run token is in the keyring, no version being given another secret. -/
theorem credentials_stable {mac : Mac} (hmac : mac.Injective) {s : State}
    (hs : Reach (step mac) init s) :
    (∀ token claimId lease scope now reply t,
      s.claimBatch mac token claimId lease scope now = .ok (.ok reply, t) →
      ∀ u, Reach (step mac) t u →
        (∀ token' lease' scope' now' reply' v,
          u.claimBatch mac token' claimId lease' scope' now' = .ok (.ok reply', v) →
          token'.handle = token.handle →
          reply'.ownerToken = reply.ownerToken ∧ reply'.receipts = reply.receipts) ∧
        ((u.expiredClaims.get? (token.handle, claimId)).isSome → ∀ v, Reach (step mac) u v →
          (∀ token' lease' scope' now' reply' w, token'.handle = token.handle →
            v.claimBatch mac token' claimId lease' scope' now' ≠ .ok (.ok reply', w)) ∧
          (∀ usage identity, ¬ Accepted mac v reply.ownerToken usage identity) ∧
          (∀ r ∈ reply.receipts, ∀ usage identity, ¬ Accepted mac v r.2 usage identity))) ∧
    (∀ token usage identity generation, Issues mac s token usage identity generation →
      ∀ t, Reach (step mac) s t → ∀ usage' identity', Accepted mac t token usage' identity' →
        usage' = usage ∧ identity' = identity) ∧
    (∀ b ∈ s.batches, (s.tokenKeys.get? b.keyVersion).isSome) ∧
    (∀ r ∈ s.runTokens, (s.tokenKeys.get? r.keyVersion).isSome) ∧
    (∀ key ∈ s.tokenKeys, ∀ t, Reach (step mac) s t → ∀ key' ∈ t.tokenKeys,
      key'.version = key.version → key' = key) := by
  have htrusted := trusted_of_reach hs
  refine ⟨?_, ?_, htrusted.credited.batch, htrusted.credited.run, ?_⟩
  · intro token claimId lease scope now reply t hclaim u hu
    obtain ⟨b, hb, hhandle, hclaimed, hid, hreply, -⟩ := claimBatch_ok hclaim
    obtain ⟨ht, -⟩ := htrusted.changes (changes_claimBatch (G := fun _ _ => True) hclaim)
    obtain ⟨hu', htu⟩ := ht.changes (changes_of_reach hu)
    constructor
    · intro token' lease' scope' now' reply' v hclaim' hsame
      obtain ⟨b', hb', hhandle', hclaimed', hid', hreply', -⟩ := claimBatch_ok hclaim'
      obtain ⟨hv, huv⟩ := hu'.changes (changes_claimBatch (G := fun _ _ => True) hclaim')
      refine ht.claim_replayed hv (htu.trans huv) hb hclaimed hreply hb' hclaimed' hreply' ?_ ?_
      · rw [hhandle', hsame, hhandle]
      · rw [hid', hid]
    · intro hgone v hv
      obtain ⟨hv', huv⟩ := hu'.changes (changes_of_reach hv)
      have honward := htu.trans huv
      have hgone : (v.expiredClaims.get? (b.handle, b.batchClaimId)).isSome := by
        rw [hhandle, hid]
        exact huv.steady.expired _ hgone
      obtain ⟨howner, hreceipts⟩ := issues_of_reply hb hreply
      refine ⟨?_, ?_, ?_⟩
      · intro token' lease' scope' now' reply' w hsame hclaim'
        obtain ⟨b', hb', hhandle', -, hid', -, -⟩ := claimBatch_ok hclaim'
        obtain ⟨hw, hvw⟩ := hv'.changes (changes_claimBatch (G := fun _ _ => True) hclaim')
        have hcurrent := hw.credited.current b' (Table.get?_mem hb')
        have hgone := hvw.steady.expired _ hgone
        rw [hhandle', hsame, ← hhandle, hid', ← hid] at hcurrent
        rw [hcurrent] at hgone
        cases hgone
      · intro usage identity
        exact ht.not_accepted hv' honward hmac hb hclaimed hgone howner (.inl rfl) rfl
      · intro r hr usage identity
        obtain ⟨⟨secret, hsecret⟩, hissues⟩ := hreceipts r hr
        by_cases hempty : r.2.handle = ""
        · intro haccepted
          obtain ⟨generation, hissues⟩ := haccepted.issues
          exact not_issues_of_empty hmac hempty hsecret hissues
        · exact ht.not_accepted hv' honward hmac hb hclaimed hgone (hissues hempty) (.inr rfl) rfl
  · intro token usage identity generation hissues t ht usage' identity' haccepted
    obtain ⟨generation', hissues'⟩ := haccepted.issues
    obtain ⟨-, honward⟩ := htrusted.changes (changes_of_reach ht)
    obtain ⟨husage, hidentity, -⟩ := htrusted.issues_eq honward hmac hissues hissues'
    exact ⟨husage, hidentity⟩
  · intro key hkey t ht key' hkey' hversion
    obtain ⟨-, honward⟩ := htrusted.changes (changes_of_reach ht)
    exact htrusted.key_eq honward hkey hkey' hversion

/-! ## A sample run -/

def usageLetter : Usage → Char
  | .batch => 'b'
  | .owner => 'o'
  | .receipt => 'r'
  | .attach => 'a'
  | .cancel => 'c'

/-- A MAC for the sample run, which spells its message out with the generation in unary. -/
def plainMac : Mac := fun secret handle usage identity generation =>
  String.ofList (usageLetter usage :: (List.replicate generation '1' ++
    ('|' :: (secret ++ "|" ++ handle ++ "|" ++ identity.run.2 ++ "|" ++
      identity.toolCallId.getD "").toList)))

theorem plainMac_injective : plainMac.Injective := by
  intro secret handle usage identity generation secret' handle' usage' identity' generation' h
  have h := congrArg String.toList h
  simp only [plainMac, String.toList_ofList] at h
  obtain ⟨hletter, hrest⟩ := List.cons.inj h
  refine ⟨?_, (replicate_append_inj (by decide) (by decide) hrest).1⟩
  cases usage <;> cases usage' <;> first | rfl | cases hletter

/-- A managed turn with one call, its batch frozen. -/
def plainTurn : State :=
  [⟨.savePublication ⟨"pub", "conv", true, true⟩, 0, {}⟩,
    ⟨.ensureThread sampleThread, 1, {}⟩,
    ⟨.resolveContext ⟨"pub", "conv", true, true⟩ sampleThread 0 "d", 2, {}⟩,
    ⟨.acquire ⟨sampleThread, 0, "r1", "h1", "", ""⟩, 3, { handle := "1", secret := "k" }⟩,
    ⟨.adopt (⟨sampleThread, 0⟩, "r1") "w1", 4, {}⟩,
    ⟨.recordCall (⟨sampleThread, 0⟩, "r1") ⟨"c1", "tool", "cat", "1"⟩, 5, {}⟩,
    ⟨.finish (⟨sampleThread, 0⟩, "r1") { worker := "w1", outcome := "success" }, 6,
      { handle := "2", callHandle := fun _ => "3" }⟩].foldl (perform plainMac) init

def plainBatchToken : Token :=
  ⟨1, "bh2", plainMac "k" "bh2" .batch ⟨(⟨sampleThread, 0⟩, "r1"), none⟩ 0⟩

def reclaimed : State :=
  (plainTurn.perform plainMac ⟨.claimBatch plainBatchToken "first" second none, 7, {}⟩).perform
    plainMac ⟨.claimBatch plainBatchToken "second" second none, 2 * second, {}⟩

theorem credentials_stable_reclaimed :
    reclaimed.batches.rows.map (fun b => (b.state, b.batchClaimId, b.claimGeneration)) =
        [(.reservedPreEffect, "second", 3)] ∧
      ∃ reply t, plainTurn.claimBatch plainMac plainBatchToken "first" second none 7 =
          .ok (.ok reply, t) ∧
        ∀ usage identity, ¬ Accepted plainMac reclaimed reply.ownerToken usage identity := by
  refine ⟨by decide +kernel, ?_⟩
  have hsuccess : (plainTurn.claimBatch plainMac plainBatchToken "first" second none 7).toOption.any
      (fun r => r.1.toOption.isSome) = true := by
    decide +kernel
  cases hclaim : plainTurn.claimBatch plainMac plainBatchToken "first" second none 7 with
  | error e =>
    rw [hclaim] at hsuccess
    cases hsuccess
  | ok r =>
    obtain ⟨result, t⟩ := r
    rw [hclaim] at hsuccess
    cases result with
    | error e => cases hsuccess
    | ok reply =>
      have hs : Reach (step plainMac) init plainTurn := reach_foldl (fun _ _ => rfl) _ _
      have ht : plainTurn.perform plainMac
          ⟨.claimBatch plainBatchToken "first" second none, 7, {}⟩ = t := by
        show settle plainTurn (plainTurn.claimBatch plainMac plainBatchToken "first" second none
          7) = t
        rw [hclaim]
        rfl
      have hu : Reach (step plainMac) t reclaimed := by
        rw [← ht]
        exact (Runs.refl _).snoc trivial rfl
      obtain ⟨hstable, -⟩ := credentials_stable plainMac_injective hs
      obtain ⟨-, hrevoked⟩ := hstable _ _ _ _ _ _ _ hclaim reclaimed hu
      obtain ⟨-, howner, -⟩ := hrevoked (by decide +kernel) reclaimed (.refl _)
      exact ⟨reply, t, rfl, howner⟩

end State

end PawFlow.Agui
