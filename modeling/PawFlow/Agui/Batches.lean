import PawFlow.Agui.Journal

/-!
# Managed batches and derived credentials

The transactions of `core/_a2a_turn_batch.py` and the run tokens of
`core/_a2a_turn_attach.py`. A credential `v<K>.<handle>.<MAC>` is kept as its three parts;
the identity its MAC covers is kept as the list of parts the source joins with `|`. The MAC
itself is a parameter. A text that does not split into three parts with a handle is refused
before any transaction, so the operations start from a `Token`.
-/

namespace PawFlow.Agui

open PawFlow.Lib

inductive Usage
  | batch | owner | receipt | attach | cancel
deriving DecidableEq

/-- `context_id|run_id`, or `context_id|run_id|tool_call_id` for a receipt. -/
structure Identity where
  run : RunKey
  toolCallId : Option String := none
deriving DecidableEq

structure Token where
  version : Nat
  handle : String
  mac : String
deriving DecidableEq

def Token.text (t : Token) : String := "v" ++ toString t.version ++ "." ++ t.handle ++ "." ++ t.mac

/-- `_mac`: secret, handle, usage, identity, generation. -/
abbrev Mac := String → String → Usage → Identity → Nat → String

/-- What a transaction draws at random. -/
structure Draw where
  /-- `secrets.token_hex(12)` for a batch or a run. -/
  handle : String := ""
  /-- The same, for each call of a batch. -/
  callHandle : String → String := fun _ => ""
  /-- `secrets.token_hex(32)` for a new key. -/
  secret : String := ""

/-- `(publication_id, key_id)` of an authenticated caller. -/
abbrev Scope := Option (String × String)

/-! ## Rows -/

/-- The batch row after its claim expired. -/
def Batch.expired (b : Batch) : Batch :=
  { b with
    state := .frozen
    batchClaimId := ""
    claimLeaseDeadline := 0
    claimGeneration := b.claimGeneration + 1 }

theorem Batch.expired_key (b : Batch) : b.expired.key = b.key := rfl

/-- The batch row after a claim. -/
def Batch.claimed (claimId : String) (deadline : Time) (b : Batch) : Batch :=
  { b with
    state := .reservedPreEffect
    claimGeneration := b.claimGeneration + 1
    batchClaimId := claimId
    claimLeaseDeadline := deadline }

theorem Batch.claimed_key (claimId : String) (deadline : Time) (b : Batch) :
    (b.claimed claimId deadline).key = b.key := rfl

def Batch.leaseOver (now : Time) (b : Batch) : Bool :=
  b.state = .reservedPreEffect ∧ b.claimLeaseDeadline ≤ now

def Batch.renewed (deadline : Time) (b : Batch) : Batch := { b with claimLeaseDeadline := deadline }

theorem Batch.renewed_key (deadline : Time) (b : Batch) : (b.renewed deadline).key = b.key := rfl

/-- The batch row once a call of it was begun. -/
def Batch.committed (b : Batch) : Batch :=
  { b with state := if b.state = .reservedPreEffect then .executionCommitted else b.state }

theorem Batch.committed_key (b : Batch) : b.committed.key = b.key := rfl

/-- The batch row once all its calls have ended. -/
def Batch.completed (b : Batch) : Batch := { b with state := .complete, claimLeaseDeadline := 0 }

theorem Batch.completed_key (b : Batch) : b.completed.key = b.key := rfl

/-- The batch row once a follow-up run took its results. -/
def Batch.consume (b : Batch) : Batch := { b with state := .consumed }

theorem Batch.consume_key (b : Batch) : b.consume.key = b.key := rfl

/-- The call row with the handle its receipts carry. -/
def Call.withHandle (draw : Draw) (c : Call) : Call :=
  { c with handle := "ch" ++ draw.callHandle c.toolCallId }

theorem Call.withHandle_key (draw : Draw) (c : Call) : (c.withHandle draw).key = c.key := rfl

/-- The call row once the call was begun. -/
def Call.execute (c : Call) : Call := { c with execState := .executing }

theorem Call.execute_key (c : Call) : c.execute.key = c.key := rfl

/-- The call row once a follow-up run took its result. -/
def Call.consume (c : Call) : Call := { c with state := .consumed }

theorem Call.consume_key (c : Call) : c.consume.key = c.key := rfl

/-- How a call row records its outcome. -/
def Call.finish (outcome : Outcome) (resultJson : String) (c : Call) : Call :=
  { c with execState := .done outcome, resultKind := some outcome, resultJson }

theorem Call.finish_key (outcome : Outcome) (resultJson : String) (c : Call) :
    (c.finish outcome resultJson).key = c.key := rfl

/-- `call["result_kind"] or call["exec_state"]`. -/
def Call.recorded (c : Call) : String :=
  match c.resultKind with
  | some o => o.text
  | none =>
    match c.execState with
    | .none => ""
    | .executing => "executing"
    | .done o => o.text

/-- How the absolute deadline ends a pending call. -/
def Call.expire (c : Call) : Call :=
  match c.execState with
  | .none => { c with execState := .done .abandoned, resultKind := some .abandoned }
  | .executing => { c with execState := .done .indeterminate, resultKind := some .indeterminate }
  | .done _ => c

theorem Call.expire_key (c : Call) : c.expire.key = c.key := by
  unfold Call.expire
  split <;> rfl

theorem Call.expire_row (c : Call) : c.expire.state = c.state ∧ c.expire.handle = c.handle ∧
    c.expire.createdAt = c.createdAt := by
  unfold Call.expire
  split <;> exact ⟨rfl, rfl, rfl⟩

namespace State

/-! ## Keys -/

/-- The largest of some versions. -/
def maxVersion (versions : List Nat) : Nat := versions.foldl max 0

/-- The version of a new key, above everything ever used. -/
def freshVersion (s : State) : Nat :=
  max (max s.keyHighWater (maxVersion (s.batches.rows.map Batch.keyVersion)))
    (maxVersion (s.runTokens.rows.map RunToken.keyVersion)) + 1

def addKey (secret : String) (s : State) : State :=
  { s with
    tokenKeys := s.tokenKeys.insertIgnore ⟨s.freshVersion, secret⟩
    keyHighWater := max s.keyHighWater s.freshVersion }

/-- `_current_key_version`: an empty keyring mints a key. -/
def currentKeyVersion (secret : String) (s : State) : Nat × State :=
  if s.tokenKeys.rows.isEmpty then (s.freshVersion, s.addKey secret)
  else (maxVersion (s.tokenKeys.rows.map TokenKey.version), s)

/-- The keys `prune_agui_token_keys` takes: neither the current one nor one a row refers to. -/
def unusedKey (s : State) (k : TokenKey) : Bool :=
  k.version ≠ maxVersion (s.tokenKeys.rows.map TokenKey.version) ∧
    k.version ∉ s.batches.rows.map Batch.keyVersion ∧
    k.version ∉ s.runTokens.rows.map RunToken.keyVersion

/-- `prune_agui_token_keys`. -/
def pruneKeys (s : State) : Except Error (Nat × State) :=
  if s.tokenKeys.rows.isEmpty then .ok (0, s)
  else .ok (s.tokenKeys.count s.unusedKey, { s with tokenKeys := s.tokenKeys.delete s.unusedKey })

/-- Draw handles that were never drawn before. -/
def mint (handles : List String) (s : State) : Except Error State :=
  if handles.Nodup ∧ ∀ h ∈ handles, h ∉ s.minted then
    .ok { s with minted := handles ++ s.minted }
  else .error .integrityError

/-! ## Tokens -/

section

variable (mac : Mac)

def deriveToken (s : State) (version : Nat) (handle : String) (usage : Usage)
    (identity : Identity) (generation : Nat) : Except Error Token :=
  match s.tokenKeys.get? version with
  | none => .error .runtimeError
  | some key => .ok ⟨version, handle, mac key.secret handle usage identity generation⟩

def verifyAgainstRow (s : State) (token : Token) (version : Nat) (handle : String)
    (usage : Usage) (identity : Identity) (generation : Nat) : Except Error Unit :=
  (deriveToken mac s version handle usage identity generation).bind fun expected =>
    if expected = token then .ok () else .error .tokenInvalid

/-- `_verify_generation_bound`: a token of an older generation has expired, every other
mismatch is invalid. -/
def verifyGenerationBound (s : State) (token : Token) (version : Nat) (handle : String)
    (usage : Usage) (identity : Identity) (generation : Nat) : Except Error Unit :=
  (deriveToken mac s version handle usage identity generation).bind fun expected =>
    if expected = token then .ok ()
    else if (List.range generation).any fun stale =>
        match deriveToken mac s version handle usage identity stale with
        | .ok t => t = token
        | .error _ => false
      then .error .claimExpired
    else .error .tokenInvalid

end

/-- `_verify_scope_in_tx`. -/
def inScope (s : State) (c : ContextId) (scope : Scope) : Bool :=
  scope.all fun (publicationId, keyId) => (s.contexts.get? c).isSome &&
    c.thread.publicationId = publicationId && c.thread.keyId = keyId

/-! ## Freezing -/

/-- The `UPDATE` that gives every pending call its handle. -/
def assignHandles (k : RunKey) (draw : Draw) (s : State) : State :=
  s.updateCalls (fun c => c.runKey = k ∧ c.state = .emitted) (Call.withHandle draw)
    (Call.withHandle_key draw)

/-- `_freeze_batch_in_tx`. -/
def freezeBatch (mac : Mac) (k : RunKey) (deadlineSeconds now : Time) (draw : Draw) (s : State) :
    Except Error (Token × State) :=
  (s.mint (("bh" ++ draw.handle) ::
      (s.pendingCalls k).map fun c => "ch" ++ draw.callHandle c.toolCallId)).bind fun s =>
    let (version, s) := s.currentKeyVersion draw.secret
    match s.batches.insert?
        { contextId := k.1, runId := k.2, handle := "bh" ++ draw.handle, keyVersion := version
          absoluteDeadline := now + max second deadlineSeconds } with
    | none => .error .integrityError
    | some batches =>
      let s := { s with batches }.assignHandles k draw
      (deriveToken mac s version ("bh" ++ draw.handle) .batch ⟨k, none⟩ 0).bind fun token =>
        .ok (token, s)

/-! ## Claims -/

structure ClaimReply where
  run : RunKey
  state : BatchState
  claimGeneration : Nat
  ownerToken : Token
  receipts : List (String × Token)

/-- `_receipts_for`, over the pending calls in the order of their emission. -/
def receiptsFor (mac : Mac) (s : State) (b : Batch) : List Call → Except Error (List (String × Token))
  | [] => .ok []
  | c :: rest =>
    (deriveToken mac s b.keyVersion c.handle .receipt ⟨b.key, some c.toolCallId⟩
        b.claimGeneration).bind fun receipt =>
      (receiptsFor mac s b rest).bind fun receipts => .ok ((c.toolCallId, receipt) :: receipts)

def claimReply (mac : Mac) (b : Batch) (s : State) : Except Error ClaimReply :=
  (deriveToken mac s b.keyVersion b.handle .owner ⟨b.key, none⟩ b.claimGeneration).bind fun owner =>
    (receiptsFor mac s b
        ((s.pendingCalls b.key).insertionSort fun c d => c.createdAt ≤ d.createdAt)).bind
      fun receipts => .ok ⟨b.key, b.state, b.claimGeneration, owner, receipts⟩

/-- `_expire_claim_in_tx`, for a batch whose lease was seen to be over. -/
def expireClaim (b : Batch) (s : State) : State :=
  { s with
    expiredClaims := s.expiredClaims.insertIgnore ⟨b.handle, b.batchClaimId⟩ }.updateBatch b.key
      Batch.expired Batch.expired_key

def claimIn (mac : Mac) (b : Batch) (claimId : String) (leaseSeconds now : Time) (s : State) :
    Except Error (Except Error ClaimReply × State) :=
  if (s.expiredClaims.get? (b.handle, claimId)).isSome then .ok (.error .claimExpired, s)
  else
    match b.state with
    | .frozen =>
      let claim := Batch.claimed claimId (now + max second leaseSeconds)
      let s := s.updateBatch b.key claim (Batch.claimed_key _ _)
      (claimReply mac (claim b) s).bind fun reply => .ok (.ok reply, s)
    | .reservedPreEffect | .executionCommitted =>
      if b.batchClaimId ≠ claimId then .error .batchClaimed
      else (claimReply mac b s).bind fun reply => .ok (.ok reply, s)
    | .complete | .consumed => .error .claimExpired

/-- `claim_agui_batch`; an expiry it observes is committed even when it refuses. -/
def claimBatch (mac : Mac) (token : Token) (claimId : String) (leaseSeconds : Time)
    (scope : Scope) (now : Time) (s : State) : Except Error (Except Error ClaimReply × State) :=
  if claimId = "" then .error (.valueError "batch_claim_id is required")
  else
    match s.batches.rows.find? fun b => b.handle = token.handle with
    | none => .error .tokenInvalid
    | some b =>
      if ¬ s.inScope b.contextId scope then .error .tokenInvalid
      else
        (verifyAgainstRow mac s token b.keyVersion b.handle .batch ⟨b.key, none⟩ 0).bind fun _ =>
          if b.state.isOpen ∧ b.absoluteDeadline ≤ now then .error .claimExpired
          else if b.leaseOver now then
            claimIn mac b.expired claimId leaseSeconds now (s.expireClaim b)
          else claimIn mac b claimId leaseSeconds now s

/-- `renew_agui_batch`. -/
def renewBatch (mac : Mac) (token : Token) (leaseSeconds : Time) (scope : Scope) (now : Time)
    (s : State) : Except Error (Except Error Unit × State) :=
  match s.batches.rows.find? fun b => b.handle = token.handle with
  | none => .error .tokenInvalid
  | some b =>
    if ¬ s.inScope b.contextId scope then .error .tokenInvalid
    else
      (verifyGenerationBound mac s token b.keyVersion b.handle .owner ⟨b.key, none⟩
          b.claimGeneration).bind fun _ =>
        if b.state = .executionCommitted then .ok (.ok (), s)
        else if b.state ≠ .reservedPreEffect then .error .claimExpired
        else if b.absoluteDeadline ≤ now then .error .claimExpired
        else if b.claimLeaseDeadline ≤ now then .ok (.error .claimExpired, s.expireClaim b)
        else
          let deadline := min (now + max second leaseSeconds) b.absoluteDeadline
          .ok (.ok (), s.updateBatch b.key (Batch.renewed deadline) (Batch.renewed_key deadline))

/-! ## Begin and deposit -/

/-- `_call_row_by_receipt`. -/
def callByReceipt (mac : Mac) (receipt : Token) (scope : Scope) (s : State) :
    Except Error (Call × Batch) :=
  if receipt.handle = "" then .error .tokenInvalid
  else
    match s.calls.rows.find? fun c => c.handle = receipt.handle with
    | none => .error .tokenInvalid
    | some call =>
      if ¬ s.inScope call.contextId scope then .error .tokenInvalid
      else
        match s.batches.get? call.runKey with
        | none => .error .tokenInvalid
        | some b =>
          (verifyGenerationBound mac s receipt b.keyVersion call.handle .receipt
              ⟨call.runKey, some call.toolCallId⟩ b.claimGeneration).bind fun _ =>
            .ok (call, b)

/-- A pending call of the run is neither terminal nor abandoned. -/
def unfinished (s : State) (k : RunKey) : Bool :=
  s.calls.rows.any fun c => c.runKey = k ∧ c.state = .emitted ∧ ¬ c.execState.isDone

/-- `_complete_batch_if_done_in_tx`. -/
def completeIfDone (k : RunKey) (s : State) : State :=
  { s with
    batches :=
      if s.unfinished k then s.batches
      else s.batches.update (fun b => b.key = k) Batch.completed Batch.completed_key }

/-- The catalogue gate of `begin_agui_call`. -/
def catalogueRejection (c : Call) (catalogueId catalogueVersion : String) : Option Outcome :=
  if c.catalogueId = "" then none
  else if catalogueId = "" ∨ catalogueVersion = "" then some .catalogueUnverifiable
  else if catalogueId ≠ c.catalogueId ∨ catalogueVersion ≠ c.catalogueVersion then
    some .catalogueChanged
  else none

/-- Crossing the effect boundary: the claim is committed and the call executes. -/
def commitCall (c : Call) (b : Batch) (s : State) : State :=
  { (s.updateBatch b.key Batch.committed Batch.committed_key).updateCalls (fun x => x.key = c.key)
      Call.execute Call.execute_key with
    begins := (c.key, b.batchClaimId) :: s.begins }

/-- What `begin_agui_call` does with a call of a live claim. -/
def beginIn (c : Call) (b : Batch) (catalogueId catalogueVersion : String) (s : State) :
    Except Error (Except Error Unit × State) :=
  match c.execState with
  | .executing => .ok (.ok (), { s with begins := (c.key, b.batchClaimId) :: s.begins })
  | .done _ => .error .depositRejected
  | .none =>
    match catalogueRejection c catalogueId catalogueVersion with
    | some outcome =>
      .ok (.error (.catalogueRejected outcome.text),
        (s.updateCalls (fun x => x.key = c.key) (Call.finish outcome c.resultJson)
          (Call.finish_key outcome c.resultJson)).completeIfDone c.runKey)
    | none => .ok (.ok (), s.commitCall c b)

/-- `begin_agui_call`; an expiry or a rejected catalogue is committed before it raises. -/
def beginCall (mac : Mac) (receipt : Token) (catalogueId catalogueVersion : String)
    (scope : Scope) (now : Time) (s : State) : Except Error (Except Error Unit × State) :=
  (s.callByReceipt mac receipt scope).bind fun (c, b) =>
    if b.state = .complete ∨ b.state = .consumed then .error .claimExpired
    else if b.absoluteDeadline ≤ now then .error .claimExpired
    else if b.state = .reservedPreEffect then
      if b.claimLeaseDeadline ≤ now then .ok (.error .claimExpired, s.expireClaim b)
      else beginIn c b catalogueId catalogueVersion s
    else if b.state = .executionCommitted then beginIn c b catalogueId catalogueVersion s
    else .error .claimExpired

structure DepositReply where
  kind : String
  payloadJson : String
  batchState : BatchState
  replay : Bool
deriving DecidableEq

/-- The write of a first deposit. -/
def depositIn (c : Call) (outcome : Outcome) (payloadJson : String) (s : State) :
    Except Error (Except Error DepositReply × State) :=
  let s := (s.updateCalls (fun x => x.key = c.key) (Call.finish outcome payloadJson)
    (Call.finish_key outcome payloadJson)).completeIfDone c.runKey
  let state := ((s.batches.get? c.runKey).map Batch.state).getD .frozen
  .ok (.ok ⟨outcome.text, payloadJson, state, false⟩, s)

/-- `deposit_agui_call`. -/
def depositCall (mac : Mac) (receipt : Token) (kind payloadJson : String) (scope : Scope)
    (now : Time) (s : State) : Except Error (Except Error DepositReply × State) :=
  (s.callByReceipt mac receipt scope).bind fun (c, b) =>
    let recorded : Except Error (Except Error DepositReply × State) :=
      .ok (.ok ⟨c.recorded, c.resultJson, b.state, true⟩, s)
    match c.execState with
    | .done _ =>
      if (c.resultKind.map Outcome.text).getD "" = kind ∧ c.resultJson = payloadJson then
        .ok (.ok ⟨kind, payloadJson, b.state, true⟩, s)
      else if b.state = .complete ∨ b.state = .consumed then recorded
      else .error .receiptConflict
    | .executing =>
      if b.state = .complete ∨ b.state = .consumed then recorded
      else
        match Outcome.effect.find? fun o => o.text = kind with
        | none => .error .depositRejected
        | some outcome => depositIn c outcome payloadJson s
    | .none =>
      if b.state = .complete ∨ b.state = .consumed then recorded
      else
        match Outcome.noEffect.find? fun o => o.text = kind with
        | none => .error .depositRejected
        | some outcome =>
          if b.leaseOver now then .ok (.error .claimExpired, s.expireClaim b)
          else depositIn c outcome payloadJson s

/-! ## Deadlines and consumption -/

/-- `_expire_batch_in_tx`. -/
def expireBatch (k : RunKey) (s : State) : State :=
  (s.updateCalls (fun c => c.runKey = k ∧ c.state = .emitted) Call.expire
    Call.expire_key).completeIfDone k

/-- One transaction of `expire_agui_batches`: the open batch whose deadline passed first. -/
def expireNext (now : Time) (s : State) : Except Error (Bool × State) :=
  match ((s.batches.rows.filter fun b => b.state.isOpen ∧ b.absoluteDeadline ≤ now).insertionSort
      fun a b => a.absoluteDeadline ≤ b.absoluteDeadline).head? with
  | none => .ok (false, s)
  | some b => .ok (true, s.expireBatch b.key)

/-- `_consume_batch_in_tx`. -/
def consumeBatch (k : RunKey) (s : State) : State :=
  let s : State :=
    { s with
      batches := s.batches.update (fun b => b.key = k ∧ b.state = .complete) Batch.consume
        Batch.consume_key }
  s.updateCalls (fun c => c.runKey = k ∧ c.state = .emitted) Call.consume Call.consume_key

/-! ## Run tokens -/

/-- `_ensure_run_tokens_in_tx`. -/
def ensureRunTokens (k : RunKey) (draw : Draw) (s : State) : Except Error State :=
  if (s.runTokens.get? k).isSome then .ok s
  else
    let (version, s) := s.currentKeyVersion draw.secret
    (s.mint ["rh" ++ draw.handle]).bind fun s =>
      .ok { s with
        runTokens := s.runTokens.insertIgnore ⟨"rh" ++ draw.handle, k.1, k.2, version⟩ }

/-- `_resolve_run_token_in_tx`, for `attach` and for `cancel`. -/
def resolveRunToken (mac : Mac) (token : Token) (usage : Usage) (scope : Scope) (s : State) :
    Except Error RunKey :=
  match s.runTokens.rows.find? fun r => r.handle = token.handle with
  | none => .error .tokenInvalid
  | some r =>
    if ¬ s.inScope r.contextId scope then .error .tokenInvalid
    else
      (verifyAgainstRow mac s token r.keyVersion r.handle usage ⟨r.key, none⟩ 0).bind fun _ =>
        .ok r.key

end State

end PawFlow.Agui
