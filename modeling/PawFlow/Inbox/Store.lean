import PawFlow.Lib.Json
import PawFlow.Lib.PyString
import PawFlow.Lib.Runs
import PawFlow.Lib.Table
import PawFlow.Lib.Transaction

/-!
# The agent inbox store

The tables of `core/agent_inbox_store.py` and the operations that move work items between
their states. Every operation is one SQLite transaction: it raises and is rolled back, or
returns its result with the new store.

A payload is read by the store in three ways: as JSON text, by its `msg_id` and by its
creation stamp. The last two readings (`str`, `float`, `datetime.fromisoformat`) are kept
beside the value. `str.lower`, clock readings and fresh uuids are arguments.
-/

namespace PawFlow.Inbox

open PawFlow.Lib

/-- Clock readings and durations, in microseconds. -/
abbrev Time := Int

def second : Time := 1000000

inductive Error
  | valueError (message : String)
  | runtimeError (message : String)
  | keyError (message : String)
  | integrityError
deriving DecidableEq

/-- The six states the `CHECK` of `agent_inbox_items` allows. -/
inductive ItemState
  | pending | notified | read | claimed | acknowledged | discarded
deriving DecidableEq

/-- `state IN ('read','acknowledged','discarded')`. -/
def ItemState.isFinal : ItemState → Bool
  | .read | .acknowledged | .discarded => true
  | _ => false

/-- What `_created_at` makes of the `ts` or `timestamp` of a payload. -/
inductive Stamp
  /-- Neither is there. -/
  | absent
  | invalid
  | at (t : Time)
deriving DecidableEq

structure Payload where
  json : Json
  /-- `str(payload.get("msg_id") or "")`. -/
  msgId : String
  stamp : Stamp

namespace Payload

/-- `_payload_json`. -/
def text (p : Payload) : String := p.json.canonical

def meaningful (p : Payload) : Json :=
  match p.json with
  | .obj items => .obj (items.filter fun i => !startsWith i.1 "_pending_")
  | v => v

end Payload

/-- `(conversation_id, agent_key)`. -/
abbrev Mailbox := String × String

/-- `UNIQUE(conversation_id, agent_key, msg_id)`. -/
abbrev ItemKey := String × String × String

/-- A row of `agent_inbox_items`. -/
structure Item where
  sequence : Nat
  conversationId : String
  agentKey : String
  msgId : String
  payload : Payload
  source : String
  state : ItemState
  ownerRunId : Option String := none
  ownerTaskId : Option String := none
  leaseExpiresAt : Option Time := none
  createdAt : Time
  enqueuedAt : Time
  updatedAt : Time
  notifiedAt : Option Time := none
  readAt : Option Time := none
  readCallId : String := ""

namespace Item

@[reducible] def key (i : Item) : ItemKey := (i.conversationId, i.agentKey, i.msgId)

@[reducible] def mailbox (i : Item) : Mailbox := (i.conversationId, i.agentKey)

/-- `substr(source, 1, 6) = 'inbox:'`. -/
def isInbox (i : Item) : Bool := startsWith i.source "inbox:"

/-- `state=…, owner_run_id=NULL, owner_task_id=NULL, lease_expires_at=NULL, updated_at=?`. -/
def freed (state : ItemState) (now : Time) (i : Item) : Item :=
  { i with
    state
    ownerRunId := none
    ownerTaskId := none
    leaseExpiresAt := none
    updatedAt := now }

theorem freed_key (state : ItemState) (now : Time) (i : Item) : (i.freed state now).key = i.key :=
  rfl

end Item

/-- A row of `agent_inbox_claims`. -/
structure Claim where
  claimId : String
  conversationId : String
  agentKey : String
  runId : String
  taskId : String
  itemIds : List String
  leaseExpiresAt : Time
  createdAt : Time

/-- `UNIQUE(conversation_id, agent_key, run_id, task_id)`. -/
def Claim.slot (c : Claim) : String × String × String × String :=
  (c.conversationId, c.agentKey, c.runId, c.taskId)

inductive ReceiptState
  | prepared | transcriptPersisted | queued
deriving DecidableEq

/-- A row of `agent_ingress_receipts`. -/
structure Receipt where
  conversationId : String
  agentKey : String
  msgId : String
  payload : Payload
  source : String
  state : ReceiptState
  preparedAt : Time
  updatedAt : Time

@[reducible] def Receipt.key (r : Receipt) : ItemKey := (r.conversationId, r.agentKey, r.msgId)

/-- A row of `agent_inbox_read_offsets`. -/
structure ReadOffset where
  conversationId : String
  agentKey : String
  msgId : String
  readOffset : Nat
  updatedAt : Time

@[reducible] def ReadOffset.key (r : ReadOffset) : ItemKey :=
  (r.conversationId, r.agentKey, r.msgId)

/-- A row of `agent_inbox_fences`. -/
structure Fence where
  conversationId : String
  agentKey : String
  cutoff : Time

@[reducible] def Fence.mailbox (f : Fence) : Mailbox := (f.conversationId, f.agentKey)

/-- A row of `agent_inbox_migrations`. -/
structure Migration where
  conversationId : String
  agentKey : String
  sourcePath : String
  sourceSha256 : String
  itemCount : Nat
  completedAt : Time

@[reducible] def Migration.mailbox (m : Migration) : Mailbox := (m.conversationId, m.agentKey)

structure Store where
  items : Table ItemKey Item Item.key := .empty
  /-- `sqlite_sequence` of the items: sequences are never handed out again. -/
  lastSequence : Nat := 0
  claims : Table String Claim Claim.claimId := .empty
  receipts : Table ItemKey Receipt Receipt.key := .empty
  contextReceipts : Table ItemKey ItemKey id := .empty
  readOffsets : Table ItemKey ReadOffset ReadOffset.key := .empty
  fences : Table Mailbox Fence Fence.mailbox := .empty
  migrations : Table Mailbox Migration Migration.mailbox := .empty

def required (value name : String) : Except Error String :=
  if strip value = "" then .error (.valueError (name ++ " is required")) else .ok (strip value)

/-- `tuple(dict.fromkeys(str(v) for v in values if str(v)))`. -/
def texts (values : List String) : List String := (values.filter (· ≠ "")).eraseDups

/-- `max(1.0, float(lease_seconds))`. -/
def leaseEnd (now leaseSeconds : Time) : Time := now + max second leaseSeconds

namespace Store

/-- `UPDATE agent_inbox_items SET … WHERE …`. -/
def updateItems (s : Store) (p : Item → Bool) (f : Item → Item)
    (hf : ∀ i, (f i).key = i.key) : Store :=
  { s with items := s.items.update p f hf }

/-! ## Enqueueing -/

/-- `created_at` of a new item: workflow items without a stamp are as old as their enqueue. -/
def createdAt (p : Payload) (source : String) (now : Time) : Except Error Time :=
  match p.stamp with
  | .at t => .ok t
  | .absent =>
    if startsWith source "inbox:" then
      .error (.valueError "inbox payload requires a valid creation timestamp (ts)")
    else .ok now
  | .invalid => .error (.valueError "inbox payload requires a valid creation timestamp (ts)")

/-- The fence of a mailbox lies at or above a creation time. -/
def fenced (s : Store) (mailbox : Mailbox) (t : Time) : Bool :=
  (s.fences.get? mailbox).any fun f => t ≤ f.cutoff

/-- `INSERT INTO agent_inbox_items … ON CONFLICT DO NOTHING`. -/
def insertItem (s : Store) (i : Item) : Store :=
  match s.items.insert? i with
  | some items => { s with items, lastSequence := s.lastSequence + 1 }
  | none => s

/-- `_enqueue_item`; `conversationId` and `agentKey` are normalised by the caller. -/
def enqueueItem (conversationId agentKey : String) (p : Payload) (source : String) (now : Time)
    (enqueuedAt : Option Time) (s : Store) : Except Error (Item × Store) :=
  (required p.msgId "msg_id").bind fun msgId =>
  (required source "source").bind fun source =>
  (createdAt p source now).bind fun created =>
    let s := s.insertItem
      { sequence := s.lastSequence + 1, conversationId, agentKey, msgId, payload := p, source
        state := if s.fenced (conversationId, agentKey) created then .discarded else .pending
        createdAt := created, enqueuedAt := enqueuedAt.getD now, updatedAt := now }
    match s.items.get? (conversationId, agentKey, msgId) with
    | none => .error (.runtimeError "inbox item was not persisted")
    | some row =>
      if row.payload.text ≠ p.text ∧ ¬ row.payload.meaningful.pyEq p.meaningful then
        .error (.valueError "msg_id already has a different inbox payload")
      else .ok (row, s)

variable (lower : String → String)

/-- `_required(conversation_id, …)` and `_agent(agent_key)`. -/
def mailbox (conversationId agentKey : String) : Except Error Mailbox :=
  (required conversationId "conversation_id").bind fun conversationId =>
  (required agentKey "agent_key").bind fun agentKey => .ok (conversationId, lower agentKey)

def enqueue (conversationId agentKey : String) (p : Payload) (source : String) (now : Time)
    (s : Store) : Except Error (Item × Store) :=
  (mailbox lower conversationId agentKey).bind fun box =>
    enqueueItem box.1 box.2 p source now none s

def enqueueContextHistory (conversationId agentKey : String) (p : Payload) (now : Time)
    (s : Store) : Except Error (Bool × Store) :=
  (mailbox lower conversationId agentKey).bind fun box =>
  (required p.msgId "msg_id").bind fun msgId =>
    if (s.contextReceipts.get? (box.1, box.2, msgId)).isSome then .ok (false, s)
    else
      (enqueueItem box.1 box.2 p "inbox:catch_up" now none s).bind fun (row, s) =>
        match s.contextReceipts.insert? (box.1, box.2, msgId) with
        | none => .error .integrityError
        | some contextReceipts =>
          .ok (row.state = .pending || row.state = .notified, { s with contextReceipts })

/-- `prepare_receipt`; the payload is compared after the insert was committed. -/
def prepareReceipt (conversationId agentKey : String) (p : Payload) (source : String)
    (now : Time) (s : Store) : Except Error (ReceiptState × Store) :=
  (mailbox lower conversationId agentKey).bind fun box =>
  (required p.msgId "msg_id").bind fun msgId =>
  (required source "source").bind fun source =>
    let receipt : Receipt :=
      { conversationId := box.1, agentKey := box.2, msgId, payload := p, source
        state := .prepared, preparedAt := now, updatedAt := now }
    match s.receipts.insert? receipt with
    | some receipts => .ok (.prepared, { s with receipts })
    | none =>
      match s.receipts.get? (box.1, box.2, msgId) with
      | none => .error (.runtimeError "ingress receipt was not persisted")
      | some row =>
        if row.payload.text ≠ p.text then
          .error (.valueError "msg_id already has a different ingress payload")
        else .ok (row.state, s)

def markTranscriptPersisted (conversationId agentKey msgId : String) (now : Time) (s : Store) :
    Except Error (Item × Store) :=
  (mailbox lower conversationId agentKey).bind fun box =>
  (required msgId "msg_id").bind fun msgId =>
    match s.receipts.get? (box.1, box.2, msgId) with
    | none => .error (.keyError "ingress receipt does not exist")
    | some receipt =>
      let persisted : Store :=
        { s with
          receipts := s.receipts.update
            (fun r => r.key = receipt.key ∧ r.state = .prepared)
            (fun r => { r with state := .transcriptPersisted, updatedAt := now }) fun _ => rfl }
      (enqueueItem box.1 box.2 receipt.payload receipt.source now (some receipt.preparedAt)
          persisted).bind fun (row, s) =>
        .ok (row, { s with
          receipts := s.receipts.update (fun r => r.key = receipt.key)
            (fun r => { r with state := .queued, updatedAt := now }) fun _ => rfl })

/-- The loop of `migrate_pending_jsonl`: every row with its `_legacy_source`. -/
def migrateRows (box : Mailbox) (now : Time) :
    List (Payload × Except Error String) → Store → Except Error (Unit × Store)
  | [], s => .ok ((), s)
  | (p, source) :: rest, s =>
    source.bind fun source =>
    (enqueueItem box.1 box.2 p source now none s).bind fun (_, s) => migrateRows box now rest s

/-- `migrate_pending_jsonl`, once the file was read: its rows, each one stamped and with the
source `_legacy_source` gives it, and its digest. -/
def migratePendingJsonl (conversationId agentKey sourcePath digest : String)
    (rows : List (Payload × Except Error String)) (now : Time) (s : Store) :
    Except Error (Bool × Store) :=
  (mailbox lower conversationId agentKey).bind fun box =>
    if rows.any fun r => r.1.msgId = "" ∨ r.1.stamp = .absent ∨ r.1.stamp = .invalid then
      .error (.valueError "invalid pending JSONL line")
    else
      match s.migrations.get? box with
      | some previous =>
        if previous.sourceSha256 ≠ digest ∨ previous.itemCount ≠ rows.length then
          .error (.valueError "legacy pending queue changed after migration")
        else .ok (false, s)
      | none =>
        (migrateRows box now rows s).bind fun (_, s) =>
          match s.migrations.insert?
              { conversationId := box.1, agentKey := box.2, sourcePath, sourceSha256 := digest
                itemCount := rows.length, completedAt := now } with
          | none => .error .integrityError
          | some migrations =>
            let ids := (rows.map fun r => r.1.msgId).eraseDups
            if (s.items.count fun i => i.mailbox = box ∧ i.msgId ∈ ids) ≠ ids.length then
              .error (.runtimeError "legacy pending migration count validation failed")
            else .ok (true, { s with migrations })

/-! ## Leases -/

def recoverExpired (now : Time) (s : Store) : Store :=
  { s.updateItems (fun i => i.state = .claimed ∧ i.leaseExpiresAt.any (· ≤ now))
      (Item.freed .pending now) (Item.freed_key _ now) with
    claims := s.claims.delete fun c => c.leaseExpiresAt ≤ now }

/-- The filters of `claim`, already as values. -/
structure ClaimArgs where
  conversationId : String
  agentKey : String
  runId : String
  taskId : String
  maxMessages : Int := 0
  leaseSeconds : Time := 60 * second
  sources : List String := []
  includeMsgIds : List String := []
  maxSequence : Option Int := none

/-- The `WHERE` of the candidates of `claim`. -/
def claimable (a : ClaimArgs) (box : Mailbox) (i : Item) : Bool :=
  i.mailbox = box ∧ i.state = .pending ∧ ¬ i.isInbox ∧
    (texts a.sources = [] ∨ i.source ∈ texts a.sources) ∧
    (texts a.includeMsgIds = [] ∨ i.msgId ∈ texts a.includeMsgIds) ∧
    a.maxSequence.all fun n => (i.sequence : Int) ≤ max 0 n

/-- The ids `claim` takes: in order, up to the limit. -/
def claimIds (a : ClaimArgs) (box : Mailbox) (s : Store) : List String :=
  let rows := (s.items.rows.filter (claimable a box)).insertionSort
    fun i j => i.sequence ≤ j.sequence
  let ids := rows.map Item.msgId
  if a.maxMessages > 0 then ids.take a.maxMessages.toNat else ids

/-- `_rows_for_ids` with a run id. -/
def rowsForIds (box : Mailbox) (ids : List String) (runId : String) (s : Store) : List Item :=
  ids.filterMap fun id =>
    (s.items.get? (box.1, box.2, id)).filter fun i => i.ownerRunId = some runId ∧ ¬ i.isInbox

/-- The writes of `claim`, for candidates that are there. -/
def writeClaim (a : ClaimArgs) (box : Mailbox) (runId taskId claimId : String)
    (ids : List String) (now : Time) (s : Store) :
    Except Error ((Option Claim × List Item) × Store) :=
  let expires := leaseEnd now a.leaseSeconds
  let s := s.updateItems (fun i => i.mailbox = box ∧ i.state = .pending ∧ i.msgId ∈ ids)
    (fun i => { i with
      state := .claimed
      ownerRunId := some runId
      ownerTaskId := some taskId
      leaseExpiresAt := some expires
      updatedAt := now })
    fun _ => rfl
  let claim : Claim :=
    { claimId, conversationId := box.1, agentKey := box.2, runId, taskId, itemIds := ids
      leaseExpiresAt := expires, createdAt := now }
  if s.claims.rows.any fun c => c.slot = claim.slot then .error .integrityError
  else
    match s.claims.insert? claim with
    | none => .error .integrityError
    | some claims =>
      let s := { s with claims }
      .ok ((some claim, s.rowsForIds box ids runId), s)

def claim (a : ClaimArgs) (claimId : String) (now : Time) (s : Store) :
    Except Error ((Option Claim × List Item) × Store) :=
  (mailbox lower a.conversationId a.agentKey).bind fun box =>
  (required a.runId "run_id").bind fun runId =>
  (required a.taskId "task_id").bind fun taskId =>
    if a.maxMessages < 0 then .error (.valueError "max_messages must be non-negative")
    else
      let s := s.recoverExpired now
      match s.claims.rows.find? fun c => c.slot = (box.1, box.2, runId, taskId) with
      | some previous => .ok ((some previous, s.rowsForIds box previous.itemIds runId), s)
      | none =>
        match s.claimIds a box with
        | [] => .ok ((none, []), s)
        | ids => s.writeClaim a box runId taskId claimId ids now

def recoverExpiredLeases (now : Time) (s : Store) : Except Error (Nat × Store) :=
  .ok (s.items.count fun i => i.state = .claimed ∧ i.leaseExpiresAt.any (· ≤ now),
    s.recoverExpired now)

/-- `_required` over every recoverable run id. -/
def requiredAll (name : String) : List String → Except Error (List String)
  | [] => .ok []
  | v :: rest =>
    (required v name).bind fun v => (requiredAll name rest).bind fun vs => .ok (v :: vs)

def recoverOrphanedWorkflowClaims (recoverableRunIds : List String) (now : Time) (s : Store) :
    Except Error (Nat × Store) :=
  (requiredAll "recoverable_run_id" recoverableRunIds).bind fun runIds =>
    let orphaned : Item → Bool := fun i => i.state = .claimed ∧
      i.ownerRunId.any fun r => startsWith r "wr_" ∧ r ∉ runIds
    .ok (s.items.count orphaned,
      { s.updateItems orphaned (Item.freed .pending now) (Item.freed_key _ now) with
        claims := s.claims.delete fun c => startsWith c.runId "wr_" ∧ c.runId ∉ runIds })

def dropClaims (box : Mailbox) (runId : String) (s : Store) : Store :=
  { s with
    claims := s.claims.delete fun c => (c.conversationId, c.agentKey) = box ∧ c.runId = runId }

/-- The items of a mailbox that a run holds under a lease. -/
def held (box : Mailbox) (runId : String) (i : Item) : Bool :=
  i.mailbox = box ∧ i.state = .claimed ∧ i.ownerRunId = some runId

def acknowledge (conversationId agentKey runId : String) (msgIds : List String) (now : Time)
    (s : Store) : Except Error (Nat × Store) :=
  (mailbox lower conversationId agentKey).bind fun box =>
  (required runId "run_id").bind fun runId =>
    if texts msgIds = [] then .ok (0, s)
    else
      let acked : Item → Bool := fun i => held box runId i ∧ i.msgId ∈ texts msgIds
      .ok (s.items.count acked,
        (s.updateItems acked (Item.freed .acknowledged now) (Item.freed_key _ now)).dropClaims box runId)

/-- `release`; no ids means every item of the run. -/
def release (conversationId agentKey runId : String) (msgIds : List String) (now : Time)
    (s : Store) : Except Error (Nat × Store) :=
  (mailbox lower conversationId agentKey).bind fun box =>
  (required runId "run_id").bind fun runId =>
    let released : Item → Bool := fun i => held box runId i ∧
      (texts msgIds = [] ∨ i.msgId ∈ texts msgIds)
    .ok (s.items.count released,
      (s.updateItems released (Item.freed .pending now) (Item.freed_key _ now)).dropClaims box runId)

/-- Some row on the way of `UPDATE agent_inbox_claims` would take a slot that is taken:
SQLite checks the constraint row by row. -/
def slotTaken (p : Claim → Bool) (f : Claim → Claim) : List Claim → List Claim → Bool
  | _, [] => false
  | done, c :: rest =>
    if p c then
      (done ++ rest).any (fun x => x.slot = (f c).slot) || slotTaken p f (done ++ [f c]) rest
    else slotTaken p f (done ++ [c]) rest

def transfer (conversationId agentKey oldRunId newRunId : String) (leaseSeconds now : Time)
    (s : Store) : Except Error (Nat × Store) :=
  (mailbox lower conversationId agentKey).bind fun box =>
  (required oldRunId "old_run_id").bind fun oldRunId =>
  (required newRunId "new_run_id").bind fun newRunId =>
    let expires := leaseEnd now leaseSeconds
    let moved : Claim → Bool := fun c =>
      (c.conversationId, c.agentKey) = box ∧ c.runId = oldRunId
    let rename : Claim → Claim := fun c =>
      { c with
        runId := newRunId
        taskId := "restart:" ++ oldRunId ++ ":" ++ c.taskId
        leaseExpiresAt := expires }
    if slotTaken moved rename [] s.claims.rows then .error .integrityError
    else
      .ok (s.items.count (held box oldRunId),
        { s.updateItems (held box oldRunId)
            (fun i => { i with
              ownerRunId := some newRunId
              leaseExpiresAt := some expires
              updatedAt := now })
            fun _ => rfl with
          claims := s.claims.update moved rename fun _ => rfl })

/-! ## Fences and readers -/

/-- `state IN ('pending','notified','claimed')`. -/
def live (i : Item) : Bool := i.state = .pending ∨ i.state = .notified ∨ i.state = .claimed

/-- `INSERT INTO agent_inbox_fences … DO UPDATE SET cutoff=max(cutoff, excluded.cutoff)`. -/
def raiseFence (box : Mailbox) (cutoff : Time) (s : Store) : Store :=
  let current := (s.fences.get? box).map Fence.cutoff
  { s with fences := s.fences.upsert ⟨box.1, box.2, (current.map (max · cutoff)).getD cutoff⟩ }

def discardThrough (conversationId agentKey : String) (cutoff now : Time) (s : Store) :
    Except Error (Nat × Store) :=
  (mailbox lower conversationId agentKey).bind fun box =>
    let s := s.raiseFence box cutoff
    let old : Item → Bool := fun i => i.mailbox = box ∧ live i ∧ s.fenced box i.createdAt
    let discarded := s.updateItems old (Item.freed .discarded now) (Item.freed_key _ now)
    .ok (s.items.count old,
      { discarded with
        claims := discarded.claims.delete fun c => (c.conversationId, c.agentKey) = box ∧
          ¬ discarded.items.rows.any fun i => held box c.runId i })

def discardMsgIds (conversationId agentKey : String) (msgIds sources : List String) (now : Time)
    (s : Store) : Except Error (Nat × Store) :=
  if texts msgIds = [] then .ok (0, s)
  else
    (mailbox lower conversationId agentKey).bind fun box =>
      let named : Item → Bool := fun i => i.mailbox = box ∧ live i ∧ i.msgId ∈ texts msgIds ∧
        (texts sources = [] ∨ i.source ∈ texts sources)
      .ok (s.items.count named, s.updateItems named (Item.freed .discarded now) (Item.freed_key _ now))

def markNotified (conversationId agentKey : String) (throughSequence : Int) (now : Time)
    (s : Store) : Except Error (Nat × Store) :=
  (mailbox lower conversationId agentKey).bind fun box =>
    let noticed : Item → Bool := fun i => i.mailbox = box ∧ i.state = .pending ∧ i.isInbox ∧
      (i.sequence : Int) ≤ throughSequence
    .ok (s.items.count noticed,
      s.updateItems noticed
        (fun i => { i with state := .notified, notifiedAt := some now, updatedAt := now })
        fun _ => rfl)

def markRead (conversationId agentKey : String) (msgIds : List String) (readCallId : String)
    (now : Time) (s : Store) : Except Error (Nat × Store) :=
  (mailbox lower conversationId agentKey).bind fun box =>
    if texts msgIds = [] then .ok (0, s)
    else
      let returned : Item → Bool := fun i => i.mailbox = box ∧
        (i.state = .pending ∨ i.state = .notified) ∧ i.isInbox ∧ i.msgId ∈ texts msgIds
      .ok (s.items.count returned,
        { s.updateItems returned
            (fun i => { i.freed .read now with readAt := some now, readCallId })
            fun _ => rfl with
          readOffsets := s.readOffsets.delete fun r =>
            (r.conversationId, r.agentKey) = box ∧ r.msgId ∈ texts msgIds })

def purgeAcknowledged (olderThanSeconds now : Time) (s : Store) : Except Error (Nat × Store) :=
  if olderThanSeconds < 0 then .error (.valueError "older_than_seconds must be non-negative")
  else
    let old : Item → Bool := fun i => i.state.isFinal ∧ i.updatedAt < now - olderThanSeconds
    let items := s.items.delete old
    .ok (s.items.count old,
      { s with
        items
        readOffsets := s.readOffsets.delete fun r => ¬ (items.get? r.key).any live })

/-! ## Calls -/

inductive Op
  | enqueue (conversationId agentKey : String) (p : Payload) (source : String) (now : Time)
  | enqueueContextHistory (conversationId agentKey : String) (p : Payload) (now : Time)
  | prepareReceipt (conversationId agentKey : String) (p : Payload) (source : String) (now : Time)
  | markTranscriptPersisted (conversationId agentKey msgId : String) (now : Time)
  | claim (a : ClaimArgs) (claimId : String) (now : Time)
  | acknowledge (conversationId agentKey runId : String) (msgIds : List String) (now : Time)
  | release (conversationId agentKey runId : String) (msgIds : List String) (now : Time)
  | transfer (conversationId agentKey oldRunId newRunId : String) (leaseSeconds now : Time)
  | recoverExpiredLeases (now : Time)
  | recoverOrphanedWorkflowClaims (recoverableRunIds : List String) (now : Time)
  | discardThrough (conversationId agentKey : String) (cutoff now : Time)
  | discardMsgIds (conversationId agentKey : String) (msgIds sources : List String) (now : Time)
  | markNotified (conversationId agentKey : String) (throughSequence : Int) (now : Time)
  | markRead (conversationId agentKey : String) (msgIds : List String) (readCallId : String)
      (now : Time)
  | purgeAcknowledged (olderThanSeconds now : Time)
  | migratePendingJsonl (conversationId agentKey sourcePath digest : String)
      (rows : List (Payload × Except Error String)) (now : Time)

/-- The store after a call; a call that raises leaves it as it was. -/
def perform (s : Store) : Op → Store
  | .enqueue c a p source now => settle s (enqueue lower c a p source now s)
  | .enqueueContextHistory c a p now => settle s (enqueueContextHistory lower c a p now s)
  | .prepareReceipt c a p source now => settle s (prepareReceipt lower c a p source now s)
  | .markTranscriptPersisted c a msgId now =>
    settle s (markTranscriptPersisted lower c a msgId now s)
  | .claim a claimId now => settle s (claim lower a claimId now s)
  | .acknowledge c a runId msgIds now => settle s (acknowledge lower c a runId msgIds now s)
  | .release c a runId msgIds now => settle s (release lower c a runId msgIds now s)
  | .transfer c a old new lease now => settle s (transfer lower c a old new lease now s)
  | .recoverExpiredLeases now => settle s (recoverExpiredLeases now s)
  | .recoverOrphanedWorkflowClaims runIds now =>
    settle s (recoverOrphanedWorkflowClaims runIds now s)
  | .discardThrough c a cutoff now => settle s (discardThrough lower c a cutoff now s)
  | .discardMsgIds c a msgIds sources now =>
    settle s (discardMsgIds lower c a msgIds sources now s)
  | .markNotified c a n now => settle s (markNotified lower c a n now s)
  | .markRead c a msgIds callId now => settle s (markRead lower c a msgIds callId now s)
  | .purgeAcknowledged older now => settle s (purgeAcknowledged older now s)
  | .migratePendingJsonl c a path digest rows now =>
    settle s (migratePendingJsonl lower c a path digest rows now s)

def step (s : Store) (op : Op) : Option Store := some (s.perform lower op)

end Store

end PawFlow.Inbox
