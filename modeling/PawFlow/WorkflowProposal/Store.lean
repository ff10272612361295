import PawFlow.Lib.PyString
import PawFlow.Lib.Runs

/-!
# The workflow proposal store

One proposal of `core/workflow_proposal_store.py` from its creation on. Every operation is one
transaction: it reads the row, checks it, writes the row and the review history, and what it raises
before the commit takes everything back. The clock, the fresh uuid and the `before_live_write` hook
are inputs of a call.
-/

namespace PawFlow.WorkflowProposal

open PawFlow.Lib

inductive Status
  | plannerDrafting
  | userReview
  | plannerReview
  | accepted
  | approved
  | running
  | completed
  | failed
  | cancelled
deriving DecidableEq

namespace Status

def text : Status → String
  | plannerDrafting => "planner_drafting"
  | userReview => "user_review"
  | plannerReview => "planner_review"
  | accepted => "accepted"
  | approved => "approved"
  | running => "running"
  | completed => "completed"
  | failed => "failed"
  | cancelled => "cancelled"

/-- The `allowed` table of `mark_run_status`. -/
def allowed : Status → List Status
  | approved => [running, failed, cancelled]
  | running => [completed, failed, cancelled]
  | _ => []

end Status

inductive Error
  | valueError (message : String)
  | keyError (proposalId : String)
  | conflict (message : String)
  /-- A review of no proposal. -/
  | integrityError
  /-- Raised by the `before_live_write` hook. -/
  | liveWrite (message : String)
deriving DecidableEq

/-- A row of `workflow_proposals`. -/
structure Row where
  proposalId : String
  userId : String
  conversationId : String
  title : String
  summary : String
  status : Status
  draftId : String
  draftRevision : Int
  definitionDigest : String
  reviewRound : Nat := 0
  plannerReviewedRevision : Int
  plannerReviewedDigest : String
  stateRevision : Int := 1
  createdBy : String
  createdAt : String
  updatedAt : String
  acceptedAt : Option String := none
  acceptedBy : String := ""
  approvedAt : Option String := none
  approvedBy : String := ""
  publishedFlowRef : Option String := none
  runIds : List String := []
  cancelledAt : Option String := none
  cancelledBy : String := ""
deriving DecidableEq

/-- A row of `workflow_proposal_reviews`. -/
structure Review where
  createdAt : String
  actorType : String
  actorId : String
  action : String
  draftRevision : Int
  digest : String
  comment : String
deriving DecidableEq

structure Store where
  row : Row
  reviews : List Review
deriving DecidableEq

/-- What a call meets outside the store. -/
structure Env where
  now : String := ""
  /-- The message of the `before_live_write` hook when it raises. -/
  liveWrite : Option String := none
deriving DecidableEq

/-! ## Statements -/

def required (value name : String) : Except Error String :=
  if strip value = "" then .error (.valueError (name ++ " is required")) else .ok (strip value)

/-- `if refused: raise error`. -/
def raiseIf (refused : Prop) [Decidable refused] (error : Error) : Except Error Unit :=
  if refused then .error error else .ok ()

def Env.beforeLiveWrite (env : Env) : Except Error Unit :=
  match env.liveWrite with
  | some message => .error (.liveWrite message)
  | none => .ok ()

namespace Store

variable (env : Env) (s : Store)

/-- `SELECT * FROM workflow_proposals WHERE proposal_id = ?`. -/
def select (proposalId : String) : Except Error Row := do
  let id ← required proposalId "proposal_id"
  if s.row.proposalId = id then .ok s.row else .error (.keyError proposalId)

/-- `UPDATE workflow_proposals … WHERE proposal_id = ?`, which counts the state revision up. -/
def update (proposalId : String) (change : Row → Row) : Store :=
  if s.row.proposalId = proposalId then
    { s with row := { change s.row with
        stateRevision := s.row.stateRevision + 1, updatedAt := env.now } }
  else s

def appendReview (proposalId actorType actorId action : String) (draftRevision : Int)
    (digest comment : String) : Except Error Store :=
  if s.row.proposalId = proposalId then
    .ok { s with reviews := s.reviews ++ [
      { createdAt := env.now, actorType, actorId, action, draftRevision, digest, comment }] }
  else .error .integrityError

def lockedRow (proposalId : String) (expectedStateRevision : Int) (expectedStatus : Status) :
    Except Error Row := do
  let row ← s.select proposalId
  raiseIf (row.stateRevision ≠ expectedStateRevision) (.conflict "proposal state revision changed")
  raiseIf (row.status ≠ expectedStatus)
    (.conflict ("proposal must be in " ++ expectedStatus.text ++ " state"))
  return row

/-! ## Operations, up to their commit -/

/-- `note_draft_changed`; no change when no proposal has the draft. -/
def noteDraftChanged (draftId : String) (draftRevision : Int) (digest actorId actorType : String) :
    Except Error Store := do
  let actorId ← required actorId "actor_id"
  raiseIf (actorType ∉ ["user", "planner", "system"])
    (.valueError "actor_type must be user, planner, or system")
  let digest ← required digest "definition_digest"
  let draftId ← required draftId "draft_id"
  if s.row.draftId ≠ draftId then .ok s
  else do
    raiseIf (s.row.status = .cancelled) (.conflict "cancelled proposal cannot be edited")
    env.beforeLiveWrite
    let action := if s.row.status = .plannerReview then "planner_review_invalidated"
      else "edited_draft"
    let t := s.update env s.row.proposalId fun row => { row with
      status := .userReview, draftRevision, definitionDigest := digest
      acceptedAt := none, acceptedBy := "" }
    t.appendReview env s.row.proposalId actorType actorId action draftRevision digest ""

def transition (proposalId : String) (expectedStateRevision : Int)
    (expectedStatus nextStatus : Status) (actorType actorId action : String) (draftRevision : Int)
    (digest comment : String) (incrementRound plannerReviewed : Bool) : Except Error Store := do
  let actorId ← required actorId "actor_id"
  let digest ← required digest "definition_digest"
  let row ← s.lockedRow proposalId expectedStateRevision expectedStatus
  raiseIf (row.draftRevision ≠ draftRevision ∨ row.definitionDigest ≠ digest)
    (.conflict "exact draft revision or digest changed")
  env.beforeLiveWrite
  let t := s.update env proposalId fun row => { row with
    status := nextStatus
    reviewRound := row.reviewRound + if incrementRound then 1 else 0
    plannerReviewedRevision := if plannerReviewed then draftRevision
      else row.plannerReviewedRevision
    plannerReviewedDigest := if plannerReviewed then digest else row.plannerReviewedDigest }
  t.appendReview env proposalId actorType actorId action draftRevision digest comment

def submitToPlanner (proposalId : String) (expectedStateRevision draftRevision : Int)
    (digest actorId comment : String) : Except Error Store :=
  s.transition env proposalId expectedStateRevision .userReview .plannerReview "user" actorId
    "submitted_to_planner" draftRevision digest comment true false

def plannerReview (proposalId : String) (expectedStateRevision draftRevision : Int)
    (digest actorId decision comment : String) : Except Error Store := do
  raiseIf (decision ∉ ["accept", "revised", "request_changes"])
    (.valueError "decision must be accept, revised, or request_changes")
  s.transition env proposalId expectedStateRevision .plannerReview .userReview "planner" actorId
    ("planner_" ++ decision) draftRevision digest comment false true

def accept (proposalId : String) (expectedStateRevision : Int) (actorId : String) :
    Except Error Store := do
  let actorId ← required actorId "actor_id"
  let row ← s.lockedRow proposalId expectedStateRevision .userReview
  raiseIf (row.draftRevision ≠ row.plannerReviewedRevision ∨
      row.definitionDigest ≠ row.plannerReviewedDigest)
    (.conflict "current draft revision has not been reviewed by planner")
  env.beforeLiveWrite
  let t := s.update env proposalId fun row => { row with
    status := .accepted, acceptedAt := some env.now, acceptedBy := actorId }
  t.appendReview env proposalId "user" actorId "accepted" row.draftRevision row.definitionDigest ""

def cancel (proposalId : String) (expectedStateRevision : Int) (actorType actorId comment : String) :
    Except Error Store := do
  raiseIf (actorType ∉ ["user", "planner"]) (.valueError "actor_type must be user or planner")
  let actorId ← required actorId "actor_id"
  let row ← s.select proposalId
  raiseIf (row.stateRevision ≠ expectedStateRevision) (.conflict "proposal state revision changed")
  raiseIf (row.status = .cancelled) (.conflict "proposal is already cancelled")
  raiseIf (row.status ∉ [.plannerDrafting, .userReview, .plannerReview, .accepted])
    (.conflict "a running or terminal proposal must be cancelled through its linked flow run")
  env.beforeLiveWrite
  let t := s.update env proposalId fun row => { row with
    status := .cancelled, cancelledAt := some env.now, cancelledBy := actorId }
  t.appendReview env proposalId actorType actorId "cancelled" row.draftRevision
    row.definitionDigest comment

/-- `approve`; the flow reference is the text of a nonempty object, if it is one. -/
def approve (proposalId : String) (expectedStateRevision : Int) (actorId : String)
    (publishedFlowRef : Option String) (runId : String) : Except Error Store := do
  let actorId ← required actorId "actor_id"
  let runId ← required runId "run_id"
  raiseIf (publishedFlowRef = none) (.valueError "published_flow_ref is required")
  let row ← s.lockedRow proposalId expectedStateRevision .accepted
  env.beforeLiveWrite
  let t := s.update env proposalId fun row => { row with
    status := .approved, approvedAt := some env.now, approvedBy := actorId
    publishedFlowRef, runIds := [runId] }
  t.appendReview env proposalId "user" actorId "approved" row.draftRevision row.definitionDigest ""

def markRunStatus (proposalId runId status : String) : Except Error Store := do
  let row ← s.select proposalId
  raiseIf (runId ∉ row.runIds) (.conflict "run_id is not linked to this proposal")
  if status = row.status.text then .ok s
  else
    match row.status.allowed.find? fun next => next.text = status with
    | none =>
      .error (.conflict ("invalid proposal run transition " ++ row.status.text ++ " -> " ++ status))
    | some next => do
      env.beforeLiveWrite
      return s.update env proposalId fun row => { row with status := next }

def startReplay (proposalId : String) (expectedStateRevision : Int) (runId actorId : String) :
    Except Error Store := do
  let actorId ← required actorId "actor_id"
  let runId ← required runId "run_id"
  let row ← s.select proposalId
  raiseIf (row.stateRevision ≠ expectedStateRevision) (.conflict "proposal state revision changed")
  raiseIf (row.status ∉ [.completed, .failed, .cancelled])
    (.conflict "only a terminal proposal run can be replayed")
  raiseIf (runId ∈ row.runIds) (.conflict "replay run is already linked")
  env.beforeLiveWrite
  let t := s.update env proposalId fun row => { row with
    status := .running, runIds := row.runIds ++ [runId] }
  t.appendReview env proposalId "user" actorId "replayed" row.draftRevision row.definitionDigest ""

end Store

/-- `create`, with the fresh uuid. -/
def create (env : Env) (uuid userId conversationId title summary draftId : String)
    (draftRevision : Int) (digest createdBy : String) : Except Error Store := do
  let userId ← required userId "user_id"
  let conversationId ← required conversationId "conversation_id"
  let title ← required title "title"
  let draftId ← required draftId "draft_id"
  let createdBy ← required createdBy "created_by"
  let digest ← required digest "definition_digest"
  raiseIf (draftRevision < 0) (.valueError "draft_revision must be an integer >= 0")
  env.beforeLiveWrite
  let row : Row := {
    proposalId := "wp_" ++ uuid, userId, conversationId, title, summary, status := .userReview
    draftId, draftRevision, definitionDigest := digest, plannerReviewedRevision := draftRevision
    plannerReviewedDigest := digest, createdBy, createdAt := env.now, updatedAt := env.now }
  Store.appendReview env { row, reviews := [] } row.proposalId "planner" createdBy
    "submitted_for_user_review" draftRevision digest ""

/-! ## Calls -/

inductive Op
  | noteDraftChanged (draftId : String) (draftRevision : Int) (digest actorId actorType : String)
  | submitToPlanner (proposalId : String) (expectedStateRevision draftRevision : Int)
      (digest actorId comment : String)
  | plannerReview (proposalId : String) (expectedStateRevision draftRevision : Int)
      (digest actorId decision comment : String)
  | accept (proposalId : String) (expectedStateRevision : Int) (actorId : String)
  | cancel (proposalId : String) (expectedStateRevision : Int) (actorType actorId comment : String)
  | approve (proposalId : String) (expectedStateRevision : Int) (actorId : String)
      (publishedFlowRef : Option String) (runId : String)
  | markRunStatus (proposalId runId status : String)
  | startReplay (proposalId : String) (expectedStateRevision : Int) (runId actorId : String)
deriving DecidableEq

/-- What the call would commit. -/
def Op.body (env : Env) (s : Store) : Op → Except Error Store
  | .noteDraftChanged draftId draftRevision digest actorId actorType =>
    s.noteDraftChanged env draftId draftRevision digest actorId actorType
  | .submitToPlanner id expected draftRevision digest actorId comment =>
    s.submitToPlanner env id expected draftRevision digest actorId comment
  | .plannerReview id expected draftRevision digest actorId decision comment =>
    s.plannerReview env id expected draftRevision digest actorId decision comment
  | .accept id expected actorId => s.accept env id expected actorId
  | .cancel id expected actorType actorId comment =>
    s.cancel env id expected actorType actorId comment
  | .approve id expected actorId flowRef runId => s.approve env id expected actorId flowRef runId
  | .markRunStatus id runId status => s.markRunStatus env id runId status
  | .startReplay id expected runId actorId => s.startReplay env id expected runId actorId

/-- The call with its transaction: what raises is rolled back. -/
def Op.run (env : Env) (s : Store) (op : Op) : Except Error Unit × Store :=
  match op.body env s with
  | .ok t => (.ok (), t)
  | .error e => (.error e, s)

/-! ## What a call changes -/

@[simp] theorem bind_eq_ok {α β : Type} {x : Except Error α} {f : α → Except Error β} {b : β} :
    x >>= f = .ok b ↔ ∃ a, x = .ok a ∧ f a = .ok b := by
  cases x <;> simp [bind, Except.bind]

@[simp] theorem required_eq_ok {value name v : String} :
    required value name = .ok v ↔ strip value ≠ "" ∧ v = strip value := by
  unfold required
  split_ifs with h <;> simp [h, eq_comm]

@[simp] theorem raiseIf_eq_ok {refused : Prop} [Decidable refused] {error : Error} {u : Unit} :
    raiseIf refused error = .ok u ↔ ¬ refused := by
  unfold raiseIf
  split_ifs with h <;> simp [h]

@[simp] theorem beforeLiveWrite_eq_ok {env : Env} {u : Unit} :
    env.beforeLiveWrite = .ok u ↔ env.liveWrite = none := by
  unfold Env.beforeLiveWrite
  cases env.liveWrite <;> simp

namespace Store

variable {env : Env} {s t : Store} {id : String} {expected : Int}

@[simp] theorem select_eq_ok {row : Row} :
    s.select id = .ok row ↔ strip id ≠ "" ∧ s.row.proposalId = strip id ∧ row = s.row := by
  unfold select
  simp only [bind_eq_ok, required_eq_ok]
  constructor
  · rintro ⟨_, ⟨hne, rfl⟩, h⟩
    split_ifs at h with hid
    exact ⟨hne, hid, (Except.ok.inj h).symm⟩
  · rintro ⟨hne, hid, rfl⟩
    exact ⟨_, ⟨hne, rfl⟩, if_pos hid⟩

@[simp] theorem lockedRow_eq_ok {status : Status} {row : Row} :
    s.lockedRow id expected status = .ok row ↔ strip id ≠ "" ∧ s.row.proposalId = strip id ∧
      s.row.stateRevision = expected ∧ s.row.status = status ∧ row = s.row := by
  unfold lockedRow
  simp only [bind_eq_ok, select_eq_ok, raiseIf_eq_ok, not_not]
  constructor
  · rintro ⟨_, ⟨hne, hid, rfl⟩, _, hrevision, _, hstatus, h⟩
    exact ⟨hne, hid, hrevision, hstatus, (Except.ok.inj h).symm⟩
  · rintro ⟨hne, hid, hrevision, hstatus, rfl⟩
    exact ⟨_, ⟨hne, hid, rfl⟩, (), hrevision, (), hstatus, rfl⟩

def Changes (env : Env) (s : Store) (change : Row → Row) (t : Store) : Prop :=
  t.row = { change s.row with stateRevision := s.row.stateRevision + 1, updatedAt := env.now }

variable {actorId actorType digest : String}

variable {comment runId : String} {draftRevision : Int}

variable {action draftId : String}

theorem changes_of_appendReview {change : Row → Row}
        (h : (s.update env id change).appendReview env id actorType actorId action draftRevision digest
      comment = .ok t) : Changes env s change t := by
  unfold appendReview at h
  split_ifs at h with hsame
  obtain rfl := Except.ok.inj h
  unfold Changes
  unfold update at hsame ⊢
  by_cases hrow : s.row.proposalId = id
  · rw [if_pos hrow]
  · rw [if_neg hrow] at hsame
    exact absurd hsame hrow

/-- The arguments and the row let `note_draft_changed` through. -/
structure Edits (env : Env) (s : Store) (draftId digest actorId actorType : String) : Prop where
  actor : strip actorId ≠ ""
  actorType : actorType ∈ ["user", "planner", "system"]
  digest : strip digest ≠ ""
  draft : strip draftId ≠ "" ∧ s.row.draftId = strip draftId
  status : s.row.status ≠ .cancelled
  write : env.liveWrite = none

def edited (draftRevision : Int) (digest : String) (row : Row) : Row :=
  { row with
    status := .userReview, draftRevision, definitionDigest := strip digest
    acceptedAt := none, acceptedBy := "" }

theorem noteDraftChanged_ok
    (h : s.noteDraftChanged env draftId draftRevision digest actorId actorType = .ok t) :
    t = s ∨ s.Edits env draftId digest actorId actorType ∧
      Changes env s (edited draftRevision digest) t := by
  simp only [noteDraftChanged, bind_eq_ok, required_eq_ok, raiseIf_eq_ok, not_not] at h
  obtain ⟨_, ⟨hactor, rfl⟩, _, htype, _, ⟨hdigest, rfl⟩, _, ⟨hdraft, rfl⟩, h⟩ := h
  split at h
  · exact .inl (Except.ok.inj h).symm
  · next hid =>
    simp only [bind_eq_ok, raiseIf_eq_ok, beforeLiveWrite_eq_ok] at h
    obtain ⟨_, hstatus, _, hwrite, h⟩ := h
    exact .inr ⟨⟨hactor, htype, hdigest, ⟨hdraft, not_not.mp hid⟩, hstatus, hwrite⟩,
      changes_of_appendReview h⟩

theorem Edits.noteDraftChanged
    (h : s.Edits env draftId digest actorId actorType) (draftRevision : Int) :
    ∃ t, s.noteDraftChanged env draftId draftRevision digest actorId actorType = .ok t ∧
      Changes env s (edited draftRevision digest) t := by
  have happend : ∀ action, ∃ t, (s.update env s.row.proposalId
      (edited draftRevision digest)).appendReview env s.row.proposalId actorType (strip actorId)
        action draftRevision (strip digest) "" = .ok t := by
    intro action
    refine ⟨_, if_pos ?_⟩
    rw [update, if_pos rfl]
    rfl
  obtain ⟨t, ht⟩ := happend _
  refine ⟨t, ?_, changes_of_appendReview ht⟩
  simp only [Store.noteDraftChanged, bind_eq_ok, required_eq_ok, raiseIf_eq_ok, not_not]
  refine ⟨_, ⟨h.actor, rfl⟩, (), h.actorType, _, ⟨h.digest, rfl⟩, _, ⟨h.draft.1, rfl⟩, ?_⟩
  rw [if_neg (not_not.mpr h.draft.2)]
  simp only [bind_eq_ok, raiseIf_eq_ok, beforeLiveWrite_eq_ok]
  exact ⟨(), h.status, (), h.write, ht⟩

theorem transition_ok {expectedStatus nextStatus : Status}
    {incrementRound plannerReviewed : Bool}
    (h : s.transition env id expected expectedStatus nextStatus actorType actorId action
      draftRevision digest comment incrementRound plannerReviewed = .ok t) :
    s.row.status = expectedStatus ∧ s.row.draftRevision = draftRevision ∧
      s.row.definitionDigest = strip digest ∧
      Changes env s (fun row => { row with
        status := nextStatus
        reviewRound := row.reviewRound + if incrementRound then 1 else 0
        plannerReviewedRevision := if plannerReviewed then draftRevision
          else row.plannerReviewedRevision
        plannerReviewedDigest := if plannerReviewed then strip digest
          else row.plannerReviewedDigest }) t := by
  simp only [transition, bind_eq_ok, required_eq_ok, lockedRow_eq_ok, raiseIf_eq_ok,
    beforeLiveWrite_eq_ok, not_or, not_not] at h
  obtain ⟨_, -, _, ⟨-, rfl⟩, _, ⟨-, -, -, hstatus, rfl⟩, _, ⟨hrevision, hdigest⟩, _, -, h⟩ := h
  exact ⟨hstatus, hrevision, hdigest, changes_of_appendReview h⟩

theorem accept_ok (h : s.accept env id expected actorId = .ok t) :
    s.row.status = .userReview ∧ s.row.draftRevision = s.row.plannerReviewedRevision ∧
      s.row.definitionDigest = s.row.plannerReviewedDigest ∧
      Changes env s (fun row => { row with
        status := .accepted, acceptedAt := some env.now, acceptedBy := strip actorId }) t := by
  simp only [accept, bind_eq_ok, required_eq_ok, lockedRow_eq_ok, raiseIf_eq_ok,
    beforeLiveWrite_eq_ok, not_or, not_not] at h
  obtain ⟨_, ⟨-, rfl⟩, _, ⟨-, -, -, hstatus, rfl⟩, _, ⟨hrevision, hdigest⟩, _, -, h⟩ := h
  exact ⟨hstatus, hrevision, hdigest, changes_of_appendReview h⟩

theorem cancel_ok (h : s.cancel env id expected actorType actorId comment = .ok t) :
    s.row.status ∈ [.plannerDrafting, .userReview, .plannerReview, .accepted] ∧
      Changes env s (fun row => { row with
        status := .cancelled, cancelledAt := some env.now, cancelledBy := strip actorId }) t := by
  simp only [cancel, bind_eq_ok, required_eq_ok, select_eq_ok, raiseIf_eq_ok,
    beforeLiveWrite_eq_ok, not_not] at h
  obtain ⟨_, -, _, ⟨-, rfl⟩, _, ⟨-, -, rfl⟩, _, -, _, -, _, hstatus, _, -, h⟩ := h
  exact ⟨hstatus, changes_of_appendReview h⟩

theorem approve_ok {publishedFlowRef : Option String}
    (h : s.approve env id expected actorId publishedFlowRef runId = .ok t) :
    s.row.status = .accepted ∧
      Changes env s (fun row => { row with
        status := .approved, approvedAt := some env.now, approvedBy := strip actorId
        publishedFlowRef, runIds := [strip runId] }) t := by
  simp only [approve, bind_eq_ok, required_eq_ok, lockedRow_eq_ok, raiseIf_eq_ok,
    beforeLiveWrite_eq_ok] at h
  obtain ⟨_, ⟨-, rfl⟩, _, ⟨-, rfl⟩, _, -, _, ⟨-, -, -, hstatus, rfl⟩, _, -, h⟩ := h
  exact ⟨hstatus, changes_of_appendReview h⟩

theorem markRunStatus_ok {status : String} (h : s.markRunStatus env id runId status = .ok t) :
    t = s ∨ ∃ next ∈ s.row.status.allowed, runId ∈ s.row.runIds ∧ next.text = status ∧
      Changes env s (fun row => { row with status := next }) t := by
  simp only [markRunStatus, bind_eq_ok, select_eq_ok, raiseIf_eq_ok, not_not] at h
  obtain ⟨_, ⟨-, -, rfl⟩, _, hrun, h⟩ := h
  split at h
  · exact .inl (Except.ok.inj h).symm
  · split at h
    · cases h
    · next next hnext =>
      simp only [bind_eq_ok, beforeLiveWrite_eq_ok] at h
      obtain ⟨_, -, h⟩ := h
      obtain rfl := Except.ok.inj h
      by_cases hid : s.row.proposalId = id
      · refine .inr ⟨next, List.mem_of_find?_eq_some hnext, hrun, ?_, ?_⟩
        · simpa using List.find?_some hnext
        · unfold Changes update
          rw [if_pos hid]
      · exact .inl (by rw [update, if_neg hid])

/-- The arguments and the row let `start_replay` through. -/
structure Replays (env : Env) (s : Store) (id : String) (expected : Int) (runId actorId : String) :
    Prop where
  actor : strip actorId ≠ ""
  run : strip runId ≠ ""
  proposal : strip id ≠ "" ∧ s.row.proposalId = strip id ∧ s.row.proposalId = id
  revision : s.row.stateRevision = expected
  status : s.row.status ∈ [.completed, .failed, .cancelled]
  fresh : strip runId ∉ s.row.runIds
  write : env.liveWrite = none

def replayed (runId : String) (row : Row) : Row :=
  { row with status := .running, runIds := row.runIds ++ [strip runId] }

theorem startReplay_ok (h : s.startReplay env id expected runId actorId = .ok t) :
    s.Replays env id expected runId actorId ∧ Changes env s (replayed runId) t := by
  simp only [startReplay, bind_eq_ok, required_eq_ok, select_eq_ok, raiseIf_eq_ok,
    beforeLiveWrite_eq_ok, not_not] at h
  obtain ⟨_, ⟨hactor, rfl⟩, _, ⟨hrun, rfl⟩, _, ⟨hne, hid, rfl⟩, _, hrevision, _, hstatus, _, hfresh,
    _, hwrite, h⟩ := h
  have hsame : s.row.proposalId = id := by
    by_contra hne
    unfold appendReview update at h
    rw [if_neg hne, if_neg hne] at h
    cases h
  exact ⟨⟨hactor, hrun, ⟨hne, hid, hsame⟩, hrevision, hstatus, hfresh, hwrite⟩,
    changes_of_appendReview h⟩

theorem Replays.startReplay (h : s.Replays env id expected runId actorId) :
    ∃ t, s.startReplay env id expected runId actorId = .ok t ∧
      Changes env s (replayed runId) t := by
  have happend : ∃ t, (s.update env id (replayed runId)).appendReview env id "user" (strip actorId)
      "replayed" s.row.draftRevision s.row.definitionDigest "" = .ok t := by
    refine ⟨_, if_pos ?_⟩
    rw [update, if_pos h.proposal.2.2]
    exact h.proposal.2.2
  obtain ⟨t, ht⟩ := happend
  refine ⟨t, ?_, changes_of_appendReview ht⟩
  simp only [Store.startReplay, bind_eq_ok, required_eq_ok, select_eq_ok, raiseIf_eq_ok,
    beforeLiveWrite_eq_ok, not_not]
  exact ⟨_, ⟨h.actor, rfl⟩, _, ⟨h.run, rfl⟩, _, ⟨h.proposal.1, h.proposal.2.1, rfl⟩, (),
    h.revision, (), h.status, (), h.fresh, (), h.write, ht⟩

end Store

open Store in
theorem Op.changes_of_body {env : Env} {s t : Store} {op : Op} (h : op.body env s = .ok t) :
    t = s ∨ ∃ change, Changes env s change t := by
  cases op with
  | noteDraftChanged => exact (noteDraftChanged_ok h).imp_right fun h => ⟨_, h.2⟩
  | submitToPlanner => exact .inr ⟨_, (transition_ok h).2.2.2⟩
  | plannerReview =>
    simp only [body, Store.plannerReview, bind_eq_ok] at h
    obtain ⟨_, -, h⟩ := h
    exact .inr ⟨_, (transition_ok h).2.2.2⟩
  | accept => exact .inr ⟨_, (accept_ok h).2.2.2⟩
  | cancel => exact .inr ⟨_, (cancel_ok h).2⟩
  | approve => exact .inr ⟨_, (approve_ok h).2⟩
  | markRunStatus =>
    exact (markRunStatus_ok h).imp_right fun ⟨_, _, _, _, h⟩ => ⟨_, h⟩
  | startReplay => exact .inr ⟨_, (startReplay_ok h).2⟩

end PawFlow.WorkflowProposal
