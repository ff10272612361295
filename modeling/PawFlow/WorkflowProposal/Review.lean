import PawFlow.WorkflowProposal.Store

/-!
# Only reviewed and approved workflows run

What a proposal is for, over whole runs of the store: a run is linked to a version that the planner
reviewed and the user accepted, and an edit does not get in the way of a run that is under way. The
store keeps this as long as nobody edits the draft of an approved or running proposal and nobody
replays a proposal that was cancelled before its approval.
-/

namespace PawFlow.WorkflowProposal

open PawFlow.Lib

/-- A revision of the draft with its digest. -/
abbrev Version := Int × String

def Row.version (row : Row) : Version := (row.draftRevision, row.definitionDigest)

def Status.afterApproval : Status → Bool
  | .approved | .running | .completed | .failed => true
  | _ => false

/-- The version `approve` was executed for, with what was known of it then. -/
structure Approval where
  version : Version
  reviewed : Version
  accepted : Option Version

/-- A store with the story of its proposal. -/
structure Tracked where
  store : Store
  /-- What the planner reviewed last; it wrote the first version. -/
  reviewed : Version
  /-- What the user accepted, until the next edit. -/
  accepted : Option Version := none
  approval : Option Approval := none
  /-- The linked runs with the version they belong to. -/
  runs : List (String × Option Version) := []
  /-- The outcomes of a live run that could be recorded before an edit and are not recorded yet. -/
  pending : List (String × Status) := []

namespace Tracked

def ofStore (s : Store) : Tracked := { store := s, reviewed := s.row.version }

/-- The outcomes that `mark_run_status` may record for the live run. -/
def openOutcomes (row : Row) : List (String × Status) :=
  match row.runIds.getLast? with
  | none => []
  | some runId => (row.status.allowed.filter (· ≠ .running)).map fun outcome => (runId, outcome)

/-- The story goes on with what a call changed. -/
def follow (t : Tracked) (op : Op) (store : Store) : Tracked :=
  if store.row.stateRevision = t.store.row.stateRevision then { t with store }
  else
    match op with
    | .noteDraftChanged .. =>
      { t with store, accepted := none, pending := t.pending ++ openOutcomes t.store.row }
    | .plannerReview .. => { t with store, reviewed := t.store.row.version }
    | .accept .. => { t with store, accepted := some t.store.row.version }
    | .approve .. =>
      { t with
        store
        approval := some {
          version := t.store.row.version, reviewed := t.reviewed, accepted := t.accepted }
        runs := store.row.runIds.map fun runId => (runId, some t.store.row.version) }
    | .startReplay _ _ runId _ =>
      { t with store, runs := t.runs ++ [(strip runId, t.approval.map Approval.version)] }
    | .markRunStatus _ runId _ =>
      { t with
        store
        pending := if store.row.status = .running then t.pending
          else t.pending.filter fun p => p.1 ≠ runId }
    | .submitToPlanner .. | .cancel .. => { t with store }

def step (t : Tracked) (call : Env × Op) : Option Tracked :=
  some (t.follow call.2 (call.2.run call.1 t.store).2)

/-- `mark_run_status` records the outcome of the run. -/
def Records (s : Store) (runId : String) (outcome : Status) : Prop :=
  ∃ t, s.markRunStatus {} s.row.proposalId runId outcome.text = .ok t ∧ t.row.status = outcome

/-- What the claims of a review are worth in a state. -/
structure Good (t : Tracked) : Prop where
  approved : t.store.row.status ∈ [.running, .completed, .failed] → ∃ a, t.approval = some a ∧
    a.reviewed = a.version ∧ a.accepted = some a.version ∧
      t.runs.map Prod.fst = t.store.row.runIds ∧ ∀ r ∈ t.runs, r.2 = some a.version
  unapproved : t.approval = none → t.store.row.runIds = [] ∧ t.store.row.status ≠ .running
  pending : ∀ p ∈ t.pending, Records t.store p.1 p.2

/-- What raises changes nothing, and the state revision increases with every change. -/
def Fenced (t : Tracked) (call : Env × Op) : Prop :=
  (∀ e, (call.2.run call.1 t.store).1 = .error e → (call.2.run call.1 t.store).2 = t.store) ∧
    ((call.2.run call.1 t.store).2 ≠ t.store →
      t.store.row.stateRevision < (call.2.run call.1 t.store).2.row.stateRevision)

/-- No draft of an approved or running proposal is edited, and nothing without a run is replayed. -/
def Guarded (t : Tracked) : Env × Op → Prop
  | (env, .noteDraftChanged draftId _ digest actorId actorType) =>
    t.store.Edits env draftId digest actorId actorType →
      t.store.row.status ∉ [.approved, .running]
  | (env, .startReplay id expected runId actorId) =>
    t.store.Replays env id expected runId actorId → t.store.row.runIds ≠ []
  | _ => True

structure Inv (t : Tracked) : Prop where
  runs : t.runs.map Prod.fst = t.store.row.runIds
  reviewed : t.reviewed =
    (t.store.row.plannerReviewedRevision, t.store.row.plannerReviewedDigest)
  accepted : t.store.row.status = .accepted →
    t.accepted = some t.store.row.version ∧ t.reviewed = t.store.row.version
  unapproved : t.approval = none → t.store.row.runIds = [] ∧
    t.store.row.status.afterApproval = false
  approved : ∀ a, t.approval = some a → a.reviewed = a.version ∧ a.accepted = some a.version ∧
    t.store.row.runIds ≠ [] ∧ ∀ r ∈ t.runs, r.2 = some a.version
  pending : t.pending = []

variable {t : Tracked} {env : Env} {op : Op}

theorem Inv.good (h : Inv t) : Good t where
  approved hstatus := by
    rcases hap : t.approval with _ | a
    · have hnot := (h.unapproved hap).2
      simp only [List.mem_cons, List.not_mem_nil, or_false] at hstatus
      rcases hstatus with hs | hs | hs <;> rw [hs] at hnot <;> cases hnot
    · obtain ⟨hreviewed, haccepted, -, hversions⟩ := h.approved a hap
      exact ⟨a, rfl, hreviewed, haccepted, h.runs, hversions⟩
  unapproved hap := by
    obtain ⟨hruns, hstatus⟩ := h.unapproved hap
    refine ⟨hruns, fun heq => ?_⟩
    rw [heq] at hstatus
    cases hstatus
  pending p hp := by
    rw [h.pending] at hp
    exact absurd hp List.not_mem_nil

/-! ## Steps -/

theorem run_of_error {s : Store} {e : Error} (h : op.body env s = .error e) :
    op.run env s = (.error e, s) := by
  unfold Op.run
  rw [h]

theorem run_of_ok {s s' : Store} (h : op.body env s = .ok s') : op.run env s = (.ok (), s') := by
  unfold Op.run
  rw [h]

variable {change : Row → Row} {call : Env × Op} {draftId : String}

theorem revision_of_changes {s s' : Store}
    (h : Store.Changes env s change s') : s'.row.stateRevision = s.row.stateRevision + 1 := by
  rw [h]

theorem fenced (t : Tracked) (call : Env × Op) : Fenced t call := by
  obtain ⟨env, op⟩ := call
  unfold Fenced
  dsimp only
  cases hbody : op.body env t.store with
  | error e =>
    rw [run_of_error hbody]
    exact ⟨fun _ _ => rfl, fun hne => absurd rfl hne⟩
  | ok s =>
    rw [run_of_ok hbody]
    refine ⟨fun _ h => (nomatch h), fun hne => ?_⟩
    rcases Op.changes_of_body hbody with hsame | ⟨change, hchange⟩
    · exact absurd hsame hne
    · have hrevision := revision_of_changes hchange
      dsimp only
      omega

theorem follow_same (op : Op) : t.follow op t.store = t := by
  unfold follow
  rw [if_pos rfl]

theorem changed {s : Store} (h : Store.Changes env t.store change s) :
    ¬ s.row.stateRevision = t.store.row.stateRevision := by
  have hrevision := revision_of_changes h
  omega

theorem openOutcomes_of_not_live {row : Row} (h : row.status ∉ [.approved, .running]) :
    openOutcomes row = [] := by
  have hallowed : row.status.allowed = [] := by
    simp only [List.mem_cons, List.not_mem_nil, or_false, not_or] at h
    unfold Status.allowed
    split
    · next heq => exact absurd heq h.1
    · next heq => exact absurd heq h.2
    · rfl
  unfold openOutcomes
  rw [hallowed]
  cases row.runIds.getLast? <;> rfl

section StepInv

variable {s : Store} (h : Inv t)
include h

variable {actorId id : String} {expected : Int}

variable {digest comment runId : String} {draftRevision : Int}

variable {actorType : String}

theorem Inv.edit {draftId : String} (hlive : t.store.row.status ∉ [.approved, .running])
    (hchange : Store.Changes env t.store (Store.edited draftRevision digest) s) :
    Inv (t.follow (.noteDraftChanged draftId draftRevision digest actorId actorType) s) := by
  unfold follow
  rw [if_neg (changed hchange), openOutcomes_of_not_live hlive, h.pending]
  obtain ⟨row, reviews⟩ := s
  obtain rfl : row = _ := hchange
  exact ⟨h.runs, h.reviewed, fun heq => (nomatch heq), fun hap => ⟨(h.unapproved hap).1, rfl⟩,
    h.approved, rfl⟩

theorem Inv.submit
    (hbody : t.store.submitToPlanner env id expected draftRevision digest actorId comment = .ok s) :
    Inv (t.follow (.submitToPlanner id expected draftRevision digest actorId comment) s) := by
  obtain ⟨-, -, -, hchange⟩ := Store.transition_ok hbody
  unfold follow
  rw [if_neg (changed hchange)]
  obtain ⟨row, reviews⟩ := s
  obtain rfl : row = _ := hchange
  exact ⟨h.runs, h.reviewed, fun heq => (nomatch heq), fun hap => ⟨(h.unapproved hap).1, rfl⟩,
    h.approved, h.pending⟩

theorem Inv.review {decision : String}
    (hbody : t.store.plannerReview env id expected draftRevision digest actorId decision comment =
      .ok s) :
    Inv (t.follow (.plannerReview id expected draftRevision digest actorId decision comment) s) := by
  simp only [Store.plannerReview, bind_eq_ok] at hbody
  obtain ⟨_, -, hbody⟩ := hbody
  obtain ⟨-, hrevision, hdigest, hchange⟩ := Store.transition_ok hbody
  unfold follow
  rw [if_neg (changed hchange)]
  obtain ⟨row, reviews⟩ := s
  obtain rfl : row = _ := hchange
  refine ⟨h.runs, ?_, ?_, fun hap => ⟨(h.unapproved hap).1, rfl⟩, h.approved, h.pending⟩
  · show t.store.row.version = (draftRevision, strip digest)
    rw [Row.version, hrevision, hdigest]
  · intro heq
    cases heq

theorem Inv.accept (hbody : t.store.accept env id expected actorId = .ok s) :
    Inv (t.follow (.accept id expected actorId) s) := by
  obtain ⟨-, hrevision, hdigest, hchange⟩ := Store.accept_ok hbody
  unfold follow
  rw [if_neg (changed hchange)]
  obtain ⟨row, reviews⟩ := s
  obtain rfl : row = _ := hchange
  refine ⟨h.runs, h.reviewed, fun _ => ⟨rfl, ?_⟩, fun hap => ⟨(h.unapproved hap).1, rfl⟩,
    h.approved, h.pending⟩
  show t.reviewed = t.store.row.version
  rw [h.reviewed, Row.version, hrevision, hdigest]

theorem Inv.cancel
    (hbody : t.store.cancel env id expected actorType actorId comment = .ok s) :
    Inv (t.follow (.cancel id expected actorType actorId comment) s) := by
  obtain ⟨-, hchange⟩ := Store.cancel_ok hbody
  unfold follow
  rw [if_neg (changed hchange)]
  obtain ⟨row, reviews⟩ := s
  obtain rfl : row = _ := hchange
  exact ⟨h.runs, h.reviewed, fun heq => (nomatch heq), fun hap => ⟨(h.unapproved hap).1, rfl⟩,
    h.approved, h.pending⟩

theorem Inv.approve {publishedFlowRef : Option String}
    (hbody : t.store.approve env id expected actorId publishedFlowRef runId = .ok s) :
    Inv (t.follow (.approve id expected actorId publishedFlowRef runId) s) := by
  obtain ⟨hstatus, hchange⟩ := Store.approve_ok hbody
  obtain ⟨haccepted, hreviewed⟩ := h.accepted hstatus
  unfold follow
  rw [if_neg (changed hchange)]
  obtain ⟨row, reviews⟩ := s
  obtain rfl : row = _ := hchange
  refine ⟨rfl, h.reviewed, fun heq => (nomatch heq), fun hap => (nomatch hap), fun a ha => ?_,
    h.pending⟩
  obtain rfl := Option.some.inj ha
  refine ⟨hreviewed, haccepted, List.cons_ne_nil _ _, fun r hr => ?_⟩
  obtain ⟨runId', -, rfl⟩ := List.mem_map.mp hr
  rfl

theorem Inv.mark {status : String} (hbody : t.store.markRunStatus env id runId status = .ok s) :
    Inv (t.follow (.markRunStatus id runId status) s) := by
  rcases Store.markRunStatus_ok hbody with rfl | ⟨next, hnext, hrun, -, hchange⟩
  · rw [follow_same]
    exact h
  · -- Only an approved proposal has runs.
    have happroved : t.approval ≠ none := fun hap => by
      rw [(h.unapproved hap).1] at hrun
      exact absurd hrun List.not_mem_nil
    have hne : next ≠ .accepted := by
      rintro rfl
      cases hs : t.store.row.status <;> rw [hs] at hnext <;> simp [Status.allowed] at hnext
    unfold follow
    rw [if_neg (changed hchange), h.pending]
    obtain ⟨row, reviews⟩ := s
    obtain rfl : row = _ := hchange
    exact ⟨h.runs, h.reviewed, fun heq => absurd heq hne, fun hap => absurd hap happroved,
      h.approved, ite_self _⟩

theorem Inv.replay (hruns : t.store.row.runIds ≠ [])
    (hchange : Store.Changes env t.store (Store.replayed runId) s) :
    Inv (t.follow (.startReplay id expected runId actorId) s) := by
  have happroved : t.approval ≠ none := fun hap => hruns (h.unapproved hap).1
  unfold follow
  rw [if_neg (changed hchange)]
  obtain ⟨row, reviews⟩ := s
  obtain rfl : row = _ := hchange
  refine ⟨?_, h.reviewed, fun heq => (nomatch heq), fun hap => absurd hap happroved, fun a ha => ?_,
    h.pending⟩
  · show (t.runs ++ [_]).map Prod.fst = t.store.row.runIds ++ [strip runId]
    rw [List.map_append, h.runs]
    rfl
  · have ha : t.approval = some a := ha
    obtain ⟨hreviewed, haccepted, -, hversions⟩ := h.approved a ha
    refine ⟨hreviewed, haccepted, by simp [Store.replayed], fun r hr => ?_⟩
    rcases List.mem_append.mp hr with hr | hr
    · exact hversions r hr
    · rw [List.mem_singleton.mp hr, ha]
      rfl

end StepInv

theorem step_inv {t' : Tracked} (h : Inv t) (hguard : Guarded t call)
    (hs : t.step call = some t') : Inv t' := by
  obtain ⟨env, op⟩ := call
  obtain rfl := Option.some.inj hs
  show Inv (t.follow op (op.run env t.store).2)
  cases hbody : op.body env t.store with
  | error e =>
    rw [run_of_error hbody, follow_same]
    exact h
  | ok s =>
    rw [run_of_ok hbody]
    cases op with
    | noteDraftChanged =>
      rcases Store.noteDraftChanged_ok hbody with rfl | ⟨hedits, hchange⟩
      · rw [follow_same]
        exact h
      · exact h.edit (hguard hedits) hchange
    | submitToPlanner => exact h.submit hbody
    | plannerReview => exact h.review hbody
    | accept => exact h.accept hbody
    | cancel => exact h.cancel hbody
    | approve => exact h.approve hbody
    | markRunStatus => exact h.mark hbody
    | startReplay =>
      obtain ⟨hreplays, hchange⟩ := Store.startReplay_ok hbody
      exact h.replay (hguard hreplays) hchange

/-! ## What the two slips do -/

/-- The outcome of a live run cannot be recorded after an edit. -/
theorem Inv.edit_not_good (h : Inv t) {digest actorId actorType : String}
    {draftRevision : Int} (hedits : t.store.Edits env draftId digest actorId actorType)
    (hlive : t.store.row.status ∈ [.approved, .running]) :
    ¬ Good (t.follow (.noteDraftChanged draftId draftRevision digest actorId actorType)
      ((Op.noteDraftChanged draftId draftRevision digest actorId actorType).run env t.store).2) := by
  intro hgood
  obtain ⟨s, hbody, hchange⟩ := hedits.noteDraftChanged draftRevision
  have hfailed : Status.failed ∈ t.store.row.status.allowed.filter (· ≠ .running) := by
    simp only [List.mem_cons, List.not_mem_nil, or_false] at hlive
    rcases hlive with hs | hs <;> rw [hs] <;> decide
  have hruns : t.store.row.runIds ≠ [] := by
    rcases hap : t.approval with _ | a
    · have hnot := (h.unapproved hap).2
      simp only [List.mem_cons, List.not_mem_nil, or_false] at hlive
      rcases hlive with hs | hs <;> rw [hs] at hnot <;> cases hnot
    · exact (h.approved a hap).2.2.1
  have hlast := List.getLast?_eq_some_getLast hruns
  generalize t.store.row.runIds.getLast hruns = runId at hlast
  have hopen : (runId, Status.failed) ∈ openOutcomes t.store.row := by
    unfold openOutcomes
    rw [hlast]
    exact List.mem_map_of_mem hfailed
  have hbody : (Op.noteDraftChanged draftId draftRevision digest actorId actorType).body env
      t.store = .ok s := hbody
  rw [run_of_ok hbody] at hgood
  have hpending : (runId, Status.failed) ∈ (t.follow (.noteDraftChanged draftId draftRevision digest
      actorId actorType) s).pending := by
    unfold follow
    rw [if_neg (changed hchange)]
    exact List.mem_append_right _ hopen
  obtain ⟨u, hmark, hstatus⟩ := hgood.pending _ hpending
  have hstore : (t.follow (.noteDraftChanged draftId draftRevision digest actorId actorType)
      s).store = s := by
    unfold follow
    rw [if_neg (changed hchange)]
  have hreview : s.row.status = .userReview := by rw [hchange]; rfl
  rw [hstore] at hmark
  rcases Store.markRunStatus_ok hmark with rfl | ⟨next, hnext, -⟩
  · rw [hreview] at hstatus
    cases hstatus
  · rw [hreview] at hnext
    exact absurd hnext List.not_mem_nil

theorem Inv.replay_not_good (h : Inv t) {id runId actorId : String} {expected : Int}
    (hreplays : t.store.Replays env id expected runId actorId) (hruns : t.store.row.runIds = []) :
    ¬ Good (t.follow (.startReplay id expected runId actorId)
      ((Op.startReplay id expected runId actorId).run env t.store).2) := by
  intro hgood
  obtain ⟨s, hbody, hchange⟩ := hreplays.startReplay
  have hbody : (Op.startReplay id expected runId actorId).body env t.store = .ok s := hbody
  have hap : t.approval = none := by
    rcases hap : t.approval with _ | a
    · rfl
    · exact absurd hruns (h.approved a hap).2.2.1
  rw [run_of_ok hbody] at hgood
  have hnone : (t.follow (.startReplay id expected runId actorId) s).approval = none := by
    unfold follow
    rw [if_neg (changed hchange)]
    exact hap
  have hrunning : (t.follow (.startReplay id expected runId actorId) s).store.row.status =
      .running := by
    unfold follow
    rw [if_neg (changed hchange)]
    show s.row.status = .running
    rw [hchange]
    rfl
  exact (hgood.unapproved hnone).2 hrunning

theorem Inv.not_good {t' : Tracked} (h : Inv t) (hguard : ¬ Guarded t call)
    (hs : t.step call = some t') : ¬ Good t' := by
  obtain ⟨env, op⟩ := call
  obtain rfl := Option.some.inj hs
  cases op with
  | noteDraftChanged =>
    obtain ⟨hedits, hlive⟩ := not_forall.mp hguard
    exact h.edit_not_good hedits (not_not.mp hlive)
  | startReplay =>
    obtain ⟨hreplays, hruns⟩ := not_forall.mp hguard
    exact h.replay_not_good hreplays (not_not.mp hruns)
  | submitToPlanner | plannerReview | accept | cancel | approve | markRunStatus =>
    exact absurd trivial hguard

/-! ## Runs -/

theorem inv_create {uuid userId conversationId title summary digest createdBy : String}
    {draftRevision : Int} {s : Store}
    (h : create env uuid userId conversationId title summary draftId draftRevision digest
      createdBy = .ok s) : Inv (ofStore s) := by
  simp only [create, bind_eq_ok, required_eq_ok, raiseIf_eq_ok, beforeLiveWrite_eq_ok] at h
  obtain ⟨_, ⟨-, rfl⟩, _, ⟨-, rfl⟩, _, ⟨-, rfl⟩, _, ⟨-, rfl⟩, _, ⟨-, rfl⟩, _, ⟨-, rfl⟩, _, -, _, -,
    h⟩ := h
  rw [Store.appendReview, if_pos rfl] at h
  obtain rfl := Except.ok.inj h
  refine ⟨rfl, rfl, ?_, fun _ => ⟨rfl, rfl⟩, ?_, rfl⟩
  · intro heq
    cases heq
  · intro _ ha
    cases ha

/-- A proposal runs what was reviewed and approved, and its runs are recorded, exactly in the runs
of the store that neither edit the draft of an approved or running proposal nor replay a proposal
without a run. -/
theorem good_iff_guarded (env : Env)
    (uuid userId conversationId title summary draftId digest createdBy : String)
    (draftRevision : Int) {s : Store}
    (hcreate : create env uuid userId conversationId title summary draftId draftRevision digest
      createdBy = .ok s) (calls : List (Env × Op)) :
    AllStates step Good (ofStore s) calls ∧ AllSteps step Fenced (ofStore s) calls ↔
      AllSteps step Guarded (ofStore s) calls := by
  have hfenced : AllSteps step Fenced (ofStore s) calls := allSteps_of_forall fenced
  have hiff : AllStates step Good (ofStore s) calls ↔ AllSteps step Guarded (ofStore s) calls := by
    refine allStates_iff_allSteps Inv (fun _ h => h.good) ?_ ?_ (inv_create hcreate)
      (allSteps_of_forall fun _ _ => (trivial : True))
    · intro t call t' h _ hguard hs
      exact step_inv h hguard hs
    · intro t call t' h _ hguard hs
      exact h.not_good hguard hs
  exact (and_iff_left hfenced).trans hiff

/-- A proposal of Alice, written by a planner. -/
def draftStore : Store where
  row := {
    proposalId := "wp_1", userId := "alice", conversationId := "conv", title := "T", summary := ""
    status := .userReview, draftId := "d", draftRevision := 1, definitionDigest := "x"
    plannerReviewedRevision := 1, plannerReviewedDigest := "x", createdBy := "planner"
    createdAt := "", updatedAt := "" }
  reviews := [{
    createdAt := "", actorType := "planner", actorId := "planner"
    action := "submitted_for_user_review", draftRevision := 1, digest := "x", comment := "" }]

/-- The user accepts and approves the proposal, and it runs to its end. -/
def approvedRun : List Op :=
  [.accept "wp_1" 1 "alice", .approve "wp_1" 2 "alice" (some "flow") "run",
   .markRunStatus "wp_1" "run" "running", .markRunStatus "wp_1" "run" "completed"]

theorem good_iff_guarded_approvedRun :
    AllStates step Good (ofStore draftStore) (approvedRun.map fun op => ({}, op)) ∧
        AllSteps step Fenced (ofStore draftStore) (approvedRun.map fun op => ({}, op)) ↔
      AllSteps step Guarded (ofStore draftStore) (approvedRun.map fun op => ({}, op)) :=
  good_iff_guarded {} "1" "alice" "conv" "T" "" "d" "x" "planner" 1 rfl _

/-- The proposal is cancelled at once and replayed. -/
def cancelledRun : List Op :=
  [.cancel "wp_1" 1 "user" "alice" "", .startReplay "wp_1" 2 "run" "alice"]

/-- The draft is edited while the approved run is under way. -/
def editedRun : List Op :=
  [.accept "wp_1" 1 "alice", .approve "wp_1" 2 "alice" (some "flow") "run",
   .markRunStatus "wp_1" "run" "running", .noteDraftChanged "d" 2 "y" "alice" "user"]

theorem not_good_cancelledRun_editedRun :
    (¬ AllStates step Good (ofStore draftStore) (cancelledRun.map fun op => ({}, op))) ∧
      ¬ AllStates step Good (ofStore draftStore) (editedRun.map fun op => ({}, op)) ∧
      ((editedRun.map fun op => ({}, op)).foldlM step (ofStore draftStore)).any fun t =>
        (Op.markRunStatus "wp_1" "run" "completed").run {} t.store =
          (.error (.conflict "invalid proposal run transition user_review -> completed"),
            t.store) := by
  refine ⟨fun h => ?_, fun h => ?_, by decide +kernel⟩
  · have hrun : ((cancelledRun.map fun op => ({}, op)).foldlM step (ofStore draftStore)).any
        fun t => t.approval.isNone ∧ t.store.row.status = .running := by
      decide +kernel
    obtain ⟨t, ht, hrun⟩ := (Option.any_eq_true _ _).mp hrun
    obtain ⟨hap, hstatus⟩ := of_decide_eq_true hrun
    exact ((h.last ht).unapproved (Option.isNone_iff_eq_none.mp hap)).2 hstatus
  · have hrun : ((editedRun.map fun op => ({}, op)).foldlM step (ofStore draftStore)).any
        fun t => ("run", Status.completed) ∈ t.pending ∧
          (t.store.markRunStatus {} t.store.row.proposalId "run" Status.completed.text).isOk =
            false := by
      decide +kernel
    obtain ⟨t, ht, hrun⟩ := (Option.any_eq_true _ _).mp hrun
    obtain ⟨hpending, hraises⟩ := of_decide_eq_true hrun
    obtain ⟨u, hmark, -⟩ := (h.last ht).pending _ hpending
    rw [hmark] at hraises
    cases hraises

end Tracked

end PawFlow.WorkflowProposal
