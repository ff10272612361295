import PawFlow.Lib.Json

/-!
# The lanes of the board

How `project_task_cards` puts the tasks of a run into lanes (`core/workflow_kanban.py`). The set of
ids is visited in some order that is not fixed.
-/

namespace PawFlow.Kanban

open PawFlow.Lib

inductive Lane where
  | notStarted
  | ready
  | running
  | waiting
  | blocked
  | done
  | failed
  | unknown
deriving DecidableEq

structure Python where
  str : Json → String
  casefold : String → String

abbrev Fields := PyDict String Json

def dict? : Json → Option Fields
  | .obj items => some items
  | _ => none

/-- `str(row.get(key) or "")`. -/
def Python.field (py : Python) (row : Fields) (key : String) : String :=
  let value := (row.get? key).getD .null
  if value.truthy then py.str value else ""

structure Board where
  run : Fields
  events : List Fields
  waits : List Fields
  tasks : List Json
  relations : List Json

/-- `_TASK_TERMINAL_STAGES`. -/
def terminalStage (stage : String) : Option Lane :=
  if stage = "task_completed" ∨ stage = "completed" then some .done
  else if stage = "task_failed" ∨ stage = "failed" then some .failed
  else none

def laneEvents : List String :=
  ["progress", "retrying", "error", "waiting", "stage_started", "stage_completed",
    "agent_message", "tool_call", "tool_result"]

def eventData (event : Fields) : Fields := ((event.get? "data").bind dict?).getD []

namespace Python

variable (py : Python)

/-- One round of the loop of `_task_event_lane`. -/
def eventLane (lane : Option Lane) (event : Fields) : Option Lane :=
  let data := eventData event
  let eventType := py.field event "event_type"
  let stage := py.casefold (py.field data "stage")
  let outcome := py.casefold (py.field data "outcome")
  if eventType = "authorization" then
    let decision := py.casefold (py.field data "decision")
    if decision = "execute" then some .running
    else if decision ≠ "" then some .blocked else lane
  else if eventType ∉ laneEvents then lane
  else
    match (terminalStage stage).or (terminalStage outcome) with
    | some lane => some lane
    | none =>
      if eventType = "error" then some .failed
      else if eventType ∈ ["retrying", "agent_message", "tool_call", "tool_result"] then
        some .running
      else if stage = "queued" ∨ outcome = "queued" then some .ready
      else some .running

/-- The id and the status of a task of the graph. -/
def taskRow? (task : Json) : Option (String × String) :=
  (dict? task).bind fun task =>
    if py.field task "id" = "" then none
    else some (py.field task "id", py.casefold (py.field task "status"))

end Python

namespace Board

variable (py : Python) (b : Board)

def isWaiting (taskId : String) : Bool :=
  b.waits.any fun wait =>
    py.field wait "instance_id" = "workflow:" ++ py.field b.run "run_id" &&
      py.field wait "status" = "waiting" && py.field wait "kind" = "signal" &&
      py.field wait "task_id" = taskId

def retryableTaskId : String :=
  let error := ((b.run.get? "error").bind dict?).getD []
  let resumed := py.field b.run "resume_task_id"
  if resumed = "" then py.field error "task_id" else resumed

def taskEventLane (taskId : String) : Option Lane :=
  let events := b.events.filter fun event => py.field (eventData event) "task_id" = taskId
  let lane := events.foldl py.eventLane none
  if b.isWaiting py taskId then some .waiting
  else if lane = some .failed ∧ taskId = b.retryableTaskId py then some .blocked
  else lane

/-- What a task of the graph shows for itself. -/
def evidenceLane (row : String × String) : Option Lane :=
  let (taskId, status) := row
  let lane := b.taskEventLane py taskId
  if b.isWaiting py taskId then some .waiting
  else if status = "completed" then some .done
  else if status = "failed" then
    some (if taskId = b.retryableTaskId py then .blocked else .failed)
  else if status = "running" then some .running
  else if status ≠ "" ∧ status ≠ "pending" ∧ lane = none then some .unknown
  else lane

def rows : List (String × String) := b.tasks.filterMap py.taskRow?

def taskIds : List String := (b.rows py).map Prod.fst

/-- `parents` of `_graph_maps`. -/
def parents (taskId : String) : List String :=
  (b.relations.filterMap fun relation => (dict? relation).bind fun relation =>
    let source := py.field relation "from"
    let target := py.field relation "to"
    if target = taskId ∧ source ∈ b.taskIds py ∧ target ∈ b.taskIds py then some source
    else none).eraseDups

def note (lanes : PyDict String Lane) (row : String × String) : PyDict String Lane :=
  match b.evidenceLane py row with
  | some lane => lanes.set row.1 lane
  | none => lanes

def evidence : PyDict String Lane := (b.rows py).foldl (b.note py) []

def Bad (lane : Option Lane) : Prop := lane = some .blocked ∨ lane = some .failed

instance (lane : Option Lane) : Decidable (Bad lane) := inferInstanceAs (Decidable (_ ∨ _))

def derived (parents : List String) (lane : String → Option Lane) : Lane :=
  if parents ≠ [] ∧ ∀ p ∈ parents, lane p = some .done then .ready
  else if ∃ p ∈ parents, Bad (lane p) then .blocked
  else .notStarted

def settle (lanes : PyDict String Lane) (taskId : String) : PyDict String Lane :=
  if (lanes.get? taskId).isSome then lanes
  else lanes.set taskId (derived (b.parents py taskId) lanes.get?)

/-- `lane_by_task`, with the ids visited in this order. -/
def lanes (order : List String) : PyDict String Lane :=
  order.foldl (b.settle py) (b.evidence py)

/-- The set of ids can be visited in this order. -/
def Visits (order : List String) : Prop := order.Nodup ∧ ∀ id, id ∈ order ↔ id ∈ b.taskIds py

def Unstarted (taskId : String) : Prop := (b.evidence py).get? taskId = none

/-- `a` is above the task, with unstarted tasks only between them. -/
inductive Above (a : String) : String → Prop
  | parent {taskId : String} (h : a ∈ b.parents py taskId) : Above a taskId
  | step {p taskId : String} (ha : Above a p) (hp : b.Unstarted py p)
      (h : p ∈ b.parents py taskId) : Above a taskId

/-- The lanes are a function of the run. -/
structure Functional : Prop where
  same : ∀ tasks', tasks'.Perm b.tasks → ∀ order order', b.Visits py order → b.Visits py order' →
    ∀ id, ({ b with tasks := tasks' }.lanes py order').get? id = (b.lanes py order).get? id
  ready : ∀ order, b.Visits py order → ∀ id ∈ b.taskIds py, b.Unstarted py id →
    ((b.lanes py order).get? id = some .ready ↔
      b.parents py id ≠ [] ∧ ∀ p ∈ b.parents py id, (b.lanes py order).get? p = some .done)
  blocked : ∀ order, b.Visits py order → ∀ id ∈ b.taskIds py, b.Unstarted py id →
    ((b.lanes py order).get? id = some .blocked ↔
      ∃ a, b.Above py a id ∧ Bad ((b.lanes py order).get? a))

/-- A parent is blocked or has failed, as its own evidence shows. -/
def Held (taskId : String) : Prop := ∃ p ∈ b.parents py taskId, Bad ((b.evidence py).get? p)

/-- Entries of one id agree, and unstarted tasks below a held one are held themselves. -/
structure Plain : Prop where
  agree : ∀ r ∈ b.rows py, ∀ r' ∈ b.rows py, r.1 = r'.1 → ∀ lane lane',
    b.evidenceLane py r = some lane → b.evidenceLane py r' = some lane' → lane = lane'
  direct : ∀ id ∈ b.taskIds py, b.Unstarted py id → ∀ p ∈ b.parents py id, b.Unstarted py p →
    b.Held py p → b.Held py id

/-! ## Derived lanes -/

variable {py b} {id : String} {ps : List String} {f g : String → Option Lane}

theorem derived_eq_ready_iff : derived ps f = .ready ↔ ps ≠ [] ∧ ∀ p ∈ ps, f p = some .done := by
  unfold derived
  split_ifs with hready
  · exact iff_of_true rfl hready
  · exact iff_of_false nofun hready
  · exact iff_of_false nofun hready

theorem derived_eq_blocked_iff : derived ps f = .blocked ↔ ∃ p ∈ ps, Bad (f p) := by
  unfold derived
  split_ifs with hready hbad
  · refine iff_of_false (by simp) ?_
    rintro ⟨p, hp, hbad⟩
    rw [hready.2 p hp] at hbad
    simp [Bad] at hbad
  · simp [hbad]
  · simp [hbad]

theorem derived_cases (ps : List String) (f : String → Option Lane) :
    derived ps f = .ready ∨ derived ps f = .blocked ∨ derived ps f = .notStarted := by
  unfold derived
  split_ifs <;> simp

theorem derived_congr (hdone : ∀ p ∈ ps, f p = some .done ↔ g p = some .done)
    (hbad : (∃ p ∈ ps, Bad (f p)) ↔ ∃ p ∈ ps, Bad (g p)) : derived ps f = derived ps g := by
  have hall : (∀ p ∈ ps, f p = some .done) ↔ ∀ p ∈ ps, g p = some .done :=
    forall₂_congr hdone
  unfold derived
  simp only [hall, hbad]

theorem mem_ids_of_mem_parents {p : String} (h : p ∈ b.parents py id) :
    p ∈ b.taskIds py ∧ id ∈ b.taskIds py := by
  obtain ⟨relation, -, hrelation⟩ := List.mem_filterMap.mp (List.mem_eraseDups.mp h)
  obtain ⟨fields, -, hfields⟩ := Option.bind_eq_some_iff.mp hrelation
  dsimp only at hfields
  split_ifs at hfields with hids
  obtain rfl := Option.some.inj hfields
  exact ⟨hids.2.1, hids.1 ▸ hids.2.2⟩

/-! ## Evidence -/

theorem get?_note (lanes : PyDict String Lane) (row : String × String) (id : String) :
    (b.note py lanes row).get? id =
      if row.1 = id then (b.evidenceLane py row).or (lanes.get? id) else lanes.get? id := by
  unfold note
  cases b.evidenceLane py row with
  | none => simp
  | some lane =>
    split_ifs with hid
    · rw [← hid, PyDict.get?_set_self, Option.some_or]
    · exact PyDict.get?_set_of_ne _ _ (Ne.symm hid)

variable {lane : Lane}

theorem exists_of_evidence {rows : List (String × String)}
    (h : (rows.foldl (b.note py) []).get? id = some lane) :
    ∃ r ∈ rows, r.1 = id ∧ b.evidenceLane py r = some lane := by
  induction rows using List.reverseRecOn with
  | nil => cases h
  | append_singleton rows r ih =>
    rw [List.foldl_append, List.foldl_cons, List.foldl_nil, get?_note] at h
    split_ifs at h with hid
    · rcases Option.or_eq_some_iff.mp h with hr | ⟨-, h⟩
      · exact ⟨r, List.mem_append_right _ (List.mem_singleton_self r), hid, hr⟩
      · obtain ⟨r', hr', hrest⟩ := ih h
        exact ⟨r', List.mem_append_left _ hr', hrest⟩
    · obtain ⟨r', hr', hrest⟩ := ih h
      exact ⟨r', List.mem_append_left _ hr', hrest⟩

variable {r : String × String}

theorem evidence_isSome {rows : List (String × String)}
    (hr : r ∈ rows) (hlane : b.evidenceLane py r = some lane) :
    ((rows.foldl (b.note py) []).get? r.1).isSome := by
  induction rows using List.reverseRecOn with
  | nil => cases hr
  | append_singleton rows r' ih =>
    rw [List.foldl_append, List.foldl_cons, List.foldl_nil, get?_note]
    rcases List.mem_append.mp hr with hr | hr
    · split_ifs
      · rw [Option.isSome_or, ih hr, Bool.or_true]
      · exact ih hr
    · rw [← List.mem_singleton.mp hr, if_pos rfl, hlane, Option.some_or]
      rfl

theorem Plain.evidence_eq (h : b.Plain py) {rows : List (String × String)}
    (hrows : rows.Perm (b.rows py)) (id : String) :
    (rows.foldl (b.note py) []).get? id = (b.evidence py).get? id := by
  have hto : ∀ {rows rows' : List (String × String)}, rows.Perm (b.rows py) →
      rows'.Perm (b.rows py) → ∀ lane, (rows.foldl (b.note py) []).get? id = some lane →
        (rows'.foldl (b.note py) []).get? id = some lane := by
    intro rows rows' hrows hrows' lane hlane
    obtain ⟨r, hr, rfl, hrlane⟩ := exists_of_evidence hlane
    have hr' := hrows'.mem_iff.mpr (hrows.mem_iff.mp hr)
    obtain ⟨lane', hlane'⟩ := Option.isSome_iff_exists.mp (evidence_isSome hr' hrlane)
    obtain ⟨r', hmem, hid, hr'lane⟩ := exists_of_evidence hlane'
    rw [hlane', h.agree r (hrows.mem_iff.mp hr) r' (hrows'.mem_iff.mp hmem) hid.symm lane lane'
      hrlane hr'lane]
  exact Option.ext fun lane => ⟨hto hrows (.refl _) lane, hto (.refl _) hrows lane⟩

/-! ## Visits -/

theorem settle_of_none {lanes : PyDict String Lane} (h : lanes.get? id = none) :
    b.settle py lanes id = lanes.set id (derived (b.parents py id) lanes.get?) := by
  rw [settle, h]
  rfl

theorem get?_settle_of_some {lanes : PyDict String Lane} (taskId : String)
    (h : lanes.get? id = some lane) : (b.settle py lanes taskId).get? id = some lane := by
  unfold settle
  split_ifs with hset
  · exact h
  · rw [PyDict.get?_set_of_ne, h]
    rintro rfl
    exact hset (Option.isSome_of_eq_some h)

theorem get?_visit_of_some (order : List String) {lanes : PyDict String Lane}
    (h : lanes.get? id = some lane) : (order.foldl (b.settle py) lanes).get? id = some lane := by
  induction order generalizing lanes with
  | nil => exact h
  | cons taskId order ih => exact ih (get?_settle_of_some taskId h)

/-- The lane of a task that is told by the evidence alone. -/
def settled (py : Python) (b : Board) (id : String) : Lane :=
  derived (b.parents py id) (b.evidence py).get?

variable {order : List String}

theorem or_settled_eq_done_iff :
    ((b.evidence py).get? id).or (if id ∈ order then some (b.settled py id) else none) =
      some .done ↔ (b.evidence py).get? id = some .done := by
  cases (b.evidence py).get? id with
  | some lane => rw [Option.some_or]
  | none =>
    rcases derived_cases (b.parents py id) (b.evidence py).get? with h | h | h <;>
      simp [settled, h]

theorem bad_settled
    (h : Bad (if id ∈ order then some (b.settled py id) else none)) : b.Held py id := by
  rcases derived_cases (b.parents py id) (b.evidence py).get? with hlane | hlane | hlane
  · simp [Bad, settled, hlane] at h
  · exact derived_eq_blocked_iff.mp hlane
  · simp [Bad, settled, hlane] at h

theorem Plain.visit (h : b.Plain py) (order : List String) :
    ∀ id, (b.lanes py order).get? id = ((b.evidence py).get? id).or
      (if id ∈ order then some (b.settled py id) else none) := by
  induction order using List.reverseRecOn with
  | nil => simp [lanes]
  | append_singleton order taskId ih =>
    have hderived : Unstarted py b taskId → derived (b.parents py taskId)
        (b.lanes py order).get? = b.settled py taskId := by
      intro hunstarted
      refine derived_congr (fun p _ => ?_) ⟨?_, ?_⟩
      · rw [ih p, or_settled_eq_done_iff]
      · rintro ⟨p, hp, hbad⟩
        rw [ih p] at hbad
        cases he : (b.evidence py).get? p with
        | some lane => exact ⟨p, hp, by rwa [he] at hbad ⊢⟩
        | none =>
          rw [he, Option.none_or] at hbad
          refine h.direct taskId (mem_ids_of_mem_parents hp).2 hunstarted p hp he ?_
          exact bad_settled hbad
      · rintro ⟨p, hp, hbad⟩
        refine ⟨p, hp, ?_⟩
        rw [ih p]
        rcases hbad with he | he <;> rw [he] <;> simp [Bad]
    intro id
    rw [lanes, List.foldl_append, List.foldl_cons, List.foldl_nil]
    show (b.settle py (b.lanes py order) taskId).get? id = _
    have htask := ih taskId
    unfold settle
    by_cases hset : ((b.lanes py order).get? taskId).isSome
    · rw [if_pos hset, ih id]
      by_cases hid : id = taskId
      · subst hid
        cases he : (b.evidence py).get? id with
        | some lane => rfl
        | none =>
          rw [htask, he, Option.none_or] at hset
          have hmem : id ∈ order := by
            by_contra hmem
            rw [if_neg hmem] at hset
            cases hset
          simp [hmem]
      · simp [hid]
    · rw [if_neg hset]
      by_cases hid : id = taskId
      · subst hid
        have hnone : (b.evidence py).get? id = none := by
          cases he : (b.evidence py).get? id with
          | none => rfl
          | some lane => exact absurd (by rw [htask, he]; rfl) hset
        rw [PyDict.get?_set_self, hderived hnone, hnone]
        simp
      · rw [PyDict.get?_set_of_ne _ _ hid, ih id]
        simp [hid]

/-! ## The order of the entries -/

variable {tasks : List Json}

theorem rows_perm (hperm : tasks.Perm b.tasks) :
    (rows py { b with tasks }).Perm (b.rows py) := hperm.filterMap _

theorem mem_ids_perm (hperm : tasks.Perm b.tasks) :
    id ∈ taskIds py { b with tasks } ↔ id ∈ b.taskIds py :=
  ((rows_perm hperm).map Prod.fst).mem_iff

theorem parents_perm (hperm : tasks.Perm b.tasks) : parents py { b with tasks } = b.parents py := by
  funext id
  unfold parents
  simp only [mem_ids_perm hperm]

theorem Plain.get?_perm (h : b.Plain py) (hperm : tasks.Perm b.tasks) :
    (evidence py { b with tasks }).get? = (b.evidence py).get? :=
  funext (h.evidence_eq (rows_perm hperm))

theorem Plain.perm (h : b.Plain py) (hperm : tasks.Perm b.tasks) : Plain py { b with tasks } where
  agree r hr r' hr' := h.agree r ((rows_perm hperm).mem_iff.mp hr) r'
    ((rows_perm hperm).mem_iff.mp hr')
  direct id hid := by
    unfold Unstarted Held
    rw [h.get?_perm hperm, parents_perm hperm]
    exact h.direct id ((mem_ids_perm hperm).mp hid)

theorem Plain.held_of_above (h : b.Plain py) {a : String}
    (hbad : Bad ((b.lanes py order).get? a)) (ha : b.Above py a id) (hid : b.Unstarted py id) :
    b.Held py id := by
  induction ha with
  | @parent id hparent =>
    rw [h.visit order a] at hbad
    cases he : (b.evidence py).get? a with
    | some lane => exact ⟨a, hparent, by rwa [he] at hbad ⊢⟩
    | none =>
      rw [he, Option.none_or] at hbad
      exact h.direct id (mem_ids_of_mem_parents hparent).2 hid a hparent he (bad_settled hbad)
  | @step p id _ hp hparent ih =>
    exact h.direct id (mem_ids_of_mem_parents hparent).2 hid p hparent hp (ih hp)

theorem Plain.functional (h : b.Plain py) : b.Functional py where
  same tasks hperm order order' hvisits hvisits' id := by
    have hmem : id ∈ order' ↔ id ∈ order := (hvisits'.2 id).trans (hvisits.2 id).symm
    rw [(h.perm hperm).visit order' id, h.visit order id, h.get?_perm hperm, settled, settled,
      h.get?_perm hperm, parents_perm hperm]
    simp only [hmem]
  ready order hvisits id hid hunstarted := by
    rw [h.visit order id, hunstarted, Option.none_or, if_pos ((hvisits.2 id).mpr hid),
      Option.some_inj, settled, derived_eq_ready_iff]
    refine and_congr_right fun _ => forall₂_congr fun p _ => ?_
    rw [h.visit order p, or_settled_eq_done_iff]
  blocked order hvisits id hid hunstarted := by
    rw [h.visit order id, hunstarted, Option.none_or, if_pos ((hvisits.2 id).mpr hid),
      Option.some_inj, settled, derived_eq_blocked_iff]
    constructor
    · rintro ⟨p, hp, hbad⟩
      refine ⟨p, .parent hp, ?_⟩
      rw [h.visit order p]
      rcases hbad with he | he <;> rw [he] <;> simp [Bad]
    · rintro ⟨a, ha, hbad⟩
      exact h.held_of_above hbad ha hunstarted

/-! ## The other way round -/

/-- An entry that comes last has its way. -/
theorem exists_perm_of_evidence (hr : r ∈ b.rows py)
    (hlane : b.evidenceLane py r = some lane) : ∃ tasks : List Json, tasks.Perm b.tasks ∧
      ∀ order, (lanes py { b with tasks } order).get? r.1 = some lane := by
  obtain ⟨task, htask, hrow⟩ := List.mem_filterMap.mp hr
  obtain ⟨front, back, hsplit⟩ := List.append_of_mem htask
  refine ⟨front ++ back ++ [task], ?_, fun order => get?_visit_of_some order ?_⟩
  · rw [hsplit]
    exact (List.perm_append_singleton ..).trans List.perm_middle.symm
  · have hrows : rows py { b with tasks := front ++ back ++ [task] } =
        (front ++ back).filterMap py.taskRow? ++ [r] := by
      rw [rows, List.filterMap_append, List.filterMap_cons, hrow]
      rfl
    rw [evidence, hrows, List.foldl_append, List.foldl_cons, List.foldl_nil, get?_note, if_pos rfl]
    exact Option.or_of_isSome (Option.isSome_of_eq_some hlane) |>.trans hlane

theorem Functional.plain (h : b.Functional py) : b.Plain py where
  agree r hr r' hr' hid lane lane' hlane hlane' := by
    obtain ⟨tasks, hperm, hlast⟩ := exists_perm_of_evidence hr hlane
    obtain ⟨tasks', hperm', hlast'⟩ := exists_perm_of_evidence hr' hlane'
    have hvisits : b.Visits py (b.taskIds py).dedup :=
      ⟨List.nodup_dedup _, fun id => List.mem_dedup⟩
    have hfirst := h.same tasks hperm _ _ hvisits hvisits r.1
    have hsecond := h.same tasks' hperm' _ _ hvisits hvisits r'.1
    rw [hlast] at hfirst
    rw [hlast', ← hid, ← hfirst] at hsecond
    exact (Option.some.inj hsecond).symm
  direct id hid hunstarted p hp hparent hheld := by
    by_contra hfree
    have hne : id ≠ p := fun heq => hfree (heq ▸ hheld)
    obtain ⟨rest, hvisits⟩ : ∃ rest, b.Visits py (p :: id :: rest) := by
      refine ⟨(b.taskIds py).dedup.filter fun x => x ≠ p ∧ x ≠ id, ?_, fun x => ?_⟩
      · have hnodup := (List.nodup_dedup (b.taskIds py)).filter fun x => decide (x ≠ p ∧ x ≠ id)
        exact List.nodup_cons.mpr ⟨by simp [hne.symm], List.nodup_cons.mpr ⟨by simp, hnodup⟩⟩
      · have hpid := (mem_ids_of_mem_parents hp).1
        by_cases hxp : x = p
        · simp [hxp, hpid]
        · by_cases hxid : x = id <;> simp [hxp, hxid, hid]
    have hvisits' : b.Visits py (id :: p :: rest) :=
      ⟨(List.Perm.swap ..).nodup_iff.mp hvisits.1,
        fun x => (List.Perm.swap ..).mem_iff.trans (hvisits.2 x)⟩
    have hheldLane : derived (b.parents py p) (b.evidence py).get? = .blocked :=
      derived_eq_blocked_iff.mpr hheld
    have hblocked : (b.lanes py (p :: id :: rest)).get? id = some .blocked := by
      refine get?_visit_of_some rest ?_
      have hnone : ((b.evidence py).set p .blocked).get? id = none := by
        rw [PyDict.get?_set_of_ne _ _ hne, hunstarted]
      rw [settle_of_none hparent, hheldLane, settle_of_none hnone, PyDict.get?_set_self,
        derived_eq_blocked_iff.mpr ⟨p, hp, .inl (PyDict.get?_set_self _ _ _)⟩]
    have hnotStarted : (b.lanes py (id :: p :: rest)).get? id = some .notStarted := by
      refine get?_visit_of_some rest (get?_settle_of_some p ?_)
      rw [settle_of_none hunstarted, PyDict.get?_set_self]
      rcases derived_cases (b.parents py id) (b.evidence py).get? with hlane | hlane | hlane
      · have hdone := (derived_eq_ready_iff.mp hlane).2 p hp
        rw [hparent] at hdone
        cases hdone
      · exact absurd (derived_eq_blocked_iff.mp hlane) hfree
      · rw [hlane]
    have hsame := h.same b.tasks (.refl _) _ _ hvisits hvisits' id
    rw [hblocked, hnotStarted] at hsame
    cases hsame

theorem functional_iff (py : Python) (b : Board) : b.Functional py ↔ b.Plain py :=
  ⟨Functional.plain, Plain.functional⟩

/-- Texts stand for themselves. -/
def plain : Python where
  str v := match v with
    | .str s => s
    | _ => ""
  casefold s := s

/-- A chain of three tasks, of which the first has failed. -/
def chain : Board where
  run := []
  events := []
  waits := []
  tasks := [.obj [("id", .str "a"), ("status", .str "failed")], .obj [("id", .str "b")],
    .obj [("id", .str "c")]]
  relations := [.obj [("from", .str "a"), ("to", .str "b")],
    .obj [("from", .str "b"), ("to", .str "c")]]

theorem not_functional_chain : ¬ chain.Functional plain := by
  intro h
  have hids : chain.taskIds plain = ["a", "b", "c"] := rfl
  have hvisits : chain.Visits plain ["a", "b", "c"] := ⟨by decide, fun _ => by rw [hids]⟩
  have hvisits' : chain.Visits plain ["a", "c", "b"] :=
    ⟨by decide, fun _ => by rw [hids]; exact ((List.Perm.swap ..).cons _).mem_iff⟩
  have hsame := h.same chain.tasks (.refl _) _ _ hvisits hvisits' "c"
  have hblocked : (chain.lanes plain ["a", "b", "c"]).get? "c" = some .blocked := rfl
  have hnotStarted : (chain.lanes plain ["a", "c", "b"]).get? "c" = some .notStarted := rfl
  exact absurd (hnotStarted.symm.trans (hsame.trans hblocked)) (by decide)

end Board

end PawFlow.Kanban
