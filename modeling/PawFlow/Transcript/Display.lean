import PawFlow.Segments.Row

/-!
# Display rows and their traces

A transcript (`core/_conversation_store_transcript.py`) has display rows, which have a role, and
trace updates, which are appended later and belong to the last anchor of their trace before them.
`_compose_display_traces` merges the one into the other in one pass. What it makes of a row depends
on the rows after it only, and of those on the updates of its own trace: this is `displayed`, and
the pass computes it where no update comes before its anchor.

Trace ids are texts, as the two writers of trace rows have them.
-/

namespace PawFlow.Transcript

open PawFlow.Lib

abbrev Row := Segments.Row

namespace Row

variable (row : Row)

/-- `_is_trace_update_row`. -/
def isTraceUpdate : Bool := (row.get? "t").any (Json.isStr "trace_update")

def hasRole : Bool := Segments.Row.hasRole row

/-- The row is one of those that are shown. -/
def isDisplay : Bool := !isTraceUpdate row && hasRole row

/-- `row.get("role") == role`. -/
def roleIs (role : String) : Bool := (row.get? "role").any (Json.isStr role)

/-- `row.get("trace_id") or ""`. -/
def traceId : String :=
  match row.get? "trace_id" with
  | some (.str id) => id
  | _ => ""

/-- `row.get(key) or default`. -/
def getOr (key : String) (default : Json) : Json :=
  match row.get? key with
  | some v => if v.truthy then v else default
  | none => default

def trace? : Option String := if traceId row = "" then none else some (traceId row)

def updated? : Option String := if isTraceUpdate row then trace? row else none

def anchored? : Option String :=
  if isDisplay row && roleIs row "sub_agent_trace" then trace? row else none

end Row

/-! ## The pass over the rows -/

/-- `list(value)`; `none` where Python raises. -/
def pyList : Json → Option (List Json)
  | .arr items => some items
  | .obj items => some (items.map fun i => .str i.1)
  | .str s => some (s.toList.map fun c => .str (.singleton c))
  | _ => none

/-- `value + other` of texts and of lists; `none` where Python raises. -/
def pyAdd : Json → Json → Option Json
  | .str s, .str t => some (.str (s ++ t))
  | .arr xs, .arr ys => some (.arr (xs ++ ys))
  | _, _ => none

/-- The `entry` of an update goes to the end of the trace. -/
def addEntry (anchor : Row) (entry : Json) : Option Row :=
  if entry.truthy then
    (pyList (Row.getOr anchor "trace" (.arr []))).map fun trace =>
      anchor.set "trace" (.arr (trace ++ [entry]))
  else some anchor

/-- The `content_update` goes to the end of the content. -/
def addContent (anchor : Row) (contentUpdate : Json) : Option Row :=
  if contentUpdate.truthy then
    (pyAdd (Row.getOr anchor "content" (.str "")) contentUpdate).map fun content =>
      anchor.set "content" content
  else some anchor

def applyTraceUpdate (anchor update : Row) : Option Row := do
  let anchor ← addEntry anchor (Row.getOr update "entry" (.obj []))
  addContent anchor (Row.getOr update "content_update" (.str ""))

/-- Several updates in turn. -/
def applyAll (anchor : Row) (updates : List Row) : Option Row :=
  updates.foldlM applyTraceUpdate anchor

/-- The state of `_compose_display_traces`; `anchors` has the places of the anchors in `out`. -/
structure Composing where
  out : List Row := []
  anchors : PyDict String Nat := []
  pending : PyDict String (List Row) := []

/-- One row of `_compose_display_traces`. -/
def composeRow (c : Composing) (row : Row) : Option Composing :=
  let trace := Row.traceId row
  if Row.isTraceUpdate row then
    if trace = "" then some c
    else
      match c.anchors.get? trace with
      | some place => do
        let anchor ← c.out[place]?
        let anchor ← applyTraceUpdate anchor row
        some { c with out := c.out.set place anchor }
      | none =>
        some { c with pending := c.pending.set trace ((c.pending.get? trace).getD [] ++ [row]) }
  else if !Row.hasRole row then some c
  else if Row.roleIs row "sub_agent_trace" ∧ trace ≠ "" then do
    let msg ← applyAll row ((c.pending.get? trace).getD [])
    some {
      out := c.out ++ [msg]
      anchors := c.anchors.set trace c.out.length
      pending := c.pending.erase trace }
  else some { c with out := c.out ++ [row] }

/-- `_compose_display_traces`; `none` where an update does not fit its anchor (`TypeError`). -/
def composeDisplayTraces (rows : List Row) : Option (List Row) :=
  (rows.foldlM composeRow {}).map Composing.out

/-! ## What is displayed -/

/-- The updates of a trace, up to its next anchor. -/
def ownUpdates (trace : String) : List Row → List Row
  | [] => []
  | row :: rows =>
    if Row.updated? row = some trace then row :: ownUpdates trace rows
    else if Row.anchored? row = some trace then []
    else ownUpdates trace rows

/-- A display row with what the rows after it add. -/
def message (row : Row) (later : List Row) : Option Row :=
  match Row.anchored? row with
  | some trace => applyAll row (ownUpdates trace later)
  | none => some row

/-- The messages of rows that others follow. -/
def displayedBefore (later : List Row) : List Row → Option (List Row)
  | [] => some []
  | row :: rows =>
    if Row.isDisplay row then do
      let msg ← message row (rows ++ later)
      let msgs ← displayedBefore later rows
      some (msg :: msgs)
    else displayedBefore later rows

/-- The messages of a transcript. -/
def displayed (rows : List Row) : Option (List Row) := displayedBefore [] rows

def UpdatesFollow (rows : List Row) : Prop :=
  ∀ before row after trace, rows = before ++ row :: after → Row.updated? row = some trace →
    (∃ a ∈ after, Row.anchored? a = some trace) → ∃ a ∈ before, Row.anchored? a = some trace

/-! ### Rows that are shown -/

variable {trace : String} {keep : Row → Bool}

theorem Row.anchored?_of_updated? {row : Row}
    (h : Row.updated? row = some trace) : Row.anchored? row = none := by
  have hupdate : Row.isTraceUpdate row := by
    unfold Row.updated? at h
    split at h
    · assumption
    · cases h
  simp [Row.anchored?, Row.isDisplay, hupdate]

theorem Row.anchored?_of_not_display {row : Row} (h : Row.isDisplay row = false) :
    Row.anchored? row = none := by
  simp [Row.anchored?, h]

theorem ownUpdates_append (trace : String) (rows later : List Row) :
    ownUpdates trace (rows ++ later) =
      if ∃ a ∈ rows, Row.anchored? a = some trace then ownUpdates trace rows
      else ownUpdates trace rows ++ ownUpdates trace later := by
  induction rows with
  | nil => simp [ownUpdates]
  | cons row rows ih =>
    rw [List.cons_append, ownUpdates, ownUpdates, ih]
    by_cases hupdate : Row.updated? row = some trace
    · have hnot := Row.anchored?_of_updated? hupdate
      simp only [hupdate, if_true, List.exists_mem_cons_iff, hnot, reduceCtorEq, false_or]
      split <;> simp
    · by_cases hanchor : Row.anchored? row = some trace
      · simp [hupdate, hanchor]
      · simp [hupdate, hanchor]

theorem displayedBefore_congr {later later' : List Row}
    (h : ∀ trace, ownUpdates trace later = ownUpdates trace later')
    (rows : List Row) : displayedBefore later rows = displayedBefore later' rows := by
  have hmessage : ∀ row rows, message row (rows ++ later) = message row (rows ++ later') := by
    intro row rows
    unfold message
    split
    · rw [ownUpdates_append, ownUpdates_append, h]
    · rfl
  induction rows with
  | nil => rfl
  | cons row rows ih => rw [displayedBefore, displayedBefore, hmessage, ih]

theorem displayedBefore_append (later rows rows' : List Row) :
    displayedBefore later (rows ++ rows') = (do
      let msgs ← displayedBefore (rows' ++ later) rows
      let msgs' ← displayedBefore later rows'
      some (msgs ++ msgs')) := by
  induction rows with
  | nil => simp [displayedBefore]
  | cons row rows ih =>
    rw [List.cons_append, displayedBefore, displayedBefore, ih, List.append_assoc]
    split
    · simp [Option.bind_assoc]
    · rfl

theorem ownUpdates_filter
    (hkeep : ∀ row, Row.isTraceUpdate row || Row.isDisplay row → keep row) (rows : List Row) :
    ownUpdates trace (rows.filter keep) = ownUpdates trace rows := by
  induction rows with
  | nil => rfl
  | cons row rows ih =>
    rw [List.filter_cons, ownUpdates]
    cases hrow : keep row with
    | true => rw [if_pos rfl, ownUpdates, ih]
    | false =>
      have hother : ¬ (Row.isTraceUpdate row || Row.isDisplay row) := fun h => by
        simp [hkeep row h] at hrow
      rw [Bool.or_eq_true, not_or] at hother
      have hu : Row.updated? row = none := by simp [Row.updated?, hother.1]
      have ha : Row.anchored? row = none := by simp [Row.anchored?, hother.2]
      simp [hu, ha, ih]

theorem exists_anchor_filter
    (hkeep : ∀ row, Row.isTraceUpdate row || Row.isDisplay row → keep row) (rows : List Row) :
    (∃ a ∈ rows.filter keep, Row.anchored? a = some trace) ↔
      ∃ a ∈ rows, Row.anchored? a = some trace := by
  refine exists_congr fun a => and_congr_left fun ha => ?_
  rw [List.mem_filter, and_iff_left_iff_imp]
  intro _
  cases hd : Row.isDisplay a with
  | true => exact hkeep a (by simp [hd])
  | false => simp [Row.anchored?_of_not_display hd] at ha

theorem displayedBefore_filter
    (hkeep : ∀ row, Row.isTraceUpdate row || Row.isDisplay row → keep row) (later rows : List Row) :
    displayedBefore later (rows.filter keep) = displayedBefore later rows := by
  induction rows with
  | nil => rfl
  | cons row rows ih =>
    have hmessage : message row (rows.filter keep ++ later) = message row (rows ++ later) := by
      unfold message
      split
      · rw [ownUpdates_append, ownUpdates_append, ownUpdates_filter hkeep]
        simp only [exists_anchor_filter hkeep]
      · rfl
    rw [List.filter_cons, displayedBefore]
    cases hrow : keep row with
    | true => rw [if_pos rfl, displayedBefore, hmessage, ih]
    | false =>
      have hnot : Row.isDisplay row = false := by
        cases hd : Row.isDisplay row with
        | false => rfl
        | true => simp [hkeep row (by simp [hd])] at hrow
      simpa [hnot] using ih

theorem displayedBefore_eq_nil {rows : List Row} (h : ∀ row ∈ rows, Row.isDisplay row = false)
    (later : List Row) : displayedBefore later rows = some [] := by
  induction rows with
  | nil => rfl
  | cons row rows ih =>
    rw [displayedBefore, h row (List.mem_cons_self ..)]
    exact ih fun r hr => h r (List.mem_cons_of_mem _ hr)

end PawFlow.Transcript
