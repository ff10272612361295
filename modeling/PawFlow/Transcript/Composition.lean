import PawFlow.Transcript.Display

/-!
# The pass over the rows computes what is displayed

The pass keeps, for the messages made so far, which of them is the last anchor of which trace.
Those are marked here, a message with the trace whose later updates it gets.
-/

namespace PawFlow.Transcript

open PawFlow.Lib

/-- A message, and the trace of which it is the last anchor so far. -/
abbrev Cell := Row × Option String

/-- The messages with what is still to come for their traces. -/
def finish (pending : String → List Row) (cells : List Cell) : Option (List Row) :=
  cells.mapM fun cell => applyAll cell.1 (cell.2.elim [] pending)

/-- The marks are those that the pass remembers. -/
structure Marks (c : Composing) (cells : List Cell) : Prop where
  out : c.out = cells.map Prod.fst
  anchors : ∀ trace place, c.anchors.get? trace = some place ↔
    ∃ row, cells[place]? = some (row, some trace)

theorem Marks.empty : Marks {} [] := ⟨rfl, by simp [PyDict.get?]⟩

/-! ## The marked messages -/

theorem finish_cons (pending : String → List Row) (cell : Cell) (cells : List Cell) :
    finish pending (cell :: cells) = (do
      let msg ← applyAll cell.1 (cell.2.elim [] pending)
      let msgs ← finish pending cells
      some (msg :: msgs)) := by
  rw [finish, List.mapM_cons]
  rfl

theorem finish_append (pending : String → List Row) (cells cells' : List Cell) :
    finish pending (cells ++ cells') = (do
      let msgs ← finish pending cells
      let msgs' ← finish pending cells'
      some (msgs ++ msgs')) := by
  rw [finish, List.mapM_append]
  rfl

theorem finish_congr {pending pending' : String → List Row} {cells : List Cell}
    (h : ∀ cell ∈ cells, ∀ trace, cell.2 = some trace → pending trace = pending' trace) :
    finish pending cells = finish pending' cells := by
  induction cells with
  | nil => rfl
  | cons cell cells ih =>
    have hcell : cell.2.elim [] pending = cell.2.elim [] pending' := by
      cases htag : cell.2 with
      | none => rfl
      | some trace => exact h cell (List.mem_cons_self ..) trace htag
    rw [finish_cons, finish_cons, hcell, ih fun c hc => h c (List.mem_cons_of_mem _ hc)]

theorem finish_nil (cells : List Cell) : finish (fun _ => []) cells = some (cells.map Prod.fst) := by
  induction cells with
  | nil => rfl
  | cons cell cells ih =>
    have hnone : cell.2.elim [] (fun _ => []) = ([] : List Row) := by
      cases cell.2 <;> rfl
    rw [finish_cons, ih, hnone]
    rfl

variable {cells : List Cell} {trace : String} {row : Row} {c : Composing}

variable {place : Nat}

variable {pending' : String → List Row} {rows : List Row}

/-- An update that comes now is the first of those still to come for its anchor. -/
theorem finish_set {pending : String → List Row}
    {anchor update : Row} (hcell : cells[place]? = some (anchor, some trace))
    (honly : ∀ place' row, cells[place']? = some (row, some trace) → place' = place)
    (hown : pending trace = update :: pending' trace)
    (hother : ∀ trace', trace' ≠ trace → pending trace' = pending' trace') :
    finish pending cells = (do
      let anchor ← applyTraceUpdate anchor update
      finish pending' (cells.set place (anchor, some trace))) := by
  induction cells generalizing place with
  | nil => simp at hcell
  | cons cell cells ih =>
    cases place with
    | zero =>
      obtain rfl : cell = (anchor, some trace) := by simpa using hcell
      have hrest : finish pending cells = finish pending' cells := by
        refine finish_congr fun c hc trace' htag => hother trace' ?_
        rintro rfl
        obtain ⟨place', hplace'⟩ := List.mem_iff_getElem?.mp hc
        have := honly (place' + 1) c.1 (by
          rw [List.getElem?_cons_succ, hplace', ← htag])
        omega
      rw [finish_cons, hrest]
      simp only [Option.elim_some, hown, applyAll, List.foldlM_cons, List.set_cons_zero,
        finish_cons, Option.bind_eq_bind, Option.bind_assoc]
    | succ place =>
      have hhead : cell.2.elim [] pending = cell.2.elim [] pending' := by
        cases htag : cell.2 with
        | none => rfl
        | some trace' =>
          refine hother trace' ?_
          rintro rfl
          have := honly 0 cell.1 (by rw [List.getElem?_cons_zero, ← htag])
          omega
      have hcell' : cells[place]? = some (anchor, some trace) := by simpa using hcell
      have hih := ih hcell' fun place' row hrow => by
        have := honly (place' + 1) row (by simpa using hrow)
        omega
      rw [finish_cons, hih, hhead]
      simp only [List.set_cons_succ, finish_cons, Option.bind_eq_bind, Option.bind_assoc]
      cases applyTraceUpdate anchor update with
      | none => cases applyAll cell.1 (cell.2.elim [] pending') <;> rfl
      | some anchor => rfl

/-- The messages with a mark taken off. -/
def unmark (trace : String) (cells : List Cell) : List Cell :=
  cells.map fun cell => (cell.1, if cell.2 = some trace then none else cell.2)

theorem unmark_getElem? {trace' : String} :
    (unmark trace cells)[place]? = some (row, some trace') ↔
      cells[place]? = some (row, some trace') ∧ trace' ≠ trace := by
  rw [unmark, List.getElem?_map, Option.map_eq_some_iff]
  constructor
  · rintro ⟨cell, hcell, heq⟩
    obtain ⟨row', tag⟩ := cell
    rw [Prod.mk.injEq] at heq
    obtain ⟨rfl, htag⟩ := heq
    split at htag
    · cases htag
    · next hne =>
      obtain rfl : tag = some trace' := htag
      exact ⟨hcell, fun h => hne (congrArg some h)⟩
  · rintro ⟨hcell, hne⟩
    exact ⟨_, hcell, by simp [hne]⟩

theorem finish_unmark {pending : String → List Row} (hnone : pending trace = [])
    (hother : ∀ trace', trace' ≠ trace → pending trace' = pending' trace') :
    finish pending cells = finish pending' (unmark trace cells) := by
  induction cells with
  | nil => rfl
  | cons cell cells ih =>
    have hcell : cell.2.elim [] pending =
        (if cell.2 = some trace then none else cell.2).elim [] pending' := by
      cases htag : cell.2 with
      | none => simp
      | some trace' =>
        by_cases heq : trace' = trace
        · subst heq
          simp [hnone]
        · simp [heq, hother trace' heq]
    rw [finish_cons, ih, hcell, unmark, unmark, List.map_cons, finish_cons]

/-! ## One row -/

theorem ownUpdates_cons (row : Row) (rows : List Row) (trace : String) :
    ownUpdates trace (row :: rows) =
      if Row.updated? row = some trace then row :: ownUpdates trace rows
      else if Row.anchored? row = some trace then [] else ownUpdates trace rows := rfl

theorem getElem?_concat {α : Type*} {l : List α} {a b : α} {i : Nat} :
    (l ++ [a])[i]? = some b ↔ l[i]? = some b ∨ i = l.length ∧ a = b := by
  rcases Nat.lt_trichotomy i l.length with hi | hi | hi
  · rw [List.getElem?_append_left hi]
    simp [hi.ne]
  · subst hi
    simp
  · rw [List.getElem?_eq_none (by simp; omega), List.getElem?_eq_none (by omega)]
    simp [hi.ne']

theorem Marks.append_plain (h : Marks c cells) (row : Row) :
    Marks { c with out := c.out ++ [row] } (cells ++ [(row, none)]) where
  out := by simp [h.out]
  anchors trace place := by
    rw [h.anchors]
    simp [getElem?_concat]

theorem Marks.append_anchor (h : Marks c cells) (row : Row)
    (trace : String) (pending : PyDict String (List Row)) :
    Marks ⟨c.out ++ [row], c.anchors.set trace c.out.length, pending⟩
      (unmark trace cells ++ [(row, some trace)]) where
  out := by simp [h.out, unmark]
  anchors trace' place := by
    have hlength : (unmark trace cells).length = c.out.length := by simp [unmark, h.out]
    by_cases heq : trace' = trace
    · subst heq
      rw [PyDict.get?_set_self, Option.some.injEq]
      constructor
      · rintro rfl
        exact ⟨row, getElem?_concat.mpr (.inr ⟨hlength.symm, rfl⟩)⟩
      · rintro ⟨row', hrow'⟩
        rcases getElem?_concat.mp hrow' with hold | ⟨hplace, -⟩
        · exact absurd rfl (unmark_getElem?.mp hold).2
        · rw [hplace, hlength]
    · rw [PyDict.get?_set_of_ne _ _ heq, h.anchors]
      refine exists_congr fun row' => ?_
      rw [getElem?_concat, unmark_getElem?]
      constructor
      · exact fun hrow' => .inl ⟨hrow', heq⟩
      · rintro (⟨hrow', -⟩ | ⟨-, hrow'⟩)
        · exact hrow'
        · exact absurd (Option.some.inj (Prod.mk.inj hrow').2).symm heq

theorem Marks.set (h : Marks c cells)
    {anchor : Row} (hcell : cells[place]? = some (anchor, some trace)) (anchor' : Row) :
    Marks { c with out := c.out.set place anchor' } (cells.set place (anchor', some trace)) where
  out := by simp [h.out, List.map_set]
  anchors trace' place' := by
    rw [h.anchors]
    obtain ⟨hlt, -⟩ := List.getElem?_eq_some_iff.mp hcell
    by_cases heq : place = place'
    · subst heq
      rw [List.getElem?_set_self hlt, hcell]
      simp
    · rw [List.getElem?_set_ne heq]

theorem Marks.pending (h : Marks c cells)
    (pending : PyDict String (List Row)) : Marks { c with pending } cells := ⟨h.out, h.anchors⟩

/-- No anchor of these rows comes after an update that had none. -/
structure Ordered (c : Composing) (rows : List Row) : Prop where
  follow : ∀ before row after trace, rows = before ++ row :: after →
    Row.updated? row = some trace → (∃ a ∈ after, Row.anchored? a = some trace) →
      (∃ a ∈ before, Row.anchored? a = some trace) ∨ (c.anchors.get? trace).isSome
  pending : ∀ trace, (c.pending.get? trace).isSome → ∀ a ∈ rows, Row.anchored? a ≠ some trace

/-! ## The pass -/

theorem Ordered.tail {c c' : Composing} {row : Row} {rows : List Row} (h : Ordered c (row :: rows))
    (hanchors : ∀ trace, Row.anchored? row = some trace ∨ (c.anchors.get? trace).isSome →
      (c'.anchors.get? trace).isSome)
    (hpending : ∀ trace, (c'.pending.get? trace).isSome →
      (c.pending.get? trace).isSome ∨ ∀ a ∈ rows, Row.anchored? a ≠ some trace) :
    Ordered c' rows where
  follow before r after trace hrows hupdate hafter := by
    obtain ⟨a, ha, hanchor⟩ | hseen :=
      h.follow (row :: before) r after trace (by rw [hrows, List.cons_append]) hupdate hafter
    · rcases List.mem_cons.mp ha with rfl | ha
      · exact .inr (hanchors trace (.inl hanchor))
      · exact .inl ⟨a, ha, hanchor⟩
    · exact .inr (hanchors trace (.inr hseen))
  pending trace hsome a ha := by
    rcases hpending trace hsome with hold | hnone
    · exact h.pending trace hold a (List.mem_cons_of_mem _ ha)
    · exact hnone a ha

/-! What the pass does with a row, by its kind. -/

theorem composeRow_skip (c : Composing) (hdisplay : Row.isDisplay row = false)
    (hupdate : Row.updated? row = none) : composeRow c row = some c := by
  unfold composeRow
  cases hu : Row.isTraceUpdate row with
  | true =>
    have htrace : Row.traceId row = "" := by
      simpa [Row.updated?, Row.trace?, hu] using hupdate
    simp [htrace]
  | false =>
    have hrole : Row.hasRole row = false := by simpa [Row.isDisplay, hu] using hdisplay
    simp [hrole]

theorem composeRow_update (c : Composing)
    (h : Row.updated? row = some trace) : composeRow c row =
      match c.anchors.get? trace with
      | some place => do
        let anchor ← c.out[place]?
        let anchor ← applyTraceUpdate anchor row
        some { c with out := c.out.set place anchor }
      | none =>
        some { c with
          pending := c.pending.set trace ((c.pending.get? trace).getD [] ++ [row]) } := by
  unfold Row.updated? Row.trace? at h
  split at h
  · next hu =>
    split at h
    · cases h
    · next hne =>
      cases h
      unfold composeRow
      exact (if_pos hu).trans (if_neg hne)
  · cases h

theorem composeRow_plain (c : Composing) (hdisplay : Row.isDisplay row)
    (hanchor : Row.anchored? row = none) :
    composeRow c row = some { c with out := c.out ++ [row] } := by
  have ⟨hu, hrole⟩ : Row.isTraceUpdate row = false ∧ Row.hasRole row = true := by
    simpa [Row.isDisplay] using hdisplay
  have hnot : ¬ (Row.roleIs row "sub_agent_trace" ∧ Row.traceId row ≠ "") := by
    rintro ⟨hr, hne⟩
    simp [Row.anchored?, Row.trace?, hdisplay, hr, hne] at hanchor
  simp [composeRow, hu, hrole, hnot]

theorem composeRow_anchor (c : Composing)
    (h : Row.anchored? row = some trace) : composeRow c row = (do
      let msg ← applyAll row ((c.pending.get? trace).getD [])
      some ⟨c.out ++ [msg], c.anchors.set trace c.out.length, c.pending.erase trace⟩) := by
  unfold Row.anchored? Row.trace? at h
  split at h
  · next hrow =>
    split at h
    · cases h
    · next hne =>
      cases h
      obtain ⟨⟨hu, hrole⟩, hr⟩ : (Row.isTraceUpdate row = false ∧ Row.hasRole row = true) ∧
          Row.roleIs row "sub_agent_trace" = true := by
        simpa [Row.isDisplay] using hrow
      simp [composeRow, hu, hrole, hr, hne]
  · cases h

theorem Row.isDisplay_of_anchored? (h : Row.anchored? row = some trace) : Row.isDisplay row := by
  cases hd : Row.isDisplay row with
  | true => rfl
  | false => simp [Row.anchored?_of_not_display hd] at h

theorem Row.not_display_of_updated?
    (h : Row.updated? row = some trace) : Row.isDisplay row = false := by
  unfold Row.updated? at h
  split at h
  · next hu => simp [Row.isDisplay, hu]
  · cases h

theorem displayed_cons (row : Row) (rows : List Row) :
    displayed (row :: rows) = if Row.isDisplay row then do
        let msg ← message row rows
        let msgs ← displayed rows
        some (msg :: msgs)
      else displayed rows := by
  simp only [displayed, displayedBefore, List.append_nil]

/-- The pass does to the marked messages what the rows do to what is displayed. -/
theorem foldlM_composeRow (hmarks : Marks c cells) (hordered : Ordered c rows) :
    (rows.foldlM composeRow c).map Composing.out = (do
      let done ← finish (fun trace => ownUpdates trace rows) cells
      let msgs ← displayed rows
      some (done ++ msgs)) := by
  induction rows generalizing c cells with
  | nil =>
    have hfinish : finish (fun trace => ownUpdates trace []) cells =
        some (cells.map Prod.fst) := finish_nil cells
    rw [hfinish]
    simp [displayed, displayedBefore, hmarks.out]
  | cons row rows ih =>
    rw [List.foldlM_cons, displayed_cons]
    cases hupdate : Row.updated? row with
    | some trace =>
      have hown : ownUpdates trace (row :: rows) = row :: ownUpdates trace rows := by
        rw [ownUpdates_cons, if_pos hupdate]
      have hnot := Row.anchored?_of_updated? hupdate
      have hother : ∀ trace', trace' ≠ trace →
          ownUpdates trace' (row :: rows) = ownUpdates trace' rows := by
        intro trace' hne
        rw [ownUpdates_cons, hupdate, hnot, if_neg (by simpa using hne.symm),
          if_neg (by simp)]
      rw [composeRow_update c hupdate, Row.not_display_of_updated? hupdate]
      cases hplace : c.anchors.get? trace with
      | some place =>
        -- The anchor is there, and takes the update now.
        obtain ⟨anchor, hcell⟩ := (hmarks.anchors trace place).mp hplace
        have hget : c.out[place]? = some anchor := by
          rw [hmarks.out, List.getElem?_map, hcell]
          rfl
        rw [finish_set hcell ?_ hown hother]
        · simp only [hget, Option.bind_eq_bind, Option.bind_some]
          cases happly : applyTraceUpdate anchor row with
          | none => simp
          | some anchor' =>
            have hrest := ih (hmarks.set hcell anchor')
              (hordered.tail (by simp [hnot]) fun _ h => .inl h)
            simpa [happly] using hrest
        · intro place' row' hrow'
          have := (hmarks.anchors trace place').mpr ⟨row', hrow'⟩
          rw [hplace] at this
          exact (Option.some.inj this).symm
      | none =>
        -- No anchor will come, so the update is lost.
        have hnone : ∀ cell ∈ cells, cell.2 ≠ some trace := by
          intro cell hcell htag
          obtain ⟨place, hcell⟩ := List.mem_iff_getElem?.mp hcell
          have := (hmarks.anchors trace place).mpr ⟨cell.1, by rw [hcell, ← htag]⟩
          simp [hplace] at this
        have hlast : ∀ a ∈ rows, Row.anchored? a ≠ some trace := by
          intro a ha hanchor
          have := hordered.follow [] row rows trace rfl hupdate ⟨a, ha, hanchor⟩
          simp [hplace] at this
        rw [@finish_congr _ (fun trace => ownUpdates trace rows) _
          fun cell hcell trace' htag => hother trace' ?_]
        · refine ih (hmarks.pending _) (hordered.tail (by simp [hnot]) ?_)
          intro trace' hsome
          by_cases heq : trace' = trace
          · exact .inr (heq ▸ hlast)
          · exact .inl (by rwa [PyDict.get?_set_of_ne _ _ heq] at hsome)
        · rintro rfl
          exact hnone cell hcell htag
    | none =>
      cases hanchor : Row.anchored? row with
      | some trace =>
        have hpending : c.pending.get? trace = none := by
          cases hget : c.pending.get? trace with
          | none => rfl
          | some updates =>
            exact absurd hanchor
              (hordered.pending trace (by simp [hget]) row (List.mem_cons_self ..))
        have hown : ownUpdates trace (row :: rows) = [] := by
          rw [ownUpdates_cons, hupdate, if_neg (by simp), if_pos hanchor]
        have hother : ∀ trace', trace' ≠ trace →
            ownUpdates trace' (row :: rows) = ownUpdates trace' rows := by
          intro trace' hne
          rw [ownUpdates_cons, hupdate, hanchor, if_neg (by simp),
            if_neg (by simpa using hne.symm)]
        have hordered' : Ordered ⟨c.out ++ [row], c.anchors.set trace c.out.length,
            c.pending.erase trace⟩ rows := by
          refine hordered.tail ?_ ?_
          · intro trace' hseen
            by_cases heq : trace' = trace
            · subst heq
              simp [PyDict.get?_set_self]
            · rw [PyDict.get?_set_of_ne _ _ heq]
              refine hseen.resolve_left fun h => heq ?_
              rw [hanchor] at h
              exact (Option.some.inj h).symm
          · intro trace' hsome
            rw [PyDict.get?_erase] at hsome
            split at hsome
            · simp at hsome
            · exact .inl hsome
        have hrest := ih (hmarks.append_anchor row trace _) hordered'
        have hmessage : message row rows = applyAll row (ownUpdates trace rows) := by
          rw [message, hanchor]
        rw [composeRow_anchor c hanchor, hpending, Row.isDisplay_of_anchored? hanchor,
          finish_unmark hown hother, hmessage]
        simp only [Option.getD_none, applyAll, List.foldlM_nil, Option.pure_def,
          Option.bind_eq_bind, Option.bind_some, if_true]
        rw [hrest, finish_append, finish_cons]
        simp [applyAll, finish, Option.bind_assoc]
      | none =>
        have hother : ∀ trace, ownUpdates trace (row :: rows) = ownUpdates trace rows := by
          intro trace
          rw [ownUpdates_cons, hupdate, hanchor, if_neg (by simp), if_neg (by simp)]
        simp only [hother]
        cases hdisplay : Row.isDisplay row with
        | true =>
          have hrest := ih (hmarks.append_plain row)
            (hordered.tail (by simp [hanchor]) fun _ h => .inl h)
          have hmessage : message row rows = some row := by rw [message, hanchor]
          rw [composeRow_plain c hdisplay hanchor, hmessage]
          simp only [Option.bind_eq_bind, Option.bind_some, if_true]
          rw [hrest, finish_append, finish_cons]
          simp [applyAll, finish, Option.bind_assoc]
        | false =>
          rw [composeRow_skip c hdisplay hupdate]
          exact ih hmarks (hordered.tail (by simp [hanchor]) fun _ h => .inl h)

theorem composeDisplayTraces_eq (h : UpdatesFollow rows) :
    composeDisplayTraces rows = displayed rows := by
  have hordered : Ordered {} rows := by
    refine ⟨fun before row after trace hrows hupdate hafter => ?_, by simp [PyDict.get?]⟩
    exact .inl (h before row after trace hrows hupdate hafter)
  have hpass := foldlM_composeRow Marks.empty hordered
  have hnil : finish (fun trace => ownUpdates trace rows) [] = some [] := rfl
  rw [composeDisplayTraces, hpass, hnil]
  simp

end PawFlow.Transcript
