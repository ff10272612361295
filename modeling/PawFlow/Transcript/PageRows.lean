import PawFlow.Transcript.Pages

/-!
# The rows of a page compose as the transcript does

A page is composed of the rows from some place on and of the updates that come after them. Where no
update of a trace is read without its anchor, the messages are those of the whole transcript at
these places.
-/

namespace PawFlow.Transcript

open PawFlow.Lib

def Row.isRead (row : Row) : Bool := Row.isTraceUpdate row || Row.isDisplay row

/-- How many of the rows are shown. -/
def displayCount (rows : List Row) : Nat := rows.countP Row.isDisplay

@[simp] theorem displayCount_append (rows rows' : List Row) :
    displayCount (rows ++ rows') = displayCount rows + displayCount rows' := List.countP_append

@[simp] theorem displayCount_reverse (rows : List Row) :
    displayCount rows.reverse = displayCount rows := List.countP_reverse

theorem displayCount_cons (row : Row) (rows : List Row) :
    displayCount (row :: rows) = displayCount rows + if Row.isDisplay row then 1 else 0 :=
  List.countP_cons

variable {rows : List Row} {row : Row} {trace : String}

variable {msgs : List Row}

theorem length_displayedBefore {later : List Row}
    (h : displayedBefore later rows = some msgs) : msgs.length = displayCount rows := by
  induction rows generalizing msgs with
  | nil =>
    obtain rfl : [] = msgs := Option.some.inj h
    rfl
  | cons row rows ih =>
    rw [displayedBefore] at h
    rw [displayCount_cons]
    split at h
    · next hrow =>
      obtain ⟨msg, -, h⟩ := Option.bind_eq_some_iff.mp h
      obtain ⟨rest, hrest, h⟩ := Option.bind_eq_some_iff.mp h
      obtain rfl : msg :: rest = msgs := Option.some.inj h
      rw [List.length_cons, ih hrest, if_pos hrow]
    · next hrow => rw [ih h, if_neg hrow, Nat.add_zero]

/-! ## Updates with their anchors -/

def Covered (trace : String) (rows : List Row) : Prop :=
  ∀ before row after, rows = before ++ row :: after → Row.updated? row = some trace →
    ∃ a ∈ before, Row.anchored? a = some trace

theorem Covered.cons {trace : String} {row : Row} {rows : List Row} (h : Covered trace rows)
    (hrow : Row.updated? row ≠ some trace) : Covered trace (row :: rows) := by
  intro before r after hsplit hupdate
  cases before with
  | nil =>
    obtain ⟨rfl, -⟩ := List.cons.inj hsplit
    exact absurd hupdate hrow
  | cons b before =>
    obtain ⟨rfl, hrest⟩ := List.cons.inj hsplit
    obtain ⟨a, ha, hanchor⟩ := h before r after hrest hupdate
    exact ⟨a, List.mem_cons_of_mem _ ha, hanchor⟩

theorem Covered.anchor (rows : List Row)
    (hrow : Row.anchored? row = some trace) : Covered trace (row :: rows) := by
  intro before r after hrows hupdate
  cases before with
  | nil =>
    obtain ⟨rfl, -⟩ := List.cons.inj hrows
    rw [Row.anchored?_of_updated? hupdate] at hrow
    cases hrow
  | cons b before =>
    obtain ⟨rfl, -⟩ := List.cons.inj hrows
    exact ⟨row, List.mem_cons_self .., hrow⟩

theorem UpdatesFollow.of_covered (h : ∀ trace, Covered trace rows) : UpdatesFollow rows :=
  fun before row after trace hrows hupdate _ => h trace before row after hrows hupdate

theorem UpdatesFollow.filter (h : UpdatesFollow rows) : UpdatesFollow (rows.filter Row.isRead) := by
  rintro before row after trace hrows hupdate ⟨a, ha, hanchor⟩
  obtain ⟨l₁, l₂, rfl, rfl, hl₂⟩ := List.filter_eq_append_iff.mp hrows
  obtain ⟨l₃, l₄, rfl, hl₃, -, rfl⟩ := List.filter_eq_cons_iff.mp hl₂
  obtain ⟨b, hb, hb'⟩ := h (l₁ ++ l₃) row l₄ trace (by simp) hupdate
    ⟨a, (List.mem_filter.mp ha).1, hanchor⟩
  rcases List.mem_append.mp hb with hb | hb
  · refine ⟨b, List.mem_filter.mpr ⟨hb, ?_⟩, hb'⟩
    simp [Row.isRead, Row.isDisplay_of_anchored? hb']
  · exact absurd (by simp [Row.isRead, Row.isDisplay_of_anchored? hb']) (hl₃ b hb)

theorem UpdatesFollow.cut {later newer : List Row} (h : UpdatesFollow (rows ++ later))
    (hnewer : ∀ row ∈ newer, Row.isDisplay row = false) : UpdatesFollow (rows ++ newer) := by
  rintro before row after trace hrows hupdate ⟨a, ha, hanchor⟩
  have hnot : a ∉ newer := fun hmem => by
    simp [Row.anchored?_of_not_display (hnewer a hmem)] at hanchor
  rcases List.append_eq_append_iff.mp hrows with ⟨mid, rfl, hmid⟩ | ⟨mid, rfl, hmid⟩
  · -- The update is one of the newer rows, and only updates follow it.
    exact absurd (hmid ▸ List.mem_append_right _ (List.mem_cons_of_mem _ ha)) hnot
  · cases mid with
    | nil =>
      obtain rfl : newer = row :: after := by simpa using hmid.symm
      exact absurd (List.mem_cons_of_mem _ ha) hnot
    | cons r mid =>
      obtain ⟨rfl, rfl⟩ := List.cons.inj hmid
      refine h before row (mid ++ later) trace (by simp) hupdate ⟨a, ?_, hanchor⟩
      exact List.mem_append_left _ ((List.mem_append.mp ha).resolve_right hnot)

/-! ## The rows of a page -/

/-- The rows read so far, with the newer updates, cover every trace that is not pending. -/
def Settled (pending : List String) (rows : List Row) : Prop :=
  ∀ trace, trace ∉ pending → Covered trace rows

theorem Row.ne_of_updated? (h : Row.updated? row = some trace) : trace ≠ "" := by
  unfold Row.updated? Row.trace? at h
  split at h
  · split at h
    · cases h
    · next hne => exact Option.some.inj h ▸ hne
  · cases h

theorem covered_empty (rows : List Row) : Covered "" rows :=
  fun _ _ _ _ hupdate => absurd rfl (Row.ne_of_updated? hupdate)

/-- The reader stops at the start of the log, or with enough rows and nothing pending. -/
theorem collect_eq (need : Nat) {newer : List Row} (rows : List Row) {seen : Nat}
    {pending : List String} (hsettled : Settled pending newer) :
    ∃ read unread, rows = read ++ unread ∧
      collect need seen pending rows = read.filter Row.isRead ∧
      (unread = [] ∨ need ≤ seen + displayCount read ∧
        ∀ trace, Covered trace (read.reverse ++ newer)) := by
  induction rows generalizing seen pending newer with
  | nil => exact ⟨[], [], rfl, rfl, .inl rfl⟩
  | cons row rows ih =>
    rw [collect]
    by_cases hu : Row.isTraceUpdate row
    · -- The update makes its trace pending.
      rw [if_pos hu]
      have hrow : Row.isDisplay row = false := by simp [Row.isDisplay, hu]
      have hnext : Settled (if Row.traceId row = "" then pending
          else pending.insert (Row.traceId row)) (row :: newer) := by
        intro trace htrace
        split at htrace
        · next hempty =>
          refine (hsettled trace htrace).cons ?_
          simp [Row.updated?, Row.trace?, hempty]
        · rw [List.mem_insert_iff, not_or] at htrace
          refine (hsettled trace htrace.2).cons ?_
          simp [Row.updated?, Row.trace?, hu, Ne.symm htrace.1]
      obtain ⟨read, unread, rfl, hcollect, hstop⟩ := @ih _ seen _ hnext
      refine ⟨row :: read, unread, rfl, ?_, ?_⟩
      · simp [hcollect, Row.isRead, hu]
      · simpa [displayCount_cons, hrow] using hstop
    · have hnone : Row.updated? row = none := by simp [Row.updated?, hu]
      rw [if_neg hu]
      by_cases hrole : Row.hasRole row
      · -- An anchor settles its trace.
        have hrow : Row.isDisplay row = true := by simp [Row.isDisplay, hu, hrole]
        have hnext : Settled (if Row.roleIs row "sub_agent_trace" then
            pending.filter (· ≠ Row.traceId row) else pending) (row :: newer) := by
          intro trace htrace
          by_cases hanchor : Row.anchored? row = some trace
          · exact Covered.anchor newer hanchor
          · by_cases hempty : trace = ""
            · exact hempty ▸ covered_empty _
            · refine Covered.cons (hsettled trace fun hmem => htrace ?_) (by simp [hnone])
              split
              · next hr =>
                refine List.mem_filter.mpr ⟨hmem, decide_eq_true ?_⟩
                rintro rfl
                exact hanchor (by simp [Row.anchored?, Row.trace?, hrow, hr, hempty])
              · exact hmem
        rw [if_pos hrole]
        dsimp only
        generalize (if Row.roleIs row "sub_agent_trace" then
          pending.filter (· ≠ Row.traceId row) else pending) = next at hnext ⊢
        by_cases hstop : need ≤ seen + 1 ∧ next = []
        · rw [if_pos hstop]
          refine ⟨[row], rows, rfl, by simp [Row.isRead, hrow], .inr ⟨?_, ?_⟩⟩
          · simpa [displayCount, hrow] using hstop.1
          · intro trace
            have := hnext trace (by simp [hstop.2])
            simpa using this
        · rw [if_neg hstop]
          obtain ⟨read, unread, rfl, hcollect, hstop'⟩ := @ih _ (seen + 1) _ hnext
          refine ⟨row :: read, unread, rfl, ?_, ?_⟩
          · simp [hcollect, Row.isRead, hrow]
          · rw [displayCount_cons, if_pos hrow]
            simpa [Nat.add_assoc, Nat.add_comm 1] using hstop'
      · rw [if_neg hrole]
        have hrow : Row.isDisplay row = false := by simp [Row.isDisplay, hrole]
        have hnext : Settled pending (row :: newer) := fun trace htrace =>
          (hsettled trace htrace).cons (by simp [hnone])
        obtain ⟨read, unread, rfl, hcollect, hstop⟩ := @ih _ seen _ hnext
        refine ⟨row :: read, unread, rfl, ?_, ?_⟩
        · simp [hcollect, Row.isRead, hu, hrow]
        · simpa [displayCount_cons, hrow] using hstop

/-! ## The updates after a cursor -/

/-- What is kept of the rows after a place: their updates without an anchor there, newest first. -/
structure Kept (newer : PyDict String (List Row)) (later : List Row) : Prop where
  nodup : (newer.map Prod.fst).Nodup
  named : "" ∉ newer.map Prod.fst
  updates : ∀ trace rows, (trace, rows) ∈ newer → ∀ row ∈ rows, Row.updated? row = some trace
  own : ∀ trace, ((newer.get? trace).getD []).reverse = ownUpdates trace later

theorem Kept.nil : Kept [] [] := ⟨List.nodup_nil, by simp, by simp, fun _ => rfl⟩

theorem Kept.skip {newer : PyDict String (List Row)} {later : List Row} (h : Kept newer later)
    (hupdate : Row.updated? row = none) (hanchor : Row.anchored? row = none) :
    Kept newer (row :: later) where
  nodup := h.nodup
  named := h.named
  updates := h.updates
  own trace := by
    rw [ownUpdates_cons, hupdate, hanchor, if_neg (by simp), if_neg (by simp), h.own]

theorem Kept.update {newer : PyDict String (List Row)} {later : List Row} (h : Kept newer later)
    (hupdate : Row.updated? row = some trace) :
    Kept (newer.set trace ((newer.get? trace).getD [] ++ [row])) (row :: later) where
  nodup := PyDict.nodup_keys_set _ h.nodup
  named hmem := (PyDict.mem_keys_set.mp hmem).elim h.named
    fun hempty => Row.ne_of_updated? hupdate hempty.symm
  updates trace' rows hmem r hr := by
    rcases PyDict.mem_of_mem_set hmem with hmem | heq
    · exact h.updates trace' rows hmem r hr
    · obtain ⟨rfl, rfl⟩ := Prod.mk.inj heq
      rcases List.mem_append.mp hr with hr | hr
      · cases hget : newer.get? trace' with
        | none => simp [hget] at hr
        | some rows =>
          rw [hget, Option.getD_some] at hr
          exact h.updates trace' rows (PyDict.mem_of_get? hget) r hr
      · rw [List.mem_singleton.mp hr, hupdate]
  own trace' := by
    by_cases heq : trace' = trace
    · subst heq
      rw [PyDict.get?_set_self, ownUpdates_cons, if_pos hupdate, ← h.own]
      simp
    · have hnot := Row.anchored?_of_updated? hupdate
      rw [PyDict.get?_set_of_ne _ _ heq, ownUpdates_cons, hupdate, hnot,
        if_neg (by simpa using Ne.symm heq), if_neg (by simp), h.own]

theorem Kept.anchor {newer : PyDict String (List Row)} {later : List Row} (h : Kept newer later)
    (hanchor : Row.anchored? row = some trace)
    (hupdate : Row.updated? row = none) : Kept (newer.erase trace) (row :: later) where
  nodup := h.nodup.sublist (List.filter_sublist.map _)
  named hmem := h.named ((List.filter_sublist.map _).subset hmem)
  updates trace' rows hmem := h.updates trace' rows (PyDict.mem_erase.mp hmem).1
  own trace' := by
    rw [PyDict.get?_erase, ownUpdates_cons, hupdate, hanchor]
    by_cases heq : trace' = trace
    · simp [heq]
    · simp [heq, Ne.symm heq, h.own]

/-- The rows kept, in the order of the log. -/
def newerRows (newer : PyDict String (List Row)) : List Row := (newer.flatMap Prod.snd).reverse

theorem ownUpdates_eq_filter (h : ∀ row ∈ rows, Row.anchored? row = none) :
    ownUpdates trace rows = rows.filter fun row => Row.updated? row = some trace := by
  induction rows with
  | nil => rfl
  | cons row rows ih =>
    rw [ownUpdates_cons, ih fun r hr => h r (List.mem_cons_of_mem _ hr), List.filter_cons,
      h row (List.mem_cons_self ..)]
    simp

section

variable {newer : PyDict String (List Row)} {later : List Row}

theorem Kept.mem_newerRows (h : Kept newer later) {row : Row} (hrow : row ∈ newerRows newer) :
    ∃ trace ∈ newer.map Prod.fst, Row.updated? row = some trace := by
  obtain ⟨item, hitem, hrow⟩ := List.mem_flatMap.mp (List.mem_reverse.mp hrow)
  exact ⟨item.1, List.mem_map_of_mem hitem, h.updates item.1 item.2 hitem row hrow⟩

theorem Row.isTraceUpdate_of_updated? {row : Row} {trace : String}
    (h : Row.updated? row = some trace) : Row.isTraceUpdate row := by
  unfold Row.updated? at h
  split at h
  · assumption
  · cases h

theorem Kept.isTraceUpdate (h : Kept newer later) {row : Row} (hrow : row ∈ newerRows newer) :
    Row.isTraceUpdate row := by
  obtain ⟨trace, -, hupdate⟩ := h.mem_newerRows hrow
  exact Row.isTraceUpdate_of_updated? hupdate

theorem filter_flatMap_updates {newer : PyDict String (List Row)}
    (hnodup : (newer.map Prod.fst).Nodup)
    (hupdates : ∀ trace rows, (trace, rows) ∈ newer → ∀ row ∈ rows,
      Row.updated? row = some trace) (trace : String) :
    (newer.flatMap Prod.snd).filter (fun row => Row.updated? row = some trace) =
      (newer.get? trace).getD [] := by
  induction newer with
  | nil => rfl
  | cons item newer ih =>
    obtain ⟨trace', rows⟩ := item
    obtain ⟨hnot, hrest⟩ := List.nodup_cons.mp hnodup
    have hrows := hupdates trace' rows (List.mem_cons_self ..)
    have ih := ih hrest fun t r hmem => hupdates t r (List.mem_cons_of_mem _ hmem)
    rw [List.flatMap_cons, List.filter_append, ih]
    by_cases heq : trace' = trace
    · subst heq
      have hall : rows.filter (fun row => Row.updated? row = some trace') = rows :=
        List.filter_eq_self.mpr fun row hrow => by simp [hrows row hrow]
      rw [hall, PyDict.get?_eq_none_iff.mpr hnot]
      simp [PyDict.get?]
    · have hnone : rows.filter (fun row => Row.updated? row = some trace) = [] :=
        List.filter_eq_nil_iff.mpr fun row hrow => by simp [hrows row hrow, heq]
      rw [hnone]
      simp [PyDict.get?, heq]

theorem Kept.ownUpdates_newerRows (h : Kept newer later) (trace : String) :
    ownUpdates trace (newerRows newer) = ownUpdates trace later := by
  have hanchors : ∀ row ∈ newerRows newer, Row.anchored? row = none := by
    intro row hrow
    obtain ⟨_, -, hupdate⟩ := h.mem_newerRows hrow
    exact Row.anchored?_of_updated? hupdate
  rw [ownUpdates_eq_filter hanchors, newerRows, List.filter_reverse,
    filter_flatMap_updates h.nodup h.updates, h.own]

theorem Kept.settled (h : Kept newer later) : Settled (newer.map Prod.fst) (newerRows newer) := by
  intro trace htrace before row after hrows hupdate
  have hrow : row ∈ newerRows newer := by simp [hrows]
  obtain ⟨trace', hmem, hupdate'⟩ := h.mem_newerRows hrow
  rw [hupdate] at hupdate'
  obtain rfl := Option.some.inj hupdate'
  exact absurd hmem htrace

end

theorem Kept.display {newer : PyDict String (List Row)} {later : List Row} (h : Kept newer later)
    (hdisplay : Row.isDisplay row) :
    Kept (if Row.roleIs row "sub_agent_trace" then newer.erase (Row.traceId row) else newer)
      (row :: later) := by
  have hupdate : Row.updated? row = none := by
    cases hu : Row.updated? row with
    | none => rfl
    | some trace => simp [Row.not_display_of_updated? hu] at hdisplay
  split
  · next hr =>
    by_cases hempty : Row.traceId row = ""
    · rw [hempty, PyDict.erase_of_get?_none (PyDict.get?_eq_none_iff.mpr h.named)]
      exact h.skip hupdate (by simp [Row.anchored?, Row.trace?, hempty])
    · exact h.anchor (by simp [Row.anchored?, Row.trace?, hdisplay, hr, hempty]) hupdate
  · next hr => exact h.skip hupdate (by simp [Row.anchored?, hr])

/-- The reader finds the cursor, having counted the rows from it on. -/
theorem seek_eq {msgId : String} {cursor : Row} {older : List Row}
    (hcursor : Row.isDisplay cursor) (hid : Segments.Row.hasMsgId msgId cursor)
    (ahead : List Row) {newer : PyDict String (List Row)} {later : List Row} {skipped : Nat}
    (hkept : Kept newer later)
    (hahead : ∀ row ∈ ahead, Row.isDisplay row → Segments.Row.hasMsgId msgId row = false) :
    ∃ newer', seek msgId skipped newer (ahead ++ cursor :: older) =
        some (skipped + displayCount ahead + 1, newer', older) ∧
      Kept newer' (cursor :: (ahead.reverse ++ later)) := by
  induction ahead generalizing newer later skipped with
  | nil =>
    have ⟨hu, hrole⟩ : Row.isTraceUpdate cursor = false ∧ Row.hasRole cursor = true := by
      simpa [Row.isDisplay] using hcursor
    refine ⟨_, ?_, hkept.display hcursor⟩
    simp [seek, hu, hrole, hid, displayCount]
  | cons row ahead ih =>
    have hrest : ∀ r ∈ ahead, Row.isDisplay r → Segments.Row.hasMsgId msgId r = false :=
      fun r hr => hahead r (List.mem_cons_of_mem _ hr)
    rw [List.cons_append, seek, List.reverse_cons, List.append_assoc]
    by_cases hu : Row.isTraceUpdate row
    · have hrow : Row.isDisplay row = false := by simp [Row.isDisplay, hu]
      have hcount : displayCount (row :: ahead) = displayCount ahead := by
        simp [displayCount_cons, hrow]
      rw [if_pos hu, hcount]
      by_cases hempty : Row.traceId row = ""
      · rw [if_pos hempty]
        refine ih (hkept.skip ?_ (Row.anchored?_of_not_display hrow)) hrest
        simp [Row.updated?, Row.trace?, hempty]
      · rw [if_neg hempty]
        exact ih (hkept.update (by simp [Row.updated?, Row.trace?, hu, hempty])) hrest
    · rw [if_neg hu]
      by_cases hrole : Row.hasRole row
      · have hrow : Row.isDisplay row = true := by simp [Row.isDisplay, hu, hrole]
        have hother := hahead row (List.mem_cons_self ..) hrow
        have hcount : displayCount (row :: ahead) = displayCount ahead + 1 := by
          simp [displayCount_cons, hrow]
        simp only [hrole, Bool.not_true, hother, Bool.false_eq_true, if_false, hcount]
        obtain ⟨newer', hseek, hkept'⟩ := @ih _ _ (skipped + 1) (hkept.display hrow) hrest
        refine ⟨newer', ?_, hkept'⟩
        rw [hseek]
        congr 2
        omega
      · have hrow : Row.isDisplay row = false := by simp [Row.isDisplay, hrole]
        have hcount : displayCount (row :: ahead) = displayCount ahead := by
          simp [displayCount_cons, hrow]
        simp only [hrole, Bool.not_false, if_true, hcount]
        refine ih (hkept.skip ?_ (Row.anchored?_of_not_display hrow)) hrest
        simp [Row.updated?, hu]

/-! ## The messages of a page -/

theorem compose_chunk {older chunk later newer : List Row}
    (hfollow : UpdatesFollow (older ++ chunk ++ later))
    (hnewer : ∀ row ∈ newer, Row.isTraceUpdate row)
    (hown : ∀ trace, ownUpdates trace newer = ownUpdates trace later)
    (hstop : older = [] ∨ ∀ trace, Covered trace (chunk ++ newer)) :
    composeDisplayTraces (chunk.filter Row.isRead ++ newer) = displayedBefore later chunk := by
  have hhidden : ∀ row ∈ newer, Row.isDisplay row = false := fun row hrow => by
    simp [Row.isDisplay, hnewer row hrow]
  have hread : newer.filter Row.isRead = newer :=
    List.filter_eq_self.mpr fun row hrow => by simp [Row.isRead, hnewer row hrow]
  have horder : UpdatesFollow (chunk ++ newer) := by
    rcases hstop with rfl | hcovered
    · exact UpdatesFollow.cut (by simpa using hfollow) hhidden
    · exact UpdatesFollow.of_covered hcovered
  have hkeep : ∀ row, Row.isTraceUpdate row || Row.isDisplay row → Row.isRead row := fun _ h => h
  have hfilter := horder.filter
  rw [List.filter_append, hread] at hfilter
  rw [composeDisplayTraces_eq hfilter, displayed, displayedBefore_append,
    displayedBefore_filter hkeep, List.append_nil,
    displayedBefore_eq_nil hhidden, displayedBefore_congr hown]
  cases displayedBefore later chunk <;> simp

theorem displayed_append (rows rows' : List Row) :
    displayed (rows ++ rows') = (do
      let msgs ← displayedBefore rows' rows
      let msgs' ← displayed rows'
      some (msgs ++ msgs')) := by
  rw [displayed, displayedBefore_append, List.append_nil]
  rfl

theorem alignStart_le {start : Nat} (h : start < msgs.length) :
    ∃ aligned ≤ start, alignStart msgs start = some aligned := by
  induction start with
  | zero => exact ⟨0, le_rfl, rfl⟩
  | succ start ih =>
    rw [alignStart, List.getElem?_eq_getElem h]
    dsimp only
    split
    · obtain ⟨aligned, hle, heq⟩ := ih (by omega)
      exact ⟨aligned, by omega, heq⟩
    · exact ⟨start + 1, le_rfl, rfl⟩

theorem cutPage_eq (msgs : List Row) (total : Nat) {limit : Nat} (offset : Nat)
    (hlimit : 0 < limit) :
    ∃ start ≤ msgs.length, (0 < msgs.length → start < msgs.length) ∧
      cutPage msgs total limit offset msgs.length =
        some ⟨msgs.drop start, total, offset, limit,
          decide (offset + (msgs.length - start) < total)⟩ := by
  by_cases hlength : 0 < msgs.length
  · have hlt : msgs.length - limit < msgs.length := by omega
    obtain ⟨start, hle, hstart⟩ := alignStart_le hlt
    refine ⟨start, by omega, fun _ => by omega, ?_⟩
    simp [cutPage, hstart, hlength]
  · obtain rfl : msgs = [] := by simpa using hlength
    exact ⟨0, le_rfl, by simp, by simp [cutPage, alignStart]⟩

end PawFlow.Transcript
