import PawFlow.FlowRun.Store

/-!
# Flow runs and their outbox agree

`Change` lists everything a call can do to the two tables, guards included; `change_perform`
is the only lemma that opens the operations. The invariant `Agrees` ties a run's event id,
status and terminal to the one event the run may have, and every result about whole runs
of the store is read off `Change` and `Agrees`.
-/

namespace PawFlow.FlowRun

open PawFlow.Lib FlowRunStatus

namespace Store

/-! ## What a call can do -/

/-- The new status of a run that publishes no event in the same call. -/
def Moves (before after : FlowRunStatus) : Prop :=
  after ∈ before.transitions ∨
    (before = .starting ∨ before = .running ∨ before = .waiting) ∧ after = .starting

/-- The event a row publishes names the row's event id, its terminal and its outcome. -/
structure Publishes (o : OutboxRow) (r : Run) : Prop where
  runId : o.runId = r.runId
  eventId : r.terminalEventId = some o.eventId
  named : o.eventId ≠ ""
  terminal : o.eventJson.terminal = r.terminalJson
  status : (r.status.isTerminal ∧ o.eventJson.status = r.status) ∨
    (r.status = .committing ∧ o.eventJson.status = .completed)

inductive Change : Store → Store → Prop
  | same (s : Store) : Change s s
  | inserted {s : Store} {r : Run} {runs : Table String Run Run.runId}
      (hins : s.runs.insert? r = some runs) (hnew : r.terminalEventId = none)
      (hlive : r.status.isTerminal = false → r.terminalJson = none) :
      Change s { s with runs }
  | deleted {s : Store} {runId : String} (hfree : ∀ o ∈ s.outbox, o.runId ≠ runId) :
      Change s { s with runs := s.runs.delete fun r => r.runId = runId }
  | moved {s : Store} {row : Run} {f : Run → Run} {hf : ∀ r, (f r).runId = r.runId}
      (hrow : row ∈ s.runs) (hstatus : Moves row.status (f row).status)
      (hevent : (f row).terminalEventId = row.terminalEventId)
      (hterminal : (f row).terminalJson = row.terminalJson)
      (hsettled : (f row).status.isTerminal → truthy row.terminalEventId) :
      Change s (s.updateRun row.runId f hf)
  | published {s : Store} {row : Run} {f : Run → Run} {hf : ∀ r, (f r).runId = r.runId}
      {o : OutboxRow} {outbox : Table String OutboxRow OutboxRow.eventId}
      (hrow : row ∈ s.runs) (hlive : row.status.isTerminal = false)
      (hfree : ∀ x ∈ s.outbox, x.runId ≠ row.runId) (hins : s.outbox.insert? o = some outbox)
      (hpub : Publishes o (f row))
      (hterminal : row.terminalJson ≠ none → (f row).terminalJson = row.terminalJson) :
      Change s { s.updateRun row.runId f hf with outbox }
  | acknowledged {s : Store} {p : OutboxRow → Bool} {f : OutboxRow → OutboxRow}
      {hf : ∀ o, (f o).eventId = o.eventId} (hrun : ∀ o, (f o).runId = o.runId)
      (hevent : ∀ o, (f o).eventJson = o.eventJson) :
      Change s { s with outbox := s.outbox.update p f hf }

theorem not_terminal_of_mem_transitions {s t : FlowRunStatus} (h : t ∈ s.transitions) :
    s.isTerminal = false := by
  cases s <;> first | rfl | simp [transitions] at h

variable {s s' : Store}

variable {r : Run} {u : Unit}

theorem insertRun_ok (h : s.insertRun r = (.ok u, s')) :
    ∃ runs, s.runs.insert? r = some runs ∧ s' = { s with runs } := by
  unfold insertRun at h
  split at h
  · simp at h
  · split at h
    · simp at h
    · next runs hruns =>
      obtain ⟨-, rfl⟩ := Prod.mk.inj h
      exact ⟨runs, hruns, rfl⟩

theorem insertEvent_ok {o : OutboxRow} (h : s.insertEvent o = (.ok u, s')) :
    (∀ x ∈ s.outbox, x.runId ≠ o.runId) ∧
      ∃ outbox, s.outbox.insert? o = some outbox ∧ s' = { s with outbox } := by
  unfold insertEvent at h
  split at h
  · simp at h
  · next hfree =>
    split at h
    · simp at h
    · next outbox houtbox =>
      obtain ⟨-, rfl⟩ := Prod.mk.inj h
      refine ⟨?_, outbox, houtbox, rfl⟩
      intro x hx heq
      exact hfree (List.any_eq_true.mpr ⟨x, hx, by simpa using heq⟩)

theorem change_insertRun (h : s.insertRun r = (.ok u, s')) (hnew : r.terminalEventId = none)
    (hlive : r.status.isTerminal = false → r.terminalJson = none) : Change s s' := by
  obtain ⟨runs, hins, rfl⟩ := insertRun_ok h
  exact .inserted hins hnew hlive

theorem change_create (a : CreateArgs) (env : Env) (s : Store) : Change s (create a env s).2 := by
  unfold create
  split
  · exact .same s
  · split
    · exact .same s
    · split
      · rw [thenGet_snd]
        refine closing_rel (R := Change) (.same s) ?_
        intro b s' h
        exact change_insertRun h rfl fun _ => rfl
      all_goals exact .same s

theorem change_importRow {a : ImportArgs} {expected : Run → Bool} {row : Int → Run} (s : Store)
    (hnew : ∀ n, (row n).terminalEventId = none)
    (hlive : ∀ n, (row n).status.isTerminal = false → (row n).terminalJson = none) :
    Change s (closing (importRow a expected row) s).2 := by
  refine closing_rel (R := Change) (.same s) ?_
  intro b s' h
  unfold importRow at h
  split at h
  · split at h
    · obtain ⟨-, rfl⟩ := Prod.mk.inj h
      exact .same s
    · simp at h
  · exact change_insertRun h (hnew _) (hlive _)

theorem change_importTerminal (a : ImportArgs) (status : String) (terminal : Json)
    (terminalAt : Time) (s : Store) :
    Change s (importTerminal a status terminal terminalAt s).2 := by
  unfold importTerminal
  split
  · exact .same s
  · split
    · exact .same s
    · next t ht =>
      -- the imported status is terminal, so its terminal needs no event
      have hterm : t.isTerminal = true := by
        simpa [isTerminal] using List.mem_of_find?_eq_some ht
      split
      · exact .same s
      · split
        · exact .same s
        · split
          · exact .same s
          · refine change_importRow s (fun _ => rfl) ?_
            intro n hlive
            exact absurd hlive (by simp [hterm])

theorem change_liveImport (a : ImportArgs) (status : FlowRunStatus) (checkpoint : Option Json)
    (authorizationRef inputSnapshot parameters : Json) (s : Store) :
    Change s (liveImport a status checkpoint authorizationRef inputSnapshot parameters s).2 := by
  unfold liveImport
  split
  · exact .same s
  · exact change_importRow s (fun _ => rfl) fun _ _ => rfl

theorem change_deleteImported (runId : String) (importMetadata : Json) (s : Store) :
    Change s (deleteImported runId importMetadata s).2 := by
  unfold deleteImported
  split
  · exact .same s
  · next runId _ =>
    split
    · exact .same s
    · refine closing_rel (R := Change) (.same s) ?_
      intro b s' h
      split at h
      · obtain ⟨-, rfl⟩ := Prod.mk.inj h
        exact .same s
      · split at h
        · simp at h
        · split at h
          · simp at h
          · next hfree =>
            obtain ⟨-, rfl⟩ := Prod.mk.inj h
            refine .deleted ?_
            intro o ho heq
            exact hfree (List.any_eq_true.mpr ⟨o, ho, by simpa using heq⟩)

theorem fre_ne_empty (uuid : String) : "fre_" ++ uuid ≠ "" := by
  intro h
  have := congrArg String.length h
  simp [String.length_append] at this

theorem updateRun_updateRun (s : Store) (runId : String) (f g : Run → Run)
    (hf : ∀ r, (f r).runId = r.runId) (hg : ∀ r, (g r).runId = r.runId) :
    (s.updateRun runId f hf).updateRun runId g hg =
      s.updateRun runId (fun r => g (f r)) fun r => (hg (f r)).trans (hf r) := by
  simp only [updateRun, Table.update, List.map_map, Store.mk.injEq, Table.mk.injEq, and_true]
  apply List.map_congr_left
  intro r _
  by_cases h : r.runId = runId
  · simp [h, hf]
  · simp [h]

variable {f : Run → Run} {b : FlowRunStatus}

theorem change_publish {row : Run}
    {hf : ∀ r, (f r).runId = r.runId} {o : OutboxRow} (hrow : row ∈ s.runs)
    (hlive : row.status.isTerminal = false) (hpub : Publishes o (f row))
    (hterminal : row.terminalJson ≠ none → (f row).terminalJson = row.terminalJson)
    (h : (s.updateRun row.runId f hf).insertEvent o = (.ok u, s')) : Change s s' := by
  obtain ⟨hfree, outbox, hins, rfl⟩ := insertEvent_ok h
  refine .published hrow hlive ?_ hins hpub hterminal
  intro x hx
  rw [← hf row, ← hpub.runId]
  exact hfree x hx

theorem change_writeTransition {row : Run} {target : FlowRunStatus}
    {error : String} {env : Env} (hrow : row ∈ s.runs) (htarget : target ∈ row.status.transitions)
    (h : s.writeTransition row target error env = (.ok u, s')) : Change s s' := by
  unfold writeTransition at h
  simp only at h
  split at h
  · next hterm =>
    rw [updateRun_updateRun] at h
    refine change_publish hrow (not_terminal_of_mem_transitions htarget) ?_ (fun _ => rfl) h
    exact ⟨rfl, rfl, fre_ne_empty _, rfl, .inl ⟨hterm.1, rfl⟩⟩
  · next hterm =>
    obtain ⟨-, rfl⟩ := Prod.mk.inj h
    refine .moved hrow (.inl htarget) rfl rfl ?_
    intro hsettled
    by_contra hnone
    exact hterm ⟨hsettled, hnone⟩

theorem change_transition (runId target error : String) (env : Env) (s : Store) :
    Change s (transition runId target error env s).2 := by
  unfold transition
  rw [thenGet_snd]
  refine closing_rel (R := Change) (.same s) ?_
  intro b s' h
  split at h
  · simp at h
  · next row hrow =>
    split at h
    · obtain ⟨-, rfl⟩ := Prod.mk.inj h
      exact .same s
    · split at h
      · simp at h
      · next t ht =>
        split at h
        · simp at h
        · exact change_writeTransition (Table.get?_mem hrow)
            (List.mem_of_find?_eq_some ht) h

theorem change_stageTerminal (runId : String) (terminal : Json) (env : Env) (s : Store) :
    Change s (stageTerminal runId terminal env s).2 := by
  unfold stageTerminal
  split
  · exact .same s
  · rw [thenGet_snd]
    refine closing_rel (R := Change) (.same s) ?_
    intro b s' h
    split at h
    · simp at h
    · next row hrow =>
      split at h
      · split at h
        · simp at h
        · obtain ⟨-, rfl⟩ := Prod.mk.inj h
          exact .same s
      · next hnone =>
        split at h
        · simp at h
        · next hstatus =>
          split at h
          · simp at h
          · refine change_publish (Table.get?_mem hrow) ?_
              ⟨rfl, rfl, fre_ne_empty _, rfl, .inr ⟨rfl, rfl⟩⟩ (absurd hnone) h
            by_cases hrun : row.status = .running
            · rw [hrun]
              rfl
            · by_cases hwait : row.status = .waiting
              · rw [hwait]
                rfl
              · exact absurd ⟨hrun, hwait⟩ hstatus

theorem change_markRecovered (runId : String) (env : Env) (s : Store) :
    Change s (markRecovered runId env s).2 := by
  unfold markRecovered
  rw [thenGet_snd]
  refine closing_rel (R := Change) (.same s) ?_
  intro b s' h
  split at h
  · simp at h
  · next row hrow =>
    split at h
    · simp at h
    · next hstatus =>
      split at h
      · simp at h
      · obtain ⟨-, rfl⟩ := Prod.mk.inj h
        rw [← Table.get?_key hrow]
        refine .moved (Table.get?_mem hrow) (.inr ⟨?_, rfl⟩) rfl rfl ?_
        · by_contra hnot
          simp only [not_or] at hnot
          exact hstatus hnot
        · intro hterm
          exact absurd hterm (by simp [isTerminal, terminals])

/-- **Inversion.** Whatever a call does to the tables is one `Change`. -/
theorem change_perform (s : Store) (op : Op) (env : Env) : Change s (s.perform op env).2 := by
  cases op with
  | create a => exact change_create a env s
  | importTerminal a status terminal terminalAt =>
    exact change_importTerminal a status terminal terminalAt s
  | importActive a status checkpoint authorizationRef inputSnapshot parameters =>
    show Change s (importActive a status checkpoint authorizationRef inputSnapshot
      parameters s).2
    unfold importActive
    split
    · exact .same s
    · split
      · exact .same s
      · split
        · exact .same s
        · exact change_liveImport ..
  | importPending a authorizationRef inputSnapshot parameters =>
    show Change s (importPending a authorizationRef inputSnapshot parameters s).2
    unfold importPending
    split
    · exact .same s
    · split
      · exact .same s
      · exact change_liveImport ..
  | transition runId target error => exact change_transition runId target error env s
  | stageTerminal runId terminal => exact change_stageTerminal runId terminal env s
  | commit runId =>
    show Change s (commit runId env s).2
    unfold commit
    split
    · exact .same s
    · split
      · exact .same s
      · exact change_transition ..
  | markRecovered runId => exact change_markRecovered runId env s
  | acknowledgeEvent eventId => exact .acknowledged (fun _ => rfl) fun _ => rfl
  | deleteImported runId importMetadata => exact change_deleteImported runId importMetadata s

/-! ## Exceptions -/

theorem rollsBack_perform (s : Store) (op : Op) (env : Env) : RollsBack s (s.perform op env) := by
  cases op with
  | create a =>
    refine RollsBack.map ?_ _
    unfold create
    split
    · exact rollsBack_same s _
    · split
      · exact rollsBack_same s _
      · split
        · exact (rollsBack_closing _ s).map _
        all_goals exact rollsBack_same s _
  | importTerminal a status terminal terminalAt =>
    refine RollsBack.map ?_ _
    unfold importTerminal
    repeat' split
    all_goals first
      | exact rollsBack_same s _
      | exact (rollsBack_closing _ s).map _
  | importActive a status checkpoint authorizationRef inputSnapshot parameters =>
    refine RollsBack.map ?_ _
    unfold importActive liveImport
    repeat' split
    all_goals first
      | exact rollsBack_same s _
      | exact (rollsBack_closing _ s).map _
  | importPending a authorizationRef inputSnapshot parameters =>
    refine RollsBack.map ?_ _
    unfold importPending liveImport
    repeat' split
    all_goals first
      | exact rollsBack_same s _
      | exact (rollsBack_closing _ s).map _
  | transition runId target error => exact ((rollsBack_closing _ s).map _).map _
  | stageTerminal runId terminal =>
    refine RollsBack.map ?_ _
    unfold stageTerminal
    split
    · exact rollsBack_same s _
    · exact (rollsBack_closing _ s).map _
  | commit runId =>
    refine RollsBack.map ?_ _
    unfold commit
    split
    · exact rollsBack_same s _
    · split
      · exact rollsBack_same s _
      · exact (rollsBack_closing _ s).map _
  | markRecovered runId => exact ((rollsBack_closing _ s).map _).map _
  | acknowledgeEvent eventId => exact (rollsBack_closing _ s).map _
  | deleteImported runId importMetadata =>
    refine RollsBack.map ?_ _
    unfold deleteImported
    split
    · exact rollsBack_same s _
    · split
      · exact rollsBack_same s _
      · exact rollsBack_closing _ s

/-! ## The invariant -/

structure Agrees (s : Store) : Prop where
  unique : ∀ o ∈ s.outbox, ∀ o' ∈ s.outbox, o.runId = o'.runId → o = o'
  published : ∀ o ∈ s.outbox, ∃ r ∈ s.runs, Publishes o r
  announced : ∀ r ∈ s.runs, r.terminalEventId ≠ none → ∃ o ∈ s.outbox, o.runId = r.runId
  /-- A live run without an event has no terminal yet. -/
  quiet : ∀ r ∈ s.runs, r.terminalEventId = none → r.status.isTerminal = false →
    r.terminalJson = none

theorem Moves.not_terminal {a : FlowRunStatus} (h : Moves a b) : a.isTerminal = false := by
  rcases h with h | ⟨rfl | rfl | rfl, -⟩
  · exact not_terminal_of_mem_transitions h
  all_goals rfl

theorem Moves.of_committing (h : Moves .committing b) : b = .completed := by
  rcases h with h | ⟨h, -⟩
  · simpa [transitions] using h
  · simp at h

theorem mem_updateRun {row : Run}
    (hf : ∀ r, (f r).runId = r.runId) (hrow : row ∈ s.runs) :
    r ∈ (s.updateRun row.runId f hf).runs ↔ r = f row ∨ r ∈ s.runs ∧ r.runId ≠ row.runId := by
  simp only [updateRun, Table.mem_update, decide_eq_true_eq]
  constructor
  · rintro ⟨x, hx, rfl⟩
    by_cases hid : x.runId = row.runId
    · rw [if_pos hid, Table.eq_of_key hx hrow hid]
      exact .inl rfl
    · rw [if_neg hid]
      exact .inr ⟨hx, hid⟩
  · rintro (rfl | ⟨hr, hid⟩)
    · exact ⟨row, hrow, by rw [if_pos rfl]⟩
    · exact ⟨r, hr, by rw [if_neg hid]⟩

theorem Publishes.moved {o : OutboxRow} {row r : Run} (h : Publishes o row)
    (hid : r.runId = row.runId) (hstatus : Moves row.status r.status)
    (hevent : r.terminalEventId = row.terminalEventId)
    (hterminal : r.terminalJson = row.terminalJson) : Publishes o r where
  runId := h.runId.trans hid.symm
  eventId := hevent.trans h.eventId
  named := h.named
  terminal := h.terminal.trans hterminal.symm
  status := by
    rcases h.status with ⟨hterm, -⟩ | ⟨hcommit, hcompleted⟩
    · rw [hstatus.not_terminal] at hterm
      exact absurd hterm (by simp)
    · rw [hcommit] at hstatus
      have hdone := hstatus.of_committing
      exact .inl ⟨by rw [hdone]; rfl, hcompleted.trans hdone.symm⟩

theorem agrees_init : Agrees {} := by
  constructor <;> simp

theorem Agrees.change (h : Agrees s) (hc : Change s s') : Agrees s' := by
  cases hc with
  | same => exact h
  | @inserted r runs hins hnew hlive =>
    refine ⟨h.unique, ?_, ?_, ?_⟩
    · intro o ho
      obtain ⟨x, hx, hpub⟩ := h.published o ho
      exact ⟨x, (Table.mem_insert? hins).mpr (.inl hx), hpub⟩
    · intro x hx hevent
      rcases (Table.mem_insert? hins).mp hx with hx | rfl
      · exact h.announced x hx hevent
      · exact absurd hnew hevent
    · intro x hx hevent hstatus
      rcases (Table.mem_insert? hins).mp hx with hx | rfl
      · exact h.quiet x hx hevent hstatus
      · exact hlive hstatus
  | @deleted runId hfree =>
    refine ⟨h.unique, ?_, ?_, ?_⟩
    · intro o ho
      obtain ⟨x, hx, hpub⟩ := h.published o ho
      have hid : x.runId ≠ runId := hpub.runId ▸ hfree o ho
      exact ⟨x, Table.mem_delete.mpr ⟨hx, by simpa using hid⟩, hpub⟩
    · intro x hx
      exact h.announced x (Table.mem_delete.mp hx).1
    · intro x hx
      exact h.quiet x (Table.mem_delete.mp hx).1
  | @moved row f hf hrow hstatus hevent hterminal hsettled =>
    refine ⟨h.unique, ?_, ?_, ?_⟩
    · intro o ho
      obtain ⟨x, hx, hpub⟩ := h.published o ho
      by_cases hid : x.runId = row.runId
      · obtain rfl := Table.eq_of_key hx hrow hid
        exact ⟨f x, (mem_updateRun hf hrow).mpr (.inl rfl),
          hpub.moved (hf x) hstatus hevent hterminal⟩
      · exact ⟨x, (mem_updateRun hf hrow).mpr (.inr ⟨hx, hid⟩), hpub⟩
    · intro x hx hsome
      rcases (mem_updateRun hf hrow).mp hx with rfl | ⟨hx, -⟩
      · rw [hf]
        exact h.announced row hrow (hevent ▸ hsome)
      · exact h.announced x hx hsome
    · intro x hx hnone hlive
      rcases (mem_updateRun hf hrow).mp hx with rfl | ⟨hx, -⟩
      · rw [hterminal]
        exact h.quiet row hrow (hevent ▸ hnone) hstatus.not_terminal
      · exact h.quiet x hx hnone hlive
  | @published row f hf o outbox hrow hlive hfree hins hpub hterminal =>
    have hrun : o.runId = row.runId := hpub.runId.trans (hf row)
    refine ⟨?_, ?_, ?_, ?_⟩
    · intro a ha b hb hab
      rcases (Table.mem_insert? hins).mp ha with ha | rfl
      · rcases (Table.mem_insert? hins).mp hb with hb | rfl
        · exact h.unique a ha b hb hab
        · exact absurd (hab.trans hrun) (hfree a ha)
      · rcases (Table.mem_insert? hins).mp hb with hb | rfl
        · exact absurd (hab.symm.trans hrun) (hfree b hb)
        · rfl
    · intro a ha
      rcases (Table.mem_insert? hins).mp ha with ha | rfl
      · obtain ⟨x, hx, hpubx⟩ := h.published a ha
        have hid : x.runId ≠ row.runId := hpubx.runId ▸ hfree a ha
        exact ⟨x, (mem_updateRun hf hrow).mpr (.inr ⟨hx, hid⟩), hpubx⟩
      · exact ⟨f row, (mem_updateRun hf hrow).mpr (.inl rfl), hpub⟩
    · intro x hx hsome
      rcases (mem_updateRun hf hrow).mp hx with rfl | ⟨hx, -⟩
      · exact ⟨o, (Table.mem_insert? hins).mpr (.inr rfl), hpub.runId⟩
      · obtain ⟨a, ha, hid⟩ := h.announced x hx hsome
        exact ⟨a, (Table.mem_insert? hins).mpr (.inl ha), hid⟩
    · intro x hx hnone hstatus
      rcases (mem_updateRun hf hrow).mp hx with rfl | ⟨hx, -⟩
      · rw [hpub.eventId] at hnone
        exact absurd hnone (by simp)
      · exact h.quiet x hx hnone hstatus
  | @acknowledged p f hf hrun hevent =>
    have hsame : ∀ a : OutboxRow, (if p a then f a else a).runId = a.runId := by
      intro a
      split
      · exact hrun a
      · rfl
    refine ⟨?_, ?_, ?_, h.quiet⟩
    · intro a ha b hb hab
      obtain ⟨x, hx, rfl⟩ := (Table.mem_update hf).mp ha
      obtain ⟨y, hy, rfl⟩ := (Table.mem_update hf).mp hb
      rw [hsame, hsame] at hab
      rw [h.unique x hx y hy hab]
    · intro a ha
      obtain ⟨x, hx, rfl⟩ := (Table.mem_update hf).mp ha
      obtain ⟨r, hr, hpub⟩ := h.published x hx
      refine ⟨r, hr, ?_⟩
      split
      · exact ⟨(hrun x).trans hpub.runId, by rw [hf]; exact hpub.eventId,
          by rw [hf]; exact hpub.named, by rw [hevent]; exact hpub.terminal,
          by rw [hevent]; exact hpub.status⟩
      · exact hpub
    · intro r hr hsome
      obtain ⟨x, hx, hid⟩ := h.announced r hr hsome
      exact ⟨_, Table.mem_update_of_mem hf hx, (hsame x).trans hid⟩

theorem step_change {c : Op × Env} (h : step s c = some s') : Change s s' := by
  obtain rfl := Option.some.inj h
  exact change_perform s c.1 c.2

theorem agrees_of_reach (hs : Reach step {} s) : Agrees s := by
  refine hs.invariant Agrees ?_ agrees_init
  intro t c u ht _ hstep
  exact ht.change (step_change hstep)

/-! ## What stays -/

/-- A terminal once set and a terminal status stay as they are. -/
structure Keeps (r r' : Run) : Prop where
  terminal : r.terminalJson ≠ none → r'.terminalJson = r.terminalJson
  status : r.status.isTerminal → r'.status = r.status

theorem Keeps.refl (r : Run) : Keeps r r := ⟨fun _ => rfl, fun _ => rfl⟩

theorem Keeps.trans {a b c : Run} (h : Keeps a b) (h' : Keeps b c) : Keeps a c where
  terminal hset := by
    have hb := h.terminal hset
    exact (h'.terminal (hb ▸ hset)).trans hb
  status hterm := by
    have hb := h.status hterm
    exact (h'.status (hb ▸ hterm)).trans hb

/-- Two states of one row: kept, and if it became terminal then under an event. -/
theorem Change.row (hc : Change s s') {r' : Run} (hr : r ∈ s.runs)
    (hr' : r' ∈ s'.runs) (hid : r'.runId = r.runId) :
    Keeps r r' ∧
      (r.status.isTerminal = false → r'.status.isTerminal → r'.terminalEventId ≠ none) := by
  -- a row that the call left alone
  have hsame : ∀ x ∈ s.runs, x.runId = r.runId → Keeps r x ∧
      (r.status.isTerminal = false → x.status.isTerminal → x.terminalEventId ≠ none) := by
    intro x hx hxid
    obtain rfl := Table.eq_of_key hx hr hxid
    exact ⟨.refl x, fun hlive hterm => absurd hterm (by simp [hlive])⟩
  cases hc with
  | same => exact hsame r' hr' hid
  | inserted hins _ _ =>
    rcases (Table.mem_insert? hins).mp hr' with hr' | rfl
    · exact hsame r' hr' hid
    · have hfree := (Table.insert?_eq_some hins).1
      rw [hid, Table.get?_of_mem hr] at hfree
      exact absurd hfree (by simp)
  | deleted _ => exact hsame r' (Table.mem_delete.mp hr').1 hid
  | @moved row f hf hrow hstatus hevent hterminal hsettled =>
    rcases (mem_updateRun hf hrow).mp hr' with rfl | ⟨hr', -⟩
    · obtain rfl := Table.eq_of_key hr hrow (hid.symm.trans (hf row))
      refine ⟨⟨fun _ => hterminal, ?_⟩, ?_⟩
      · intro hterm
        exact absurd hterm (by simp [hstatus.not_terminal])
      · intro _ hterm
        have hset := hsettled hterm
        rw [hevent]
        intro hnone
        simp [hnone, truthy] at hset
    · exact hsame r' hr' hid
  | @published row f hf o outbox hrow hlive hfree hins hpub hterminal =>
    rcases (mem_updateRun hf hrow).mp hr' with rfl | ⟨hr', -⟩
    · obtain rfl := Table.eq_of_key hr hrow (hid.symm.trans (hf row))
      refine ⟨⟨hterminal, ?_⟩, ?_⟩
      · intro hterm
        exact absurd hterm (by simp [hlive])
      · intro _ _
        rw [hpub.eventId]
        simp
    · exact hsame r' hr' hid
  | acknowledged _ _ => exact hsame r' hr' hid

theorem Change.event (hc : Change s s') {runId : String}
    (h : ∃ o ∈ s.outbox, o.runId = runId) : ∃ o ∈ s'.outbox, o.runId = runId := by
  obtain ⟨o, ho, hid⟩ := h
  cases hc with
  | same => exact ⟨o, ho, hid⟩
  | inserted => exact ⟨o, ho, hid⟩
  | deleted => exact ⟨o, ho, hid⟩
  | moved => exact ⟨o, ho, hid⟩
  | published _ _ _ hins => exact ⟨o, (Table.mem_insert? hins).mpr (.inl ho), hid⟩
  | @acknowledged p f hf hrun _ =>
    refine ⟨_, Table.mem_update_of_mem hf ho, ?_⟩
    split
    · exact (hrun o).trans hid
    · exact hid

theorem row_of_reach {t : Store} (hs : Agrees s) (hr : r ∈ s.runs)
    (hevent : ∃ o ∈ s.outbox, o.runId = r.runId) (hst : Reach step s t) :
    ∃ r' ∈ t.runs, r'.runId = r.runId ∧ Keeps r r' ∧ ∃ o ∈ t.outbox, o.runId = r.runId := by
  have hinv := hst.invariant
    (fun t => Agrees t ∧ ∃ r' ∈ t.runs, r'.runId = r.runId ∧ Keeps r r' ∧
      ∃ o ∈ t.outbox, o.runId = r.runId) ?_ ⟨hs, r, hr, rfl, .refl r, hevent⟩
  · exact hinv.2
  · rintro a c b ⟨ha, r₁, hr₁, hid₁, hkeeps, hev⟩ - hstep
    have hc := step_change hstep
    obtain ⟨o, ho, hoid⟩ := hc.event hev
    have hb := ha.change hc
    obtain ⟨r₂, hr₂, hpub⟩ := hb.published o ho
    have hid₂ : r₂.runId = r.runId := hpub.runId.symm.trans hoid
    have hrow := hc.row hr₁ hr₂ (hid₂.trans hid₁.symm)
    exact ⟨hb, r₂, hr₂, hid₂, hkeeps.trans hrow.1, o, ho, hoid⟩

/-! ## Whole runs of the store -/

/-- The outbox and the runs agree after every sequence of calls: a run has at most one event;
a run that a call took from a live to a terminal status keeps that status and has exactly one
event ever after, with its status and its terminal; while a row exists, a terminal once set
and a terminal status never change; and a call that raises changes nothing. -/
theorem outbox_agrees {s : Store} (hs : Reach step {} s) :
    (∀ o ∈ s.outbox, ∀ o' ∈ s.outbox, o.runId = o'.runId → o = o') ∧
    (∀ op env r r', r ∈ s.runs → r.status.isTerminal = false →
      r' ∈ (s.perform op env).2.runs → r'.runId = r.runId → r'.status.isTerminal →
      ∀ t, Reach step (s.perform op env).2 t → ∃ r'' ∈ t.runs, r''.runId = r.runId ∧
        r''.status = r'.status ∧
        ∃ o ∈ t.outbox, o.runId = r.runId ∧ (∀ x ∈ t.outbox, x.runId = r.runId → x = o) ∧
          o.eventJson.status = r''.status ∧ o.eventJson.terminal = r''.terminalJson) ∧
    (∀ r ∈ s.runs, ∀ t,
      Runs step (fun s c => ((s.perform c.1 c.2).2.runs.get? r.runId).isSome) s t →
      ∃ r' ∈ t.runs, r'.runId = r.runId ∧
        (r.terminalJson ≠ none → r'.terminalJson = r.terminalJson) ∧
        (r.status.isTerminal → r'.status = r.status)) ∧
    (∀ op env e, (s.perform op env).1 = .error e → (s.perform op env).2 = s) := by
  have hagrees := agrees_of_reach hs
  refine ⟨hagrees.unique, ?_, ?_, ?_⟩
  · intro op env r r' hr hlive hr' hid hterm t ht
    have hc := change_perform s op env
    have hevent := hagrees.change hc
    obtain ⟨-, hnamed⟩ := hc.row hr hr' hid
    have hann := hevent.announced r' hr' (hnamed hlive hterm)
    obtain ⟨r₂, hr₂, hid₂, hkeeps, o, ho, hoid⟩ := row_of_reach hevent hr' hann ht
    have hend : Agrees t := agrees_of_reach ((hs.snoc (a := (op, env)) trivial rfl).trans ht)
    obtain ⟨x, hx, hpub⟩ := hend.published o ho
    obtain rfl := Table.eq_of_key hx hr₂ (hpub.runId.symm.trans (hoid.trans hid₂.symm))
    have hstatus := hkeeps.status hterm
    refine ⟨x, hx, hid₂.trans hid, hstatus, o, ho, hoid.trans hid, ?_, ?_, hpub.terminal⟩
    · intro y hy hyid
      exact hend.unique y hy o ho (hyid.trans (hoid.trans hid).symm)
    · rcases hpub.status with ⟨-, h⟩ | ⟨hcommit, -⟩
      · exact h
      · rw [hstatus] at hcommit
        rw [hcommit] at hterm
        exact absurd hterm (by decide)
  · intro r hr t ht
    -- the guard keeps the row in place, so one row is followed through the whole run
    have hinv := ht.invariant (fun t => ∃ r' ∈ t.runs, r'.runId = r.runId ∧ Keeps r r') ?_
      ⟨r, hr, rfl, .refl r⟩
    · obtain ⟨r', hr', hid, hkeeps⟩ := hinv
      exact ⟨r', hr', hid, hkeeps.terminal, hkeeps.status⟩
    · rintro a c b ⟨r₁, hr₁, hid₁, hkeeps⟩ hok hstep
      have hc := step_change hstep
      obtain rfl := Option.some.inj hstep
      obtain ⟨r₂, hget⟩ := Option.isSome_iff_exists.mp hok
      have hid₂ := Table.get?_key hget
      have hrow := hc.row hr₁ (Table.get?_mem hget) (hid₂.trans hid₁.symm)
      exact ⟨r₂, Table.get?_mem hget, hid₂, hkeeps.trans hrow.1⟩
  · intro op env e h
    exact rollsBack_perform s op env e h

/-- A run that was created, started and staged, and waits for its commit. -/
def stagedRun : Store :=
  [(Op.create
      { userId := "u", conversationId := "c", runId := "r", instanceId := "i"
        flowRef := ⟨"flow", "p.f:1", "global", none, none, none, none, "d", "src"⟩
        authorization := .obj [], executionAuthority := .obj [], inputSnapshot := .obj []
        parameters := .obj [] }, Env.mk 1 "e" "" (.ok ())),
    (.transition "r" "starting" "", ⟨2, "e", "", .ok ()⟩),
    (.transition "r" "running" "", ⟨3, "e", "", .ok ()⟩),
    (.stageTerminal "r" (.obj [("answer", .int 42)]), ⟨4, "e", "", .ok ()⟩)].foldl
    (fun s c => (s.perform c.1 c.2).2) {}

theorem outbox_agrees_committed :
    ∃ r ∈ (stagedRun.perform (.commit "r") ⟨5, "f", "", .ok ()⟩).2.runs, r.runId = "r" ∧
      r.status = .completed ∧
      ∃ o ∈ (stagedRun.perform (.commit "r") ⟨5, "f", "", .ok ()⟩).2.outbox,
        o.runId = "r" ∧ o.eventJson.status = .completed ∧
          o.eventJson.terminal = r.terminalJson := by
  have hreach : Reach step {} stagedRun := reach_foldl (fun _ _ => rfl) _ _
  have hbefore : (stagedRun.runs.get? "r").map Run.status = some .committing := by
    decide +kernel
  have hafter : ((stagedRun.perform (.commit "r") ⟨5, "f", "", .ok ()⟩).2.runs.get? "r").map
      Run.status = some .completed := by
    decide +kernel
  obtain ⟨r, hget, hstatus⟩ := Option.map_eq_some_iff.mp hbefore
  obtain ⟨r', hget', hstatus'⟩ := Option.map_eq_some_iff.mp hafter
  obtain ⟨r₂, hr₂, hid₂, hsame, o, ho, hoid, -, hostatus, hoterm⟩ :=
    (outbox_agrees hreach).2.1 (.commit "r") ⟨5, "f", "", .ok ()⟩ r r' (Table.get?_mem hget)
      (by rw [hstatus]; rfl) (Table.get?_mem hget')
      ((Table.get?_key hget').trans (Table.get?_key hget).symm) (by rw [hstatus']; rfl) _
      (.refl _)
  have hid := Table.get?_key hget
  exact ⟨r₂, hr₂, hid₂.trans hid, hsame.trans hstatus', o, ho, hoid.trans hid,
    hostatus.trans (hsame.trans hstatus'), hoterm⟩

end Store

end PawFlow.FlowRun
