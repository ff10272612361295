import PawFlow.Agui.Fencing

/-!
# Admissions and the journal agree

An admission is over exactly with the outcome its journal run ended with, and the journal of
a run that was not pruned holds the sequences `1..committed_sequence`, the last one being the
terminal event if the run is over. The terminal event may be written by an append, by the
quota, by `finish_agui_turn`, by a cancellation or by the orphan sweep; whoever comes later
adopts the outcome it finds.
-/

namespace PawFlow.Agui

open PawFlow.Lib

namespace State

/-- The stored events of a run, in the order they were written. -/
def events (s : State) (k : RunKey) : List JournalRow :=
  s.journal.rows.filter fun j => j.runKey = k

/-- What a run row says about the events stored for it. -/
structure Stored (r : Run) (events : List JournalRow) : Prop where
  seqs : r.replayWatermark = 0 → events.map JournalRow.seq = List.range' 1 r.committedSequence
  eventCount : r.replayWatermark = 0 → r.eventCount = events.length
  byteCount : r.replayWatermark = 0 →
    r.byteCount = (events.map fun j => j.eventJson.utf8ByteSize).sum
  last : ∀ j ∈ events, (j.terminal ↔ r.terminal ∧ j.seq = r.committedSequence)
  pruned : r.replayWatermark ≠ 0 →
    events = [] ∧ r.terminal ∧ r.replayWatermark = r.committedSequence
  ended : r.terminal → 0 < r.committedSequence

structure Agrees (s : State) : Prop where
  admission : ∀ k a, s.admissions.get? k = some a → ∃ r, s.runs.get? k = some r ∧
    (a.isActive = false → r.terminal ∧ r.outcome = a.outcome)
  journal : ∀ j ∈ s.journal, (s.runs.get? j.runKey).isSome
  stored : ∀ k r, s.runs.get? k = some r → Stored r (s.events k)

/-- The end of a run is final. -/
def Settled (s t : State) : Prop :=
  ∀ k r, s.runs.get? k = some r → r.terminal →
    (∃ r', t.runs.get? k = some r' ∧ r'.terminal ∧ r'.outcome = r.outcome ∧
      r'.committedSequence = r.committedSequence) ∨ t.Closed k.1

theorem Settled.of_eq {s t : State} (hruns : t.runs = s.runs) : Settled s t := by
  intro k r hr hterminal
  rw [hruns]
  exact .inl ⟨r, hr, hterminal, rfl, rfl⟩

variable {s : State}

theorem Agrees.congr {t : State} (h : Agrees s) (hadmissions : t.admissions = s.admissions)
    (hruns : t.runs = s.runs) (hjournal : t.journal = s.journal) : Agrees t := by
  constructor
  · rw [hadmissions, hruns]
    exact h.admission
  · rw [hjournal, hruns]
    exact h.journal
  · unfold events
    rw [hjournal, hruns]
    exact h.stored

variable {k : RunKey} {f : Run → Run}

theorem events_eq_nil (h : Agrees s) (hk : s.runs.get? k = none) : s.events k = [] := by
  unfold events
  rw [List.filter_eq_nil_iff]
  intro j hj hkey
  have hrun := h.journal j hj
  rw [of_decide_eq_true hkey, hk] at hrun
  cases hrun

theorem get?_updateRun (hf : ∀ r, (f r).key = r.key) (k' : RunKey) :
    (s.updateRun k f hf).runs.get? k' =
      if k' = k then (s.runs.get? k').map f else s.runs.get? k' :=
  s.runs.get?_update_at f hf k k'

/-! ## Events -/

theorem Agrees.opened (h : Agrees s) (k : RunKey) (now : Time) :
    Agrees { s with
      runs := s.runs.insertIgnore { contextId := k.1, runId := k.2, updatedAt := now } } := by
  have hkept : ∀ k' r, s.runs.get? k' = some r → (s.runs.insertIgnore
      { contextId := k.1, runId := k.2, updatedAt := now }).get? k' = some r := by
    intro k' r hr
    simp [Table.get?_insertIgnore, hr]
  constructor
  · intro k' a ha
    obtain ⟨r, hr, hover⟩ := h.admission k' a ha
    exact ⟨r, hkept k' r hr, hover⟩
  · intro j hj
    obtain ⟨r, hr⟩ := Option.isSome_iff_exists.mp (h.journal j hj)
    show (Table.get? _ _).isSome
    rw [hkept _ r hr]
    rfl
  · intro k' r hr
    rw [Table.get?_insertIgnore, Option.or_eq_some_iff] at hr
    rcases hr with hr | ⟨hnone, hr⟩
    · exact h.stored k' r hr
    · split at hr
      · obtain rfl := Option.some.inj hr
        show Stored _ (s.events k')
        rw [events_eq_nil h hnone]
        exact ⟨fun _ => rfl, fun _ => rfl, fun _ => rfl, by simp, by simp, by simp⟩
      · cases hr

variable {r : Run}

theorem Stored.append {events : List JournalRow} (h : Stored r events)
    (hactive : r.terminal = false) (eventJson outcome : String) (terminal : Bool) (now : Time) :
    Stored (advance eventJson outcome terminal now r)
      (events ++ [⟨r.contextId, r.runId, r.committedSequence + 1, eventJson, terminal⟩]) := by
  have hkept : r.replayWatermark = 0 := by
    by_contra hpruned
    have := (h.pruned hpruned).2.1
    rw [hactive] at this
    cases this
  have hlast : ∀ j ∈ events, j.seq ≤ r.committedSequence := by
    intro j hj
    have hseq : j.seq ∈ events.map JournalRow.seq := List.mem_map_of_mem hj
    rw [h.seqs hkept, List.mem_range'_1] at hseq
    omega
  constructor
  · intro _
    rw [List.map_append, h.seqs hkept]
    show _ = List.range' 1 (r.committedSequence + 1)
    rw [List.range'_concat]
    simp [Nat.add_comm]
  · intro _
    show r.eventCount + 1 = _
    simp [h.eventCount hkept]
  · intro _
    show r.byteCount + eventJson.utf8ByteSize = _
    simp [h.byteCount hkept]
  · intro j hj
    rcases List.mem_append.mp hj with hj | hj
    · -- the events before this one ended nothing, and are not the last one any more
      have hnot : j.terminal = false := by
        by_contra hterminal
        have := ((h.last j hj).mp (by simpa using hterminal)).1
        rw [hactive] at this
        cases this
      have hle := hlast j hj
      rw [hnot]
      constructor
      · intro hfalse
        cases hfalse
      · rintro ⟨-, hseq⟩
        have hseq : j.seq = r.committedSequence + 1 := hseq
        omega
    · rw [List.mem_singleton] at hj
      subst hj
      exact ⟨fun hterminal => ⟨hterminal, rfl⟩, fun hboth => hboth.1⟩
  · intro hpruned
    exact absurd hkept hpruned
  · intro _
    exact Nat.succ_pos _

theorem Agrees.wrote (h : Agrees s) {eventJson : String} (outcome : String)
    {terminal : Bool} (now : Time) {journal : Table (RunKey × Nat) JournalRow JournalRow.key}
    (hr : s.runs.get? k = some r) (hactive : r.terminal = false)
    (hins : s.journal.insert? ⟨r.contextId, r.runId, r.committedSequence + 1, eventJson, terminal⟩ =
      some journal) :
    Agrees ({ s with journal }.updateRun k (advance eventJson outcome terminal now)
      (advance_key eventJson outcome terminal now)) := by
  have hkey : r.key = k := Table.get?_key hr
  have hruns : ∀ k', ({ s with journal }.updateRun k (advance eventJson outcome terminal now)
      (advance_key eventJson outcome terminal now)).runs.get? k' =
      if k' = k then (s.runs.get? k').map (advance eventJson outcome terminal now)
      else s.runs.get? k' := get?_updateRun (s := { s with journal }) _
  have hsome : ∀ k', (s.runs.get? k').isSome →
      (({ s with journal }.updateRun k (advance eventJson outcome terminal now)
        (advance_key eventJson outcome terminal now)).runs.get? k').isSome := by
    intro k' hk'
    rw [hruns]
    split
    · rw [Option.isSome_map]
      exact hk'
    · exact hk'
  constructor
  · intro k' a ha
    obtain ⟨r', hr', hover⟩ := h.admission k' a ha
    rw [hruns]
    by_cases hk : k' = k
    · rw [if_pos hk, hr']
      refine ⟨_, rfl, ?_⟩
      intro hended
      -- the admission of an active run is active
      rw [hk, hr] at hr'
      obtain rfl := Option.some.inj hr'
      have := (hover hended).1
      rw [hactive] at this
      cases this
    · rw [if_neg hk]
      exact ⟨r', hr', hover⟩
  · intro j hj
    rcases (Table.mem_insert? hins).mp hj with hj | rfl
    · exact hsome _ (h.journal j hj)
    · refine hsome _ ?_
      show (s.runs.get? r.key).isSome
      rw [hkey, hr]
      rfl
  · intro k' r' hr'
    rw [hruns] at hr'
    have hevents : ∀ k'', List.filter (fun j : JournalRow => decide (j.runKey = k'')) journal.rows =
        s.events k'' ++ if r.key = k'' then
          [⟨r.contextId, r.runId, r.committedSequence + 1, eventJson, terminal⟩] else [] := by
      intro k''
      rw [Table.insert?_rows hins, List.filter_append]
      congr 1
      by_cases hk : r.key = k'' <;> simp [hk]
    show Stored r' (List.filter _ journal.rows)
    rw [hevents]
    split at hr'
    · next hk =>
      subst hk
      rw [hr] at hr'
      obtain rfl := Option.some.inj hr'
      rw [if_pos hkey]
      exact (h.stored k' r hr).append hactive eventJson outcome terminal now
    · next hk =>
      rw [if_neg (by rw [hkey]; exact fun e => hk e.symm), List.append_nil]
      exact h.stored k' r' hr'

theorem Agrees.subscribed (h : Agrees s) (k : RunKey) (now : Time) :
    Agrees (s.updateRun k (subscribedRun now) (subscribedRun_key now)) := by
  have hruns : ∀ k', (s.updateRun k (subscribedRun now) (subscribedRun_key now)).runs.get? k' =
      if k' = k then (s.runs.get? k').map (subscribedRun now) else s.runs.get? k' :=
    get?_updateRun _
  constructor
  · intro k' a ha
    obtain ⟨r, hr, hover⟩ := h.admission k' a ha
    rw [hruns, hr]
    split
    · exact ⟨subscribedRun now r, rfl, hover⟩
    · exact ⟨r, rfl, hover⟩
  · intro j hj
    rw [hruns]
    split
    · rw [Option.isSome_map]
      exact h.journal j hj
    · exact h.journal j hj
  · intro k' r' hr'
    rw [hruns] at hr'
    split at hr'
    · obtain ⟨r, hr, rfl⟩ := Option.map_eq_some_iff.mp hr'
      have hstored := h.stored k' r hr
      exact ⟨hstored.seqs, hstored.eventCount, hstored.byteCount, hstored.last, hstored.pruned,
        hstored.ended⟩
    · exact h.stored k' r' hr'

theorem Agrees.pruned (h : Agrees s) (cutoff now : Time) :
    Agrees { s with
      journal := s.journal.delete fun j => (s.runs.get? j.runKey).any (prunable cutoff)
      runs := s.runs.update (prunable cutoff) (prunedRun now) (prunedRun_key now) } := by
  have hruns : ∀ k, (s.runs.update (prunable cutoff) (prunedRun now) (prunedRun_key now)).get? k =
      (s.runs.get? k).map fun r => if prunable cutoff r then prunedRun now r else r :=
    s.runs.get?_update _ _ _
  constructor
  · intro k a ha
    obtain ⟨r, hr, hover⟩ := h.admission k a ha
    refine ⟨if prunable cutoff r then prunedRun now r else r, ?_, ?_⟩
    · show Table.get? _ k = _
      rw [hruns, hr]
      rfl
    · split
      · exact hover
      · exact hover
  · intro j hj
    obtain ⟨hj, -⟩ := Table.mem_delete.mp hj
    show (Table.get? _ j.runKey).isSome
    rw [hruns, Option.isSome_map]
    exact h.journal j hj
  · intro k r' hr'
    have hr' : (s.runs.update (prunable cutoff) (prunedRun now) (prunedRun_key now)).get? k =
        some r' := hr'
    rw [hruns] at hr'
    obtain ⟨r, hr, rfl⟩ := Option.map_eq_some_iff.mp hr'
    -- the events of a run are deleted all at once or not at all
    have hevents : (s.journal.rows.filter fun j =>
        !(s.runs.get? j.runKey).any (prunable cutoff)).filter (fun j => decide (j.runKey = k)) =
        if prunable cutoff r then [] else s.events k := by
      rw [List.filter_filter]
      split
      · next hp =>
        rw [List.filter_eq_nil_iff]
        intro j _ hj
        simp only [Bool.and_eq_true, decide_eq_true_eq] at hj
        rw [hj.1, hr] at hj
        simp [hp] at hj
      · next hp =>
        apply List.filter_congr
        intro j _
        by_cases hk : j.runKey = k
        · rw [hk, hr]
          simp [hp]
        · simp [hk]
    show Stored _ (List.filter _ (List.filter _ s.journal.rows))
    rw [hevents]
    have hstored := h.stored k r hr
    split
    · next hp =>
      simp only [prunable, decide_eq_true_eq] at hp
      refine ⟨?_, ?_, ?_, by simp, fun _ => ⟨rfl, hp.1, rfl⟩, hstored.ended⟩
      all_goals
        intro hzero
        have hzero : r.committedSequence = 0 := hzero
        omega
    · exact hstored

theorem get?_runs_dropContext (c : ContextId) (k : RunKey) :
    (s.dropContext c).runs.get? k = if k.1 = c then none else s.runs.get? k :=
  s.runs.get?_delete_keys (fun k => k.1 = c) k

/-- A context goes with its runs and their journals. -/
theorem Agrees.dropped (h : Agrees s) (c : ContextId) : Agrees (s.dropContext c) := by
  constructor
  · intro k a ha
    rw [get?_admissions_dropContext] at ha
    split at ha
    · cases ha
    next hne =>
    rw [get?_runs_dropContext, if_neg hne]
    exact h.admission k a ha
  · intro j hj
    obtain ⟨hj, hne⟩ := Table.mem_delete.mp hj
    rw [get?_runs_dropContext, if_neg (of_decide_eq_false hne)]
    exact h.journal j hj
  · intro k r hr
    rw [get?_runs_dropContext] at hr
    split at hr
    · cases hr
    next hne =>
    have hevents : (s.dropContext c).events k = s.events k := by
      show List.filter _ (List.filter _ s.journal.rows) = List.filter _ s.journal.rows
      rw [List.filter_filter]
      apply List.filter_congr
      intro j _
      by_cases hk : j.runKey = k
      · have hc : j.contextId ≠ c := by
          rintro rfl
          exact hne (by rw [← hk])
        simp [hc]
      · simp [hk]
    rw [hevents]
    exact h.stored k r hr

/-! ## Admissions -/

theorem Agrees.moved (h : Agrees s) {k : RunKey} {f : Admission → Admission}
    (hf : ∀ a, (f a).key = a.key) {a : Admission} (ha : s.admissions.get? k = some a)
    (hmoves : Moves a (f a)) : Agrees (s.updateAdmission k f hf) := by
  refine ⟨?_, h.journal, h.stored⟩
  intro k' b hb
  rw [get?_updateAdmission] at hb
  split at hb
  · next hk =>
    rw [hk, ha] at hb
    obtain rfl := Option.some.inj hb
    obtain ⟨r, hr, -⟩ := h.admission k a ha
    refine ⟨r, hk ▸ hr, ?_⟩
    intro hended
    rw [hmoves.after] at hended
    cases hended
  · exact h.admission k' b hb

theorem Agrees.left (h : Agrees s) (state : AdmissionState)
    (hr : s.runs.get? k = some r) (hterminal : r.terminal) :
    Agrees (s.exitLease k state r.outcome) := by
  refine ⟨?_, h.journal, h.stored⟩
  intro k' b hb
  rw [get?_admissions_exitLease] at hb
  split at hb
  · next hk =>
    obtain ⟨a, -, rfl⟩ := Option.map_eq_some_iff.mp hb
    exact ⟨r, hk ▸ hr, fun _ => ⟨hterminal, rfl⟩⟩
  · exact h.admission k' b hb

variable {a : AcquireArgs}

theorem Agrees.admitted (h : Agrees s) {token : Nat} {now : Time}
    {admissions : Table RunKey Admission Admission.key} (hrun : (s.runs.get? a.key).isSome)
    (hins : s.admissions.insert? (a.admission token now) = some admissions) :
    Agrees { s with admissions } := by
  refine ⟨?_, h.journal, h.stored⟩
  intro k b hb
  obtain ⟨-, hget⟩ := Table.insert?_eq_some hins
  have hb : admissions.get? k = some b := hb
  rw [hget] at hb
  split at hb
  · next hk =>
    obtain rfl := Option.some.inj hb
    obtain ⟨r, hr⟩ := Option.isSome_iff_exists.mp hrun
    refine ⟨r, hk ▸ hr, ?_⟩
    intro hended
    cases hended
  · exact h.admission k b hb

/-! ## Runs -/

variable {G : State → Op → Prop} {mac : Mac} {t : State}

theorem agrees_init : Agrees init where
  admission _ _ h := by cases h
  journal _ h := by cases h
  stored _ _ h := by cases h

theorem settled_advance (hf : ∀ r, (f r).key = r.key)
    (hr : s.runs.get? k = some r) (hactive : r.terminal = false) (hruns : t.runs =
      (s.updateRun k f hf).runs) : Settled s t := by
  intro k' r' hr' hterminal
  left
  rw [hruns, get?_updateRun, if_neg]
  · exact ⟨r', hr', hterminal, rfl, rfl⟩
  · rintro rfl
    rw [hr] at hr'
    obtain rfl := Option.some.inj hr'
    rw [hactive] at hterminal
    cases hterminal

theorem settled_subscribed (k : RunKey) (now : Time) :
    Settled s (s.updateRun k (subscribedRun now) (subscribedRun_key now)) := by
  intro k' r hr hterminal
  left
  rw [get?_updateRun, hr]
  split
  · exact ⟨subscribedRun now r, rfl, hterminal, rfl, rfl⟩
  · exact ⟨r, rfl, hterminal, rfl, rfl⟩

theorem settled_pruned (cutoff now : Time)
    (hruns : t.runs = s.runs.update (prunable cutoff) (prunedRun now) (prunedRun_key now)) :
    Settled s t := by
  intro k r hr hterminal
  refine .inl ⟨if prunable cutoff r then prunedRun now r else r, ?_, ?_⟩
  · rw [hruns, Table.get?_update, hr]
    rfl
  · split <;> exact ⟨hterminal, rfl, rfl⟩

theorem Agrees.change (h : Agrees s) (hc : Change G s t) : Agrees t ∧ Settled s t := by
  cases hc with
  | rotated k row marker close hrow _ =>
    refine ⟨(h.dropped ⟨k, row.generation⟩).congr rfl rfl rfl, ?_⟩
    intro k' r hr hterminal
    by_cases hk : k'.1 = ⟨k, row.generation⟩
    · exact .inr (hk ▸ closed_rotated marker close hrow)
    · rw [get?_runs_dropContext, if_neg hk]
      exact .inl ⟨r, hr, hterminal, rfl, rfl⟩
  | opened k now _ =>
    refine ⟨h.opened k now, ?_⟩
    intro k' r hr hterminal
    refine .inl ⟨r, ?_, hterminal, rfl, rfl⟩
    simp [Table.get?_insertIgnore, hr]
  | subscribed k now => exact ⟨h.subscribed k now, settled_subscribed k now⟩
  | wrote r eventJson outcome terminal now journal hmem hactive _ hins =>
    have hr := Table.get?_of_mem hmem
    exact ⟨h.wrote outcome now hr hactive hins, settled_advance _ hr hactive rfl⟩
  | pruned cutoff now => exact ⟨h.pruned cutoff now, settled_pruned cutoff now rfl⟩
  | admitted a now u admissions _ _ hrun _ hbinds hins =>
    have hu := h.admitted hrun hins
    cases hbinds <;> exact ⟨hu.congr rfl rfl rfl, .of_eq rfl⟩
  | moved k f hf a ha hmoves => exact ⟨h.moved hf ha hmoves, .of_eq rfl⟩
  | left k state a r _ _ hr hterminal _ =>
    exact ⟨(h.left state hr hterminal).congr rfl rfl rfl, .of_eq rfl⟩
  | froze k draw version deadline eventJson now a r batches journal ha hrunning hr hactive _ _ _ _
      _ hins =>
      have hu := h.wrote "success" now hr hactive hins
      have hr' : ({ s with journal }.updateRun k (advance eventJson "success" true now)
          (advance_key eventJson "success" true now)).runs.get? k =
          some (advance eventJson "success" true now r) := by
        rw [get?_updateRun, if_pos rfl]
        exact congrArg (Option.map _) hr
      exact ⟨(hu.left .terminal hr' rfl).congr rfl rfl rfl,
        settled_advance (advance_key eventJson "success" true now) hr hactive rfl⟩
  | _ => exact ⟨h.congr rfl rfl rfl, .of_eq rfl⟩

/-- A run belongs to a context that exists. -/
def RunsLive (s : State) : Prop := ∀ k r, s.runs.get? k = some r → s.Live k.1

theorem RunsLive.of_runs (h : RunsLive s) (hcontexts : ∀ c, s.Live c → t.Live c)
    (hruns : ∀ k r, t.runs.get? k = some r → (s.runs.get? k).isSome) : RunsLive t := by
  intro k r hr
  obtain ⟨r', hr'⟩ := Option.isSome_iff_exists.mp (hruns k r hr)
  exact hcontexts k.1 (h k r' hr')

theorem RunsLive.congr (h : RunsLive s) (hcontexts : t.contexts = s.contexts)
    (hruns : t.runs = s.runs) : RunsLive t := by
  unfold RunsLive Live
  rw [hcontexts, hruns]
  exact h

theorem RunsLive.update (h : RunsLive s) {p : Run → Bool}
    (hf : ∀ r, (f r).key = r.key) (hcontexts : t.contexts = s.contexts)
    (hruns : t.runs = s.runs.update p f hf) : RunsLive t := by
  refine h.of_runs (by unfold Live; rw [hcontexts]; exact fun _ hlive => hlive) ?_
  intro k r hr
  rw [hruns, Table.get?_update] at hr
  obtain ⟨r', hr', -⟩ := Option.map_eq_some_iff.mp hr
  rw [hr']
  rfl

theorem RunsLive.change (h : RunsLive s) (hc : Change G s t) : RunsLive t := by
  cases hc with
  | seen c now =>
    refine h.of_runs ?_ (fun k r hr => by rw [hr]; rfl)
    intro c' hlive
    show (Table.get? _ c').isSome
    rw [Table.get?_update, Option.isSome_map]
    exact hlive
  | context x row contexts _ _ _ _ hins =>
    refine h.of_runs ?_ (fun k r hr => by rw [hr]; rfl)
    intro c' hlive
    show (contexts.get? c').isSome
    rw [(Table.insert?_eq_some hins).2]
    split
    · rfl
    · exact hlive
  | rotated k row marker close _ _ =>
    intro k' r hr
    rw [get?_runs_dropContext] at hr
    split at hr
    · cases hr
    next hne =>
    show (Table.get? _ k'.1).isSome
    rw [get?_contexts_dropContext, if_neg hne]
    exact h k' r hr
  | opened k now hlive =>
    intro k' r hr
    rw [Table.get?_insertIgnore, Option.or_eq_some_iff] at hr
    rcases hr with hr | ⟨-, hr⟩
    · exact h k' r hr
    · split at hr
      · next hk => exact hk ▸ hlive
      · cases hr
  | subscribed k now => exact h.update (subscribedRun_key now) rfl rfl
  | wrote r eventJson outcome terminal now journal _ _ _ _ =>
    exact h.update (advance_key eventJson outcome terminal now) rfl rfl
  | pruned cutoff now => exact h.update (prunedRun_key now) rfl rfl
  | froze k draw version deadline eventJson now =>
    exact h.update (advance_key eventJson "success" true now) rfl rfl
  | admitted a now u admissions _ _ _ _ hbinds _ => cases hbinds <;> exact h.congr rfl rfl
  | _ => exact h.congr rfl rfl

theorem runsLive_of_reach (h : Reach (step mac) init s) : RunsLive s :=
  changes_invariant RunsLive (fun _ _ h hc => h.change hc) (changes_of_reach h)
    (fun _ _ hr => by cases hr)

theorem Settled.refl (s : State) : Settled s s := .of_eq rfl

theorem settled_trans {u : State} (h : Settled s t) (h' : Settled t u) (hlater : Later t u) :
    Settled s u := by
  intro k r hr hterminal
  rcases h k r hr hterminal with ⟨r', hr', hterminal', houtcome, hseq⟩ | hclosed
  · rcases h' k r' hr' hterminal' with ⟨r'', hr'', hterminal'', houtcome', hseq'⟩ | hclosed
    · exact .inl ⟨r'', hr'', hterminal'', houtcome'.trans houtcome, hseq'.trans hseq⟩
    · exact .inr hclosed
  · exact .inr (hlater.closed hclosed)

theorem Agrees.changes (h : Agrees s) (hc : Changes G s t) : Agrees t :=
  changes_invariant Agrees (fun _ _ h hc => (h.change hc).1) hc h

theorem settled_of_changes (hagrees : Agrees s) (hfenced : Fenced s) (hc : Changes G s t) :
    Settled s t := by
  have hboth : Settled s t ∧ Later s t := by
    refine changes_preserves (fun s => Agrees s ∧ Fenced s) (fun s t => Settled s t ∧ Later s t)
      ?_ ?_ ?_ ?_ hc ⟨hagrees, hfenced⟩
    · exact fun s => ⟨.refl s, .refl s⟩
    · exact fun _ _ _ h h' => ⟨settled_trans h.1 h'.1 h'.2, h.2.trans h'.2⟩
    · exact fun _ _ h hc => ⟨(h.1.change hc).1, (h.2.change hc).1⟩
    · exact fun _ _ h hc => ⟨(h.1.change hc).2, (h.2.change hc).2⟩
  exact hboth.1

theorem agrees_of_reach (h : Reach (step mac) init s) : Agrees s :=
  agrees_init.changes (changes_of_reach h)

/-! ## Replays -/

theorem acquire_replay (hfenced : Fenced s) {row : Admission}
    (hrow : s.admissions.get? a.key = some row) (hrun : a.runId ≠ "") (now : Time) (draw : Draw) :
    (a.bodyHash = row.bodyHash → a.bodyHash ≠ "" →
      s.acquire a now draw = .ok ((row, true), s)) ∧
    (a.bodyHash ≠ row.bodyHash → ∃ e, s.acquire a now draw = .error e) := by
  have hlive : s.Live a.contextId := hfenced.admission a.key row hrow
  obtain ⟨thread, hthread, hgen⟩ := hfenced.thread a.contextId hlive
  have hclosed := hfenced.closedBefore _ thread hthread
  have hgen : thread.generation = a.generation := hgen
  have hthread : s.threads.get? a.thread = some thread := hthread
  have hcurrent : ¬ (a.generation < thread.closedBeforeGeneration ∨
      a.generation ≠ thread.generation) := by
    omega
  have hcontext : ¬ (s.contexts.get? a.contextId).isNone = true := by
    have hlive : (s.contexts.get? a.contextId).isSome = true := hlive
    rw [Option.isSome_iff_ne_none] at hlive
    simpa using hlive
  constructor
  · intro hbody hne
    unfold acquire
    rw [if_neg (by simp [hrun, hne]), hthread]
    simp only [hrow]
    rw [if_neg hcurrent, if_neg hcontext, if_neg (by simp [hbody])]
  · intro hbody
    by_cases hne : a.bodyHash = ""
    · exact ⟨_, by unfold acquire; rw [if_pos (.inr hne)]⟩
    · refine ⟨.idempotencyConflict, ?_⟩
      unfold acquire
      rw [if_neg (by simp [hrun, hne]), hthread]
      simp only [hrow]
      rw [if_neg hcurrent, if_neg hcontext, if_pos (Ne.symm hbody)]

theorem acquire_closed (hclosed : s.Closed a.contextId) (now : Time)
    (draw : Draw) : ∃ e, s.acquire a now draw = .error e := by
  obtain ⟨thread, hthread, hlt⟩ := hclosed
  have hthread : s.threads.get? a.thread = some thread := hthread
  have hlt : a.generation < thread.generation := hlt
  by_cases hvalue : a.runId = "" ∨ a.bodyHash = ""
  · exact ⟨_, by unfold acquire; rw [if_pos hvalue]⟩
  · refine ⟨.threadRotated thread.generation, ?_⟩
    unfold acquire
    rw [if_neg hvalue, hthread]
    simp only []
    rw [if_pos (.inr (by omega))]

theorem acquire_runId {now : Time} {draw : Draw} {r : Admission × Bool}
    (h : s.acquire a now draw = .ok (r, t)) : a.runId ≠ "" ∧ a.bodyHash ≠ "" := by
  unfold acquire at h
  split at h
  · cases h
  next hvalue =>
  push Not at hvalue
  exact hvalue

theorem Agrees.terminal_last (h : Agrees s) {j j' : JournalRow} (hj : j ∈ s.journal)
    (hj' : j' ∈ s.journal) (hrun : j'.runKey = j.runKey) (hterminal : j.terminal) :
    j'.seq ≤ j.seq ∧ (j'.terminal → j' = j) := by
  obtain ⟨r, hr⟩ := Option.isSome_iff_exists.mp (h.journal j hj)
  have hstored := h.stored _ r hr
  have hmem : j ∈ s.events j.runKey := List.mem_filter.mpr ⟨hj, by simp⟩
  have hmem' : j' ∈ s.events j.runKey := List.mem_filter.mpr ⟨hj', by simp [hrun]⟩
  have hlast := ((hstored.last j hmem).mp hterminal).2
  have hkept : r.replayWatermark = 0 := by
    by_contra hpruned
    rw [(hstored.pruned hpruned).1] at hmem
    cases hmem
  have hseq : j'.seq ∈ (s.events j.runKey).map JournalRow.seq := List.mem_map_of_mem hmem'
  rw [hstored.seqs hkept, List.mem_range'_1] at hseq
  refine ⟨by omega, ?_⟩
  intro hterminal'
  have hlast' := ((hstored.last j' hmem').mp hterminal').2
  exact Table.eq_of_key hj' hj (Prod.ext hrun (hlast'.trans hlast.symm))

/-- **Admissions and the journal agree**, over every interleaving, with any quotas and clock
readings. An admission that is over has a terminal run with its outcome; a run has at most one
terminal event, no event after it, and once terminal keeps its outcome and takes no further
event; until it is pruned, which happens to no active run, the stored sequences are exactly
`1..committed_sequence` with the counters of the row; and a run is admitted at most once:
every later acquire leaves the store as it is, returns that admission when the body is the
same, and raises when it is another, or when the thread was rotated since.

The acquire here is the admission transaction; the resolve transactions `acquire_agui_turn`
runs before it touch threads and contexts only. -/
theorem journal_agrees {mac : Mac} {s : State} (hs : Reach (step mac) init s) :
    (∀ a ∈ s.admissions, a.state = .terminal ∨ a.state = .orphaned →
      ∃ r ∈ s.runs, r.key = a.key ∧ r.terminal ∧ r.outcome = a.outcome) ∧
    (∀ j ∈ s.journal, ∀ j' ∈ s.journal, j'.runKey = j.runKey → j.terminal →
      j'.seq ≤ j.seq ∧ (j'.terminal → j' = j)) ∧
    (∀ r ∈ s.runs, r.terminal → ∀ t, Reach (step mac) s t → ∀ r' ∈ t.runs, r'.key = r.key →
      r'.terminal ∧ r'.outcome = r.outcome ∧ r'.committedSequence = r.committedSequence) ∧
    (∀ r ∈ s.runs, r.replayWatermark = 0 →
      (s.events r.key).map JournalRow.seq = List.range' 1 r.committedSequence ∧
      r.eventCount = (s.events r.key).length ∧
      r.byteCount = ((s.events r.key).map fun j => j.eventJson.utf8ByteSize).sum) ∧
    (∀ r ∈ s.runs, r.replayWatermark ≠ 0 →
      r.terminal ∧ r.replayWatermark = r.committedSequence ∧ s.events r.key = []) ∧
    (∀ a now draw row t, s.acquire a now draw = .ok ((row, false), t) →
      ∀ u, Reach (step mac) t u → ∀ a' now' draw', a'.key = a.key →
        settle u (u.acquire a' now' draw') = u ∧
        (u.Closed a.contextId ∨ a'.bodyHash ≠ a.bodyHash →
          ∃ e, u.acquire a' now' draw' = .error e) ∧
        (¬ u.Closed a.contextId → a'.bodyHash = a.bodyHash → ∃ row',
          u.acquire a' now' draw' = .ok ((row', true), u) ∧ row'.key = row.key ∧
            row'.bodyHash = row.bodyHash ∧ row'.fenceToken = row.fenceToken)) := by
  have hagrees := agrees_of_reach hs
  have hfenced := fenced_of_reach hs
  refine ⟨?_, ?_, ?_, ?_, ?_, ?_⟩
  · intro a ha hover
    obtain ⟨r, hr, hended⟩ := hagrees.admission a.key a (Table.get?_of_mem ha)
    obtain ⟨hmem, hkey⟩ := Table.get?_eq_some.mp hr
    have hinactive : a.isActive = false := by
      rcases hover with hstate | hstate <;> exact isActive_of_state hstate
    exact ⟨r, hmem, hkey, hended hinactive⟩
  · intro j hj j' hj' hrun hterminal
    exact hagrees.terminal_last hj hj' hrun hterminal
  · intro r hr hterminal t ht r' hr' hkey
    have hget : t.runs.get? r.key = some r' := Table.get?_eq_some.mpr ⟨hr', hkey⟩
    have hsettled := settled_of_changes hagrees hfenced (changes_of_reach ht)
    rcases hsettled r.key r (Table.get?_of_mem hr) hterminal with ⟨b, hb, hsame⟩ | hclosed
    · rw [hget] at hb
      obtain rfl := Option.some.inj hb
      exact hsame
    · have hlive := runsLive_of_reach (hs.trans ht) r.key r' hget
      exact absurd hclosed ((hfenced.changes (changes_of_reach ht)).not_closed hlive)
  · intro r hr hkept
    have hstored := hagrees.stored r.key r (Table.get?_of_mem hr)
    exact ⟨hstored.seqs hkept, hstored.eventCount hkept, hstored.byteCount hkept⟩
  · intro r hr hpruned
    have hstored := (hagrees.stored r.key r (Table.get?_of_mem hr)).pruned hpruned
    exact ⟨hstored.2.1, hstored.2.2, hstored.1⟩
  · intro a now draw row t hacquire u hu a' now' draw' hkey
    obtain ⟨hrunId, hbodyHash⟩ := acquire_runId hacquire
    obtain ⟨-, -, hnew, hrow⟩ := acquire_new hacquire
    have ht : Fenced t := hfenced.changes (changes_acquire (G := fun _ _ => True) hacquire ⟨s, trivial⟩)
    have hu' : Fenced u := ht.changes (changes_of_reach hu)
    have hcontext : a'.contextId = a.contextId := congrArg Prod.fst hkey
    have hrunId' : a'.runId ≠ "" := by
      rw [show a'.runId = a.runId from congrArg Prod.snd hkey]
      exact hrunId
    rcases ht.find (changes_of_reach hu) hrow with ⟨row', hrow', hcont⟩ | ⟨hclosed, -⟩
    · have hrow'' : u.admissions.get? a'.key = some row' := hkey ▸ hrow'
      have hbody : row'.bodyHash = a.bodyHash := by
        rw [hcont.bodyHash, hnew]
        rfl
      obtain ⟨hsame, hother⟩ := acquire_replay hu' hrow'' hrunId' now' draw'
      have hopen : ¬ u.Closed a.contextId := hu'.not_closed (hu'.admission a.key row' hrow')
      rw [hbody] at hsame hother
      refine ⟨?_, ?_, ?_⟩
      · by_cases hb : a'.bodyHash = a.bodyHash
        · rw [hsame hb (hb ▸ hbodyHash)]
          rfl
        · obtain ⟨e, he⟩ := hother hb
          rw [he]
          rfl
      · rintro (hclosed | hb)
        · exact absurd hclosed hopen
        · exact hother hb
      · intro _ hb
        refine ⟨row', hsame hb (hb ▸ hbodyHash), ?_, hcont.bodyHash, hcont.fenceToken⟩
        rw [Table.get?_key hrow', Table.get?_key hrow]
    · have hclosed' : u.Closed a'.contextId := by
        rw [hcontext]
        exact hclosed
      obtain ⟨e, he⟩ := acquire_closed hclosed' now' draw'
      rw [he]
      exact ⟨rfl, fun _ => ⟨e, rfl⟩, fun hopen => absurd hclosed hopen⟩

/-- The first run of the sample was ended by the quota, then swept and pruned; the second one
is active. -/
def prunedTurns : State :=
  [⟨.savePublication ⟨"pub", "conv", true, true⟩, 0, {}⟩,
    ⟨.ensureThread sampleThread, 1, {}⟩,
    ⟨.resolveContext ⟨"pub", "conv", true, true⟩ sampleThread 0 "d", 2, {}⟩,
    ⟨.acquire ⟨sampleThread, 0, "r1", "h1", "", ""⟩, 3, { handle := "1" }⟩,
    ⟨.adopt (⟨sampleThread, 0⟩, "r1") "w1", 4, {}⟩,
    ⟨.append (⟨sampleThread, 0⟩, "r1") { eventJson := "e", maxEvents := 1 }, 5, {}⟩,
    ⟨.append (⟨sampleThread, 0⟩, "r1") { eventJson := "e", maxEvents := 1 }, 6, {}⟩,
    ⟨.orphanExpired 0, 2 * second, {}⟩,
    ⟨.prune 0, 3 * second, {}⟩,
    ⟨.acquire ⟨sampleThread, 0, "r2", "h2", "", ""⟩, 5, { handle := "2" }⟩,
    ⟨.adopt (⟨sampleThread, 0⟩, "r2") "w2", 6, {}⟩,
    ⟨.append (⟨sampleThread, 0⟩, "r2") { eventJson := "e" }, 7, {}⟩].foldl
    (perform fun _ handle _ _ _ => handle) init

theorem journal_agrees_prunedTurns :
    prunedTurns.runs.rows.map (fun r => (r.runId, r.outcome, r.committedSequence,
        r.replayWatermark)) = [("r1", "run_quota_exceeded", 2, 2), ("r2", "", 1, 0)] ∧
      ∀ r ∈ prunedTurns.runs, r.replayWatermark = 0 →
        (prunedTurns.events r.key).map JournalRow.seq = List.range' 1 r.committedSequence := by
  have hreach : Reach (step fun _ handle _ _ _ => handle) init prunedTurns :=
    reach_foldl (fun _ _ => rfl) _ _
  refine ⟨by decide +kernel, ?_⟩
  intro r hr hkept
  obtain ⟨-, -, -, hseqs, -⟩ := journal_agrees hreach
  exact (hseqs r hr hkept).1

end State

end PawFlow.Agui
