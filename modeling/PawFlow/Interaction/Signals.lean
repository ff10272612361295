import PawFlow.Interaction.Steps

/-!
# No lost notification

`notify_signal` resolves the waits it finds or, finding none, stores its value for the
next `park_wait`. `park_wait` takes a stored value and inserts its wait in two
transactions, and reads a stored `null` as no value at all. `keepsSignals` is the
condition under which nothing gets lost between them.
-/

namespace PawFlow.Interaction

open PawFlow.Lib

/-- A `park_wait` on this signal has looked for a stored value and not yet inserted its
wait. -/
def Task.parksOn (signalId : String) : Task → Bool
  | .parkInsert park => park.signalId = signalId
  | _ => false

namespace Store

def hasWaiting (s : Store) (signalId : String) : Bool := s.waits.rows.any (waitsOn signalId)

/-- The condition: a value that is stored (no wait is waiting on the signal) is not `null`
and is not stored while a `park_wait` on the signal is halfway; and a `park_wait` that
finds its wait id taken finds it by a wait still waiting on its own signal. -/
def keepsSignals (P : Platform) (s : Store) (m : Multiset Task) (t : Task) (_ : Env) : Bool :=
  match t with
  | .notifySignal _ signalId value => s.hasWaiting signalId ||
      (!value.isNull && m.countP (fun t => t.parksOn signalId = true) = 0)
  | .parkInsert park => (s.waits.get? (waitIdOf P park)).all fun w =>
    w.kind = .signal && w.status = .waiting && w.signalId = park.signalId
  | _ => true

/-- Along the log: a `park_wait` on the signal returned this wait id, and the signal was
notified later. -/
def NotifiedSince (log : List Event) (signalId waitId : String) : Prop :=
  ∃ later earlier, log = later ++ earlier ∧ .parked signalId waitId ∈ earlier ∧
    ∃ cause value resolved, .notified cause signalId value resolved ∈ later

/-- Nothing gets lost: a signal somebody waits on has no stored value, and neither has a
signal a `park_wait` is about to wait on; stored values are not `null`; none was thrown
away; a parked wait is in the table, and no longer waiting once its signal was notified. -/
structure SignalsKept (s : Store) (m : Multiset Task) : Prop where
  waiting : ∀ i w, s.waits.get? i = some w → w.kind = .signal → w.status = .waiting →
    s.values.get? w.signalId = none
  parking : ∀ park, .parkInsert park ∈ m → s.values.get? park.signalId = none
  stored : ∀ g v, s.values.get? g = some v → v.value.isNull = false
  discarded : ∀ g, .discarded g ∉ s.log
  imported : ∀ i w, s.waits.get? i = some w → w.kind = .signal → w.importMetadata = none
  parked : ∀ g i, .parked g i ∈ s.log → ∃ w, s.waits.get? i = some w ∧ w.kind = .signal ∧
    w.signalId = g
  notified : ∀ g i, NotifiedSince s.log g i → ∀ w, s.waits.get? i = some w →
    w.status ≠ .waiting

variable {P : Platform} {s : Store} {m : Multiset Task} {t : Task} {env : Env}

variable {i : String}

variable {g : String}

theorem notifiedSince_cons {e : Event} {log : List Event} (h : NotifiedSince (e :: log) g i) :
    NotifiedSince log g i ∨ (.parked g i ∈ log ∧
      ∃ cause value resolved, e = .notified cause g value resolved) := by
  obtain ⟨later, earlier, hsplit, hparked, cause, value, resolved, hnotified⟩ := h
  cases later with
  | nil => exact absurd hnotified (by simp)
  | cons e' later =>
    obtain ⟨rfl, hlog⟩ := List.cons.inj hsplit
    rcases List.mem_cons.mp hnotified with rfl | hmem
    · exact Or.inr ⟨hlog ▸ List.mem_append_right _ hparked, cause, value, resolved, rfl⟩
    · exact Or.inl ⟨later, earlier, hlog, hparked, cause, value, resolved, hmem⟩

/-! ## One step -/

/-- A row after a step is an old row that has at most stopped waiting, or a new one. -/
theorem exec_wait_back {w' : Wait} (h : (exec P s t env).1.waits.get? i = some w') :
    (∃ w, s.waits.get? i = some w ∧ w'.signalId = w.signalId ∧ w'.kind = w.kind ∧
      w'.importMetadata = w.importMetadata ∧ (w'.status = .waiting → w.status = .waiting)) ∨
    (s.waits.get? i = none ∧ (w'.kind = .signal → w'.importMetadata = none ∧
      ∃ park, t = .parkInsert park ∧ w'.signalId = park.signalId ∧ i = waitIdOf P park)) := by
  rcases exec_waits P s t env with hkeep | ⟨g, hget, hg⟩ | ⟨w, hstatus, hnew, hpark, hget⟩ |
    ⟨w, hrow, hstatus, himported, hget⟩ | ⟨waitId, ht, hget⟩
  · rw [hkeep] at h
    exact Or.inl ⟨w', h, rfl, rfl, rfl, id⟩
  · rw [hget] at h
    obtain ⟨w, hw, rfl⟩ := Option.map_eq_some_iff.mp h
    rcases hg w with hsame | ⟨hwaiting, -, -, hsig, hkind, hmeta⟩
    · exact Or.inl ⟨w, hw, by rw [hsame], by rw [hsame], by rw [hsame], by rw [hsame]; exact id⟩
    · exact Or.inl ⟨w, hw, hsig, hkind, hmeta, fun _ => hwaiting⟩
  · rw [hget] at h
    split at h
    · next hi =>
      obtain rfl := Option.some.inj h
      subst hi
      refine Or.inr ⟨hnew, fun hkind => ?_⟩
      exact hpark hkind
    · exact Or.inl ⟨w', h, rfl, rfl, rfl, id⟩
  · rw [hget] at h
    split at h
    · exact absurd h (by simp)
    · exact Or.inl ⟨w', h, rfl, rfl, rfl, id⟩
  · rw [hget] at h
    obtain ⟨w, hw, rfl⟩ := Option.map_eq_some_iff.mp h
    refine Or.inl ⟨w, hw, ?_⟩
    split
    · exact ⟨rfl, rfl, rfl, fun hd => absurd hd (by simp)⟩
    · exact ⟨rfl, rfl, rfl, id⟩

theorem exec_wait_stays {w : Wait} (h : s.waits.get? i = some w)
    (hkind : w.kind = .signal) (hmeta : w.importMetadata = none) :
    ∃ w', (exec P s t env).1.waits.get? i = some w' ∧ w'.kind = .signal ∧
      w'.signalId = w.signalId := by
  rcases exec_waits P s t env with hkeep | ⟨g, hget, hg⟩ | ⟨w₀, -, hnew, -, hget⟩ |
    ⟨w₀, hrow, -, himported, hget⟩ | ⟨waitId, -, hget⟩
  · exact ⟨w, by rw [hkeep, h], hkind, rfl⟩
  · refine ⟨g w, by rw [hget, h]; rfl, ?_⟩
    rcases hg w with hsame | ⟨-, -, -, hsig, hk, -⟩
    · rw [hsame]
      exact ⟨hkind, rfl⟩
    · exact ⟨hk.trans hkind, hsig⟩
  · have hne : i ≠ w₀.waitId := by
      rintro rfl
      exact absurd (h.symm.trans hnew) (by simp)
    exact ⟨w, by rw [hget, if_neg hne, h], hkind, rfl⟩
  · have hne : i ≠ w₀.waitId := by
      rintro rfl
      obtain rfl := Option.some.inj (h.symm.trans hrow)
      exact himported hmeta
    exact ⟨w, by rw [hget, if_neg hne, h], hkind, rfl⟩
  · refine ⟨_, by rw [hget, h]; rfl, ?_⟩
    dsimp only
    split <;> exact ⟨hkind, rfl⟩

theorem exec_parkInsert {park : Park} (h : .parkInsert park ∈ (exec P s t env).2) :
    (exec P s t env).1.values.get? park.signalId = none := by
  cases exec_pushes h with
  | parkInsert =>
    simp only [exec] at h ⊢
    rcases execPark_cases P s park with ⟨-, heq⟩ | ⟨hnone, heq⟩ | ⟨row, -, -, heq⟩ |
      ⟨row, -, -, heq⟩ <;> rw [heq] at h ⊢
    · exact absurd h (by simp)
    · exact hnone
    · exact (get?_deleteValue s _ _).trans (if_pos rfl)
    · exact absurd h (by simp)

theorem exec_values_none (hok : keepsSignals P s (t ::ₘ m) t env = true)
    (hnone : s.values.get? g = none)
    (hneeded : (∃ w ∈ s.waits, waitsOn g w = true) ∨
      ∃ park, .parkInsert park ∈ m ∧ park.signalId = g) :
    (exec P s t env).1.values.get? g = none := by
  rcases exec_values P s t env with hkeep | ⟨park, -, hget⟩ |
    ⟨cause, signalId, value, now, rfl, hidle, hget⟩
  · rw [hkeep]
    exact hnone
  · rw [hget]
    split
    · rfl
    · exact hnone
  · rw [hget]
    split
    · next hg =>
      subst hg
      rcases hneeded with ⟨w, hw, hon⟩ | ⟨park, hpark, hsig⟩
      · exact absurd hon (by simp [hidle w hw])
      · -- the guard keeps `notify_signal` out of the middle of `park_wait`
        have hwaiting : s.hasWaiting g = false := by
          rw [hasWaiting, List.any_eq_false]
          intro w hw
          simp [hidle w hw]
        simp only [keepsSignals, hwaiting, Bool.false_or, Bool.and_eq_true,
          decide_eq_true_eq] at hok
        have hcount := Multiset.countP_eq_zero.mp hok.2 _ (Multiset.mem_cons_of_mem hpark)
        exact absurd hsig (by simpa [Task.parksOn] using hcount)
    · exact hnone

theorem exec_parked {park : Park}
    (hok : keepsSignals P s (.parkInsert park ::ₘ m) (.parkInsert park) env = true)
    (hid : park.flowfile.processId ≠ "") :
    ∃ w, (exec P s (.parkInsert park) env).1.waits.get? (waitIdOf P park) = some w ∧
      w.kind = .signal ∧ w.signalId = park.signalId := by
  simp only [exec, execParkInsert, if_neg hid, record, insertWait]
  cases hinsert : s.waits.insert? (parkedWait P park env.now) with
  | some waits =>
    obtain ⟨-, hget⟩ := Table.insert?_eq_some hinsert
    exact ⟨parkedWait P park env.now, (hget _).trans (if_pos rfl), rfl, rfl⟩
  | none =>
    obtain ⟨w, hw⟩ := Option.ne_none_iff_exists'.mp (Table.insert?_eq_none hinsert)
    have hrow : s.waits.get? (waitIdOf P park) = some w := hw
    have hsame : (w.kind = .signal ∧ w.status = .waiting) ∧ w.signalId = park.signalId := by
      simpa [keepsSignals, hrow] using hok
    exact ⟨w, hw, hsame.1.1, hsame.2⟩

/-! ## Whole runs -/

theorem signalsKept_start (ht : t.isCall = true) (h : SignalsKept s m) :
    SignalsKept s (t ::ₘ m) where
  waiting := h.waiting
  parking park hpark := by
    rcases Multiset.mem_cons.mp hpark with rfl | hpark
    · exact absurd ht (by simp [Task.isCall])
    · exact h.parking park hpark
  stored := h.stored
  discarded := h.discarded
  imported := h.imported
  parked := h.parked
  notified := h.notified

theorem exec_notified (h : SignalsKept s (t ::ₘ m)) {w' : Wait}
    (hsince : NotifiedSince (exec P s t env).1.log g i)
    (hw' : (exec P s t env).1.waits.get? i = some w') : w'.status ≠ .waiting := by
  have hold : NotifiedSince s.log g i → w'.status ≠ .waiting := by
    intro hs hwaiting
    rcases exec_wait_back hw' with ⟨w, hw, -, -, -, hback⟩ | ⟨hnone, -⟩
    · exact h.notified g i hs w hw (hback hwaiting)
    · obtain ⟨later, earlier, hlog, hparked, -⟩ := hs
      obtain ⟨w, hw, -⟩ := h.parked g i (hlog ▸ List.mem_append_right _ hparked)
      exact absurd (hw.symm.trans hnone) (by simp)
  rcases exec_emits P s t env with hlog | ⟨e, hlog, hemits⟩
  · rw [hlog] at hsince
    exact hold hsince
  rw [hlog] at hsince
  rcases notifiedSince_cons hsince with hsince | ⟨hparked, cause, value, resolved, rfl⟩
  · exact hold hsince
  cases hemits with
  | notified resolved hsig =>
    obtain ⟨w, hw, -, hwsig⟩ := h.parked g i hparked
    simp only [exec, execNotify, if_neg hsig, record] at hw'
    rw [get?_notifySignal, hw, Option.map_some] at hw'
    obtain rfl := Option.some.inj hw'
    split
    · simp [resolveAt]
    · next hon =>
      intro hwaiting
      exact hon (by simp [waitsOn, hwsig, hwaiting])

theorem signalsKept_exec (h : SignalsKept s (t ::ₘ m))
    (hok : keepsSignals P s (t ::ₘ m) t env = true) :
    SignalsKept (exec P s t env).1 ((exec P s t env).2 + m) where
  waiting i w' hw' hkind hwaiting := by
    rcases exec_wait_back hw' with ⟨w, hw, hsig, hk, -, hback⟩ | ⟨-, hnew⟩
    · have hw₀ := hback hwaiting
      rw [hsig]
      refine exec_values_none hok (h.waiting i w hw (hk ▸ hkind) hw₀)
        (Or.inl ⟨w, Table.get?_mem hw, ?_⟩)
      simp [waitsOn, hw₀]
    · obtain ⟨-, park, rfl, hsig, -⟩ := hnew hkind
      rw [hsig]
      rcases exec_values P s (.parkInsert park) env with hkeep | ⟨_, ht, -⟩ |
        ⟨_, _, _, _, ht, -, -⟩
      · rw [hkeep]
        exact h.parking park (Multiset.mem_cons_self _ _)
      · exact absurd ht (by simp)
      · exact absurd ht (by simp)
  parking park hpark := by
    rcases Multiset.mem_add.mp hpark with hpark | hpark
    · exact exec_parkInsert (Multiset.mem_coe.mp hpark)
    · exact exec_values_none hok (h.parking park (Multiset.mem_cons_of_mem hpark))
        (Or.inr ⟨park, hpark, rfl⟩)
  stored g v hv := by
    rcases exec_values P s t env with hkeep | ⟨park, -, hget⟩ |
      ⟨cause, signalId, value, now, rfl, hidle, hget⟩
    · rw [hkeep] at hv
      exact h.stored g v hv
    · rw [hget] at hv
      split at hv
      · exact absurd hv (by simp)
      · exact h.stored g v hv
    · rw [hget] at hv
      split at hv
      · obtain rfl := Option.some.inj hv
        have hwaiting : s.hasWaiting signalId = false := by
          rw [hasWaiting, List.any_eq_false]
          intro w hw
          simp [hidle w hw]
        simp only [keepsSignals, hwaiting, Bool.false_or, Bool.and_eq_true] at hok
        simpa using hok.1
      · exact h.stored g v hv
  discarded g hmem := by
    rcases exec_emits P s t env with hlog | ⟨e, hlog, hemits⟩
    · rw [hlog] at hmem
      exact h.discarded g hmem
    · rw [hlog] at hmem
      rcases List.mem_cons.mp hmem with rfl | hmem
      · cases hemits with
        | discarded park row hrow hnull =>
          have hstored := h.stored _ row hrow
          rw [hnull] at hstored
          exact absurd hstored (by simp)
      · exact h.discarded g hmem
  imported i w' hw' hkind := by
    rcases exec_wait_back hw' with ⟨w, hw, -, hk, hmeta, -⟩ | ⟨-, hnew⟩
    · rw [hmeta]
      exact h.imported i w hw (hk ▸ hkind)
    · exact (hnew hkind).1
  parked g i hmem := by
    have hold : .parked g i ∈ s.log → ∃ w, (exec P s t env).1.waits.get? i = some w ∧
        w.kind = .signal ∧ w.signalId = g := by
      intro hmem
      obtain ⟨w, hw, hkind, hsig⟩ := h.parked g i hmem
      obtain ⟨w', hw', hkind', hsig'⟩ : ∃ w', (exec P s t env).1.waits.get? i = some w' ∧
          w'.kind = .signal ∧ w'.signalId = w.signalId :=
        exec_wait_stays hw hkind (h.imported i w hw hkind)
      exact ⟨w', hw', hkind', hsig'.trans hsig⟩
    rcases exec_emits P s t env with hlog | ⟨e, hlog, hemits⟩
    · rw [hlog] at hmem
      exact hold hmem
    · rw [hlog] at hmem
      rcases List.mem_cons.mp hmem with rfl | hmem
      · cases hemits with
        | parked park =>
          refine exec_parked hok ?_
          rintro hid
          simp [exec, execParkInsert, hid, record] at hlog
      · exact hold hmem
  notified g i hsince w' hw' := exec_notified h hsince hw'

theorem runs_signalsKept {p : System} (h : RunsUnder P (keepsSignals P) initial p) :
    SignalsKept p.state p.pending := by
  refine Pool.invariant SignalsKept (fun s m t => signalsKept_start)
    (fun s m t env => signalsKept_exec) h ?_
  constructor
  · intro i w hw
    exact absurd hw (by simp [initial])
  · intro park hpark
    exact absurd hpark (by simp [initial, Pool.pending])
  · intro g v hv
    exact absurd hv (by simp [initial])
  · simp [initial]
  · intro i w hw
    exact absurd hw (by simp [initial])
  · simp [initial]
  · rintro g i ⟨later, earlier, hlog, hparked, -⟩
    have hnil : earlier = [] := (List.append_eq_nil_iff.mp hlog.symm).2
    rw [hnil] at hparked
    exact absurd hparked (by simp)

/-- **No notification is lost.** In every run that meets the condition: no value sits in
the table for a signal on which a signal wait is waiting; no stored value was thrown away
by a `park_wait` that then parked; and a wait that `park_wait` returned is in the table,
no longer waiting if its signal was notified since. -/
theorem no_lost_notify {p : System} (h : RunsUnder P (keepsSignals P) initial p) :
    (∀ w ∈ p.state.waits, w.kind = .signal → w.status = .waiting →
      p.state.values.get? w.signalId = none) ∧
    (∀ signalId, .discarded signalId ∉ p.state.log) ∧
    (∀ signalId waitId, .parked signalId waitId ∈ p.state.log →
      ∃ w, p.state.waits.get? waitId = some w ∧ w.signalId = signalId ∧
        (NotifiedSince p.state.log signalId waitId → w.status ≠ .waiting)) := by
  have hinv := runs_signalsKept h
  refine ⟨?_, hinv.discarded, ?_⟩
  · intro w hw hkind hwaiting
    exact hinv.waiting w.waitId w (Table.get?_of_mem hw) hkind hwaiting
  · intro signalId waitId hparked
    obtain ⟨w, hw, -, hsig⟩ := hinv.parked signalId waitId hparked
    exact ⟨w, hw, hsig, fun hsince => hinv.notified signalId waitId hsince w hw⟩

/-- A FlowFile to be parked on the signal `go`. -/
def parkOnGo : Park where
  signalId := "go"
  instanceId := "flow-1"
  taskId := "wait"
  flowfile := { processId := "ff-1" }
  timeout := 0

def parkThenNotify : List (PoolLabel Task Env) :=
  [.start (.parkWait parkOnGo), .advance 0 {}, .advance 0 {},
    .start (.notifySignal none "go" (.int 1)), .advance 1 {}]

theorem no_lost_notify_parked :
    ∃ (p : System) (w : Wait), RunsUnder plainPlatform (keepsSignals plainPlatform) initial p ∧
      p.state.waits.get? (waitIdOf plainPlatform parkOnGo) = some w ∧ w.status ≠ .waiting ∧
      .discarded "go" ∉ p.state.log := by
  obtain ⟨p, hfollow, hlog⟩ : ∃ p, follow (step plainPlatform)
      (fun p a => Pool.guarded (keepsSignals plainPlatform) p a = true) initial
        parkThenNotify = some p ∧ p.state.log = [.notified none "go" (.int 1)
          [waitIdOf plainPlatform parkOnGo], .parked "go" (waitIdOf plainPlatform parkOnGo)] :=
    ⟨_, rfl, rfl⟩
  have hrun : RunsUnder plainPlatform (keepsSignals plainPlatform) initial p :=
    runs_of_follow hfollow
  obtain ⟨-, hdiscarded, hparked⟩ := no_lost_notify hrun
  obtain ⟨w, hw, -, hnotified⟩ := hparked "go" (waitIdOf plainPlatform parkOnGo)
    (by rw [hlog]; simp)
  refine ⟨p, w, hrun, hw, hnotified ?_, hdiscarded "go"⟩
  exact ⟨[_], [_], hlog, by simp, none, .int 1, _, List.mem_singleton.mpr rfl⟩

/-- `null` is notified before the FlowFile is parked. -/
def nullThenPark : List (PoolLabel Task Env) :=
  [.start (.notifySignal none "go" .null), .advance 0 {},
    .start (.parkWait parkOnGo), .advance 1 {}, .advance 1 {}]

/-- The notification comes between the two transactions of `park_wait`. -/
def notifyInBetween : List (PoolLabel Task Env) :=
  [.start (.parkWait parkOnGo), .advance 0 {},
    .start (.notifySignal none "go" (.int 1)), .advance 1 {}, .advance 0 {}]

/-- Without the condition a FlowFile waits although its signal was notified: the value
`null` is thrown away, and a value notified halfway through `park_wait` stays stored. -/
theorem notify_lost :
    (∃ p : System, Reach (step plainPlatform) initial p ∧ p.pending = 0 ∧
      p.state.waits.rows.map Wait.status = [.waiting] ∧ .discarded "go" ∈ p.state.log) ∧
    (∃ p : System, Reach (step plainPlatform) initial p ∧ p.pending = 0 ∧
      p.state.waits.rows.map Wait.status = [.waiting] ∧
      (p.state.values.get? "go").isSome = true) := by
  constructor
  · obtain ⟨p, hp, hidle, hstatus, hlog⟩ : ∃ p, follow (step plainPlatform)
        (fun _ _ => True) initial nullThenPark = some p ∧ p.pending = 0 ∧
        p.state.waits.rows.map Wait.status = [.waiting] ∧
        p.state.log = [.parked "go" (waitIdOf plainPlatform parkOnGo), .discarded "go",
          .notified none "go" .null []] := ⟨_, rfl, rfl, by decide, rfl⟩
    exact ⟨p, runs_of_follow hp, hidle, hstatus, by rw [hlog]; simp⟩
  · obtain ⟨p, hp, hfacts⟩ : ∃ p, follow (step plainPlatform)
        (fun _ _ => True) initial notifyInBetween = some p ∧ p.pending = 0 ∧
        p.state.waits.rows.map Wait.status = [.waiting] ∧
        (p.state.values.get? "go").isSome = true := ⟨_, rfl, rfl, by decide, by decide⟩
    exact ⟨p, runs_of_follow hp, hfacts⟩

end Store

end PawFlow.Interaction
