import PawFlow.Interaction.Steps

/-!
# Delivery of durable waits

`deliver_resolved` takes a snapshot of the waits that are ready, and then injects and
marks them one by one. A call *holds* a wait from its snapshot until the wait is marked
delivered or given up. As long as no snapshot takes a wait that another call holds, a
wait is injected at most once, and the number of injections is the number of calls about
to mark it plus one if it is marked.
-/

namespace PawFlow.Interaction

open PawFlow.Lib

def Task.holds (waitId : String) : Task → Bool
  | .deliverWait w => w.waitId = waitId
  | .markDelivered i => i = waitId
  | _ => false

def Task.marks (waitId : String) : Task → Bool
  | .markDelivered i => i = waitId
  | _ => false

def Event.injects (waitId : String) : Event → Bool
  | .injected i _ => i = waitId
  | _ => false

namespace Store

/-- How often the FlowFile of a wait was injected. -/
def injections (s : Store) (waitId : String) : Nat := s.log.countP (Event.injects waitId)

/-- How many pending tasks hold a wait. -/
def held (m : Multiset Task) (waitId : String) : Nat := m.countP fun t => t.holds waitId = true

/-- How many pending tasks are about to mark a wait. -/
def marking (m : Multiset Task) (waitId : String) : Nat :=
  m.countP fun t => t.marks waitId = true

def deliveredCount (s : Store) (waitId : String) : Nat :=
  if (s.waits.get? waitId).any fun w => w.status = .delivered then 1 else 0

/-- The condition: a snapshot of `deliver_resolved` contains no wait that a call in
progress still holds. -/
def deliversOnce (s : Store) (m : Multiset Task) (t : Task) (_ : Env) : Bool :=
  match t with
  | .deliverResolved => s.resolvedWaits.all fun w => held m w.waitId = 0
  | _ => true

/-- A wait is held once, only while it is ready; and injections are accounted for. -/
structure DeliveredOnce (s : Store) (m : Multiset Task) : Prop where
  held_le : ∀ i, held m i ≤ 1
  held_ready : ∀ i, held m i ≠ 0 → ∃ w, s.waits.get? i = some w ∧ w.status.ready = true
  count : ∀ i, s.injections i = marking m i + s.deliveredCount i

variable {P : Platform} {s : Store} {m : Multiset Task} {t : Task} {env : Env}

theorem held_cons (t : Task) (m : Multiset Task) (i : String) :
    held (t ::ₘ m) i = held m i + if t.holds i = true then 1 else 0 :=
  Multiset.countP_cons _ t m

theorem marking_cons (t : Task) (m : Multiset Task) (i : String) :
    marking (t ::ₘ m) i = marking m i + if t.marks i = true then 1 else 0 :=
  Multiset.countP_cons _ t m

theorem held_singleton (t : Task) (i : String) :
    held ([t] : List Task) i = if t.holds i = true then 1 else 0 := by
  rw [← Multiset.cons_coe, held_cons]
  exact zero_add _

theorem marking_singleton (t : Task) (i : String) :
    marking ([t] : List Task) i = if t.marks i = true then 1 else 0 := by
  rw [← Multiset.cons_coe, marking_cons]
  exact zero_add _

theorem held_add (m m' : Multiset Task) (i : String) : held (m + m') i = held m i + held m' i :=
  Multiset.countP_add _ m m'

theorem marking_add (m m' : Multiset Task) (i : String) :
    marking (m + m') i = marking m i + marking m' i :=
  Multiset.countP_add _ m m'

theorem marking_le_held (m : Multiset Task) (i : String) : marking m i ≤ held m i := by
  rw [marking, held, Multiset.countP_eq_card_filter, Multiset.countP_eq_card_filter]
  refine Multiset.card_le_card (Multiset.monotone_filter_right m fun t ht => ?_)
  cases t with
  | markDelivered j => exact ht
  | _ => exact absurd ht (by simp [Task.marks])

/-! ## The rows a call holds -/

variable {i : String} {w : Wait}

theorem exec_settled (h : s.waits.get? i = some w)
    (hnot : w.status ≠ .waiting) (ht : t ≠ .markDelivered i) :
    (exec P s t env).1.waits.get? i = some w := by
  rcases exec_waits P s t env with hkeep | ⟨g, hget, hg⟩ | ⟨w₀, -, hnew, -, hget⟩ |
    ⟨w₀, hrow, hstatus, -, hget⟩ | ⟨waitId, rfl, hget⟩
  · rw [hkeep, h]
  · rw [hget, h, Option.map_some]
    rcases hg w with hsame | ⟨hwaiting, -⟩
    · rw [hsame]
    · exact absurd hwaiting hnot
  · have hne : i ≠ w₀.waitId := by
      rintro rfl
      exact absurd (h.symm.trans hnew) (by simp)
    rw [hget, if_neg hne, h]
  · have hne : i ≠ w₀.waitId := by
      rintro rfl
      obtain rfl := Option.some.inj (h.symm.trans hrow)
      exact hnot hstatus
    rw [hget, if_neg hne, h]
  · have hid : w.waitId = i := Table.get?_key h
    have hne : ¬ i = waitId := by
      rintro rfl
      exact ht rfl
    rw [hget, h, Option.map_some, hid, if_neg hne]

theorem exec_ready (h : s.waits.get? i = some w)
    (hready : w.status.ready = true) (ht : t ≠ .markDelivered i) :
    (exec P s t env).1.waits.get? i = some w := by
  refine exec_settled h ?_ ht
  intro hw
  rw [hw] at hready
  exact absurd hready (by decide)

/-- Only the marking step changes whether a wait is delivered. -/
theorem deliveredCount_exec (ht : t ≠ .markDelivered i) :
    (exec P s t env).1.deliveredCount i = s.deliveredCount i := by
  rw [deliveredCount, deliveredCount]
  rcases exec_waits P s t env with hkeep | ⟨g, hget, hg⟩ | ⟨w₀, hstatus, hnew, -, hget⟩ |
    ⟨w₀, hrow, hstatus, -, hget⟩ | ⟨waitId, rfl, hget⟩
  · rw [hkeep]
  · rw [hget]
    cases hw : s.waits.get? i with
    | none => rfl
    | some w =>
      rcases hg w with hsame | ⟨hwaiting, hready, -⟩
      · rw [Option.map_some, hsame]
      · have hnot : (g w).status ≠ .delivered := by
          intro hd
          rw [hd] at hready
          exact absurd hready (by decide)
        simp [hnot, hwaiting]
  · rw [hget]
    split
    · next hi =>
      rw [hi, hnew]
      simp [hstatus]
    · rfl
  · rw [hget]
    split
    · next hi =>
      rw [hi, hrow]
      simp [hstatus]
    · rfl
  · have hne : ¬ i = waitId := by
      rintro rfl
      exact ht rfl
    rw [hget]
    cases hw : s.waits.get? i with
    | none => rfl
    | some w =>
      have hid : w.waitId = i := Table.get?_key hw
      simp [hid, hne]

theorem deliveredCount_markDelivered (h : s.waits.get? i = some w) :
    (exec P s (.markDelivered i) env).1.deliveredCount i = 1 := by
  have hid : w.waitId = i := Table.get?_key h
  rw [deliveredCount]
  simp only [exec, markDelivered, get?_setWaits, h, Option.map_some, hid]
  rfl

/-! ## Injections -/

theorem injections_exec (i : String) : (exec P s t env).1.injections i =
    s.injections i + marking (exec P s t env).2 i := by
  by_cases hdeliver : ∃ w, t = .deliverWait w
  · obtain ⟨w, rfl⟩ := hdeliver
    simp only [exec, execDeliver]
    split
    · rfl
    · split
      · rfl
      · rw [marking_singleton, injections, record, List.countP_cons]
        rfl
  have hmarking : marking (exec P s t env).2 i = 0 := by
    rw [marking, Multiset.countP_eq_zero]
    intro t' ht'
    cases exec_pushes (Multiset.mem_coe.mp ht') with
    | markDelivered w => exact absurd ⟨w, rfl⟩ hdeliver
    | _ => simp [Task.marks]
  rw [hmarking, add_zero, injections, injections]
  rcases exec_emits P s t env with hlog | ⟨e, hlog, hemits⟩
  · rw [hlog]
  · have hnot : e.injects i = false := by
      cases hemits with
      | injected w f => exact absurd ⟨w, rfl⟩ hdeliver
      | _ => rfl
    rw [hlog, List.countP_cons, hnot]
    rfl

theorem held_exec (ht : t ≠ .deliverResolved) (i : String) :
    held (exec P s t env).2 i ≤ if t.holds i = true then 1 else 0 := by
  by_cases hdeliver : ∃ w, t = .deliverWait w
  · obtain ⟨w, rfl⟩ := hdeliver
    simp only [exec, execDeliver]
    split
    · exact Nat.zero_le _
    · split
      · exact Nat.zero_le _
      · rw [held_singleton]
        exact le_refl _
  have hzero : held (exec P s t env).2 i = 0 := by
    rw [held, Multiset.countP_eq_zero]
    intro t' ht'
    cases exec_pushes (Multiset.mem_coe.mp ht') with
    | markDelivered w => exact absurd ⟨w, rfl⟩ hdeliver
    | deliverWait hw => exact absurd rfl ht
    | _ => simp [Task.holds]
  rw [hzero]
  exact Nat.zero_le _

theorem held_snapshot (s : Store) (i : String) :
    held ((s.resolvedWaits.map Task.deliverWait : List Task) : Multiset Task) i =
      if (s.waits.get? i).any (fun w => w.status.ready) then 1 else 0 := by
  have hcount : held ((s.resolvedWaits.map Task.deliverWait : List Task) : Multiset Task) i =
      (s.resolvedWaits.map Wait.waitId).count i := by
    rw [held, Multiset.coe_countP, List.countP_map, List.count, List.countP_map]
    congr 1
    funext w
    simp [Task.holds, beq_eq_decide]
  have hnodup : (s.resolvedWaits.map Wait.waitId).Nodup :=
    s.waits.unique.sublist (List.filter_sublist.map _)
  rw [hcount, hnodup.count]
  have hmem : i ∈ s.resolvedWaits.map Wait.waitId ↔
      (s.waits.get? i).any (fun w => w.status.ready) = true := by
    constructor
    · intro h
      obtain ⟨w, hw, rfl⟩ := List.mem_map.mp h
      have hget : s.waits.get? w.waitId = some w :=
        Table.get?_of_mem (List.mem_of_mem_filter hw)
      have hready : w.status.ready = true := (List.mem_filter.mp hw).2
      simp [hget, hready]
    · intro h
      cases hget : s.waits.get? i with
      | none => exact absurd h (by simp [hget])
      | some w =>
        rw [hget] at h
        exact List.mem_map.mpr ⟨w, List.mem_filter.mpr ⟨Table.get?_mem hget, h⟩,
          Table.get?_key hget⟩
  by_cases h : (s.waits.get? i).any (fun w => w.status.ready) = true
  · rw [if_pos (hmem.mpr h), if_pos h]
  · rw [if_neg (mt hmem.mp h), if_neg h]

/-! ## Whole runs -/

theorem deliveredOnce_start (ht : t.isCall = true) (h : DeliveredOnce s m) :
    DeliveredOnce s (t ::ₘ m) := by
  have hholds : ∀ i, t.holds i = false := by
    intro i
    cases t with
    | deliverWait => exact absurd ht (by simp [Task.isCall])
    | markDelivered => exact absurd ht (by simp [Task.isCall])
    | _ => rfl
  have hmarks : ∀ i, t.marks i = false := by
    intro i
    cases t with
    | markDelivered => exact absurd ht (by simp [Task.isCall])
    | _ => rfl
  refine ⟨fun i => ?_, fun i hi => ?_, fun i => ?_⟩
  · rw [held_cons, hholds]
    exact h.held_le i
  · rw [held_cons, hholds] at hi
    exact h.held_ready i hi
  · rw [marking_cons, hmarks]
    exact h.count i

/-- The snapshot takes hold of ready waits nobody holds. -/
theorem deliveredOnce_snapshot (h : DeliveredOnce s (.deliverResolved ::ₘ m))
    (hok : deliversOnce s (.deliverResolved ::ₘ m) .deliverResolved env = true) :
    DeliveredOnce s
      (((s.resolvedWaits.map Task.deliverWait : List Task) : Multiset Task) + m) := by
  have hfree : ∀ i, (s.waits.get? i).any (fun w => w.status.ready) = true → held m i = 0 := by
    intro i hready
    obtain ⟨w, hw, hr⟩ := (Option.any_eq_true _ _).mp hready
    have hin : w ∈ s.resolvedWaits := List.mem_filter.mpr ⟨Table.get?_mem hw, hr⟩
    have hheld := of_decide_eq_true (List.all_eq_true.mp hok w hin)
    rw [Table.get?_key hw, held_cons] at hheld
    exact (Nat.add_eq_zero_iff.mp hheld).1
  refine ⟨fun i => ?_, fun i hi => ?_, fun i => ?_⟩
  · rw [held_add, held_snapshot]
    have hle := h.held_le i
    rw [held_cons] at hle
    split
    · next hready => rw [hfree i hready]
    · omega
  · rw [held_add, held_snapshot] at hi
    by_cases hready : (s.waits.get? i).any (fun w => w.status.ready) = true
    · cases hget : s.waits.get? i with
      | none => exact absurd hready (by simp [hget])
      | some w =>
        rw [hget] at hready
        exact ⟨w, rfl, hready⟩
    · rw [if_neg hready, zero_add] at hi
      refine h.held_ready i ?_
      rw [held_cons]
      omega
  · have hcount := h.count i
    rw [marking_cons] at hcount
    rw [marking_add]
    have hzero : marking ((s.resolvedWaits.map Task.deliverWait : List Task) : Multiset Task) i
        = 0 := by
      rw [marking, Multiset.countP_eq_zero]
      intro t' ht'
      obtain ⟨w, -, rfl⟩ := List.mem_map.mp (Multiset.mem_coe.mp ht')
      simp [Task.marks]
    rw [hzero, zero_add]
    simpa [Task.marks] using hcount

/-- Marking ends the hold on a wait. -/
theorem deliveredOnce_mark {waitId : String} (h : DeliveredOnce s (.markDelivered waitId ::ₘ m)) :
    DeliveredOnce (exec P s (.markDelivered waitId) env).1 m := by
  have hself : held m waitId = 0 := by
    have hle := h.held_le waitId
    rw [held_cons] at hle
    simp only [Task.holds, decide_true, if_true] at hle
    omega
  obtain ⟨w, hw, hready⟩ := h.held_ready waitId (by rw [held_cons]; simp [Task.holds])
  refine ⟨fun i => ?_, fun i hi => ?_, fun i => ?_⟩
  · have hle := h.held_le i
    rw [held_cons] at hle
    omega
  · have hne : i ≠ waitId := by
      rintro rfl
      exact hi hself
    obtain ⟨w', hw', hready'⟩ := h.held_ready i (by rw [held_cons]; omega)
    refine ⟨w', exec_ready hw' hready' ?_, hready'⟩
    rintro heq
    exact hne (Task.markDelivered.inj heq).symm
  · have hcount := h.count i
    have hlog : (exec P s (.markDelivered waitId) env).1.injections i = s.injections i := rfl
    rw [marking_cons] at hcount
    rw [hlog, hcount]
    by_cases hi : i = waitId
    · subst hi
      have hbefore : s.deliveredCount i = 0 := by
        have hnot : w.status ≠ .delivered := by
          intro hd
          rw [hd] at hready
          exact absurd hready (by decide)
        simp [deliveredCount, hw, hnot]
      rw [deliveredCount_markDelivered hw, hbefore]
      simp [Task.marks]
    · rw [deliveredCount_exec fun heq => hi (Task.markDelivered.inj heq).symm]
      have hne : ¬ waitId = i := fun e => hi e.symm
      simp [Task.marks, hne]

theorem deliveredOnce_exec (h : DeliveredOnce s (t ::ₘ m))
    (hok : deliversOnce s (t ::ₘ m) t env = true) :
    DeliveredOnce (exec P s t env).1 ((exec P s t env).2 + m) := by
  by_cases hsnapshot : t = .deliverResolved
  · subst hsnapshot
    exact deliveredOnce_snapshot h hok
  by_cases hmark : ∃ waitId, t = .markDelivered waitId
  · obtain ⟨waitId, rfl⟩ := hmark
    have hdone : DeliveredOnce (exec P s (.markDelivered waitId) env).1 m :=
      deliveredOnce_mark h
    exact (zero_add m).symm ▸ hdone
  have hnot : ∀ i, t ≠ .markDelivered i := fun i heq => hmark ⟨i, heq⟩
  have hmarks : ∀ i, t.marks i = false := by
    intro i
    cases t with
    | markDelivered j => exact absurd rfl (hnot j)
    | _ => rfl
  have hheld : ∀ i, held (exec P s t env).2 i ≤ if t.holds i = true then 1 else 0 :=
    held_exec hsnapshot
  refine ⟨fun i => ?_, fun i hi => ?_, fun i => ?_⟩
  · have hle := h.held_le i
    have hnew := hheld i
    rw [held_cons] at hle
    rw [held_add]
    omega
  · have hnew := hheld i
    rw [held_add] at hi
    obtain ⟨w, hw, hready⟩ := h.held_ready i (by rw [held_cons]; omega)
    exact ⟨w, exec_ready hw hready (hnot i), hready⟩
  · have hcount := h.count i
    rw [marking_cons, hmarks] at hcount
    rw [injections_exec, hcount, deliveredCount_exec (hnot i), marking_add]
    simp only [Bool.false_eq_true, if_false, add_zero]
    omega

theorem runs_deliveredOnce {p : System} (h : RunsUnder P deliversOnce initial p) :
    DeliveredOnce p.state p.pending := by
  refine Pool.invariant DeliveredOnce (fun s m t => deliveredOnce_start)
    (fun s m t env => deliveredOnce_exec) h ?_
  refine ⟨fun i => Nat.zero_le _, fun i hi => ?_, fun i => rfl⟩
  exact absurd rfl hi

/-- **A wait is delivered at most once.** In every run whose snapshots take no wait that
another call still holds, the FlowFile of a wait is injected at most once, and exactly
once when the wait is marked delivered. -/
theorem delivered_at_most_once {p : System} (h : RunsUnder P deliversOnce initial p) :
    (∀ waitId, p.state.injections waitId ≤ 1) ∧
    (∀ w ∈ p.state.waits, w.status = .delivered → p.state.injections w.waitId = 1) := by
  have hinv := runs_deliveredOnce h
  have hmarking : ∀ w ∈ p.state.waits, w.status = .delivered →
      marking p.pending w.waitId = 0 := by
    intro w hw hdelivered
    by_contra hne
    have hheld : held p.pending w.waitId ≠ 0 := by
      have := marking_le_held p.pending w.waitId
      omega
    obtain ⟨w', hw', hready⟩ := hinv.held_ready w.waitId hheld
    obtain rfl := Option.some.inj ((Table.get?_of_mem hw).symm.trans hw')
    rw [hdelivered] at hready
    exact absurd hready (by decide)
  have hcount : ∀ w ∈ p.state.waits, w.status = .delivered →
      p.state.injections w.waitId = 1 := by
    intro w hw hdelivered
    rw [hinv.count, hmarking w hw hdelivered, deliveredCount, Table.get?_of_mem hw]
    simp [hdelivered]
  refine ⟨fun waitId => ?_, hcount⟩
  by_cases hdelivered : p.state.deliveredCount waitId = 0
  · have hle := marking_le_held p.pending waitId
    have hone := hinv.held_le waitId
    rw [hinv.count, hdelivered]
    omega
  · rw [deliveredCount] at hdelivered
    cases hget : p.state.waits.get? waitId with
    | none => exact absurd hdelivered (by simp [hget])
    | some w =>
      have hstatus : w.status = .delivered := by
        by_contra hne
        exact hdelivered (by simp [hget, hne])
      have hid : w.waitId = waitId := Table.get?_key hget
      rw [← hid, hcount w (Table.get?_mem hget) hstatus]

/-- A timer that elapses at time 10. -/
def shortTimer : Task := .parkTimer "1" "flow-1" "timer" { processId := "ff-1" } 10

/-- The timer is parked, elapses and is delivered by one sweep. -/
def sweptOnce : List (PoolLabel Task Env) :=
  [.start shortTimer, .advance 0 { now := 1 }, .start .sweepOnce, .advance 1 { now := 11 },
    .advance 1 { now := 11 }, .advance 1 { now := 11 }, .advance 1 { now := 11 }]

theorem delivered_at_most_once_swept :
    ∃ p : System, RunsUnder plainPlatform deliversOnce initial p ∧
      p.state.waits.rows.map Wait.status = [.delivered] ∧ p.state.injections "timer_1" = 1 := by
  obtain ⟨p, hfollow, hstatus, hget⟩ : ∃ p, follow (step plainPlatform)
      (fun p a => Pool.guarded deliversOnce p a = true) initial sweptOnce = some p ∧
      p.state.waits.rows.map Wait.status = [.delivered] ∧
      (p.state.waits.get? "timer_1").map Wait.status = some .delivered :=
    ⟨_, rfl, by decide, by decide⟩
  have hrun : RunsUnder plainPlatform deliversOnce initial p := runs_of_follow hfollow
  obtain ⟨w, hw, hdelivered⟩ := Option.map_eq_some_iff.mp hget
  have hone := (delivered_at_most_once hrun).2 w (Table.get?_mem hw) hdelivered
  rw [Table.get?_key hw] at hone
  exact ⟨p, hrun, hstatus, hone⟩

/-- A second sweep takes its snapshot while the first still holds the timer. -/
def sweptTwice : List (PoolLabel Task Env) :=
  [.start shortTimer, .advance 0 { now := 1 }, .start .sweepOnce, .advance 1 { now := 11 },
    .advance 1 { now := 11 }, .start .deliverResolved, .advance 2 { now := 12 },
    .advance 1 { now := 12 }, .advance 2 { now := 12 }, .advance 1 { now := 13 },
    .advance 2 { now := 13 }]

/-- Without the condition two deliveries inject the same FlowFile. -/
theorem delivered_twice :
    ∃ p : System, Reach (step plainPlatform) initial p ∧ p.pending = 0 ∧
      p.state.waits.rows.map Wait.status = [.delivered] ∧ p.state.injections "timer_1" = 2 := by
  obtain ⟨p, hp, hfacts⟩ : ∃ p, follow (step plainPlatform) (fun _ _ => True) initial
      sweptTwice = some p ∧ p.pending = 0 ∧
      p.state.waits.rows.map Wait.status = [.delivered] ∧ p.state.injections "timer_1" = 2 :=
    ⟨_, rfl, rfl, by decide, by decide⟩
  exact ⟨p, runs_of_follow hp, hfacts⟩

/-- A wait that no longer waits keeps its row, its FlowFile and its value in every interleaving;
only its status can still become delivered. -/
theorem settled_wait_stays {p q : System} (hrun : Reach (step P) p q)
    (h : p.state.waits.get? i = some w) (hnot : w.status ≠ .waiting) :
    q.state.waits.get? i = some w ∨
      q.state.waits.get? i = some { w with status := .delivered } := by
  have hmark : ∀ (s : Store) (env : Env) (w' : Wait), s.waits.get? i = some w' →
      (exec P s (.markDelivered i) env).1.waits.get? i = some { w' with status := .delivered } := by
    intro s env w' hget
    simp only [exec, markDelivered, get?_setWaits, hget, Option.map_some, Table.get?_key hget,
      decide_true, if_true]
  refine hrun.invariant (fun q => q.state.waits.get? i = some w ∨
    q.state.waits.get? i = some { w with status := .delivered }) ?_ (.inl h)
  intro q a q' hq _ hstep
  rcases Pool.step_cases hstep with ⟨t, -, hstate, -⟩ | ⟨j, t, env, rest, -, -, hstate, -⟩
  · rw [hstate]
    exact hq
  · rw [hstate]
    by_cases ht : t = .markDelivered i
    · subst ht
      rcases hq with hq | hq
      · exact .inr (hmark _ env _ hq)
      · have hagain := hmark _ env _ hq
        exact .inr hagain
    · exact hq.imp (exec_settled · hnot ht) (exec_settled · (by simp) ht)

theorem settled_wait_stays_elapsed :
    ∃ (q : System) (w : Wait), w.status = .elapsed ∧ (q.state.waits.get? "timer_1" = some w ∨
      q.state.waits.get? "timer_1" = some { w with status := .delivered }) := by
  obtain ⟨p, q, hrun, hget⟩ : ∃ p q, follow (step plainPlatform) (fun _ _ => True) p
      (sweptOnce.drop 4) = some q ∧
        (p.state.waits.get? "timer_1").map Wait.status = some .elapsed :=
    ⟨(follow (step plainPlatform) (fun _ _ => True) initial (sweptOnce.take 4)).getD initial, _,
      rfl, by decide⟩
  obtain ⟨w, hw, helapsed⟩ := Option.map_eq_some_iff.mp hget
  exact ⟨q, w, helapsed, settled_wait_stays (runs_of_follow hrun) hw (by simp [helapsed])⟩

end Store

end PawFlow.Interaction
