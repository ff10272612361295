import PawFlow.ControlBlocks.Meaning
import PawFlow.Lib.Runs

/-!
# Every run keeps the meaning of the blocks

One firing takes a FlowFile from its place and puts it where the relation leads, so that the place
keeps saying what happened on the visit. The flows are those that the operations make.
-/

namespace PawFlow.ControlBlocks

open PawFlow.Lib PawFlow.Core PawFlow.ParallelJoin

variable {E : Tests} {w : Flow} {s : State}

/-! ## Taking a FlowFile from its place -/

variable {k : Nat} {t : Token} {c : String × String} {b : String × Control}

theorem filter_eraseIdx_of_not {α : Type} {p : α → Bool} {xs : List α} {x : α}
    (hx : xs[k]? = some x) (hp : p x = false) : (xs.eraseIdx k).filter p = xs.filter p := by
  induction xs generalizing k with
  | nil => rfl
  | cons y ys ih =>
    cases k with
    | zero =>
      obtain rfl := Option.some.inj hx
      rw [List.eraseIdx_cons_zero, List.filter_cons_of_neg (by simp [hp])]
    | succ k =>
      rw [List.eraseIdx_cons_succ, List.filter_cons, List.filter_cons,
        ih (by simpa using hx)]

theorem filter_eraseIdx_of_single {α : Type} {p : α → Bool} {xs : List α} {x y : α}
    (hx : xs[k]? = some x) (hp : p x = true) (hone : xs.filter p = [y]) :
    x = y ∧ (xs.eraseIdx k).filter p = [] := by
  induction xs generalizing k with
  | nil => simp at hone
  | cons z zs ih =>
    cases k with
    | zero =>
      obtain rfl := Option.some.inj hx
      rw [List.filter_cons_of_pos hp] at hone
      exact ⟨(List.cons.inj hone).1, (List.cons.inj hone).2⟩
    | succ k =>
      have hx : zs[k]? = some x := by simpa using hx
      rw [List.eraseIdx_cons_succ]
      by_cases hz : p z = true
      · rw [List.filter_cons_of_pos hz] at hone
        have hmem : x ∈ zs.filter p := List.mem_filter.mpr ⟨List.mem_of_getElem? hx, hp⟩
        rw [(List.cons.inj hone).2] at hmem
        exact absurd hmem List.not_mem_nil
      · rw [List.filter_cons_of_neg hz] at hone ⊢
        exact ih hx hone

/-- The state without the FlowFile that a task executes on. -/
def State.without (s : State) (k : Nat) : State := { s with tokens := s.tokens.eraseIdx k }

theorem Inv.without_root (h : Inv E w none s) (ht : s.tokens[k]? = some t)
    (hv : t.visit = none) : Inv E w none (s.without k) where
  tokens t' ht' := h.tokens t' (List.mem_of_mem_eraseIdx ht')
  roots t' ht' := h.roots t' (List.mem_of_mem_eraseIdx ht')
  events := h.events
  visits u hu hne := by
    obtain ⟨b, hb, f, hentered, hstage⟩ := h.visits u hu hne
    refine ⟨b, hb, f, hentered, ?_⟩
    have htoks : (s.without k).tokensOf u = s.tokensOf u :=
      filter_eraseIdx_of_not ht (by simp [hv])
    rw [htoks]
    exact hstage

theorem Inv.without_visit {v : Nat} (h : Inv E w none s)
    (ht : s.tokens[k]? = some t) (hv : t.visit = some v) :
    Inv E w (some v) (s.without k) ∧ ∃ b f, OnTheWay w (s.without k) v b f ∧
      At E b.1 f ((s.without k).eventsOf v) t b.2 := by
  have hlt := h.tokens t (List.mem_of_getElem? ht) v hv
  have hmem : t ∈ s.tokensOf v :=
    List.mem_filter.mpr ⟨List.mem_of_getElem? ht, by simpa using hv⟩
  constructor
  · refine ⟨fun t' ht' => h.tokens t' (List.mem_of_mem_eraseIdx ht'),
      fun t' ht' => h.roots t' (List.mem_of_mem_eraseIdx ht'), h.events, ?_⟩
    intro u hu hne
    obtain ⟨b, hb, f, hentered, hstage⟩ := h.visits u hu (by simp)
    refine ⟨b, hb, f, hentered, ?_⟩
    have htoks : (s.without k).tokensOf u = s.tokensOf u :=
      filter_eraseIdx_of_not ht (by simpa [hv] using hne)
    rw [htoks]
    exact hstage
  · obtain ⟨b, hb, f, hentered, hstage⟩ := h.visits v hlt (by simp)
    cases hstage with
    | inside t' htoks hat hleft hlost =>
      obtain ⟨rfl, hnil⟩ := filter_eraseIdx_of_single ht (by simpa using hv) htoks
      exact ⟨b, f, ⟨hb, hlt, hnil, hentered, hleft, hlost⟩, hat⟩
    | left htoks | lost htoks =>
      rw [htoks] at hmem
      exact absurd hmem List.not_mem_nil

/-! ## Outside of the blocks -/

theorem exists_of_mem_commitResult {out : List (String × String)} {f : FlowFile} {uuid : String}
    {clones : Nat → String × ParallelJoin.Time} {sent : String × FlowFile}
    (h : sent ∈ commitResult out f uuid clones) : ∃ c ∈ out, sent.1 = c.1 := by
  obtain ⟨⟨c, i⟩, hc, rfl⟩ := List.mem_map.mp h
  exact ⟨c, mem_of_mem_matching (List.mem_zipIdx_iff_getElem?.mp hc |> List.mem_of_getElem?), rfl⟩

variable {source default : String} {routes : PyDict String Condition} {ops : List Operation}

theorem Inv.deliver_roots (hd : w.taskIds.Nodup)
    {sent : List (String × FlowFile)} (h : Inv E w none s)
    (hsent : ∀ i ∈ sent, i.1 ∈ w.processors ∨ ∃ b ∈ w.blocks, i.1 = entryId b.1) :
    Inv E w none (sent.foldl (State.deliver w none source) s) := by
  induction sent generalizing s with
  | nil => exact h
  | cons i rest ih =>
    refine ih ?_ fun j hj => hsent j (List.mem_cons_of_mem _ hj)
    exact h.deliver_root hd (hsent i List.mem_cons_self) source i.2

theorem Inv.commit_root (h : Inv E w none s) (hd : w.taskIds.Nodup) (hw : RootOk w)
    (hv : t.visit = none) (ht : Root w t.task) (results : List FlowFile) (uuids : Nat → String)
    (clones : Nat → Nat → String × ParallelJoin.Time) :
    Inv E w none (s.commit w t results uuids clones) := by
  rw [State.commit, hv]
  refine h.deliver_roots hd fun i hi => ?_
  obtain ⟨r, -, hi⟩ := List.mem_flatMap.mp hi
  obtain ⟨c, hc, heq⟩ := exists_of_mem_commitResult hi
  rw [heq]
  exact mem_outgoing_of_root hd hw ht hc

theorem Inv.rollback_root (h : Inv E w none s) (hd : w.taskIds.Nodup) (hw : RootOk w)
    (hv : t.visit = none) (ht : Root w t.task) (f : FlowFile) (message code : String)
    (clones : Nat → String × ParallelJoin.Time) :
    Inv E w none (s.rollback w t f message code clones) := by
  rw [State.rollback, hv]
  dsimp only
  split
  · refine h.deliver_roots hd fun i hi => ?_
    obtain ⟨⟨c, n⟩, hc, rfl⟩ := List.mem_map.mp hi
    have hc := List.mem_of_mem_filter (List.mem_of_getElem? (List.mem_zipIdx_iff_getElem?.mp hc))
    exact mem_outgoing_of_root hd hw ht hc
  · split
    · next c hc =>
      exact h.deliver_root hd (mem_outgoing_of_root hd hw ht (List.mem_of_find?_eq_some hc)) _ _
    · exact h

/-! ## In a block -/

theorem commit_single {r : FlowFile}
    (hmatch : matching (w.outgoing t.task) r = [c]) (uuids : Nat → String)
    (clones : Nat → Nat → String × ParallelJoin.Time) (s : State) :
    s.commit w t [r] uuids clones = s.deliver w t.visit t.task (c.1, r) := by
  simp [State.commit, List.zipIdx, commitResult_of_matching hmatch]

theorem commit_of_outgoing (hout : w.outgoing t.task = [c])
    (r : FlowFile) (uuids : Nat → String) (clones : Nat → Nat → String × ParallelJoin.Time)
    (s : State) : s.commit w t [r] uuids clones = s.deliver w t.visit t.task (c.1, r) :=
  commit_single (hout ▸ matching_singleton c r) uuids clones s

theorem rollback_single {v : Nat} (hv : t.visit = some v)
    (hfail : (w.outgoing t.task).filter (fun c => c.2 = "failure") = [c]) (f : FlowFile)
    (message code : String) (clones : Nat → String × ParallelJoin.Time) (s : State) :
    s.rollback w t f message code clones =
      (s.record (.raised v t.task)).deliver w (some v) t.task
        (c.1, State.failed f t.task message code) := by
  simp [State.rollback, hfail, hv]

theorem rollback_nil {v : Nat} (hv : t.visit = some v)
    (hfail : (w.outgoing t.task).filter (fun c => c.2 = "failure") = []) {f : FlowFile}
    (hclient : f.attr "http.request.id" = "") (message code : String)
    (clones : Nat → String × ParallelJoin.Time) (s : State) :
    s.rollback w t f message code clones =
      (s.record (.raised v t.task)).record (.discarded v) := by
  have hnone : (w.outgoing t.task).find?
      (fun c => c.2 = "success" ∧ f.attr "http.request.id" ≠ "") = none :=
    List.find?_eq_none.mpr fun c _ => by simp [hclient]
  simp only [State.rollback, hfail, hv, hnone]
  simp

theorem mem_outgoing_of_block (hd : w.taskIds.Nodup) (hw : RootOk w)
    (hb : b ∈ w.blocks) {id : String} {k : Task} (hid : (id, k) ∈ (lower b.1 b.2).tasks)
    (hk : ∀ name, k ≠ .outputPort name) :
    c ∈ w.outgoing id ↔
      ∃ r ∈ (lower b.1 b.2).relations, r.source = id ∧ r.target = c.1 ∧ r.type = c.2 := by
  rw [outgoing_of_block hd hw hb hid hk]
  constructor
  · intro h
    obtain ⟨r, hr, rfl⟩ := List.mem_map.mp h
    obtain ⟨hr, hsource⟩ := List.mem_filter.mp hr
    exact ⟨r, hr, by simpa using hsource, rfl, rfl⟩
  · rintro ⟨r, hr, hsource, htarget, htype⟩
    exact List.mem_map.mpr ⟨r, List.mem_filter.mpr ⟨hr, by simpa using hsource⟩,
      Prod.ext htarget htype⟩

/-- What follows on the outcome of a task. -/
def State.finish (w : Flow) (s : State) (t : Token) (uuids : Nat → String)
    (clones : Nat → Nat → String × ParallelJoin.Time) : Outcome → State
  | .returned results => s.commit w t results uuids clones
  | .raised f message code => s.rollback w t f message code (clones 0)

theorem step_fire (ht : s.tokens[k]? = some t) (outcome : Outcome)
    (uuids : Nat → String) (clones : Nat → Nat → String × ParallelJoin.Time) :
    step E w s (.fire k outcome uuids clones) =
      some ((s.without k).finish w t uuids clones
        ((w.taskAt t.task).execute E outcome t.file)) := by
  simp only [step, ht, Option.map_some]
  cases (w.taskAt t.task).execute E outcome t.file with
  | returned | raised => rfl

/-- A task of a body hands one FlowFile on, or raises and has one failure relation or gives up. -/
inductive Follows (w : Flow) (t : Token) (mayFail : Prop) : Outcome → Prop
  | returned (r : FlowFile) (c : String × String) (hmatch : matching (w.outgoing t.task) r = [c])
      (hplain : c.2 = "failure" → mayFail) : Follows w t mayFail (.returned [r])
  | raised (f : FlowFile) (message code : String) (c : String × String)
      (hfail : (w.outgoing t.task).filter (fun c => c.2 = "failure") = [c]) :
      Follows w t mayFail (.raised f message code)
  | givesUp (f : FlowFile) (message code : String)
      (hfail : (w.outgoing t.task).filter (fun c => c.2 = "failure") = [])
      (hclient : f.attr "http.request.id" = "") : Follows w t mayFail (.raised f message code)

/-! ### if and switch -/

/-- A block that is a route. -/
structure IsRoute (E : Tests) (c : Control) (routes : PyDict String Condition) (default : String) :
    Prop where
  lower : ∀ block, lower block c = lowerRoute block routes default
  choice : ∀ f, c.choice E f = chosen E routes default f
  outputs : c.outputs = routes.map Prod.fst ++ [default]
  distinct : c.outputs.Nodup
  named : "" ∉ c.outputs
  at_iff : ∀ block f events t, At E block f events t c ↔
    (t.task = entryId block ∧ t.file = f ∨
      t.task = routeId block ∧ t.file = port "input" f ∧
        c.choice E (port "input" f) = c.choice E f)
  prescribed_iff : ∀ block f events output, Prescribed E block f events output c ↔
    output = c.choice E f

theorem isRoute_ifElse (E : Tests) (condition : Condition) :
    IsRoute E (.ifElse condition) [("true", condition)] "false" where
  lower _ := rfl
  choice f := by
    by_cases h : condition.holds E f <;> simp [Control.choice, chosen, h]
  outputs := rfl
  distinct := show ["true", "false"].Nodup by decide
  named := show "" ∉ ["true", "false"] by decide
  at_iff _ _ _ _ := Iff.rfl
  prescribed_iff _ _ _ _ := Iff.rfl

theorem isRoute_switch (E : Tests) (cases : PyDict String Condition) (default : String)
    (distinct : (cases.map Prod.fst ++ [default]).Nodup)
    (named : "" ∉ cases.map Prod.fst ++ [default]) :
    IsRoute E (.switch cases default distinct named) cases default where
  lower _ := rfl
  choice _ := rfl
  outputs := rfl
  distinct := distinct
  named := named
  at_iff _ _ _ _ := Iff.rfl
  prescribed_iff _ _ _ _ := Iff.rfl

theorem chosen_mem (E : Tests) (routes : PyDict String Condition) (default : String)
    (f : FlowFile) : chosen E routes default f ∈ routes.map Prod.fst ++ [default] := by
  unfold chosen
  cases h : routes.find? fun i => i.2.holds E f with
  | none => simp
  | some i => exact List.mem_append_left _ (List.mem_map.mpr ⟨i, List.mem_of_find?_eq_some h, rfl⟩)

theorem matching_routed {block : String}
    (hdistinct : (routes.map Prod.fst ++ [default]).Nodup)
    (hnamed : "" ∉ routes.map Prod.fst ++ [default]) (E : Tests) (f : FlowFile) :
    matching ((routes.map Prod.fst ++ [default]).map fun name => (outputId block name, name))
        (routed E routes default f) =
      [(outputId block (chosen E routes default f), chosen E routes default f)] := by
  have hmem := chosen_mem E routes default f
  generalize hname : chosen E routes default f = name at *
  have hrel : (routed E routes default f).attr "route.relationship" = name := by
    simp [routed, hname]
  have hne : name ≠ "" := fun h => hnamed (h ▸ hmem)
  have hfound : ((routes.map Prod.fst ++ [default]).map fun name =>
      (outputId block name, name)).filter (fun c => c.2 = name) = [(outputId block name, name)] := by
    rw [List.filter_map]
    have hone : (routes.map Prod.fst ++ [default]).filter (fun n => n = name) = [name] := by
      rw [List.filter_eq, List.count_eq_one_of_mem hdistinct hmem]
      rfl
    exact congrArg (List.map _) hone
  simp only [matching, hrel, if_neg hne, hfound]
  simp

theorem Inv.fire_route {v : Nat} {f : FlowFile}
    (hc : IsRoute E b.2 routes default)
    (hd : w.taskIds.Nodup) (hw : RootOk w) (h : Inv E w (some v) s) (ho : OnTheWay w s v b f)
    (hat : At E b.1 f (s.eventsOf v) t b.2) (hv : t.visit = some v) (outcome : Outcome)
    (hline : ∀ name, w.taskAt t.task = .inputPort name → t.task = entryId b.1 →
      b.2.choice E (port name t.file) = b.2.choice E t.file)
    (uuids : Nat → String) (clones : Nat → Nat → String × ParallelJoin.Time) :
    Inv E w none (s.finish w t uuids clones ((w.taskAt t.task).execute E outcome t.file)) := by
  have hids := lower_nodup hd ho.block
  have hroute : (routeId b.1, .routeOnAttribute routes default) ∈ (lower b.1 b.2).tasks := by
    rw [hc.lower]
    exact List.mem_cons_of_mem _ List.mem_cons_self
  have hrouteAt := taskAt_of_block hd ho.block hroute
  have hentry := entry_mem_tasks b.1 b.2
  have hentryAt := taskAt_of_block hd ho.block hentry
  rw [hc.lower] at hids
  rcases (hc.at_iff b.1 f _ t).mp hat with ⟨htask, hfile⟩ | ⟨htask, hfile, hsame⟩
  · -- In front of the route.
    have hout : w.outgoing t.task = [(routeId b.1, "success")] := by
      rw [htask, outgoing_of_block hd hw ho.block hentry (fun _ h => by cases h), hc.lower,
        lowerRoute_entry hids]
      rfl
    have hkeep := hline "input" (htask ▸ hentryAt) htask
    rw [htask, hentryAt, hfile]
    show Inv E w none (s.commit w t [port "input" f] uuids clones)
    rw [commit_of_outgoing hout, hv]
    refine h.deliver_inside ho _ ⟨fun _ => by simp [hrouteAt], fun _ => by simp [hrouteAt]⟩ ?_
    exact (hc.at_iff _ _ _ _).mpr (.inr ⟨rfl, rfl, by rwa [hfile] at hkeep⟩)
  · -- Behind it.
    have hout : w.outgoing t.task =
        (routes.map Prod.fst ++ [default]).map fun name => (outputId b.1 name, name) := by
      rw [htask, outgoing_of_block hd hw ho.block hroute (fun _ h => by cases h), hc.lower,
        lowerRoute_route hids, List.map_map]
      rfl
    have hmatch : matching (w.outgoing t.task) (routed E routes default (port "input" f)) =
        [(outputId b.1 (chosen E routes default (port "input" f)),
          chosen E routes default (port "input" f))] := by
      rw [hout]
      exact matching_routed (hc.outputs ▸ hc.distinct) (hc.outputs ▸ hc.named) E _
    rw [htask, hrouteAt, hfile]
    show Inv E w none (s.commit w t [routed E routes default (port "input" f)] uuids clones)
    rw [commit_single hmatch, hv]
    refine h.deliver_output hd ho _ (hc.outputs ▸ chosen_mem E routes default _) ?_
    rw [hc.prescribed_iff, ← hsame, hc.choice]

/-! ### try_catch -/

def Raised (tasks : List String) (events : List Event) : Bool := events.any (Event.raises tasks)

section Raised

variable {tasks : List String} {v : Nat} {id : String} {events : List Event}

@[simp] theorem raised_moved (source target : String) :
    Raised tasks (.moved v source target :: events) = Raised tasks events := rfl

@[simp] theorem raised_left (output : String) :
    Raised tasks (.left v output :: events) = Raised tasks events := rfl

theorem raised_raised (h : id ∈ tasks) : Raised tasks (.raised v id :: events) = true := by
  simp [Raised, Event.raises, h]

theorem raised_raised_of_not_mem (h : id ∉ tasks) :
    Raised tasks (.raised v id :: events) = Raised tasks events := by
  simp [Raised, Event.raises, h]

end Raised

abbrev Tried (block : String) (attempt : Body) : List Event → Bool :=
  Raised (attempt.tasks.map (bodyId block "try"))

abbrev Caught (block : String) (handler : Body) : List Event → Bool :=
  Raised (handler.tasks.map (bodyId block "catch"))

theorem prescribed_tryCatch {block : String} {f : FlowFile} {events : List Event} {output : String}
    {attempt handler : Body}
    {noFailure : ∀ r ∈ attempt.relations ++ handler.relations, r.type ≠ "failure"} :
    Prescribed E block f events output (.tryCatch attempt handler noFailure) ↔
      (output = "success" ↔ Tried block attempt events = false) ∧
      (output = "caught" ↔ Tried block attempt events = true ∧ Caught block handler events = false) ∧
      (output = "failure" ↔ Tried block attempt events = true ∧ Caught block handler events = true) :=
  Iff.rfl

section TryCatch

variable {v : Nat} {block : String} {attempt handler : Body} {f : FlowFile}
  {noFailure : ∀ r ∈ attempt.relations ++ handler.relations, r.type ≠ "failure"}

/-- A body and whether it runs after a failure, the port behind it and what its own failures lead
to. -/
inductive Side (block : String) (attempt handler : Body) :
    Bool → String → Body → String → String → Prop
  | attempt : Side block attempt handler false "try" attempt "success"
      (bodyId block "catch" handler.entry)
  | handler : Side block attempt handler true "catch" handler "caught" (outputId block "failure")

variable {tried : Bool} {label output failed id : String} {body : Body}

theorem Side.mem_tasks (hs : Side block attempt handler tried label body output failed) {x : String}
    (hx : x ∈ body.tasks) :
    (bodyId block label x, .work) ∈ (lowerTryCatch block attempt handler).tasks := by
  cases hs with
  | attempt => exact try_mem_tasks _ _ hx
  | handler => exact catch_mem_tasks _ _ hx

theorem Side.fails (hs : Side block attempt handler tried label body output failed) {x : String}
    (hx : x ∈ body.tasks) :
    TryRelation block attempt handler ⟨bodyId block label x, failed, "failure"⟩ := by
  cases hs with
  | attempt => exact .fails x hx
  | handler => exact .failsAgain x hx

theorem Side.target (hs : Side block attempt handler tried label body output failed)
    (hd : w.taskIds.Nodup) (hw : RootOk w)
    (hb : (block, .tryCatch attempt handler noFailure) ∈ w.blocks)
    (hid : id ∈ body.tasks.map (bodyId block label)) {c : String × String}
    (hc : c ∈ w.outgoing id) : c.2 = "failure" ∧ c.1 = failed ∨
      c.2 ≠ "failure" ∧
        (c.1 = outputId block output ∨ ∃ x ∈ body.tasks, c.1 = bodyId block label x) := by
  obtain ⟨x, hx, rfl⟩ := List.mem_map.mp hid
  have hids := tryIds_of_nodup (lower_nodup hd hb)
  obtain ⟨q, hq, hsource, htarget, htype⟩ := (mem_outgoing_of_block hd hw hb (hs.mem_tasks hx)
    (fun _ h => by cases h)).mp hc
  have hwithin : ∀ p ∈ body.relations, q.type = p.type → q.type ≠ "failure" := by
    intro p hp heq
    cases hs with
    | attempt => exact heq ▸ noFailure p (List.mem_append_left _ hp)
    | handler => exact heq ▸ noFailure p (List.mem_append_right _ hp)
  have hq : q.type = "failure" ∧ q.target = failed ∨
      q.type = "success" ∧ q.target = outputId block output ∨
      ∃ p ∈ body.relations, q.type = p.type ∧ q.target = bodyId block label p.target := by
    cases hs with
    | attempt => exact try_relation hids hx (mem_lowerTryCatch.mp hq) hsource
    | handler => exact catch_relation hids hx (mem_lowerTryCatch.mp hq) hsource
  rw [← htarget, ← htype]
  rcases hq with hfail | ⟨hok, hout⟩ | ⟨p, hp, heq, hin⟩
  · exact .inl hfail
  · exact .inr ⟨by rw [hok]; decide, .inl hout⟩
  · exact .inr ⟨hwithin p hp heq, .inr ⟨_, (body.closed p hp).2, hin⟩⟩

theorem Inv.hand_on (hs : Side block attempt handler tried label body output failed)
    (hd : w.taskIds.Nodup) (hw : RootOk w) (h : Inv E w (some v) s)
    (ho : OnTheWay w s v (block, .tryCatch attempt handler noFailure) f)
    (hid : id ∈ body.tasks.map (bodyId block label))
    (htried : Tried block attempt (s.eventsOf v) = tried)
    (hcaught : Caught block handler (s.eventsOf v) = false) {c : String × String}
    (hc : c ∈ w.outgoing id) (hplain : c.2 ≠ "failure") (r : FlowFile) :
    Inv E w none (s.deliver w (some v) id (c.1, r)) := by
  rcases hs.target hd hw ho.block hid hc with ⟨hfail, -⟩ | ⟨-, hout | ⟨x, hx, hin⟩⟩
  · exact absurd hfail hplain
  · rw [hout]
    cases hs with
    | attempt | handler =>
      refine h.deliver_output hd ho _ (by simp [Control.outputs]) ?_
      simp [prescribed_tryCatch, htried, hcaught]
  · have hwork := taskAt_of_block hd ho.block (hs.mem_tasks hx)
    rw [hin]
    refine h.deliver_inside ho _ ⟨fun _ => by simp [hwork], fun _ => by simp [hwork]⟩ ?_
    cases hs with
    | attempt => exact ⟨hcaught, .inr (.inl ⟨List.mem_map_of_mem hx, htried⟩)⟩
    | handler => exact ⟨hcaught, .inr (.inr ⟨List.mem_map_of_mem hx, htried⟩)⟩

theorem Inv.fail (hs : Side block attempt handler tried label body output failed)
    (hd : w.taskIds.Nodup) (hw : RootOk w) (h : Inv E w (some v) s)
    (ho : OnTheWay w s v (block, .tryCatch attempt handler noFailure) f)
    (hid : id ∈ body.tasks.map (bodyId block label))
    (htried : Tried block attempt (s.eventsOf v) = tried)
    (hcaught : Caught block handler (s.eventsOf v) = false) {c : String × String}
    (hc : c ∈ w.outgoing id) (hfail : c.2 = "failure") (r : FlowFile) :
    Inv E w none ((s.record (.raised v id)).deliver w (some v) id (c.1, r)) := by
  rcases hs.target hd hw ho.block hid hc with ⟨-, heq⟩ | ⟨hplain, -⟩
  swap
  · exact absurd hfail hplain
  have hids := tryIds_of_nodup (lower_nodup hd ho.block)
  have hraised := h.record (.raised v id) rfl ho.lt
  have ho' := ho.record (.raised v id) rfl ⟨ho.entered, ho.left, ho.lost⟩
  have hevents : (s.record (.raised v id)).eventsOf v = .raised v id :: s.eventsOf v :=
    eventsOf_record_self rfl s
  rw [heq]
  cases hs with
  | attempt =>
    have hwork := taskAt_of_block hd ho.block
      (catch_mem_tasks block attempt handler.entry_mem)
    refine hraised.deliver_inside ho' _ ⟨fun _ => by simp [hwork], fun _ => by simp [hwork]⟩ ?_
    rw [hevents]
    refine ⟨?_, .inr (.inr ⟨List.mem_map_of_mem handler.entry_mem, raised_raised hid⟩)⟩
    exact (raised_raised_of_not_mem (hids.try_catch _ hid)).trans hcaught
  | handler =>
    have hnot := mt (hids.try_catch id) (not_not_intro hid)
    refine hraised.deliver_output hd ho' _ (by simp [Control.outputs]) ?_
    rw [hevents]
    simp [prescribed_tryCatch, raised_raised hid, raised_raised_of_not_mem hnot, htried]

variable {outcome : Outcome}

theorem Inv.fire_side (hs : Side block attempt handler tried label body output failed)
    (hd : w.taskIds.Nodup) (hw : RootOk w) (h : Inv E w (some v) s)
    (ho : OnTheWay w s v (block, .tryCatch attempt handler noFailure) f) {t : Token}
    (hid : t.task ∈ body.tasks.map (bodyId block label))
    (htried : Tried block attempt (s.eventsOf v) = tried)
    (hcaught : Caught block handler (s.eventsOf v) = false) (hv : t.visit = some v)
    (hline : w.taskAt t.task = .work → Follows w t (false = true) outcome)
    (uuids : Nat → String) (clones : Nat → Nat → String × ParallelJoin.Time) :
    Inv E w none (s.finish w t uuids clones ((w.taskAt t.task).execute E outcome t.file)) := by
  obtain ⟨x, hx, heq⟩ := List.mem_map.mp hid
  have hmem := hs.mem_tasks hx
  have hwork : w.taskAt t.task = .work := heq ▸ taskAt_of_block hd ho.block hmem
  rw [hwork]
  cases hline hwork with
  | returned r c hmatch hplain =>
    show Inv E w none (s.commit w t [r] uuids clones)
    rw [commit_single hmatch, hv]
    have hc := mem_of_mem_matching (hmatch ▸ List.mem_singleton_self c)
    exact h.hand_on hs hd hw ho hid htried hcaught hc (Bool.false_ne_true ∘ hplain) r
  | raised f' message code c hfail =>
    show Inv E w none (s.rollback w t f' message code (clones 0))
    rw [rollback_single hv hfail]
    have hc := List.mem_filter.mp (hfail ▸ List.mem_singleton_self c)
    exact h.fail hs hd hw ho hid htried hcaught hc.1 (by simpa using hc.2) _
  | givesUp f' message code hfail =>
    -- Each task of the body has a failure relation.
    have hc : (failed, "failure") ∈ w.outgoing t.task := by
      rw [← heq, mem_outgoing_of_block hd hw ho.block hmem (fun _ h => by cases h)]
      exact ⟨_, mem_lowerTryCatch.mpr (hs.fails hx), rfl, rfl, rfl⟩
    exact absurd rfl (List.filter_eq_nil_iff.mp hfail _ hc ∘ decide_eq_true)

theorem Inv.fire_tryCatch (hd : w.taskIds.Nodup) (hw : RootOk w) (h : Inv E w (some v) s)
    (ho : OnTheWay w s v (block, .tryCatch attempt handler noFailure) f) {t : Token}
    (hat : At E block f (s.eventsOf v) t (.tryCatch attempt handler noFailure))
    (hv : t.visit = some v)
    (hline : w.taskAt t.task = .work →
      Follows w t ((Control.tryCatch attempt handler noFailure).isRepeat = true) outcome) (uuids : Nat → String)
    (clones : Nat → Nat → String × ParallelJoin.Time) :
    Inv E w none (s.finish w t uuids clones ((w.taskAt t.task).execute E outcome t.file)) := by
  have hids := tryIds_of_nodup (lower_nodup hd ho.block)
  obtain ⟨hcaught, ⟨htask, htried⟩ | ⟨htask, htried⟩ | ⟨htask, htried⟩⟩ := hat
  · have hentry := entry_mem_tasks block (.tryCatch attempt handler noFailure)
    have hentryAt := taskAt_of_block hd ho.block hentry
    have hout : w.outgoing t.task = [(bodyId block "try" attempt.entry, "success")] := by
      rw [htask, outgoing_of_block hd hw ho.block hentry (fun _ h => by cases h)]
      show ((lowerTryCatch block attempt handler).relations.filter _).map _ = _
      rw [lowerTryCatch_entry hids]
      rfl
    have hwork := taskAt_of_block hd ho.block
      (try_mem_tasks block handler attempt.entry_mem)
    rw [htask, hentryAt]
    show Inv E w none (s.commit w t [port "input" t.file] uuids clones)
    rw [commit_of_outgoing hout, hv]
    refine h.deliver_inside ho _ ⟨fun _ => by simp [hwork], fun _ => by simp [hwork]⟩ ?_
    exact ⟨hcaught, .inr (.inl ⟨List.mem_map_of_mem attempt.entry_mem, htried⟩)⟩
  · exact h.fire_side .attempt hd hw ho htask htried hcaught hv hline uuids clones
  · exact h.fire_side .handler hd hw ho htask htried hcaught hv hline uuids clones

end TryCatch

/-! ### repeat_n -/

section RepeatN

variable {v : Nat} {block : String} {times : Nat} {body : Body} {f : FlowFile}
  {bounds : 1 ≤ times ∧ times ≤ 8}

/-- The finished runs of the body. -/
def ended (block : String) (times : Nat) (body : Body) (events : List Event) : Nat :=
  events.countP (Event.follows (bodyEnds block times body))

@[simp] theorem ended_left (output : String) (events : List Event) :
    ended block times body (.left v output :: events) = ended block times body events :=
  List.countP_cons_of_neg (by simp [Event.follows])

@[simp] theorem ended_raised (id : String) (events : List Event) :
    ended block times body (.raised v id :: events) = ended block times body events :=
  List.countP_cons_of_neg (by simp [Event.follows])

variable {source : String}

theorem ended_moved_of_mem {target : String}
    (h : (source, target) ∈ bodyEnds block times body) (events : List Event) :
    ended block times body (.moved v source target :: events) =
      ended block times body events + 1 :=
  List.countP_cons_of_pos (by simpa [Event.follows] using h)

theorem ended_moved_of_not_mem {target : String}
    (h : (source, target) ∉ bodyEnds block times body) (events : List Event) :
    ended block times body (.moved v source target :: events) = ended block times body events :=
  List.countP_cons_of_neg (by simpa [Event.follows] using h)

theorem mem_bodyEnds_source {link : String × String} (h : link ∈ bodyEnds block times body) :
    ∃ i < times, link.1 = iterationId block (i + 1) body.exit := by
  obtain ⟨i, hi, rfl⟩ := List.mem_map.mp h
  exact ⟨i, List.mem_range.mp hi, rfl⟩

/-- A task of an iteration hands the FlowFile on, whatever the relation. -/
theorem Inv.hand_on_repeat (hd : w.taskIds.Nodup) (hw : RootOk w) (h : Inv E w (some v) s)
    (ho : OnTheWay w s v (block, .repeatN times body bounds) f) {i : Nat} (hi : i < times)
    {x : String} (hx : x ∈ body.tasks) (hended : ended block times body (s.eventsOf v) = i)
    {c : String × String} (hc : c ∈ w.outgoing (iterationId block (i + 1) x)) (r : FlowFile) :
    Inv E w none (s.deliver w (some v) (iterationId block (i + 1) x) (c.1, r)) := by
  have hids := repeatIds_of_nodup (lower_nodup hd ho.block)
  obtain ⟨q, hq, hsource, htarget, -⟩ := (mem_outgoing_of_block hd hw ho.block
    (iteration_mem_tasks hi hx) (fun _ h => by cases h)).mp hc
  have hwork : ∀ {j u}, j < times → u ∈ body.tasks →
      w.taskAt (iterationId block (j + 1) u) = .work := fun hj hu =>
    taskAt_of_block hd ho.block (iteration_mem_tasks hj hu)
  rcases iteration_relation hids hi hx (mem_lowerRepeatN.mp hq) hsource with
    ⟨u, hu, hin, hlink⟩ | ⟨hlink, ⟨hlt, hnext⟩ | ⟨hlast, hout⟩⟩
  · -- The same iteration.
    rw [← htarget, hin]
    rw [hsource, hin] at hlink
    refine h.deliver_inside ho _ ⟨fun _ => by simp [hwork hi hu], fun _ => by simp [hwork hi hu]⟩ ?_
    exact .inr ⟨i, hi, u, hu, rfl, (ended_moved_of_not_mem hlink _).trans hended⟩
  · -- The next one.
    rw [← htarget, hnext]
    rw [hsource, hnext] at hlink
    have hnextWork := hwork hlt body.entry_mem
    refine h.deliver_inside ho _ ⟨fun _ => by simp [hnextWork], fun _ => by simp [hnextWork]⟩ ?_
    refine .inr ⟨i + 1, hlt, body.entry, body.entry_mem, rfl, ?_⟩
    exact (ended_moved_of_mem hlink _).trans (congrArg (· + 1) hended)
  · -- The last one is over.
    rw [← htarget, hout]
    rw [hsource, hout] at hlink
    refine h.deliver_output hd ho _ (by simp [Control.outputs]) ⟨rfl, ?_⟩
    calc ended block times body _
        = ended block times body (s.eventsOf v) + 1 :=
          (ended_left _ _).trans (ended_moved_of_mem hlink _)
      _ = times := by rw [hended, hlast]

theorem Inv.fire_repeatN (hd : w.taskIds.Nodup) (hw : RootOk w) (h : Inv E w (some v) s)
    (ho : OnTheWay w s v (block, .repeatN times body bounds) f) {t : Token}
    (hat : At E block f (s.eventsOf v) t (.repeatN times body bounds)) (hv : t.visit = some v)
    {outcome : Outcome} (hline : w.taskAt t.task = .work →
      Follows w t ((Control.repeatN times body bounds).isRepeat = true) outcome) (uuids : Nat → String)
    (clones : Nat → Nat → String × ParallelJoin.Time) :
    Inv E w none (s.finish w t uuids clones ((w.taskAt t.task).execute E outcome t.file)) := by
  have hids := repeatIds_of_nodup (lower_nodup hd ho.block)
  rcases hat with ⟨htask, hended⟩ | ⟨i, hi, x, hx, htask, hended⟩
  · have hentry := entry_mem_tasks block (.repeatN times body bounds)
    have hentryAt := taskAt_of_block hd ho.block hentry
    have hout : w.outgoing t.task = [(iterationId block 1 body.entry, "success")] := by
      rw [htask, outgoing_of_block hd hw ho.block hentry (fun _ h => by cases h)]
      show ((lowerRepeatN block times body).relations.filter _).map _ = _
      rw [lowerRepeatN_entry bounds.1 hids]
      rfl
    have hpos : 0 < times := bounds.1
    have hwork := taskAt_of_block hd ho.block (iteration_mem_tasks hpos body.entry_mem)
    have hlink : (entryId block, iterationId block 1 body.entry) ∉ bodyEnds block times body := by
      intro hmem
      obtain ⟨j, hj, heq⟩ := mem_bodyEnds_source hmem
      exact hids.entry j hj _ body.exit_mem heq.symm
    rw [htask, hentryAt]
    show Inv E w none (s.commit w t [port "input" t.file] uuids clones)
    rw [commit_of_outgoing hout, hv, htask]
    refine h.deliver_inside ho _ ⟨fun _ => by simp [hwork], fun _ => by simp [hwork]⟩ ?_
    exact .inr ⟨0, hpos, _, body.entry_mem, rfl, (ended_moved_of_not_mem hlink _).trans hended⟩
  · have hwork : w.taskAt t.task = .work :=
      htask ▸ taskAt_of_block hd ho.block (iteration_mem_tasks hi hx)
    have hraised := h.record (.raised v t.task) rfl ho.lt
    have ho' := ho.record (.raised v t.task) rfl ⟨ho.entered, ho.left, ho.lost⟩
    have hevents : (s.record (.raised v t.task)).eventsOf v = .raised v t.task :: s.eventsOf v :=
      eventsOf_record_self rfl s
    rw [hwork]
    cases hline hwork with
    | returned r c hmatch hplain =>
      show Inv E w none (s.commit w t [r] uuids clones)
      have hc := mem_of_mem_matching (hmatch ▸ List.mem_singleton_self c)
      rw [commit_single hmatch, hv, htask]
      exact h.hand_on_repeat hd hw ho hi hx hended (htask ▸ hc) r
    | raised f' message code c hfail =>
      show Inv E w none (s.rollback w t f' message code (clones 0))
      have hc := (List.mem_filter.mp (hfail ▸ List.mem_singleton_self c)).1
      rw [rollback_single hv hfail]
      have hsame : ended block times body ((s.record (.raised v t.task)).eventsOf v) = i := by
        rw [hevents, ended_raised]
        exact hended
      rw [htask] at hraised ho' hsame hc ⊢
      exact hraised.hand_on_repeat hd hw ho' hi hx hsame hc _
    | givesUp f' message code hfail hclient =>
      show Inv E w none (s.rollback w t f' message code (clones 0))
      rw [rollback_nil hv hfail hclient]
      have hevents' : ((s.record (.raised v t.task)).record (.discarded v)).eventsOf v =
          .discarded v :: .raised v t.task :: s.eventsOf v :=
        (eventsOf_record_self rfl _).trans (congrArg _ hevents)
      refine (hraised.record (.discarded v) rfl ho.lt).close ho.block (f := f) ?_ ?_
      · rw [hevents']
        exact ho.entered
      · rw [hevents']
        refine .lost ho.toks ho.left ?_ rfl
        have hlost := ho.lost
        simpa [lostCount, List.countP_cons] using hlost

end RepeatN

/-! ## Runs -/

theorem At.mem {block : String} {f : FlowFile} {events : List Event} {c : Control}
    (h : At E block f events t c) : t.task ∈ (lower block c).tasks.map Prod.fst := by
  have hof : ∀ {id k}, t.task = id → (id, k) ∈ (lower block c).tasks →
      t.task ∈ (lower block c).tasks.map Prod.fst := fun h hmem =>
    List.mem_map.mpr ⟨_, hmem, h.symm⟩
  have hroute : ∀ {routes default}, IsRoute E c routes default →
      t.task ∈ (lower block c).tasks.map Prod.fst := by
    intro routes default hc
    rcases (hc.at_iff block f events t).mp h with ⟨htask, -⟩ | ⟨htask, -⟩
    · exact hof htask (entry_mem_tasks block c)
    · rw [hc.lower]
      exact htask ▸ List.mem_cons_of_mem _ List.mem_cons_self
  cases c with
  | ifElse condition => exact hroute (isRoute_ifElse E condition)
  | switch cases default distinct named => exact hroute (isRoute_switch E cases default distinct named)
  | tryCatch attempt handler noFailure =>
    obtain ⟨-, ⟨htask, -⟩ | ⟨htask, -⟩ | ⟨htask, -⟩⟩ := h
    · exact hof htask (entry_mem_tasks block (.tryCatch attempt handler noFailure))
    · obtain ⟨x, hx, heq⟩ := List.mem_map.mp htask
      exact hof heq.symm (try_mem_tasks _ _ hx)
    · obtain ⟨x, hx, heq⟩ := List.mem_map.mp htask
      exact hof heq.symm (catch_mem_tasks _ _ hx)
  | repeatN times body bounds =>
    rcases h with ⟨htask, -⟩ | ⟨i, hi, x, hx, htask, -⟩
    · exact hof htask (entry_mem_tasks block (.repeatN times body bounds))
    · exact hof htask (iteration_mem_tasks hi hx)

theorem InLine.follows {outcome : Outcome} {uuids : Nat → String}
    {clones : Nat → Nat → String × ParallelJoin.Time} (h : InLine E w s (.fire k outcome uuids clones))
    (ht : s.tokens[k]? = some t) (hv : t.visit ≠ none) (hwork : w.taskAt t.task = .work)
    (hb : b ∈ w.blocks) (hmem : t.task ∈ (lower b.1 b.2).tasks.map Prod.fst) :
    Follows w t (b.2.isRepeat = true) outcome := by
  have hline := h t ht hv
  rw [hwork] at hline
  cases outcome with
  | returned results =>
    obtain ⟨r, c, rfl, hmatch, hplain⟩ := hline
    exact .returned r c hmatch fun hfail => hplain hfail b hb hmem
  | raised f message code =>
    obtain ⟨hlen, hclient⟩ := hline
    rcases hfail : (w.outgoing t.task).filter (fun c => c.2 = "failure") with _ | ⟨c, rest⟩
    · exact .givesUp f message code hfail (hclient hfail)
    · rw [hfail] at hlen
      obtain rfl : rest = [] := List.eq_nil_of_length_eq_zero (by simpa using hlen)
      exact .raised f message code c hfail

theorem Inv.fire (hd : w.taskIds.Nodup) (hw : RootOk w) (h : Inv E w none s)
    (ht : s.tokens[k]? = some t) (outcome : Outcome) (uuids : Nat → String)
    (clones : Nat → Nat → String × ParallelJoin.Time)
    (hline : InLine E w s (.fire k outcome uuids clones)) :
    Inv E w none ((s.without k).finish w t uuids clones
      ((w.taskAt t.task).execute E outcome t.file)) := by
  cases hv : t.visit with
  | none =>
    -- A processor, or an output port that the FlowFile has left the block by.
    have hout := h.without_root ht hv
    have hroot := h.roots t (List.mem_of_getElem? ht) hv
    cases (w.taskAt t.task).execute E outcome t.file with
    | returned results => exact hout.commit_root hd hw hv hroot results uuids clones
    | raised f message code => exact hout.rollback_root hd hw hv hroot f message code (clones 0)
  | some v =>
    obtain ⟨hout, ⟨block, c⟩, f, ho, hat⟩ := h.without_visit ht hv
    have hvisit : t.visit ≠ none := by simp [hv]
    have hwork : w.taskAt t.task = .work → Follows w t (c.isRepeat = true) outcome :=
      fun hwork => hline.follows ht hvisit hwork ho.block hat.mem
    have hport : ∀ name, w.taskAt t.task = .inputPort name → t.task = entryId block →
        c.choice E (port name t.file) = c.choice E t.file := by
      intro name hname htask
      have hkeep := hline t ht hvisit
      rw [hname] at hkeep
      exact hkeep (block, c) ho.block htask
    cases c with
    | ifElse condition =>
      exact hout.fire_route (isRoute_ifElse E condition) hd hw ho hat hv outcome hport uuids clones
    | switch cases default distinct named =>
      exact hout.fire_route (isRoute_switch E cases default distinct named) hd hw ho hat hv
        outcome hport uuids clones
    | tryCatch attempt handler noFailure =>
      exact hout.fire_tryCatch hd hw ho hat hv hwork uuids clones
    | repeatN times body bounds => exact hout.fire_repeatN hd hw ho hat hv hwork uuids clones

theorem step_inv (hd : w.taskIds.Nodup) (hw : RootOk w) (h : Inv E w none s) {a : Act}
    (hline : InLine E w s a) {s' : State} (hs : step E w s a = some s') : Inv E w none s' := by
  cases a with
  | inject target f =>
    simp only [step] at hs
    split at hs
    · next htarget =>
      obtain rfl := Option.some.inj hs
      refine h.deliver_root hd (htarget.imp_right fun hmem => ?_) "" f
      obtain ⟨b, hb, rfl⟩ := List.mem_map.mp hmem
      exact ⟨b, hb, rfl⟩
    · cases hs
  | fire k outcome uuids clones =>
    cases ht : s.tokens[k]? with
    | none => simp [step, ht] at hs
    | some t =>
      obtain rfl := Option.some.inj ((step_fire ht outcome uuids clones).symm.trans hs)
      exact h.fire hd hw ht outcome uuids clones hline

theorem inv_empty : Inv E w none {} where
  tokens _ h := absurd h List.not_mem_nil
  roots _ h := absurd h List.not_mem_nil
  events _ h := absurd h List.not_mem_nil
  visits _ h := absurd h (Nat.not_lt_zero _)

/-! ## Assembled flows -/

/-- What every operation keeps: the relations of the root join processors and ports of blocks. -/
structure Assembled (w : Flow) : Prop where
  roots : RootOk w
  ids : (w.blocks.map Prod.fst).Nodup

/-- Where a relation of the root may lead. -/
abbrev Target (w : Flow) (id : String) : Prop :=
  id ∈ w.processors ∨ ∃ b ∈ w.blocks, id = entryId b.1

theorem root_of_endpoint {output id : String}
    (h : w.endpoint source "out" output = some id) : Root w id := by
  unfold Flow.endpoint at h
  split at h
  · next hmem => exact .inl (Option.some.inj h ▸ hmem)
  · split at h
    · cases h
    · next b hb =>
      simp only [if_pos] at h
      split at h
      · next hname =>
        have hid : b.1 = source := by simpa using List.find?_some hb
        refine .inr ⟨b, List.mem_of_find?_eq_some hb, output, hname, ?_⟩
        rw [hid]
        exact (Option.some.inj h).symm
      · cases h

theorem target_of_endpoint {target input id : String}
    (h : w.endpoint target "in" input = some id) : Target w id := by
  unfold Flow.endpoint at h
  split at h
  · next hmem => exact .inl (Option.some.inj h ▸ hmem)
  · split at h
    · cases h
    · next b hb =>
      rw [if_neg (show ¬ "in" = "out" by decide)] at h
      split at h
      · next hname =>
        obtain rfl := List.mem_singleton.mp hname
        have hid : b.1 = target := by simpa using List.find?_some hb
        refine .inr ⟨b, List.mem_of_find?_eq_some hb, ?_⟩
        rw [hid]
        exact (Option.some.inj h).symm
      · cases h

variable {w' : Flow}

theorem RootOk.mono (h : RootOk w) (hp : w.processors ⊆ w'.processors)
    (hb : w.blocks ⊆ w'.blocks) (hr : w'.relations ⊆ w.relations) : RootOk w' := by
  intro r hmem
  refine ⟨(h r (hr hmem)).1.imp (fun h => hp h) ?_, (h r (hr hmem)).2.imp (fun h => hp h) ?_⟩
  · rintro ⟨b, hmem, hname⟩
    exact ⟨b, hb hmem, hname⟩
  · rintro ⟨b, hmem, heq⟩
    exact ⟨b, hb hmem, heq⟩

theorem eq_of_find? (hids : (w.blocks.map Prod.fst).Nodup) {id : String} {b' : String × Control}
    (hfind : w.blocks.find? (fun b => b.1 = id) = some b) (hb' : b' ∈ w.blocks) (hid : b'.1 = id) :
    b' = b := by
  have hb : b.1 = id := by simpa using List.find?_some hfind
  exact List.inj_on_of_nodup_map hids hb' (List.mem_of_find?_eq_some hfind) (hid.trans hb.symm)

theorem Assembled.apply (h : Assembled w) {op : Operation}
    (hop : w.apply op = some w') : Assembled w' := by
  cases op with
  | addProcessor id =>
    simp only [Flow.apply] at hop
    split at hop
    · cases hop
    · obtain rfl := Option.some.inj hop
      exact ⟨h.roots.mono (List.subset_append_left _ _) (List.Subset.refl _) (List.Subset.refl _),
        h.ids⟩
  | addControlBlock id c =>
    simp only [Flow.apply] at hop
    split at hop
    · cases hop
    · next hnew =>
      split at hop
      · cases hop
      · obtain rfl := Option.some.inj hop
        refine ⟨h.roots.mono (List.Subset.refl _) (List.subset_append_left _ _)
          (List.Subset.refl _), ?_⟩
        rw [List.map_append, List.nodup_append]
        refine ⟨h.ids, List.nodup_singleton _, ?_⟩
        rintro x hx y hy rfl
        obtain rfl := List.mem_singleton.mp hy
        exact hnew (.inr hx)
  | connectBlocks source output target input =>
    simp only [Flow.apply] at hop
    split at hop
    · next hs ht =>
      obtain rfl := Option.some.inj hop
      refine ⟨fun r hr => ?_, h.ids⟩
      rcases List.mem_append.mp hr with hr | hr
      · exact h.roots r hr
      · obtain rfl := List.mem_singleton.mp hr
        exact ⟨root_of_endpoint hs, target_of_endpoint ht⟩
    · cases hop
  | disconnectBlocks k =>
    simp only [Flow.apply] at hop
    split at hop
    · obtain rfl := Option.some.inj hop
      exact ⟨h.roots.mono (List.Subset.refl _) (List.Subset.refl _) (List.eraseIdx_subset),
        h.ids⟩
    · cases hop
  | removeBlock id =>
    simp only [Flow.apply] at hop
    split at hop
    · obtain rfl := Option.some.inj hop
      refine ⟨fun r hr => ?_, h.ids⟩
      simp only [List.mem_filter, List.mem_singleton, decide_eq_true_eq] at hr
      obtain ⟨hr, hsource, htarget⟩ := hr
      have hkeep : ∀ {p}, p ∈ w.processors → p ≠ id →
          p ∈ w.processors.filter fun p => p ≠ id := fun hp hne =>
        List.mem_filter.mpr ⟨hp, by simpa using hne⟩
      exact ⟨(h.roots r hr).1.imp_left fun hp => hkeep hp hsource,
        (h.roots r hr).2.imp_left fun hp => hkeep hp htarget⟩
    · split at hop
      · cases hop
      · next b hb =>
        obtain rfl := Option.some.inj hop
        refine ⟨fun r hr => ?_, h.ids.sublist (List.filter_sublist.map _)⟩
        simp only [List.mem_filter, List.mem_cons, decide_eq_true_eq, not_or] at hr
        obtain ⟨hr, ⟨-, hsource⟩, -, htarget⟩ := hr
        -- Only the removed block has its ports.
        have hkeep : ∀ {b'}, b' ∈ w.blocks → b' ≠ b → b' ∈ w.blocks.filter fun b => b.1 ≠ id :=
          fun hb' hne => List.mem_filter.mpr ⟨hb', by
            simpa using fun heq => hne (eq_of_find? h.ids hb hb' heq)⟩
        refine ⟨(h.roots r hr).1.imp_right ?_, (h.roots r hr).2.imp_right ?_⟩
        · rintro ⟨b', hb', name, hname, heq⟩
          refine ⟨b', hkeep hb' ?_, name, hname, heq⟩
          rintro rfl
          exact hsource (List.mem_map.mpr ⟨_, output_mem_tasks b'.1 b'.2 hname, heq.symm⟩)
        · rintro ⟨b', hb', heq⟩
          refine ⟨b', hkeep hb' ?_, heq⟩
          rintro rfl
          exact htarget (List.mem_map.mpr ⟨_, entry_mem_tasks b'.1 b'.2, heq.symm⟩)

theorem assembled_of_foldlM (h : Assembled w)
    (hops : ops.foldlM Flow.apply w = some w') : Assembled w' := by
  induction ops generalizing w with
  | nil => exact Option.some.inj hops ▸ h
  | cons op ops ih =>
    obtain ⟨u, hu, hrest⟩ := Option.bind_eq_some_iff.mp hops
    exact ih (h.apply hu) hrest

theorem assembled_empty : Assembled {} :=
  ⟨fun _ h => absurd h List.not_mem_nil, List.nodup_nil⟩

theorem mem_taskIds_of_block (hb : b ∈ w.blocks) {id : String} {k : Task}
    (h : (id, k) ∈ (lower b.1 b.2).tasks) : id ∈ w.taskIds :=
  List.mem_map_of_mem (mem_tasks_of_block hb h)

theorem lower_target {block : String} {c : Control} {r : Relation}
    (h : r ∈ (lower block c).relations) : ∃ k, (r.target, k) ∈ (lower block c).tasks := by
  have hroute : ∀ {routes default}, r ∈ (lowerRoute block routes default).relations →
      ∃ k, (r.target, k) ∈ (lowerRoute block routes default).tasks := by
    intro routes default h
    rcases List.mem_cons.mp h with rfl | h
    · exact ⟨_, List.mem_cons_of_mem _ List.mem_cons_self⟩
    · obtain ⟨name, hname, rfl⟩ := List.mem_map.mp h
      exact ⟨_, List.mem_cons_of_mem _ (List.mem_cons_of_mem _ (List.mem_map_of_mem hname))⟩
  have hport : ∀ {name}, name ∈ c.outputs → ∃ k, (outputId block name, k) ∈ (lower block c).tasks :=
    fun hname => ⟨_, output_mem_tasks block c hname⟩
  cases c with
  | ifElse condition => exact hroute h
  | switch cases default distinct named => exact hroute h
  | tryCatch attempt handler noFailure =>
    cases mem_lowerTryCatch.mp h with
    | enter => exact ⟨_, try_mem_tasks _ _ attempt.entry_mem⟩
    | tries q hq => exact ⟨_, try_mem_tasks _ _ (attempt.closed q hq).2⟩
    | fails => exact ⟨_, catch_mem_tasks _ _ handler.entry_mem⟩
    | handles q hq => exact ⟨_, catch_mem_tasks _ _ (handler.closed q hq).2⟩
    | succeeds | catches | failsAgain => exact hport (by simp [Control.outputs])
  | repeatN times body bounds =>
    cases mem_lowerRepeatN.mp h with
    | next i hi => exact ⟨_, iteration_mem_tasks hi body.entry_mem⟩
    | within i hi q hq => exact ⟨_, iteration_mem_tasks hi (body.closed q hq).2⟩
    | ends => exact hport (by simp [Control.outputs])

/-- Whatever is done to a flow, the relations of its lowered form join tasks it has. -/
theorem relations_closed (hops : ops.foldlM Flow.apply {} = some w) :
    (w.blocks.map Prod.fst).Nodup ∧
      ∀ r ∈ w.allRelations, r.source ∈ w.taskIds ∧ r.target ∈ w.taskIds := by
  have hw := assembled_of_foldlM assembled_empty hops
  refine ⟨hw.ids, fun r hr => ?_⟩
  rcases List.mem_append.mp hr with hr | hr
  · obtain ⟨hsource, htarget⟩ := hw.roots r hr
    constructor
    · rcases hsource with hp | ⟨b, hb, name, hname, heq⟩
      · exact List.mem_map_of_mem (mem_tasks_of_processor hp)
      · exact heq ▸ mem_taskIds_of_block hb (output_mem_tasks b.1 b.2 hname)
    · rcases htarget with hp | ⟨b, hb, heq⟩
      · exact List.mem_map_of_mem (mem_tasks_of_processor hp)
      · exact heq ▸ mem_taskIds_of_block hb (entry_mem_tasks b.1 b.2)
  · obtain ⟨b, hb, hr⟩ := List.mem_flatMap.mp hr
    obtain ⟨k, hsource, -⟩ := lower_source b.1 b.2 hr
    obtain ⟨k', htarget⟩ := lower_target hr
    exact ⟨mem_taskIds_of_block hb hsource, mem_taskIds_of_block hb htarget⟩

def sameBody : Body := { tasks := ["work"], entry := "work", exit := "work" }

def leftoverOps : List Operation :=
  [.addControlBlock "check" (.ifElse { attributeName := "kind", value := "a" }),
    .addControlBlock "guard" (.tryCatch sameBody sameBody (by decide)),
    .connectBlocks "check" "true" "guard" "input"]

def leftoverFlow : Flow where
  blocks := [("check", .ifElse { attributeName := "kind", value := "a" }),
    ("guard", .tryCatch sameBody sameBody (by decide))]
  relations := [⟨"check.out.true", "guard.in.input", "true"⟩]

theorem relations_closed_leftover :
    (leftoverFlow.blocks.map Prod.fst).Nodup ∧ ∀ r ∈ leftoverFlow.allRelations,
      r.source ∈ leftoverFlow.taskIds ∧ r.target ∈ leftoverFlow.taskIds :=
  relations_closed (show leftoverOps.foldlM Flow.apply {} = some leftoverFlow from rfl)

def noTests : Tests := ⟨fun _ _ => false, fun _ _ => false⟩

def fireFirst (outcome : Outcome) : Act := .fire 0 outcome (fun _ => "u") fun _ _ => ("c", 0)

/-- The FlowFile comes to the task of the try body, which returns `result`. -/
def leftoverRun (result : FlowFile) : List Act :=
  .inject "check.in.input" { processId := "f", attributes := [("kind", "a")] } ::
    List.replicate 4 (fireFirst (.returned [])) ++ [fireFirst (.returned [result])]

/-- As it comes there, it goes to the success port and to the catch body. -/
def leftoverFile : FlowFile where
  processId := "f"
  attributes :=
    [("kind", "a"), ("port.name", "input"), ("route", "true"), ("route.relationship", "true")]

end PawFlow.ControlBlocks
