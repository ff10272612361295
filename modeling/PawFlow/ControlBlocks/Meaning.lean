import PawFlow.ControlBlocks.Lowering

/-!
# Control blocks keep their meaning

As long as a FlowFile stays one FlowFile inside a block, its place in the lowered tasks says what
happened on the visit: in front of the route or behind it, in the body that is tried or in the one
that catches, in which iteration. So it leaves by the port prescribed.
-/

namespace PawFlow.ControlBlocks

open PawFlow.Lib PawFlow.Core PawFlow.ParallelJoin

variable {E : Tests} {w : Flow} {s : State}

/-! ## Commits -/

theorem matching_singleton (c : String × String) (f : FlowFile) : matching [c] f = [c] := by
  unfold matching
  dsimp only
  generalize (if f.attr "route.relationship" = "" then "success"
    else f.attr "route.relationship") = rel
  by_cases h : c.2 = rel <;> simp [h]

variable {f : FlowFile} {id block t : String} {b : String × Control} {body attempt handler : Body}
  {r : Relation} {times v : Nat}

variable {c : String × String} {i : String × Task}

variable {out : List (String × String)} {default target : String} {routes : PyDict String Condition}
  {events : List Event} {file : FlowFile}

theorem mem_of_mem_matching (h : c ∈ matching out f) : c ∈ out := by
  unfold matching at h
  generalize (if f.attr "route.relationship" = "" then "success"
    else f.attr "route.relationship") = rel at h
  dsimp only at h
  split at h
  · exact h
  · exact List.mem_of_mem_filter h

theorem commitResult_of_matching
    (h : matching out f = [c]) (uuid : String) (clones : Nat → String × ParallelJoin.Time) :
    commitResult out f uuid clones = [(c.1, f)] := by
  simp [commitResult, h]

/-! ## Lookups -/

/-- A relation of the root leads from a processor or an output port to a processor or an input
port. -/
def Root (w : Flow) (id : String) : Prop :=
  id ∈ w.processors ∨ ∃ b ∈ w.blocks, ∃ name ∈ b.2.outputs, id = outputId b.1 name

def RootOk (w : Flow) : Prop :=
  ∀ r ∈ w.relations, Root w r.source ∧
    (r.target ∈ w.processors ∨ ∃ b ∈ w.blocks, r.target = entryId b.1)

variable {k : Task}

theorem taskAt_of_mem (hd : w.taskIds.Nodup) (h : (id, k) ∈ w.tasks) : w.taskAt id = k := by
  rw [Flow.taskAt, PyDict.get?_of_mem hd h]
  rfl

theorem mem_tasks_of_block (hb : b ∈ w.blocks) (hi : i ∈ (lower b.1 b.2).tasks) : i ∈ w.tasks :=
  List.mem_append_right _ (List.mem_flatMap.mpr ⟨b, hb, hi⟩)

theorem mem_tasks_of_processor (h : id ∈ w.processors) : (id, .work) ∈ w.tasks :=
  List.mem_append_left _ (List.mem_map.mpr ⟨id, h, rfl⟩)

theorem taskAt_of_block (hd : w.taskIds.Nodup) (hb : b ∈ w.blocks)
    (h : (id, k) ∈ (lower b.1 b.2).tasks) : w.taskAt id = k :=
  taskAt_of_mem hd (mem_tasks_of_block hb h)

theorem entry_mem_tasks (block : String) (c : Control) :
    (entryId block, .inputPort "input") ∈ (lower block c).tasks := by
  cases c with
  | ifElse | switch | tryCatch | repeatN => exact List.mem_cons_self

theorem output_mem_tasks (block : String) (c : Control) {name : String} (h : name ∈ c.outputs) :
    (outputId block name, .outputPort name) ∈ (lower block c).tasks := by
  cases c with
  | ifElse condition =>
    refine List.mem_cons_of_mem _ (List.mem_cons_of_mem _ (List.mem_map.mpr ⟨name, ?_, rfl⟩))
    exact h
  | switch cases default distinct named =>
    exact List.mem_cons_of_mem _ (List.mem_cons_of_mem _ (List.mem_map.mpr ⟨name, h, rfl⟩))
  | tryCatch attempt handler noFailure =>
    simp only [Control.outputs, List.mem_cons, List.not_mem_nil, or_false] at h
    refine List.mem_append_right _ ?_
    rcases h with rfl | rfl | rfl <;> simp
  | repeatN times body bounds =>
    obtain rfl := List.mem_singleton.mp h
    exact List.mem_append_right _ List.mem_cons_self

/-! ## Relations -/

theorem mem_relationsAs {id : String → String} :
    r ∈ body.relationsAs id ↔ ∃ q ∈ body.relations, r = ⟨id q.source, id q.target, q.type⟩ := by
  simp only [Body.relationsAs, List.mem_map, eq_comm]

theorem mem_tasksAs {id : String → String} :
    i ∈ body.tasksAs id ↔ ∃ t ∈ body.tasks, i = (id t, .work) := by
  simp only [Body.tasksAs, List.mem_map, eq_comm]

/-- The relations of a try_catch. -/
inductive TryRelation (block : String) (attempt handler : Body) : Relation → Prop
  | enter : TryRelation block attempt handler
      ⟨entryId block, bodyId block "try" attempt.entry, "success"⟩
  | tries (q : Relation) (hq : q ∈ attempt.relations) : TryRelation block attempt handler
      ⟨bodyId block "try" q.source, bodyId block "try" q.target, q.type⟩
  | succeeds : TryRelation block attempt handler
      ⟨bodyId block "try" attempt.exit, outputId block "success", "success"⟩
  | fails (t : String) (ht : t ∈ attempt.tasks) : TryRelation block attempt handler
      ⟨bodyId block "try" t, bodyId block "catch" handler.entry, "failure"⟩
  | handles (q : Relation) (hq : q ∈ handler.relations) : TryRelation block attempt handler
      ⟨bodyId block "catch" q.source, bodyId block "catch" q.target, q.type⟩
  | catches : TryRelation block attempt handler
      ⟨bodyId block "catch" handler.exit, outputId block "caught", "success"⟩
  | failsAgain (t : String) (ht : t ∈ handler.tasks) : TryRelation block attempt handler
      ⟨bodyId block "catch" t, outputId block "failure", "failure"⟩

theorem mem_lowerTryCatch :
    r ∈ (lowerTryCatch block attempt handler).relations ↔ TryRelation block attempt handler r := by
  simp only [lowerTryCatch, List.mem_append, List.mem_cons, List.not_mem_nil, or_false,
    List.mem_map, mem_relationsAs]
  constructor
  · rintro (((((⟨q, hq, rfl⟩ | ⟨q, hq, rfl⟩) | rfl | rfl) | ⟨t, ht, rfl⟩) | rfl) | ⟨t, ht, rfl⟩)
    · exact .tries q hq
    · exact .handles q hq
    · exact .enter
    · exact .succeeds
    · exact .fails t ht
    · exact .catches
    · exact .failsAgain t ht
  · intro h
    cases h with
    | enter => exact .inl (.inl (.inl (.inr (.inl rfl))))
    | tries q hq => exact .inl (.inl (.inl (.inl (.inl ⟨q, hq, rfl⟩))))
    | succeeds => exact .inl (.inl (.inl (.inr (.inr rfl))))
    | fails t ht => exact .inl (.inl (.inr ⟨t, ht, rfl⟩))
    | handles q hq => exact .inl (.inl (.inl (.inl (.inr ⟨q, hq, rfl⟩))))
    | catches => exact .inl (.inr rfl)
    | failsAgain t ht => exact .inr ⟨t, ht, rfl⟩

/-- The relations of a repeat_n. -/
inductive RepeatRelation (block : String) (times : Nat) (body : Body) : Relation → Prop
  | next (i : Nat) (hi : i < times) : RepeatRelation block times body
      ⟨previousId block body i, iterationId block (i + 1) body.entry, "success"⟩
  | within (i : Nat) (hi : i < times) (q : Relation) (hq : q ∈ body.relations) :
      RepeatRelation block times body
        ⟨iterationId block (i + 1) q.source, iterationId block (i + 1) q.target, q.type⟩
  | ends : RepeatRelation block times body
      ⟨previousId block body times, outputId block "success", "success"⟩

theorem mem_lowerRepeatN :
    r ∈ (lowerRepeatN block times body).relations ↔ RepeatRelation block times body r := by
  simp only [lowerRepeatN, List.mem_append, List.mem_flatMap, List.mem_range, List.mem_cons,
    List.not_mem_nil, or_false, mem_relationsAs]
  constructor
  · rintro (⟨i, hi, rfl | ⟨q, hq, rfl⟩⟩ | rfl)
    · exact .next i hi
    · exact .within i hi q hq
    · exact .ends
  · intro h
    cases h with
    | next i hi => exact .inl ⟨i, hi, .inl rfl⟩
    | within i hi q hq => exact .inl ⟨i, hi, .inr ⟨q, hq, rfl⟩⟩
    | ends => exact .inr rfl

theorem try_mem_tasks (block : String) (handler : Body) (h : t ∈ attempt.tasks) :
    (bodyId block "try" t, .work) ∈ (lowerTryCatch block attempt handler).tasks :=
  List.mem_append_left _ (List.mem_append_left _ (List.mem_cons_of_mem _
    (mem_tasksAs.mpr ⟨t, h, rfl⟩)))

theorem catch_mem_tasks (block : String) (attempt : Body) (h : t ∈ handler.tasks) :
    (bodyId block "catch" t, .work) ∈ (lowerTryCatch block attempt handler).tasks :=
  List.mem_append_left _ (List.mem_append_right _ (mem_tasksAs.mpr ⟨t, h, rfl⟩))

theorem iteration_mem_tasks {i : Nat} (hi : i < times) (h : t ∈ body.tasks) :
    (iterationId block (i + 1) t, .work) ∈ (lowerRepeatN block times body).tasks :=
  List.mem_append_left _ (List.mem_cons_of_mem _ (List.mem_flatMap.mpr
    ⟨i, List.mem_range.mpr hi, mem_tasksAs.mpr ⟨t, h, rfl⟩⟩))

theorem previous_mem_tasks {i : Nat} (hi : i ≤ times) (body : Body) :
    ∃ k, (previousId block body i, k) ∈ (lowerRepeatN block times body).tasks ∧
      ∀ name, k ≠ .outputPort name := by
  cases i with
  | zero => exact ⟨_, List.mem_cons_self, fun _ h => by cases h⟩
  | succ i => exact ⟨_, iteration_mem_tasks hi body.exit_mem, fun _ h => by cases h⟩

theorem lower_source (block : String) (c : Control) (h : r ∈ (lower block c).relations) :
    ∃ k, (r.source, k) ∈ (lower block c).tasks ∧ ∀ name, k ≠ .outputPort name := by
  have hroute : ∀ routes default, r ∈ (lowerRoute block routes default).relations →
      ∃ k, (r.source, k) ∈ (lowerRoute block routes default).tasks ∧
        ∀ name, k ≠ .outputPort name := by
    intro routes default h
    rcases List.mem_cons.mp h with rfl | h
    · exact ⟨_, List.mem_cons_self, fun _ h => by cases h⟩
    · obtain ⟨_, -, rfl⟩ := List.mem_map.mp h
      exact ⟨_, List.mem_cons_of_mem _ List.mem_cons_self, fun _ h => by cases h⟩
  cases c with
  | ifElse condition => exact hroute _ _ h
  | switch cases default distinct named => exact hroute _ _ h
  | tryCatch attempt handler noFailure =>
    cases mem_lowerTryCatch.mp h with
    | enter => exact ⟨_, List.mem_cons_self, fun _ h => by cases h⟩
    | tries q hq => exact ⟨_, try_mem_tasks _ _ (attempt.closed q hq).1, fun _ h => by cases h⟩
    | succeeds => exact ⟨_, try_mem_tasks _ _ attempt.exit_mem, fun _ h => by cases h⟩
    | fails t ht => exact ⟨_, try_mem_tasks _ _ ht, fun _ h => by cases h⟩
    | handles q hq => exact ⟨_, catch_mem_tasks _ _ (handler.closed q hq).1, fun _ h => by cases h⟩
    | catches => exact ⟨_, catch_mem_tasks _ _ handler.exit_mem, fun _ h => by cases h⟩
    | failsAgain t ht => exact ⟨_, catch_mem_tasks _ _ ht, fun _ h => by cases h⟩
  | repeatN times body bounds =>
    cases mem_lowerRepeatN.mp h with
    | next i hi => exact previous_mem_tasks hi.le body
    | within i hi q hq =>
      exact ⟨_, iteration_mem_tasks hi (body.closed q hq).1, fun _ h => by cases h⟩
    | ends => exact previous_mem_tasks (Nat.le_refl times) body

theorem filter_flatMap_eq {α : Type} {xs : List α} {ids : α → List String}
    {rels : α → List Relation} (hnodup : (xs.flatMap ids).Nodup)
    (hrels : ∀ x ∈ xs, ∀ r ∈ rels x, r.source ∈ ids x) {x : α} (hx : x ∈ xs) (hid : id ∈ ids x) :
    (xs.flatMap rels).filter (fun r => r.source = id) = (rels x).filter fun r => r.source = id := by
  induction xs with
  | nil => exact absurd hx List.not_mem_nil
  | cons y ys ih =>
    rw [List.flatMap_cons, List.nodup_append] at hnodup
    obtain ⟨-, hys, hdisjoint⟩ := hnodup
    rw [List.flatMap_cons, List.filter_append]
    by_cases hxy : x ∈ ys
    · have hnil : (rels y).filter (fun r => r.source = id) = [] := by
        refine List.filter_eq_nil_iff.mpr fun r hr => ?_
        rw [decide_eq_true_eq]
        rintro rfl
        exact hdisjoint _ (hrels y List.mem_cons_self r hr) _
          (List.mem_flatMap.mpr ⟨x, hxy, hid⟩) rfl
      rw [hnil, List.nil_append]
      exact ih hys (fun z hz => hrels z (List.mem_cons_of_mem _ hz)) hxy
    · obtain rfl : x = y := (List.mem_cons.mp hx).resolve_right hxy
      have hnil : (ys.flatMap rels).filter (fun r => r.source = id) = [] := by
        refine List.filter_eq_nil_iff.mpr fun r hr => ?_
        rw [decide_eq_true_eq]
        rintro rfl
        obtain ⟨z, hz, hr⟩ := List.mem_flatMap.mp hr
        exact hdisjoint _ hid _
          (List.mem_flatMap.mpr ⟨z, hz, hrels z (List.mem_cons_of_mem _ hz) r hr⟩) rfl
      rw [hnil, List.append_nil]

theorem blocks_nodup (hd : w.taskIds.Nodup) :
    (w.blocks.flatMap fun b => (lower b.1 b.2).tasks.map Prod.fst).Nodup := by
  rw [Flow.taskIds, Flow.tasks, List.map_append, List.map_flatMap] at hd
  exact (List.nodup_append.mp hd).2.1

theorem lower_nodup (hd : w.taskIds.Nodup) (hb : b ∈ w.blocks) :
    ((lower b.1 b.2).tasks.map Prod.fst).Nodup :=
  (List.nodup_flatMap.mp (blocks_nodup hd)).1 b hb

theorem not_processor_of_block (hd : w.taskIds.Nodup) (hb : b ∈ w.blocks)
    (hi : i ∈ (lower b.1 b.2).tasks) : i.1 ∉ w.processors := by
  intro h
  rw [Flow.taskIds, Flow.tasks, List.map_append] at hd
  refine (List.nodup_append.mp hd).2.2 i.1 ?_ i.1 ?_ rfl
  · exact List.mem_map.mpr ⟨_, List.mem_map.mpr ⟨i.1, h, rfl⟩, rfl⟩
  · exact List.mem_map.mpr ⟨i, List.mem_flatMap.mpr ⟨b, hb, hi⟩, rfl⟩

theorem outgoing_of_block (hd : w.taskIds.Nodup) (hw : RootOk w)
    (hb : b ∈ w.blocks) (hid : (id, k) ∈ (lower b.1 b.2).tasks)
    (hk : ∀ name, k ≠ .outputPort name) :
    w.outgoing id =
      ((lower b.1 b.2).relations.filter fun r => r.source = id).map fun r => (r.target, r.type) := by
  have hroot : w.relations.filter (fun r => r.source = id) = [] := by
    refine List.filter_eq_nil_iff.mpr fun r hr => ?_
    rw [decide_eq_true_eq]
    rintro rfl
    have hat := taskAt_of_block hd hb hid
    rcases (hw r hr).1 with h | ⟨b', hb', name, hname, heq⟩
    · exact not_processor_of_block hd hb hid h
    · have hout := taskAt_of_block hd hb' (output_mem_tasks b'.1 b'.2 hname)
      rw [← heq, hat] at hout
      exact hk name hout
  unfold Flow.outgoing Flow.allRelations
  rw [List.filter_append, hroot, List.nil_append]
  congr 1
  refine filter_flatMap_eq (blocks_nodup hd) (fun b _ r hr => ?_) hb
    (List.mem_map.mpr ⟨_, hid, rfl⟩)
  obtain ⟨k, hk, -⟩ := lower_source b.1 b.2 hr
  exact List.mem_map.mpr ⟨_, hk, rfl⟩

theorem mem_outgoing_of_root (hd : w.taskIds.Nodup) (hw : RootOk w) (h : Root w id)
    (hc : c ∈ w.outgoing id) : c.1 ∈ w.processors ∨ ∃ b ∈ w.blocks, c.1 = entryId b.1 := by
  obtain ⟨r, hr, rfl⟩ := List.mem_map.mp hc
  obtain ⟨hr, hsource⟩ := List.mem_filter.mp hr
  rw [decide_eq_true_eq] at hsource
  rcases List.mem_append.mp hr with hr | hr
  · exact (hw r hr).2
  · obtain ⟨b, hb, hr⟩ := List.mem_flatMap.mp hr
    obtain ⟨k, hk, hne⟩ := lower_source b.1 b.2 hr
    rw [hsource] at hk
    rcases h with h | ⟨b', hb', name, hname, rfl⟩
    · exact absurd h (not_processor_of_block hd hb hk)
    · have hout := taskAt_of_block hd hb' (output_mem_tasks b'.1 b'.2 hname)
      exact absurd ((taskAt_of_block hd hb hk).symm.trans hout) (hne name)

/-! ## The connections of a task of a block -/

theorem filter_source_eq_nil (rs : List Relation) (id : String) (h : ∀ r ∈ rs, r.source ≠ id) :
    rs.filter (fun r => r.source = id) = [] :=
  List.filter_eq_nil_iff.mpr fun r hr => by simpa using h r hr

theorem lowerRoute_entry
    (hd : ((lowerRoute block routes default).tasks.map Prod.fst).Nodup) :
    (lowerRoute block routes default).relations.filter (fun r => r.source = entryId block) =
      [⟨entryId block, routeId block, "success"⟩] := by
  have hne : routeId block ≠ entryId block := by
    intro heq
    refine (List.nodup_cons.mp hd).1 ?_
    show entryId block ∈ routeId block :: _
    rw [heq]
    exact List.mem_cons_self
  unfold lowerRoute
  dsimp only
  rw [List.filter_cons_of_pos (by simp), filter_source_eq_nil]
  intro r hr
  obtain ⟨name, -, rfl⟩ := List.mem_map.mp hr
  exact hne

theorem lowerRoute_route
    (hd : ((lowerRoute block routes default).tasks.map Prod.fst).Nodup) :
    (lowerRoute block routes default).relations.filter (fun r => r.source = routeId block) =
      (routes.map Prod.fst ++ [default]).map fun name =>
        ⟨routeId block, outputId block name, name⟩ := by
  have hne : entryId block ≠ routeId block := by
    intro heq
    refine (List.nodup_cons.mp hd).1 ?_
    show entryId block ∈ routeId block :: _
    rw [heq]
    exact List.mem_cons_self
  unfold lowerRoute
  dsimp only
  rw [List.filter_cons_of_neg (by simpa using hne), List.filter_eq_self]
  intro r hr
  obtain ⟨name, -, rfl⟩ := List.mem_map.mp hr
  simp

/-- The tasks of a try_catch have different ids. -/
structure TryIds (block : String) (attempt handler : Body) : Prop where
  entry_try : entryId block ∉ attempt.tasks.map (bodyId block "try")
  entry_catch : entryId block ∉ handler.tasks.map (bodyId block "catch")
  try_catch : ∀ id ∈ attempt.tasks.map (bodyId block "try"),
    id ∉ handler.tasks.map (bodyId block "catch")

theorem tryIds_of_nodup (hd : ((lowerTryCatch block attempt handler).tasks.map Prod.fst).Nodup) :
    TryIds block attempt handler := by
  have hids : (lowerTryCatch block attempt handler).tasks.map Prod.fst = entryId block ::
      attempt.tasks.map (bodyId block "try") ++ handler.tasks.map (bodyId block "catch") ++
        [outputId block "success", outputId block "caught", outputId block "failure"] := by
    simp [lowerTryCatch, Body.tasksAs, Function.comp_def]
  rw [hids] at hd
  have hd := (List.nodup_append.mp hd).1
  rw [List.cons_append, List.nodup_cons, List.mem_append, not_or, List.nodup_append] at hd
  exact ⟨hd.1.1, hd.1.2, fun id h h' => hd.2.2.2 id h id h' rfl⟩

theorem lowerTryCatch_entry (hd : TryIds block attempt handler) :
    (lowerTryCatch block attempt handler).relations.filter (fun r => r.source = entryId block) =
      [⟨entryId block, bodyId block "try" attempt.entry, "success"⟩] := by
  have htry : ∀ t ∈ attempt.tasks, bodyId block "try" t ≠ entryId block := fun t ht heq =>
    hd.entry_try (List.mem_map.mpr ⟨t, ht, heq⟩)
  have hcatch : ∀ t ∈ handler.tasks, bodyId block "catch" t ≠ entryId block := fun t ht heq =>
    hd.entry_catch (List.mem_map.mpr ⟨t, ht, heq⟩)
  have h1 := filter_source_eq_nil (attempt.relationsAs (bodyId block "try"))
    (entryId block) fun r hr => by
      obtain ⟨q, hq, rfl⟩ := mem_relationsAs.mp hr
      exact htry _ (attempt.closed q hq).1
  have h2 := filter_source_eq_nil (handler.relationsAs (bodyId block "catch"))
    (entryId block) fun r hr => by
      obtain ⟨q, hq, rfl⟩ := mem_relationsAs.mp hr
      exact hcatch _ (handler.closed q hq).1
  have h3 := filter_source_eq_nil (attempt.tasks.map fun t =>
    ⟨bodyId block "try" t, bodyId block "catch" handler.entry, "failure"⟩) (entryId block) fun r hr => by
      obtain ⟨t, ht, rfl⟩ := List.mem_map.mp hr
      exact htry t ht
  have h4 := filter_source_eq_nil (handler.tasks.map fun t =>
    ⟨bodyId block "catch" t, outputId block "failure", "failure"⟩) (entryId block) fun r hr => by
      obtain ⟨t, ht, rfl⟩ := List.mem_map.mp hr
      exact hcatch t ht
  simp only [lowerTryCatch, List.filter_append, h1, h2, h3, h4, List.nil_append, List.append_nil]
  simp [htry _ attempt.exit_mem, hcatch _ handler.exit_mem]

theorem try_relation (hd : TryIds block attempt handler)
    (ht : t ∈ attempt.tasks) (h : TryRelation block attempt handler r)
    (hsource : r.source = bodyId block "try" t) :
    (r.type = "failure" ∧ r.target = bodyId block "catch" handler.entry) ∨
    (r.type = "success" ∧ r.target = outputId block "success") ∨
    (∃ q ∈ attempt.relations, r.type = q.type ∧ r.target = bodyId block "try" q.target) := by
  have hmem : bodyId block "try" t ∈ attempt.tasks.map (bodyId block "try") :=
    List.mem_map_of_mem ht
  cases h with
  | enter =>
    rw [← hsource] at hmem
    exact absurd hmem hd.entry_try
  | tries q hq => exact .inr (.inr ⟨q, hq, rfl, rfl⟩)
  | succeeds => exact .inr (.inl ⟨rfl, rfl⟩)
  | fails t' ht' => exact .inl ⟨rfl, rfl⟩
  | handles q hq =>
    exact absurd (hsource ▸ List.mem_map_of_mem (handler.closed q hq).1) (hd.try_catch _ hmem)
  | catches => exact absurd (hsource ▸ List.mem_map_of_mem handler.exit_mem) (hd.try_catch _ hmem)
  | failsAgain t' ht' => exact absurd (hsource ▸ List.mem_map_of_mem ht') (hd.try_catch _ hmem)

theorem catch_relation (hd : TryIds block attempt handler)
    (ht : t ∈ handler.tasks) (h : TryRelation block attempt handler r)
    (hsource : r.source = bodyId block "catch" t) :
    (r.type = "failure" ∧ r.target = outputId block "failure") ∨
    (r.type = "success" ∧ r.target = outputId block "caught") ∨
    (∃ q ∈ handler.relations, r.type = q.type ∧ r.target = bodyId block "catch" q.target) := by
  have hmem : bodyId block "catch" t ∈ handler.tasks.map (bodyId block "catch") :=
    List.mem_map_of_mem ht
  have hnot : ∀ id ∈ attempt.tasks.map (bodyId block "try"), id ≠ bodyId block "catch" t :=
    fun id hid heq => hd.try_catch id hid (heq ▸ hmem)
  cases h with
  | enter =>
    rw [← hsource] at hmem
    exact absurd hmem hd.entry_catch
  | tries q hq => exact absurd hsource (hnot _ (List.mem_map_of_mem (attempt.closed q hq).1))
  | succeeds => exact absurd hsource (hnot _ (List.mem_map_of_mem attempt.exit_mem))
  | fails t' ht' => exact absurd hsource (hnot _ (List.mem_map_of_mem ht'))
  | handles q hq => exact .inr (.inr ⟨q, hq, rfl, rfl⟩)
  | catches => exact .inr (.inl ⟨rfl, rfl⟩)
  | failsAgain t' ht' => exact .inl ⟨rfl, rfl⟩

/-- The tasks of a repeat_n have different ids. -/
structure RepeatIds (block : String) (times : Nat) (body : Body) : Prop where
  entry : ∀ i < times, ∀ t ∈ body.tasks, iterationId block (i + 1) t ≠ entryId block
  output : ∀ i < times, ∀ t ∈ body.tasks, iterationId block (i + 1) t ≠ outputId block "success"
  inj : ∀ i < times, ∀ j < times, ∀ t ∈ body.tasks, ∀ u ∈ body.tasks,
    iterationId block (i + 1) t = iterationId block (j + 1) u → i = j ∧ t = u

theorem repeatIds_of_nodup (hd : ((lowerRepeatN block times body).tasks.map Prod.fst).Nodup) :
    RepeatIds block times body := by
  have hids : (lowerRepeatN block times body).tasks.map Prod.fst = entryId block ::
      (List.range times).flatMap (fun i => body.tasks.map (iterationId block (i + 1))) ++
        [outputId block "success"] := by
    simp [lowerRepeatN, Body.tasksAs, List.map_flatMap, Function.comp_def]
  rw [hids, List.cons_append, List.nodup_cons, List.mem_append, not_or, List.nodup_append] at hd
  obtain ⟨⟨hentry, -⟩, hflat, -, hout⟩ := hd
  have hmem : ∀ i < times, ∀ t ∈ body.tasks, iterationId block (i + 1) t ∈
      (List.range times).flatMap fun i => body.tasks.map (iterationId block (i + 1)) :=
    fun i hi t ht => List.mem_flatMap.mpr ⟨i, List.mem_range.mpr hi, List.mem_map_of_mem ht⟩
  obtain ⟨hinner, hpairs⟩ := List.nodup_flatMap.mp hflat
  refine ⟨fun i hi t ht heq => hentry (heq ▸ hmem i hi t ht),
    fun i hi t ht => hout _ (hmem i hi t ht) _ List.mem_cons_self, ?_⟩
  intro i hi j hj t ht u hu heq
  have hlt : ∀ i j, i < j → j < times → ∀ t ∈ body.tasks, ∀ u ∈ body.tasks,
      iterationId block (i + 1) t ≠ iterationId block (j + 1) u := by
    intro i j hij hj t ht u hu heq
    have hpair := List.pairwise_iff_getElem.mp hpairs i j (by simpa using hij.trans hj)
      (by simpa using hj) hij
    simp only [List.getElem_range] at hpair
    exact hpair (List.mem_map_of_mem ht) (heq ▸ List.mem_map_of_mem hu)
  rcases Nat.lt_trichotomy i j with hij | rfl | hij
  · exact absurd heq (hlt i j hij hj t ht u hu)
  · exact ⟨rfl, List.inj_on_of_nodup_map (hinner i (List.mem_range.mpr hi)) ht hu heq⟩
  · exact absurd heq.symm (hlt j i hij hi u hu t ht)

theorem lowerRepeatN_entry (hpos : 1 ≤ times) (hd : RepeatIds block times body) :
    (lowerRepeatN block times body).relations.filter (fun r => r.source = entryId block) =
      [⟨entryId block, iterationId block 1 body.entry, "success"⟩] := by
  obtain ⟨n, rfl⟩ : ∃ n, times = n + 1 := ⟨times - 1, by omega⟩
  have hbody : ∀ i < n + 1, (body.relationsAs (iterationId block (i + 1))).filter
      (fun r => r.source = entryId block) = [] := fun i hi =>
    filter_source_eq_nil _ _ fun r hr => by
      obtain ⟨q, hq, rfl⟩ := mem_relationsAs.mp hr
      exact hd.entry i hi _ (body.closed q hq).1
  have hexit : ∀ i < n + 1, iterationId block (i + 1) body.exit ≠ entryId block := fun i hi =>
    hd.entry i hi _ body.exit_mem
  have hrest : ((List.range n).flatMap fun i =>
      (⟨previousId block body (i + 1), iterationId block (i + 2) body.entry, "success"⟩ :
        Relation) :: body.relationsAs (iterationId block (i + 2))).filter
      (fun r => r.source = entryId block) = [] := by
    refine List.filter_eq_nil_iff.mpr fun r hr => ?_
    obtain ⟨i, hi, hr⟩ := List.mem_flatMap.mp hr
    have hi := List.mem_range.mp hi
    rcases List.mem_cons.mp hr with rfl | hr
    · simpa [previousId] using hexit i (by omega)
    · exact List.filter_eq_nil_iff.mp (hbody (i + 1) (by omega)) r hr
  have hlast : previousId block body (n + 1) ≠ entryId block := by
    simpa [previousId] using hexit n (Nat.lt_succ_self n)
  unfold lowerRepeatN
  dsimp only
  rw [List.range_succ_eq_map, List.flatMap_cons, List.flatMap_map, List.filter_append,
    List.filter_append, List.filter_cons_of_pos (by simp [previousId]), hbody 0 (by omega)]
  rw [show ((List.range n).flatMap fun i => _).filter _ = [] from hrest]
  simp [previousId, hexit n (Nat.lt_succ_self n)]

/-- Where a task of an iteration sends a FlowFile. -/
theorem iteration_relation
    (hd : RepeatIds block times body) {i : Nat} (hi : i < times) (ht : t ∈ body.tasks)
    (h : RepeatRelation block times body r) (hsource : r.source = iterationId block (i + 1) t) :
    (∃ u ∈ body.tasks, r.target = iterationId block (i + 1) u ∧
      (r.source, r.target) ∉ bodyEnds block times body) ∨
    ((r.source, r.target) ∈ bodyEnds block times body ∧
      (i + 1 < times ∧ r.target = iterationId block (i + 2) body.entry ∨
        i + 1 = times ∧ r.target = outputId block "success")) := by
  have hprevious : ∀ j ≤ times, previousId block body j = iterationId block (i + 1) t →
      j = i + 1 ∧ t = body.exit := by
    intro j hj heq
    cases j with
    | zero => exact absurd heq.symm (hd.entry i hi t ht)
    | succ j =>
      obtain ⟨rfl, rfl⟩ := hd.inj j hj i hi _ body.exit_mem t ht heq
      exact ⟨rfl, rfl⟩
  cases h with
  | next j hj =>
    obtain ⟨rfl, rfl⟩ := hprevious j hj.le hsource
    refine .inr ⟨?_, .inl ⟨hj, rfl⟩⟩
    refine List.mem_map.mpr ⟨i, List.mem_range.mpr hi, ?_⟩
    rw [if_neg (Nat.ne_of_lt hj)]
    rfl
  | within j hj q hq =>
    obtain ⟨rfl, rfl⟩ := hd.inj j hj i hi _ (body.closed q hq).1 t ht hsource
    refine .inl ⟨q.target, (body.closed q hq).2, rfl, ?_⟩
    intro hmem
    obtain ⟨k, hk, heq⟩ := List.mem_map.mp hmem
    have hk := List.mem_range.mp hk
    obtain ⟨hexit, hnext⟩ := Prod.mk.inj heq
    obtain ⟨rfl, -⟩ := hd.inj k hk j hj _ body.exit_mem _ (body.closed q hq).1 hexit
    split at hnext
    · exact hd.output k hj _ (body.closed q hq).2 hnext.symm
    · next hlt =>
      have := hd.inj (k + 1) (by omega) k hj _ body.entry_mem _ (body.closed q hq).2 hnext
      omega
  | ends =>
    obtain ⟨rfl, rfl⟩ := hprevious times (Nat.le_refl _) hsource
    refine .inr ⟨?_, .inr ⟨rfl, rfl⟩⟩
    refine List.mem_map.mpr ⟨i, List.mem_range.mpr hi, ?_⟩
    rw [if_pos rfl]
    rfl

/-! ## Visits -/

/-- What the place of a FlowFile in a block says of its visit. -/
def At (E : Tests) (block : String) (f : FlowFile) (events : List Event) (t : Token) :
    Control → Prop
  | c@(.ifElse _) | c@(.switch ..) =>
    t.task = entryId block ∧ t.file = f ∨
    t.task = routeId block ∧ t.file = port "input" f ∧
      c.choice E (port "input" f) = c.choice E f
  | .tryCatch attempt handler _ =>
    events.any (Event.raises (handler.tasks.map (bodyId block "catch"))) = false ∧
    (t.task = entryId block ∧
        events.any (Event.raises (attempt.tasks.map (bodyId block "try"))) = false ∨
      t.task ∈ attempt.tasks.map (bodyId block "try") ∧
        events.any (Event.raises (attempt.tasks.map (bodyId block "try"))) = false ∨
      t.task ∈ handler.tasks.map (bodyId block "catch") ∧
        events.any (Event.raises (attempt.tasks.map (bodyId block "try"))) = true)
  | .repeatN times body _ =>
    t.task = entryId block ∧ events.countP (Event.follows (bodyEnds block times body)) = 0 ∨
    ∃ i < times, ∃ x ∈ body.tasks, t.task = iterationId block (i + 1) x ∧
      events.countP (Event.follows (bodyEnds block times body)) = i

def leftCount (events : List Event) : Nat := events.countP fun ev => ev matches .left ..

def lostCount (events : List Event) : Nat := events.countP fun ev => ev matches .discarded _

/-- The FlowFile is in the block, has left it as prescribed, or was discarded. -/
inductive Stage (E : Tests) (v : Nat) (b : String × Control) (f : FlowFile) (toks : List Token)
    (events : List Event) : Prop
  | inside (t : Token) (htoks : toks = [t]) (hat : At E b.1 f events t b.2)
      (hleft : leftCount events = 0) (hlost : lostCount events = 0)
  | left (htoks : toks = []) (hleft : leftCount events = 1) (hlost : lostCount events = 0)
      (hprescribed : ∀ output, .left v output ∈ events → Prescribed E b.1 f events output b.2)
  | lost (htoks : toks = []) (hleft : leftCount events = 0) (hlost : lostCount events = 1)
      (hrepeat : b.2.isRepeat = true)

def Entered (v : Nat) (b : String × Control) (f : FlowFile) (events : List Event) : Prop :=
  events.filter (fun ev => ev matches .entered ..) = [.entered v (entryId b.1) f]

/-- Every visit but one, whose FlowFile is on its way, is in one of the stages. -/
structure Inv (E : Tests) (w : Flow) (hole : Option Nat) (s : State) : Prop where
  tokens : ∀ t ∈ s.tokens, ∀ v ∈ t.visit, v < s.count
  roots : ∀ t ∈ s.tokens, t.visit = none → Root w t.task
  events : ∀ ev ∈ s.log, ev.visit < s.count
  visits : ∀ v < s.count, hole ≠ some v → ∃ b ∈ w.blocks, ∃ f,
    Entered v b f (s.eventsOf v) ∧ Stage E v b f (s.tokensOf v) (s.eventsOf v)

/-- The visit whose FlowFile is on its way. -/
structure OnTheWay (w : Flow) (s : State) (v : Nat) (b : String × Control) (f : FlowFile) : Prop where
  block : b ∈ w.blocks
  lt : v < s.count
  toks : s.tokensOf v = []
  entered : Entered v b f (s.eventsOf v)
  left : leftCount (s.eventsOf v) = 0
  lost : lostCount (s.eventsOf v) = 0

theorem leftCount_eq_zero (h : leftCount events = 0) (v : Nat)
    (output : String) : .left v output ∉ events := by
  intro hmem
  have := List.countP_eq_zero.mp h _ hmem
  simp at this

theorem lostCount_eq_zero (h : lostCount events = 0) (v : Nat) :
    .discarded v ∉ events := by
  intro hmem
  have := List.countP_eq_zero.mp h _ hmem
  simp at this

theorem Inv.kept (h : Inv E w none s) : Kept E w s := by
  intro v hv
  obtain ⟨b, hb, f, hentered, hstage⟩ := h.visits v hv (by simp)
  refine ⟨b, hb, f, hentered, ?_⟩
  change (s.tokensOf v).length + leftCount (s.eventsOf v) + lostCount (s.eventsOf v) = 1 ∧ _
  cases hstage with
  | inside t htoks hat hleft hlost =>
    rw [htoks, hleft, hlost]
    exact ⟨rfl, fun output ho => absurd ho (leftCount_eq_zero hleft v output),
      fun ho => absurd ho (lostCount_eq_zero hlost v)⟩
  | left htoks hleft hlost hprescribed =>
    rw [htoks, hleft, hlost]
    exact ⟨rfl, hprescribed, fun ho => absurd ho (lostCount_eq_zero hlost v)⟩
  | lost htoks hleft hlost hrepeat =>
    rw [htoks, hleft, hlost]
    exact ⟨rfl, fun output ho => absurd ho (leftCount_eq_zero hleft v output), fun _ => hrepeat⟩

theorem eventsOf_record_self {ev : Event} (h : ev.visit = v) (s : State) :
    (s.record ev).eventsOf v = ev :: s.eventsOf v := by
  simp [State.eventsOf, State.record, h]

theorem eventsOf_record_of_ne {ev : Event} (h : ev.visit ≠ v) (s : State) :
    (s.record ev).eventsOf v = s.eventsOf v := by
  simp [State.eventsOf, State.record, h]

theorem Inv.record (h : Inv E w (some v) s) (ev : Event) (hev : ev.visit = v)
    (hv : v < s.count) : Inv E w (some v) (s.record ev) where
  tokens := h.tokens
  roots := h.roots
  events ev' hev' := by
    rcases List.mem_cons.mp hev' with rfl | hev'
    · exact hev ▸ hv
    · exact h.events ev' hev'
  visits u hu hne := by
    have huv : ev.visit ≠ u := by
      rintro rfl
      exact hne (congrArg some hev.symm)
    rw [eventsOf_record_of_ne huv]
    exact h.visits u hu hne

theorem OnTheWay.record (h : OnTheWay w s v b f)
    (ev : Event) (hev : ev.visit = v) (hplain : Entered v b f (ev :: s.eventsOf v) ∧
      leftCount (ev :: s.eventsOf v) = 0 ∧ lostCount (ev :: s.eventsOf v) = 0) :
    OnTheWay w (s.record ev) v b f where
  block := h.block
  lt := h.lt
  toks := h.toks
  entered := (eventsOf_record_self hev s).symm ▸ hplain.1
  left := (eventsOf_record_self hev s).symm ▸ hplain.2.1
  lost := (eventsOf_record_self hev s).symm ▸ hplain.2.2

/-- The FlowFile comes to a task. -/
theorem Inv.place (h : Inv E w (some v) s)
    (ho : OnTheWay w s v b f) {t : Token} (ht : t.visit = some v)
    (hat : At E b.1 f (s.eventsOf v) t b.2) :
    Inv E w none { s with tokens := s.tokens ++ [t] } where
  tokens t' ht' u hu := by
    rcases List.mem_append.mp ht' with ht' | ht'
    · exact h.tokens t' ht' u hu
    · obtain rfl := List.mem_singleton.mp ht'
      obtain rfl := Option.some.inj (ht.symm.trans hu)
      exact ho.lt
  roots t' ht' hnone := by
    rcases List.mem_append.mp ht' with ht' | ht'
    · exact h.roots t' ht' hnone
    · obtain rfl := List.mem_singleton.mp ht'
      exact absurd (ht.symm.trans hnone) (by simp)
  events := h.events
  visits u hu _ := by
    by_cases huv : u = v
    · subst huv
      refine ⟨b, ho.block, f, ho.entered, .inside t ?_ hat ho.left ho.lost⟩
      have htoks := ho.toks
      simp only [State.tokensOf, List.filter_append] at htoks ⊢
      rw [htoks]
      simp [ht]
    · obtain ⟨b', hb', f', hentered, hstage⟩ := h.visits u hu (by simpa [eq_comm] using huv)
      refine ⟨b', hb', f', hentered, ?_⟩
      have htoks : ({ s with tokens := s.tokens ++ [t] } : State).tokensOf u = s.tokensOf u := by
        have hne : ¬ t.visit = some u := by
          rw [ht]
          simpa [eq_comm] using huv
        simp [State.tokensOf, List.filter_append, hne]
      rw [htoks]
      exact hstage

theorem Inv.addRoot {hole : Option Nat} (h : Inv E w hole s) {t : Token} (ht : t.visit = none)
    (hroot : Root w t.task) : Inv E w hole { s with tokens := s.tokens ++ [t] } where
  tokens t' ht' u hu := by
    rcases List.mem_append.mp ht' with ht' | ht'
    · exact h.tokens t' ht' u hu
    · obtain rfl := List.mem_singleton.mp ht'
      exact absurd (ht.symm.trans hu) (by simp)
  roots t' ht' hnone := by
    rcases List.mem_append.mp ht' with ht' | ht'
    · exact h.roots t' ht' hnone
    · exact List.mem_singleton.mp ht' ▸ hroot
  events := h.events
  visits u hu hne := by
    obtain ⟨b, hb, f, hentered, hstage⟩ := h.visits u hu hne
    refine ⟨b, hb, f, hentered, ?_⟩
    have htoks : ({ s with tokens := s.tokens ++ [t] } : State).tokensOf u = s.tokensOf u := by
      simp [State.tokensOf, List.filter_append, ht]
    rw [htoks]
    exact hstage

theorem Inv.close (h : Inv E w (some v) s)
    (hb : b ∈ w.blocks) (hentered : Entered v b f (s.eventsOf v))
    (hstage : Stage E v b f (s.tokensOf v) (s.eventsOf v)) : Inv E w none s where
  tokens := h.tokens
  roots := h.roots
  events := h.events
  visits u hu _ := by
    by_cases huv : u = v
    · subst huv
      exact ⟨b, hb, f, hentered, hstage⟩
    · exact h.visits u hu (by simpa [eq_comm] using huv)

/-! ## Deliveries -/

theorem At.entry (E : Tests) (block : String) (c : Control) (v : Nat) (f : FlowFile) :
    At E block f [.entered v (entryId block) f] ⟨entryId block, f, some v⟩ c := by
  cases c with
  | ifElse | switch => exact .inl ⟨rfl, rfl⟩
  | tryCatch attempt handler noFailure => exact ⟨rfl, .inl ⟨rfl, rfl⟩⟩
  | repeatN times body bounds => exact .inl ⟨rfl, rfl⟩

/-- A FlowFile comes to an input port. -/
theorem Inv.enter (h : Inv E w none s) (hb : b ∈ w.blocks) (f : FlowFile) :
    Inv E w none { s.record (.entered s.count (entryId b.1) f) with
      tokens := s.tokens ++ [⟨entryId b.1, f, some s.count⟩], count := s.count + 1 } where
  tokens t ht u hu := by
    rcases List.mem_append.mp ht with ht | ht
    · exact Nat.lt_succ_of_lt (h.tokens t ht u hu)
    · obtain rfl := List.mem_singleton.mp ht
      obtain rfl := Option.some.inj hu
      exact Nat.lt_succ_self _
  roots t ht hnone := by
    rcases List.mem_append.mp ht with ht | ht
    · exact h.roots t ht hnone
    · obtain rfl := List.mem_singleton.mp ht
      exact absurd hnone (by simp)
  events ev hev := by
    rcases List.mem_cons.mp hev with rfl | hev
    · exact Nat.lt_succ_self _
    · exact Nat.lt_succ_of_lt (h.events ev hev)
  visits u hu _ := by
    rcases Nat.lt_succ_iff_lt_or_eq.mp hu with hu | rfl
    · obtain ⟨b', hb', f', hentered, hstage⟩ := h.visits u hu (by simp)
      refine ⟨b', hb', f', ?_⟩
      have hevents : ({ s.record (.entered s.count (entryId b.1) f) with
          tokens := s.tokens ++ [⟨entryId b.1, f, some s.count⟩], count := s.count + 1 } :
            State).eventsOf u = s.eventsOf u :=
        eventsOf_record_of_ne (Nat.ne_of_gt hu) s
      have htoks : ({ s.record (.entered s.count (entryId b.1) f) with
          tokens := s.tokens ++ [⟨entryId b.1, f, some s.count⟩], count := s.count + 1 } :
            State).tokensOf u = s.tokensOf u := by
        simp [State.tokensOf, List.filter_append, Nat.ne_of_gt hu]
      rw [hevents, htoks]
      exact ⟨hentered, hstage⟩
    · -- Nothing is known of this visit so far.
      have hevents : ({ s.record (.entered s.count (entryId b.1) f) with
          tokens := s.tokens ++ [⟨entryId b.1, f, some s.count⟩], count := s.count + 1 } :
            State).eventsOf s.count = [.entered s.count (entryId b.1) f] := by
        have hold : s.eventsOf s.count = [] := List.filter_eq_nil_iff.mpr fun ev hev => by
          have := h.events ev hev
          simp only [decide_eq_true_eq]
          omega
        rw [← hold]
        exact eventsOf_record_self rfl s
      have htoks : ({ s.record (.entered s.count (entryId b.1) f) with
          tokens := s.tokens ++ [⟨entryId b.1, f, some s.count⟩], count := s.count + 1 } :
            State).tokensOf s.count = [⟨entryId b.1, f, some s.count⟩] := by
        have hold : s.tokensOf s.count = [] := List.filter_eq_nil_iff.mpr fun t ht => by
          simp only [decide_eq_true_eq]
          intro heq
          exact absurd (h.tokens t ht _ heq) (Nat.lt_irrefl _)
        simp only [State.tokensOf, List.filter_append] at hold ⊢
        rw [hold]
        simp
      rw [hevents, htoks]
      exact ⟨b, hb, f, rfl, .inside _ rfl (At.entry E b.1 b.2 _ f) rfl rfl⟩

theorem Inv.deliver_root (h : Inv E w none s) (hd : w.taskIds.Nodup)
    (ht : target ∈ w.processors ∨ ∃ b ∈ w.blocks, target = entryId b.1) (source : String)
    (f : FlowFile) : Inv E w none (s.deliver w none source (target, f)) := by
  rcases ht with ht | ⟨b, hb, rfl⟩
  · have hat := taskAt_of_mem hd (mem_tasks_of_processor ht)
    simp only [State.deliver, hat]
    exact h.addRoot rfl (.inl ht)
  · have hat := taskAt_of_block hd hb (entry_mem_tasks b.1 b.2)
    simp only [State.deliver, hat]
    exact h.enter hb f

theorem Inv.deliver_inside
    (h : Inv E w (some v) s) (ho : OnTheWay w s v b f) (source : String)
    (ht : (∀ name, w.taskAt target ≠ .inputPort name) ∧ ∀ name, w.taskAt target ≠ .outputPort name)
    (hat : At E b.1 f (.moved v source target :: s.eventsOf v) ⟨target, file, some v⟩ b.2) :
    Inv E w none (s.deliver w (some v) source (target, file)) := by
  have hmoved := h.record (.moved v source target) rfl ho.lt
  have ho' := ho.record (.moved v source target) rfl ⟨ho.entered, ho.left, ho.lost⟩
  have hplaced := hmoved.place ho' (t := ⟨target, file, some v⟩) rfl
    ((eventsOf_record_self rfl s).symm ▸ hat)
  cases htask : w.taskAt target with
  | inputPort name => exact absurd htask (ht.1 name)
  | outputPort name => exact absurd htask (ht.2 name)
  | routeOnAttribute | work =>
    simp only [State.deliver, htask]
    exact hplaced

/-- A FlowFile is sent to an output port. -/
theorem Inv.deliver_output {name : String}
    (h : Inv E w (some v) s) (hd : w.taskIds.Nodup) (ho : OnTheWay w s v b f) (source : String)
    (hname : name ∈ b.2.outputs)
    (hprescribed : Prescribed E b.1 f
      (.left v name :: .moved v source (outputId b.1 name) :: s.eventsOf v) name b.2) :
    Inv E w none (s.deliver w (some v) source (outputId b.1 name, file)) := by
  have hat := taskAt_of_block hd ho.block (output_mem_tasks b.1 b.2 hname)
  have hmoved := h.record (.moved v source (outputId b.1 name)) rfl ho.lt
  have hleft := hmoved.record (.left v name) rfl ho.lt
  have hevents : ((s.record (.moved v source (outputId b.1 name))).record (.left v name)).eventsOf v
      = .left v name :: .moved v source (outputId b.1 name) :: s.eventsOf v :=
    (eventsOf_record_self rfl _).trans (congrArg _ (eventsOf_record_self rfl s))
  have hclosed : Inv E w none
      ((s.record (.moved v source (outputId b.1 name))).record (.left v name)) := by
    refine hleft.close ho.block (f := f) ?_ ?_
    · rw [hevents]
      exact ho.entered
    · refine .left ho.toks ?_ ?_ ?_
      · rw [hevents]
        have hold := ho.left
        simpa [leftCount, List.countP_cons] using hold
      · rw [hevents]
        exact ho.lost
      · rw [hevents]
        intro output houtput
        rcases List.mem_cons.mp houtput with heq | houtput
        · cases heq
          exact hprescribed
        · rcases List.mem_cons.mp houtput with heq | houtput
          · cases heq
          · exact absurd houtput (leftCount_eq_zero ho.left v output)
  simp only [State.deliver, hat]
  exact hclosed.addRoot rfl (.inr ⟨b, ho.block, name, hname, rfl⟩)

end PawFlow.ControlBlocks
