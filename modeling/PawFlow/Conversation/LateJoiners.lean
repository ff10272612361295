import PawFlow.Conversation.Rows

/-!
# What an agent sees that joins late

An agent that is there when a message is sent gets it as `_transform_for_other_agent` writes it. An
agent that joins later reads the shared form of `_transform_for_shared`, as `_personalize_from_shared`
undoes it. Both see the same, except for a message that begins with the very prefix it would get:
it gets none, and undoing takes its own text away.
-/

namespace PawFlow.Conversation

open PawFlow.Lib

/-- The content begins with the prefix as `_strip_prefix` looks for it. -/
def Content.begins (pre : String) : Content → Bool
  | .text value => startsWith value (pre ++ "\n")
  | .parts (.obj first :: _) =>
    ((PyDict.get? first "type").getD .null).isStr "text" &&
      ((PyDict.get? first "text").getD .null).isStr pre
  | _ => false

namespace Row

variable (row : Row)

/-- The message comes from a task or from `/btw`. -/
def inSubContext : Bool := row.source.taskId ≠ "" || row.source.btw

/-- The agent is the author of the message. -/
def isOwn (agent : String) : Bool := row.source.type = "agent" && row.source.name = agent

/-- The prefix that an agent takes off its own messages, or off those to it. -/
def plainPrefix : String :=
  if row.source.type = "agent" then "[Agent " ++ row.source.name ++ "]:"
  else "[User to agent " ++ row.source.targetAgent ++ "]:"

/-- The agent is to see the message without its prefix: its own, or one to it, outside of tasks and
`/btw`. -/
def isPlainFor (agent : String) : Bool :=
  row.isOwn agent && !row.inSubContext ||
    row.source.type = "user" && row.source.targetAgent = agent && !row.source.btw

/-- The message begins with the prefix that the others are to see before it. -/
def imitates : Bool := row.content.begins row.plainPrefix

end Row

/-! ## Prefixes -/

theorem startsWith_iff {s pre : String} : startsWith s pre ↔ pre.toList <+: s.toList := by
  simp [startsWith]

theorem startsWith_append (pre s : String) : startsWith (pre ++ s) pre := by
  simp [startsWith_iff]

variable {content : Content}

/-- A prefix is taken off again, unless the content had it before. -/
theorem stripContent_prefixContent {pre : String}
    (h : content.begins pre = false) : stripContent (prefixContent content pre) pre = content := by
  cases content with
  | text value =>
    have hline : startsWith value (pre ++ "\n") = false := h
    by_cases hspace : startsWith value (pre ++ " ")
    · simp only [prefixContent, stripContent, hline, hspace, Bool.or_true, if_true,
        Bool.false_eq_true, if_false]
    · have hstarts : startsWith (pre ++ "\n" ++ value) (pre ++ "\n") := startsWith_append _ _
      have hlength : (pre ++ "\n").toList.length = pre.length + 1 := by
        simp [String.length_toList]
      have hdrop : (pre ++ "\n" ++ value).toList.drop (pre.length + 1) = value.toList := by
        rw [String.toList_append, ← hlength, List.drop_left]
      simp only [prefixContent, stripContent, hline, hspace, hstarts, hdrop, Bool.or_false,
        Bool.false_eq_true, if_false, if_true, String.ofList_toList]
  | parts items =>
    have hpre : (((PyDict.get? [("type", Json.str "text"), ("text", Json.str pre)] "type").getD
          .null).isStr "text" &&
        ((PyDict.get? [("type", Json.str "text"), ("text", Json.str pre)] "text").getD
          .null).isStr pre) = true := by
      simp [PyDict.get?, Json.isStr]
    cases items with
    | nil => simp only [prefixContent, stripContent, hpre, if_true]
    | cons first rest =>
      cases first with
      | obj first =>
        have hfirst : (((PyDict.get? first "type").getD .null).isStr "text" &&
            ((PyDict.get? first "text").getD .null).isStr pre) = false := h
        simp only [prefixContent, stripContent, hfirst, hpre, Bool.false_eq_true, if_false,
          if_true]
      | _ => simp only [prefixContent, stripContent, hpre, if_true]

theorem not_startsWith_of_ne {text stem rest rest' : String} {c c' : Char} (hne : c ≠ c')
    (h : startsWith text (stem ++ .ofList (c :: rest.toList))) :
    startsWith text (stem ++ .ofList (c' :: rest'.toList)) = false := by
  rw [Bool.eq_false_iff]
  intro h'
  rw [startsWith_iff, String.toList_append, String.toList_ofList] at h h'
  obtain ⟨more, hmore⟩ := h
  obtain ⟨more', hmore'⟩ := h'
  rw [← hmore', List.append_assoc, List.append_assoc] at hmore
  have := List.append_cancel_left hmore
  simp [hne] at this

/-- The prefix of a sub-context is never taken off. -/
theorem stripContent_of_sub {content : Content} {stem pre plain sub tail : String}
    (hpre : pre = stem ++ .ofList (' ' :: sub.toList))
    (hplain : plain = stem ++ .ofList (']' :: tail.toList)) :
    stripContent (prefixContent content pre) plain = prefixContent content pre := by
  have hne : pre ≠ plain := by
    rintro rfl
    have := congrArg String.toList (hpre.symm.trans hplain)
    simp at this
  have hnot : ∀ value : String, startsWith value pre → startsWith value (plain ++ "\n") = false := by
    intro value hvalue
    have hline : plain ++ "\n" = stem ++ .ofList (']' :: (tail ++ "\n").toList) := by
      rw [hplain]
      apply String.toList_injective
      simp
    rw [hline]
    exact not_startsWith_of_ne (by decide) (hpre ▸ hvalue)
  have hlonger : ∀ (value : String) (c : String), startsWith value (pre ++ c) →
      startsWith value pre := by
    intro value c hvalue
    rw [startsWith_iff] at hvalue ⊢
    rw [String.toList_append] at hvalue
    exact (List.prefix_append _ _).trans hvalue
  cases content with
  | text value =>
    by_cases hprefixed : startsWith value (pre ++ "\n") || startsWith value (pre ++ " ")
    · have hvalue : startsWith value pre := by
        rcases Bool.or_eq_true _ _ |>.mp hprefixed with h | h
        · exact hlonger value _ h
        · exact hlonger value _ h
      simp only [prefixContent, hprefixed, if_true, stripContent, hnot value hvalue,
        Bool.false_eq_true, if_false]
    · have hstarts : startsWith (pre ++ "\n" ++ value) pre :=
        hlonger _ "\n" (startsWith_append _ _)
      simp only [prefixContent, hprefixed, Bool.false_eq_true, if_false, stripContent,
        hnot _ hstarts]
  | parts items =>
    have hother : ∀ v : Json, v.isStr pre → v.isStr plain = false := by
      intro v hv
      cases v with
      | str s =>
        simp only [Json.isStr, beq_iff_eq] at hv
        simp [Json.isStr, hv, hne]
      | _ => rfl
    have hfirst : ((PyDict.get? [("type", Json.str "text"), ("text", Json.str pre)] "text").getD
        .null).isStr plain = false := hother _ (by simp [PyDict.get?, Json.isStr])
    cases items with
    | nil =>
      simp only [prefixContent, stripContent, hfirst, Bool.and_false, Bool.false_eq_true,
        if_false]
    | cons first rest =>
      cases first with
      | obj first =>
        by_cases hprefixed : ((PyDict.get? first "type").getD .null).isStr "text" &&
            ((PyDict.get? first "text").getD .null).isStr pre
        · have hplain' := hother _ (Bool.and_eq_true _ _ |>.mp hprefixed).2
          simp only [prefixContent, hprefixed, if_true, stripContent, hplain',
            Bool.and_false, Bool.false_eq_true, if_false]
        · simp only [prefixContent, hprefixed, Bool.false_eq_true, if_false, stripContent,
            hfirst, Bool.and_false]
      | _ =>
        simp only [prefixContent, stripContent, hfirst, Bool.and_false, Bool.false_eq_true,
          if_false]

/-! ## Late joiners -/

theorem transformForShared_agent {row s : Row} (hs : transformForShared row = .ok s)
    (htype : row.source.type = "agent") :
    row.source.name ≠ "" ∧ s = row.asUser (agentPrefix row.source.name row.source) := by
  unfold transformForShared at hs
  dsimp only at hs
  rw [if_pos htype] at hs
  split at hs
  · cases hs
  · next hname => exact ⟨hname, (Except.ok.inj hs).symm⟩

theorem transformForShared_user {row s : Row} (hs : transformForShared row = .ok s)
    (htype : row.source.type = "user") : s =
      if row.source.targetAgent = "" then row
      else row.prefixed (userPrefix row.source.targetAgent row.source) := by
  unfold transformForShared at hs
  dsimp only at hs
  rw [htype, if_neg (by decide)] at hs
  by_cases htarget : row.source.targetAgent = ""
  · rw [if_neg (by simp [htarget])] at hs
    rw [if_pos htarget]
    exact (Except.ok.inj hs).symm
  · rw [if_pos ⟨rfl, htarget⟩] at hs
    rw [if_neg htarget]
    exact (Except.ok.inj hs).symm

theorem stripContent_btw {source : Source} (hbtw : source.btw)
    (target : String) :
    stripContent (prefixContent content (userPrefix target source))
        ("[User to agent " ++ target ++ "]:") =
      prefixContent content (userPrefix target source) := by
  refine @stripContent_of_sub _ ("[User to agent " ++ target) _ _ "in /btw]:" ":" ?_ ?_
  · rw [userPrefix, if_pos hbtw]
    apply String.toList_injective
    simp
  · apply String.toList_injective
    simp

/-- An agent that joins late sees what the others saw, and has its own messages back: those outside
of tasks and `/btw`, as the assistant's. -/
theorem late_joiner_sees {row s : Row} {agent : String} (hs : transformForShared row = .ok s)
    (hkind : row.source.type = "agent" ∨ row.source.type = "user") (hagent : agent ≠ "")
    (hplain : row.isPlainFor agent → row.imitates = false) :
    (row.isOwn agent = false ∨ row.inSubContext →
      transformForOtherAgent row agent = .ok (personalizeFromShared s agent)) ∧
    (row.isOwn agent → row.inSubContext = false →
      personalizeFromShared s agent = { row with role := "assistant" }) := by
  rcases hkind with htype | htype
  · obtain ⟨hname, rfl⟩ := transformForShared_agent hs htype
    by_cases hown : row.source.name = agent
    · subst hown
      have hisOwn : row.isOwn row.source.name = true := by simp [Row.isOwn, htype]
      cases hsub : row.inSubContext with
      | true =>
        have hsub' : row.source.taskId ≠ "" ∨ row.source.btw = true := by
          simpa [Row.inSubContext] using hsub
        constructor
        · intro _
          have hkeep : ¬ (row.source.taskId = "" ∧ (!row.source.btw) = true) := by
            rintro ⟨htask, hbtw⟩
            rcases hsub' with h | h
            · exact h htask
            · simp [h] at hbtw
          unfold transformForOtherAgent personalizeFromShared
          dsimp only [Row.asUser]
          rw [if_pos htype, if_neg hname, if_pos (Or.inr hsub'), if_pos ⟨htype, rfl⟩,
            if_neg hkeep]
        · intro _ h
          cases h
      | false =>
        obtain ⟨htask, hbtw⟩ : row.source.taskId = "" ∧ row.source.btw = false := by
          simpa [Row.inSubContext] using hsub
        constructor
        · simp [hisOwn]
        · intro _ _
          have hpre : agentPrefix row.source.name row.source =
              "[Agent " ++ row.source.name ++ "]:" := by
            simp [agentPrefix, htask, hbtw]
          have himitates : row.content.begins ("[Agent " ++ row.source.name ++ "]:") = false := by
            have := hplain (by simp [Row.isPlainFor, hisOwn, hsub])
            simpa [Row.imitates, Row.plainPrefix, htype] using this
          unfold personalizeFromShared
          dsimp only [Row.asUser]
          rw [if_pos ⟨htype, rfl⟩, if_pos ⟨htask, by simp [hbtw]⟩, hpre,
            stripContent_prefixContent himitates]
    · have hisOwn : row.isOwn agent = false := by simp [Row.isOwn, hown]
      constructor
      · intro _
        have huser : ¬ (row.source.type = "user" ∧ row.source.targetAgent = agent) := by
          simp [htype]
        unfold transformForOtherAgent personalizeFromShared
        dsimp only [Row.asUser]
        rw [if_pos htype, if_neg hname, if_pos (Or.inl hown), if_neg (by simp [hown]),
          if_neg huser]
      · simp [hisOwn]
  · have hshared := transformForShared_user hs htype
    have hisOwn : row.isOwn agent = false := by simp [Row.isOwn, htype]
    have hnotAgent : row.source.type ≠ "agent" := by simp [htype]
    refine ⟨fun _ => ?_, by simp [hisOwn]⟩
    by_cases htarget : row.source.targetAgent = ""
    · -- A message to no one is the same everywhere.
      rw [if_pos htarget] at hshared
      subst hshared
      unfold transformForOtherAgent personalizeFromShared
      dsimp only
      rw [if_neg hnotAgent, if_neg (by simp [htarget]), if_neg (by simp [htype]),
        if_neg (by simp [htarget, Ne.symm hagent])]
    · rw [if_neg htarget] at hshared
      subst hshared
      by_cases hto : row.source.targetAgent = agent
      · subst hto
        cases hbtw : row.source.btw with
        | true =>
          unfold transformForOtherAgent personalizeFromShared
          dsimp only [Row.prefixed]
          rw [if_neg hnotAgent, if_pos ⟨htype, htarget, Or.inr hbtw⟩, if_neg (by simp [htype]),
            if_pos ⟨htype, rfl⟩, stripContent_btw hbtw]
        | false =>
          have hpre : userPrefix row.source.targetAgent row.source =
              "[User to agent " ++ row.source.targetAgent ++ "]:" := by
            simp [userPrefix, hbtw]
          have himitates : row.content.begins
              ("[User to agent " ++ row.source.targetAgent ++ "]:") = false := by
            have := hplain (by simp [Row.isPlainFor, htype, hbtw])
            simpa [Row.imitates, Row.plainPrefix, htype] using this
          unfold transformForOtherAgent personalizeFromShared
          dsimp only [Row.prefixed]
          rw [if_neg hnotAgent, if_neg (by simp [hbtw]), if_neg (by simp [htype]),
            if_pos ⟨htype, rfl⟩, hpre, stripContent_prefixContent himitates]
      · unfold transformForOtherAgent personalizeFromShared
        dsimp only [Row.prefixed]
        rw [if_neg hnotAgent, if_pos ⟨htype, htarget, Or.inl hto⟩, if_neg (by simp [htype]),
          if_neg (by simp [hto])]

def taskAnswer : Row where
  role := "assistant"
  msgId := "m1"
  ts := some 1
  content := .text "done"
  source := { type := "agent", name := "scout", taskId := "t1" }

/-- Its author sees it as another one's. -/
theorem not_restored_in_task :
    (transformForShared taskAnswer).toOption.map (fun s => (personalizeFromShared s "scout").role) =
      some "user" := by
  decide +kernel

/-- A question to an agent. -/
def question : Row where
  role := "user"
  msgId := "m1"
  ts := some 1
  content := .text "[Agent scout]: is that you?"
  source := { type := "user", targetAgent := "scout" }

theorem late_joiner_sees_question : ∃ s, transformForShared question = .ok s ∧
    transformForOtherAgent question "scout" = .ok (personalizeFromShared s "scout") := by
  have hs : transformForShared question =
      .ok (question.prefixed (userPrefix "scout" question.source)) := by
    rfl
  exact ⟨_, hs, (late_joiner_sees hs (.inr rfl) (by decide)
    (fun _ => by decide +kernel)).1 (.inl (by decide))⟩

end PawFlow.Conversation
