import PawFlow.Conversation.Batching

/-!
# When a batch equals its messages one by one

Where the answers agree at every item, the logs are the same; where they do not, the logs come
apart and stay apart. So a batch leaves what its messages leave one by one exactly if no item finds
the store in another state.
-/

namespace PawFlow.Conversation

open PawFlow.Lib

/-! ## When the answers agree -/

namespace Item

variable (canon : String → String) (s : Conv) (before : List Item) (item : Item)

/-- The item that starts a context finds what was shared before the batch: either nothing was
shared since, or the context was begun by an injection and nothing was shared before. -/
def SeedAgrees : Prop :=
  ∀ a, a ≠ "" → item.seeds canon a → s.lacks a → (∀ p ∈ before, ¬ p.seeds canon a) →
    if ∃ p ∈ before, p.owner canon = a then s.shared = [] else ∀ p ∈ before, ¬ p.broadcasts

/-- An answer whose row is kept does not answer a call that only an injection of the batch made. -/
def ParentAgrees : Prop :=
  item.msg.asksParent → (¬ item.isContext ∨ item.owner canon ≠ "") →
    (callRow before item.row.toolCallId).getD (s.findParent item.row.toolCallId) =
      (callRow (before.filter fun p => !p.isContext) item.row.toolCallId).getD
        (s.findParent item.row.toolCallId)

/-- The agents of the items before a broadcast are known to the conversation, and where the agents
were not looked up before one was noted, there are no others. -/
def AgentsAgree : Prop :=
  item.broadcasts →
    (∀ a ∈ notedAgents canon before, a ≠ item.routeAgent canon →
      a ∈ s.batchKnown canon before item) ∧
    (notedAgents canon before ≠ [] → ¬ s.LoadedFirst canon before →
      ∀ a ∈ s.batchKnown canon before item, a ≠ "" → a ≠ item.routeAgent canon →
        a ∈ notedAgents canon before)

/-- An item is appended alike in a batch and alone. -/
structure Agrees : Prop where
  seed : item.SeedAgrees canon s before
  parent : item.ParentAgrees canon s before
  agents : item.AgentsAgree canon s before

end Item

/-- All items of a batch are appended as they would be alone. -/
def Agree (canon : String → String) (s : Conv) (before : List Item) : List Item → Prop
  | [] => True
  | item :: items => item.Agrees canon s before ∧ Agree canon s (before ++ [item]) items

section

variable {canon : String → String} {s t t' : Conv} {b b' : Batch} {item : Item}
  {before : List Item}

theorem InBatch.parent (hbatch : InBatch canon s before b) :
    (b.answers canon item).parent =
      (callRow before item.row.toolCallId).getD (s.findParent item.row.toolCallId) := by
  change parentRow _ _ _ = _
  rw [parentRow, hbatch.parents, hbatch.find]
  cases hcall : callRow before item.row.toolCallId with
  | none => simp
  | some row => simp [hbatch.calls _ _ hcall]

theorem length_sortedRows (rows : List Row) : (sortedRows rows).length = rows.length :=
  List.length_insertionSort _ _

theorem length_sharedForAgent (rows : List Row) (a : String) :
    (sharedForAgent rows a).length = rows.length := by
  rw [sharedForAgent, List.length_map, length_sortedRows]

variable {a : String}

theorem Conv.seedRows_of_not_lacks (h : ¬ t.lacks a) : t.seedRows a = [] := if_neg h

theorem Conv.seedRows_of_lacks (h : t.lacks a) :
    t.seedRows a = sharedForAgent t.shared a := if_pos h

/-- The item that starts a context decides: both sides seed the same rows, or they seed different
numbers of rows. -/
theorem seed_answers (hone : OneByOne canon s before t) (hbatch : InBatch canon s before b)
    (howner : item.owner canon ≠ "") :
    (item.SeedAgrees canon s before →
      (t.answers canon item).seed = (b.answers canon item).seed) ∧
    (¬ item.SeedAgrees canon s before → item.seeds canon (item.owner canon) ∧
      (t.answers canon item).seed.length ≠ (b.answers canon item).seed.length) := by
  have hlacks := hone.lacks _ howner
  have hseeded := hbatch.seeded _ howner
  have honly : ∀ a, item.seeds canon a → a = item.owner canon := fun a h => h.1.symm
  simp only [Conv.answers, Batch.answers]
  by_cases hc : item.isContext
  · have hagrees : item.SeedAgrees canon s before := fun a _ h => absurd hc h.2
    simp [hc, hagrees]
  have hseeds : item.seeds canon (item.owner canon) := ⟨rfl, hc⟩
  by_cases hin : item.owner canon ∈ b.seeded
  · obtain ⟨p, hp, hpseeds⟩ := hseeded.mp hin
    have hagrees : item.SeedAgrees canon s before := by
      intro a _ h _ hnone
      exact absurd (honly a h ▸ hpseeds) (hnone p hp)
    have hnot : ¬ t.lacks (item.owner canon) := fun h => (hlacks.mp h).2 p hp hpseeds.1
    simp [hc, hin, hagrees, Conv.seedRows_of_not_lacks hnot]
  have hbl := hbatch.lacks _ howner hin
  by_cases hsl : s.lacks (item.owner canon)
  · rw [if_neg hc, if_neg (by simp [hc, hin]), Conv.seedRows_of_lacks (hbl.mpr hsl), hbatch.shared]
    have hfirst : ∀ p ∈ before, ¬ p.seeds canon (item.owner canon) :=
      fun p hp h => hin (hseeded.mpr ⟨p, hp, h⟩)
    have hiff : item.SeedAgrees canon s before ↔
        if ∃ p ∈ before, p.owner canon = item.owner canon then s.shared = []
        else ∀ p ∈ before, ¬ p.broadcasts := by
      constructor
      · intro h
        exact h _ howner hseeds hsl hfirst
      · intro h a _ ha _ _
        obtain rfl := honly a ha
        exact h
    rw [hiff]
    by_cases hbegun : ∃ p ∈ before, p.owner canon = item.owner canon
    · have hnot : ¬ t.lacks (item.owner canon) := by
        obtain ⟨p, hp, hown⟩ := hbegun
        exact fun h => (hlacks.mp h).2 p hp hown
      rw [if_pos hbegun, Conv.seedRows_of_not_lacks hnot]
      refine ⟨fun h => by rw [h, Conv.sharedForAgent_nil], fun h => ⟨hseeds, ?_⟩⟩
      rw [length_sharedForAgent]
      simpa using Ne.symm (mt List.length_eq_zero_iff.mp h)
    · have htl : t.lacks (item.owner canon) :=
        hlacks.mpr ⟨hsl, fun p hp hown => hbegun ⟨p, hp, hown⟩⟩
      rw [if_neg hbegun, Conv.seedRows_of_lacks htl]
      refine ⟨fun h => by rw [hone.same h], fun h => ⟨hseeds, ?_⟩⟩
      have hgrown := hone.grown (by simpa using h)
      rw [length_sharedForAgent, length_sharedForAgent]
      omega
  · have hagrees : item.SeedAgrees canon s before := by
      intro a _ h hl
      exact absurd (honly a h ▸ hl) hsl
    have htl : ¬ t.lacks (item.owner canon) := fun h => hsl (hlacks.mp h).1
    simp [hc, hin, hagrees, Conv.seedRows_of_not_lacks htl,
      Conv.seedRows_of_not_lacks (mt hbl.mp hsl)]

theorem InBatch.mem_known (hbatch : InBatch canon s before b) (hb : item.broadcasts)
    (ha : a ≠ item.routeAgent canon) :
    a ∈ (b.answers canon item).known ↔ a ∈ s.batchKnown canon before item := by
  have hitem : s.loads canon item = s.looksUp item.row.role (item.routeAgent canon) := by
    simp [Conv.loads, hb]
  simp only [Batch.answers, hb, if_true, Conv.batchKnown, Conv.knownAgents_eq, hbatch.directory,
    hbatch.looksUp, List.any_append, List.any_cons, List.any_nil, Bool.or_false, hitem]
  by_cases hl : before.any (s.loads canon) || s.looksUp item.row.role (item.routeAgent canon)
  · rw [if_pos hl, if_pos hl]
    split <;> simp [ha]
  · rw [if_neg hl, if_neg hl]
    simp [ha]

/-- Who is told of a message appended alone. -/
theorem OneByOne.mem_known (hone : OneByOne canon s before t) (hb : item.broadcasts)
    (hne : a ≠ "") (ha : a ≠ item.routeAgent canon) :
    a ∈ (t.answers canon item).known ↔
      a ∈ notedAgents canon before ∨
        (a ∈ s.directory ∧ (s.LoadedFirst canon before ∨
          (notedAgents canon before = [] ∧ s.loads canon item))) := by
  have hknown : a ∈ (t.answers canon item).known ↔
      t.looksUp item.row.role (item.routeAgent canon) ∧ a ∈ t.directory := by
    simp only [Conv.answers, hb, if_true, Conv.knownAgents_eq]
    by_cases hl : t.looksUp item.row.role (item.routeAgent canon)
    · simp only [hl, if_true, true_and]
      split <;> simp [ha]
    · simp [hl, ha]
  rw [hknown]
  by_cases hfirst : s.LoadedFirst canon before
  · obtain ⟨agents, hsome, hiff⟩ := hone.agents.loaded hfirst
    obtain ⟨hlooks, hdir⟩ := Conv.looksUp_of_some hsome item.row.role (item.routeAgent canon)
    rw [hdir, hiff a hne]
    simp only [hlooks, hfirst, true_and, true_or, and_true]
    exact or_comm
  · by_cases hempty : notedAgents canon before = []
    · obtain ⟨hnone, hdeclared⟩ := hone.agents.cold hfirst hempty
      have hs := Conv.appendAgents_of_not_loadedFirst hfirst
      rw [Conv.looksUp_of_none hs hnone hone.agents.cache, Conv.directory_of_none hnone,
        hdeclared, ← Conv.directory_of_none hs, hempty]
      simp only [hfirst, false_or, true_and, List.not_mem_nil, Conv.loads, hb, Bool.true_and]
      exact and_comm
    · obtain ⟨agents, hsome, hiff⟩ := hone.agents.noted hfirst hempty
      obtain ⟨hlooks, hdir⟩ := Conv.looksUp_of_some hsome item.row.role (item.routeAgent canon)
      rw [hdir, hiff a hne]
      simp [hlooks, hfirst, hempty]

theorem mem_batchKnown :
    a ∈ s.batchKnown canon before item ↔
      a ∈ s.directory ∧ (before ++ [item]).any (s.loads canon) := by
  unfold Conv.batchKnown
  split
  · simp [*]
  · simp [*]

theorem any_loads_of_loadedFirst (hb : item.broadcasts) (h : s.LoadedFirst canon before) :
    (before ++ [item]).any (s.loads canon) := by
  rw [List.any_eq_true]
  rcases h with hsome | ⟨first, found, rest, rfl, -, hloads⟩
  · obtain ⟨agents, hagents⟩ := Option.isSome_iff_exists.mp hsome
    refine ⟨item, by simp, ?_⟩
    simp [Conv.loads, hb, (Conv.looksUp_of_some hagents _ _).1]
  · exact ⟨found, by simp, hloads⟩

theorem loadedFirst_of_mem (hempty : notedAgents canon before = []) {p : Item} (hp : p ∈ before)
    (h : s.loads canon p) : s.LoadedFirst canon before := by
  obtain ⟨first, rest, rfl⟩ := List.append_of_mem hp
  refine Or.inr ⟨first, p, rest, rfl, ?_, h⟩
  simp only [notedAgents, List.flatMap_append, List.append_eq_nil_iff] at hempty
  exact hempty.1

theorem AgentsAgree.mem_known (hone : OneByOne canon s before t)
    (hbatch : InBatch canon s before b) (hb : item.broadcasts)
    (h : item.AgentsAgree canon s before) (hne : a ≠ "") (ha : a ≠ item.routeAgent canon) :
    a ∈ (t.answers canon item).known ↔ a ∈ (b.answers canon item).known := by
  rw [hone.mem_known hb hne ha, hbatch.mem_known hb ha]
  obtain ⟨hnoted, hothers⟩ := h hb
  constructor
  · rintro (hmem | ⟨hdir, hfirst | ⟨-, hloads⟩⟩)
    · exact hnoted a hmem ha
    · exact mem_batchKnown.mpr ⟨hdir, any_loads_of_loadedFirst hb hfirst⟩
    · exact mem_batchKnown.mpr ⟨hdir, by simp [hloads]⟩
  · intro hmem
    by_cases hfirst : s.LoadedFirst canon before
    · exact Or.inr ⟨(mem_batchKnown.mp hmem).1, Or.inl hfirst⟩
    by_cases hempty : notedAgents canon before = []
    · obtain ⟨hdir, hany⟩ := mem_batchKnown.mp hmem
      refine Or.inr ⟨hdir, Or.inr ⟨hempty, ?_⟩⟩
      rw [List.any_append, Bool.or_eq_true, List.any_eq_true] at hany
      rcases hany with ⟨p, hp, hloads⟩ | hloads
      · exact absurd (loadedFirst_of_mem hempty hp hloads) hfirst
      · simpa using hloads
    · exact Or.inl (hothers hempty hfirst a hmem hne ha)

theorem exists_of_not_agentsAgree (hone : OneByOne canon s before t)
    (hbatch : InBatch canon s before b) (h : ¬ item.AgentsAgree canon s before) :
    item.broadcasts ∧ ∃ a, a ≠ "" ∧ a ≠ item.routeAgent canon ∧
      ((a ∈ notedAgents canon before ∧ a ∈ (t.answers canon item).known ∧
          a ∉ (b.answers canon item).known) ∨
        (a ∈ s.directory ∧ (before ++ [item]).any (s.loads canon) ∧
          a ∉ (t.answers canon item).known ∧ a ∈ (b.answers canon item).known)) := by
  unfold Item.AgentsAgree at h
  rw [Classical.not_imp, not_and_or] at h
  obtain ⟨hb, hdiffer⟩ := h
  refine ⟨hb, ?_⟩
  rcases hdiffer with hmissing | hextra
  · push Not at hmissing
    obtain ⟨a, hmem, ha, hno⟩ := hmissing
    have hne := notedAgents_ne hmem
    refine ⟨a, hne, ha, Or.inl ⟨hmem, ?_, ?_⟩⟩
    · exact (hone.mem_known hb hne ha).mpr (Or.inl hmem)
    · rwa [hbatch.mem_known hb ha]
  · push Not at hextra
    obtain ⟨hsome, hfirst, a, hmem, hne, ha, hno⟩ := hextra
    obtain ⟨hdir, hany⟩ := mem_batchKnown.mp hmem
    refine ⟨a, hne, ha, Or.inr ⟨hdir, hany, ?_, (hbatch.mem_known hb ha).mpr hmem⟩⟩
    rw [hone.mem_known hb hne ha]
    tauto

/-! ## Two runs on the logs -/

def Row.unnumbered (row : Row) : Row := { row with seq := none }

/-- Rows that are equal up to their numbers. -/
def SameRows (rows rows' : List Row) : Prop := rows.map Row.unnumbered = rows'.map Row.unnumbered

/-- The same rows in every log, in the same order, up to their numbers. -/
structure Logs.Same (l l' : Logs) : Prop where
  transcript : SameRows l.transcript l'.transcript
  shared : SameRows l.shared l'.shared
  context : ∀ a, SameRows (l.context a) (l'.context a)
  catchUp : ∀ a, SameRows (l.catchUp a) (l'.catchUp a)

theorem SameRows.length {rows rows' : List Row} (h : SameRows rows rows') :
    rows.length = rows'.length := by
  simpa using congrArg List.length h

variable {u x : List Row} {l l' : Logs}

theorem SameRows.right {y v : List Row} (h : SameRows (x ++ u) (y ++ v))
    (hlen : u.length = v.length) : SameRows u v := by
  unfold SameRows at h
  rw [List.map_append, List.map_append] at h
  exact (List.append_inj' h (by simp [hlen])).2

theorem SameRows.left {y v : List Row} (h : SameRows (x ++ u) (y ++ v))
    (hlen : u.length = v.length) : SameRows x y := by
  unfold SameRows at h
  rw [List.map_append, List.map_append] at h
  exact (List.append_inj' h (by simp [hlen])).1

/-- The two sides have come apart for good, after some items. -/
inductive Diverged (canon : String → String) (s : Conv) (before : List Item) (l l' : Logs) : Prop
  /-- A context was started with more rows on one side. -/
  | context (a : String) (hseeded : ∃ p ∈ before, p.seeds canon a)
      (hlen : (l.context a).length ≠ (l'.context a).length)
  | stored (hlen : l.transcript.length = l'.transcript.length)
      (hne : ¬ SameRows l.transcript l'.transcript)
  /-- A row of a context has another parent. -/
  | owned (a : String) (x y u v : List Row) (hx : l.context a = x ++ u) (hy : l'.context a = y ++ v)
      (hlen : u.length = v.length) (hne : ¬ SameRows u v)
  | missed (a : String) (hnoted : a ∈ notedAgents canon before)
      (hlt : (l'.catchUp a).length < (l.catchUp a).length)
  /-- An agent of the conversation was told of a message, in the batch only. -/
  | extra (a : String) (hne : a ≠ "") (hdir : a ∈ s.directory)
      (hloads : before.any (s.loads canon)) (hlt : (l.catchUp a).length < (l'.catchUp a).length)

theorem Diverged.not_same (h : Diverged canon s before l l') : ¬ l.Same l' := by
  intro hsame
  cases h with
  | context a _ hlen => exact hlen (hsame.context a).length
  | stored _ hne => exact hne hsame.transcript
  | owned a x y u v hx hy hlen hne =>
    have hrows := hsame.context a
    rw [hx, hy] at hrows
    exact hne (hrows.right hlen)
  | missed a _ hlt =>
    have := (hsame.catchUp a).length
    omega
  | extra a _ _ _ hlt =>
    have := (hsame.catchUp a).length
    omega

theorem Item.length_stored (parent parent' : String) :
    (item.stored parent).length = (item.stored parent').length := by
  unfold Item.stored
  split
  · rfl
  · rw [Message.length_rowsUnder, Message.length_rowsUnder parent']

theorem Item.length_owned (parent parent' : String) :
    (item.owned canon parent).length = (item.owned canon parent').length := by
  unfold Item.owned
  split
  · rfl
  · rw [Message.length_rowsUnder, Message.length_rowsUnder parent']

theorem Logs.length_catchUp_add (l : Logs) (answers : Answers) (a : String) :
    ((l.add canon item answers).catchUp a).length = (l.catchUp a).length +
      if a ∈ answers.known ∧ a ≠ "" ∧ a ≠ item.routeAgent canon then (item.news a).length
      else 0 := by
  unfold Logs.add
  dsimp only
  split <;> simp

theorem Logs.context_add_owner (l : Logs) (answers : Answers) (howner : item.owner canon ≠ "") :
    (l.add canon item answers).context (item.owner canon) =
      answers.seed ++ l.context (item.owner canon) ++
        stampRows (l.last + (item.stored answers.parent).length)
          (item.owned canon answers.parent) := by
  unfold Logs.add
  dsimp only
  rw [if_pos ⟨rfl, howner⟩]

theorem Logs.context_add_append (answers : Answers) (howner : item.owner canon ≠ "")
    (h : l.context (item.owner canon) = x ++ u) :
    (l.add canon item answers).context (item.owner canon) =
      (answers.seed ++ x) ++ (u ++
        stampRows (l.last + (item.stored answers.parent).length)
          (item.owned canon answers.parent)) := by
  rw [Logs.context_add_owner _ _ howner, h]
  simp only [List.append_assoc]

theorem Logs.context_add_of_ne (l : Logs) (answers : Answers)
    (ha : ¬ (a = item.owner canon ∧ a ≠ "")) :
    (l.add canon item answers).context a = l.context a := by
  unfold Logs.add
  dsimp only
  rw [if_neg ha]

theorem seed_of_seeded (hone : OneByOne canon s before t) (hbatch : InBatch canon s before b)
    (howner : item.owner canon ≠ "") (h : ∃ p ∈ before, p.seeds canon (item.owner canon)) :
    (t.answers canon item).seed = [] ∧ (b.answers canon item).seed = [] := by
  have hin := (hbatch.seeded _ howner).mpr h
  obtain ⟨p, hp, hown, -⟩ := h
  have hnot : ¬ t.lacks (item.owner canon) := fun hl => ((hone.lacks _ howner).mp hl).2 p hp hown
  simp [Conv.answers, Batch.answers, hin, Conv.seedRows_of_not_lacks hnot]

/-- What came apart stays apart, whatever follows. -/
theorem Diverged.step (hone : OneByOne canon s before t) (hbatch : InBatch canon s before b)
    (h : Diverged canon s before t.logs b.logs) :
    Diverged canon s (before ++ [item]) (t.logs.add canon item (t.answers canon item))
      (b.logs.add canon item (b.answers canon item)) := by
  have hmono : ∀ a, (∃ p ∈ before, p.seeds canon a) → ∃ p ∈ before ++ [item], p.seeds canon a := by
    rintro a ⟨p, hp, hs⟩
    exact ⟨p, List.mem_append_left _ hp, hs⟩
  have hstored : (stampRows t.logs.last (item.stored (t.answers canon item).parent)).length =
      (stampRows b.logs.last (item.stored (b.answers canon item).parent)).length := by
    rw [length_stampRows, length_stampRows]
    exact Item.length_stored _ _
  have howned : ∀ n m, (stampRows n (item.owned canon (t.answers canon item).parent)).length =
      (stampRows m (item.owned canon (b.answers canon item).parent)).length := by
    intro n m
    rw [length_stampRows, length_stampRows]
    exact Item.length_owned _ _
  cases h with
  | context a hseeded hlen =>
    refine .context a (hmono a hseeded) ?_
    by_cases ha : a = item.owner canon ∧ a ≠ ""
    · obtain ⟨rfl, hne⟩ := ha
      obtain ⟨hseed, hseed'⟩ := seed_of_seeded hone hbatch hne hseeded
      rw [Logs.context_add_owner _ _ hne, Logs.context_add_owner _ _ hne, hseed, hseed']
      simp only [List.nil_append, List.length_append]
      have := howned (t.logs.last + (item.stored (t.answers canon item).parent).length)
        (b.logs.last + (item.stored (b.answers canon item).parent).length)
      omega
    · rwa [Logs.context_add_of_ne _ _ ha, Logs.context_add_of_ne _ _ ha]
  | stored hlen hne =>
    refine .stored ?_ ?_
    · change List.length (_ ++ _) = List.length (_ ++ _)
      rw [List.length_append, List.length_append, hlen, hstored]
    · intro hsame
      exact hne (hsame.left hstored)
  | owned a x y u v hx hy hlen hne =>
    by_cases ha : a = item.owner canon ∧ a ≠ ""
    · obtain ⟨rfl, hnemp⟩ := ha
      have hrows := howned (t.logs.last + (item.stored (t.answers canon item).parent).length)
        (b.logs.last + (item.stored (b.answers canon item).parent).length)
      refine .owned (item.owner canon) _ _ _ _ (Logs.context_add_append _ hnemp hx)
        (Logs.context_add_append _ hnemp hy) ?_ ?_
      · rw [List.length_append, List.length_append, hlen, hrows]
      · intro hsame
        exact hne (hsame.left hrows)
    · refine .owned a x y u v ?_ ?_ hlen hne
      · rwa [Logs.context_add_of_ne _ _ ha]
      · rwa [Logs.context_add_of_ne _ _ ha]
  | missed a hnoted hlt =>
    refine .missed a ?_ ?_
    · rw [notedAgents_concat]
      exact List.mem_append_left _ hnoted
    · rw [Logs.length_catchUp_add, Logs.length_catchUp_add]
      by_cases htold : a ∈ (b.answers canon item).known ∧ a ≠ "" ∧ a ≠ item.routeAgent canon
      · have hb : item.broadcasts := by
          by_contra hb
          simp [Batch.answers, hb] at htold
        have hknown := (hone.mem_known hb htold.2.1 htold.2.2).mpr (Or.inl hnoted)
        rw [if_pos htold, if_pos ⟨hknown, htold.2⟩]
        omega
      · rw [if_neg htold]
        omega
  | extra a hne hdir hloads hlt =>
    refine .extra a hne hdir ?_ ?_
    · rw [List.any_append, hloads, Bool.true_or]
    · rw [Logs.length_catchUp_add, Logs.length_catchUp_add]
      by_cases htold : a ∈ (t.answers canon item).known ∧ a ≠ "" ∧ a ≠ item.routeAgent canon
      · have hb : item.broadcasts := by
          by_contra hb
          simp [Conv.answers, hb] at htold
        have hknown : a ∈ (b.answers canon item).known := by
          rw [hbatch.mem_known hb htold.2.2, mem_batchKnown, List.any_append, hloads]
          exact ⟨hdir, rfl⟩
        rw [if_pos htold, if_pos ⟨hknown, htold.2⟩]
        omega
      · rw [if_neg htold]
        omega

theorem rows_of_parentAgrees (hone : OneByOne canon s before t)
    (hbatch : InBatch canon s before b) (h : item.ParentAgrees canon s before) :
    item.stored (t.answers canon item).parent = item.stored (b.answers canon item).parent ∧
      item.owned canon (t.answers canon item).parent =
        item.owned canon (b.answers canon item).parent := by
  by_cases hasks : item.msg.asksParent
  · by_cases hkept : ¬ item.isContext ∨ item.owner canon ≠ ""
    · have hparent : (t.answers canon item).parent = (b.answers canon item).parent := by
        rw [hbatch.parent, h hasks hkept]
        exact hone.parent _
      rw [hparent]
      exact ⟨rfl, rfl⟩
    · push Not at hkept
      simp [Item.stored, Item.owned, hkept]
  · unfold Item.stored Item.owned
    rw [Message.rowsUnder_of_not_asks hasks, Message.rowsUnder_of_not_asks hasks
      (b.answers canon item).parent]
    exact ⟨rfl, rfl⟩

theorem add_of_agrees (hone : OneByOne canon s before t) (hbatch : InBatch canon s before b)
    (hlogs : t.logs = b.logs) (h : item.Agrees canon s before) :
    t.logs.add canon item (t.answers canon item) =
      b.logs.add canon item (b.answers canon item) := by
  obtain ⟨hstored, howned⟩ := rows_of_parentAgrees hone hbatch h.parent
  rw [hlogs]
  unfold Logs.add
  dsimp only
  rw [hstored, howned]
  congr 1
  · funext a
    by_cases ha : a = item.owner canon ∧ a ≠ ""
    · rw [if_pos ha, if_pos ha, (seed_answers hone hbatch (ha.1 ▸ ha.2)).1 h.seed]
    · rw [if_neg ha, if_neg ha]
  · funext a
    by_cases hb : item.broadcasts
    · have hiff : (a ∈ (t.answers canon item).known ∧ a ≠ "" ∧ a ≠ item.routeAgent canon) ↔
          (a ∈ (b.answers canon item).known ∧ a ≠ "" ∧ a ≠ item.routeAgent canon) := by
        constructor
        · rintro ⟨hmem, hne, ha⟩
          exact ⟨(AgentsAgree.mem_known hone hbatch hb h.agents hne ha).mp hmem, hne, ha⟩
        · rintro ⟨hmem, hne, ha⟩
          exact ⟨(AgentsAgree.mem_known hone hbatch hb h.agents hne ha).mpr hmem, hne, ha⟩
      simp only [hiff]
    · simp [Conv.answers, Batch.answers, hb]

theorem sameRows_stamp_parent (hasks : item.msg.asksParent) {p q : String} {n m : Nat}
    (h : SameRows (stampRows n (item.msg.rowsUnder p)) (stampRows m (item.msg.rowsUnder q))) :
    p = q := by
  rw [Message.rowsUnder_of_asks hasks, Message.rowsUnder_of_asks hasks] at h
  simpa [SameRows, stampRows, Row.unnumbered] using h

theorem diverged_of_not_parentAgrees (hone : OneByOne canon s before t)
    (hbatch : InBatch canon s before b) (hlogs : t.logs = b.logs)
    (h : ¬ item.ParentAgrees canon s before) :
    Diverged canon s (before ++ [item]) (t.logs.add canon item (t.answers canon item))
      (b.logs.add canon item (b.answers canon item)) := by
  unfold Item.ParentAgrees at h
  rw [Classical.not_imp, Classical.not_imp] at h
  obtain ⟨hasks, hkept, hdiffer⟩ := h
  have hparent : (t.answers canon item).parent ≠ (b.answers canon item).parent := by
    rw [hbatch.parent]
    intro heq
    exact hdiffer (heq.symm.trans (hone.parent _))
  by_cases hc : item.isContext
  · have howner : item.owner canon ≠ "" := hkept.resolve_left (not_not_intro hc)
    refine .owned (item.owner canon) _ _ _ _ (Logs.context_add_owner _ _ howner)
      (Logs.context_add_owner _ _ howner) ?_ ?_
    · rw [length_stampRows, length_stampRows]
      exact Item.length_owned _ _
    · intro hsame
      simp only [Item.owned, if_neg howner] at hsame
      exact hparent (sameRows_stamp_parent hasks hsame)
  · have hlen : ∀ n m, (stampRows n (item.stored (t.answers canon item).parent)).length =
        (stampRows m (item.stored (b.answers canon item).parent)).length := by
      intro n m
      rw [length_stampRows, length_stampRows]
      exact Item.length_stored _ _
    refine .stored ?_ ?_
    · change List.length (_ ++ _) = List.length (_ ++ _)
      rw [List.length_append, List.length_append, hlogs, hlen]
    · intro hsame
      have hrows : SameRows _ _ := SameRows.right hsame (hlen _ _)
      simp only [Item.stored, if_neg hc] at hrows
      exact hparent (sameRows_stamp_parent hasks hrows)

theorem diverged_of_not_agrees (hone : OneByOne canon s before t)
    (hbatch : InBatch canon s before b) (hlogs : t.logs = b.logs) (hd : ¬ item.isDelegate)
    (happend : appendMessage canon t item = (t', none)) (h : ¬ item.Agrees canon s before) :
    Diverged canon s (before ++ [item]) (t.logs.add canon item (t.answers canon item))
      (b.logs.add canon item (b.answers canon item)) := by
  by_cases hparent : item.ParentAgrees canon s before
  swap
  · exact diverged_of_not_parentAgrees hone hbatch hlogs hparent
  by_cases hseed : item.SeedAgrees canon s before
  · have hagents : ¬ item.AgentsAgree canon s before := fun ha => h ⟨hseed, hparent, ha⟩
    obtain ⟨hb, a, hne, ha, htold⟩ := exists_of_not_agentsAgree hone hbatch hagents
    have hnews : 0 < (item.news a).length := by
      rw [Item.length_news (sharedRows_of_appendMessage hd hb hone.created hone.seq happend)]
      exact Item.candidates_ne_nil hb
    rcases htold with ⟨hnoted, hin, hout⟩ | ⟨hdir, hany, hout, hin⟩
    · refine .missed a ?_ ?_
      · rw [notedAgents_concat]
        exact List.mem_append_left _ hnoted
      · rw [Logs.length_catchUp_add, Logs.length_catchUp_add,
          if_neg (fun hcond => hout hcond.1), if_pos ⟨hin, hne, ha⟩, hlogs]
        omega
    · refine .extra a hne hdir hany ?_
      rw [Logs.length_catchUp_add, Logs.length_catchUp_add,
        if_neg (fun hcond => hout hcond.1), if_pos ⟨hin, hne, ha⟩, hlogs]
      omega
  · have howner : item.owner canon ≠ "" := by
      intro hempty
      apply hseed
      intro a hne hs
      exact absurd (hs.1.symm.trans hempty) hne
    obtain ⟨hseeds, hlen⟩ := (seed_answers hone hbatch howner).2 hseed
    refine .context (item.owner canon) ⟨item, by simp, hseeds⟩ ?_
    rw [Logs.context_add_owner _ _ howner, Logs.context_add_owner _ _ howner, hlogs]
    simp only [List.length_append, length_stampRows]
    have := @Item.length_owned canon item (t.answers canon item).parent
      (b.answers canon item).parent
    omega

/-! ## Whole batches -/

variable {items : List Item}

theorem Diverged.run (hd : ∀ p ∈ items, ¬ p.isDelegate)
    (hone : OneByOne canon s before t) (hbatch : InBatch canon s before b)
    (h : Diverged canon s before t.logs b.logs)
    (heach : appendEach canon t items = (t', none)) (hall : (b.addAll canon items).1 = .ok b') :
    ¬ t'.logs.Same b'.logs := by
  induction items generalizing before t b with
  | nil =>
    obtain rfl : t = t' := congrArg Prod.fst heach
    obtain rfl : b = b' := Except.ok.inj hall
    exact h.not_same
  | cons item items ih =>
    rw [List.forall_mem_cons] at hd
    obtain ⟨u, happend, hrest⟩ := appendEach_cons heach
    obtain ⟨c, hadd, hrest'⟩ := Batch.addAll_cons hall
    have hcheck := (appendMessage_eq_ok happend).1
    refine ih hd.2 (hone.step hd.1 happend) (hbatch.step hcheck hadd) ?_ hrest hrest'
    rw [logs_appendMessage hd.1 hone.created hone.seq happend, Batch.logs_addItem hadd]
    exact h.step hone hbatch

theorem broadcastRows_congr {others others' : List String} (h : others = [] ↔ others' = [])
    (rows : List Row) : broadcastRows others rows = broadcastRows others' rows := by
  cases others with
  | nil => rw [h.mp rfl]
  | cons other rest =>
    cases others' with
    | nil => exact absurd (h.mpr rfl) (List.cons_ne_nil _ _)
    | cons => rfl

theorem addItem_of_agrees (hone : OneByOne canon s before t) (hbatch : InBatch canon s before b)
    (hd : ¬ item.isDelegate) (happend : appendMessage canon t item = (t', none))
    (h : item.Agrees canon s before) : ∃ c, (b.addItem canon item).1 = .ok c := by
  by_cases hb : item.broadcasts
  · obtain ⟨hmap, hcast, -⟩ :=
      route_of_broadcasts hd hb (appendMessage_created hone.created hone.seq happend).1
    have hsame : ∀ a, a ∈ item.others canon (b.answers canon item).known ↔
        a ∈ item.others canon (t.answers canon item).known := by
      intro a
      rw [Item.mem_others, Item.mem_others]
      constructor
      · rintro ⟨hmem, hne, ha⟩
        exact ⟨(AgentsAgree.mem_known hone hbatch hb h.agents hne ha).mpr hmem, hne, ha⟩
      · rintro ⟨hmem, hne, ha⟩
        exact ⟨(AgentsAgree.mem_known hone hbatch hb h.agents hne ha).mp hmem, hne, ha⟩
    have hnil : item.others canon (b.answers canon item).known = [] ↔
        item.others canon (t.answers canon item).known = [] := by
      simp only [List.eq_nil_iff_forall_not_mem, hsame]
    rw [Conv.known_answers hb] at hcast
    rw [Batch.addItem_ok_iff hb, broadcastRows_congr hnil]
    exact ⟨⟨_, hmap⟩, hcast⟩
  · exact ⟨_, Batch.addItem_of_silent hb⟩

theorem run_agree_iff (hd : ∀ p ∈ items, ¬ p.isDelegate)
    (hone : OneByOne canon s before t) (hbatch : InBatch canon s before b)
    (hlogs : t.logs = b.logs) (heach : appendEach canon t items = (t', none)) :
    (∃ b', (b.addAll canon items).1 = .ok b' ∧ t'.logs.Same b'.logs) ↔
      Agree canon s before items := by
  induction items generalizing before t b with
  | nil =>
    obtain rfl : t = t' := congrArg Prod.fst heach
    refine iff_of_true ⟨b, rfl, ?_⟩ trivial
    rw [hlogs]
    exact ⟨rfl, rfl, fun _ => rfl, fun _ => rfl⟩
  | cons item items ih =>
    rw [List.forall_mem_cons] at hd
    obtain ⟨u, happend, hrest⟩ := appendEach_cons heach
    have hcheck := (appendMessage_eq_ok happend).1
    by_cases hagrees : item.Agrees canon s before
    · obtain ⟨c, hadd⟩ := addItem_of_agrees hone hbatch hd.1 happend hagrees
      have hlogs' : u.logs = c.logs := by
        rw [logs_appendMessage hd.1 hone.created hone.seq happend, Batch.logs_addItem hadd]
        exact add_of_agrees hone hbatch hlogs hagrees
      rw [Batch.addAll_of_addItem hadd,
        ih hd.2 (hone.step hd.1 happend) (hbatch.step hcheck hadd) hlogs' hrest]
      exact ⟨fun h => ⟨hagrees, h⟩, And.right⟩
    · refine iff_of_false ?_ (fun h => hagrees h.1)
      rintro ⟨b', hall, hsame⟩
      obtain ⟨c, hadd, hrest'⟩ := Batch.addAll_cons hall
      refine Diverged.run hd.2 (hone.step hd.1 happend) (hbatch.step hcheck hadd) ?_ hrest
        hrest' hsame
      rw [logs_appendMessage hd.1 hone.created hone.seq happend, Batch.logs_addItem hadd]
      exact diverged_of_not_agrees hone hbatch hlogs hd.1 happend hagrees

theorem Batch.same_flush (h : (b.contexts.map Prod.fst).Nodup) :
    ((b.flush.noteAppends b.transcript b.touched).logs).Same b.logs := by
  obtain ⟨agents, cache, heq⟩ := Conv.noteAppends_frame (s := b.flush) b.transcript b.touched
  rw [heq]
  refine ⟨rfl, rfl, fun a => ?_, fun _ => rfl⟩
  unfold SameRows
  exact congrArg _ (context_foldl_set b.contexts h b.conv.contexts a)

theorem Logs.Same.symm (h : l.Same l') : l'.Same l :=
  ⟨Eq.symm h.transcript, Eq.symm h.shared, fun a => Eq.symm (h.context a),
    fun a => Eq.symm (h.catchUp a)⟩

theorem Logs.Same.trans {l'' : Logs} (h : l.Same l') (h' : l'.Same l'') : l.Same l'' :=
  ⟨Eq.trans h.transcript h'.transcript, Eq.trans h.shared h'.shared,
    fun a => Eq.trans (h.context a) (h'.context a), fun a => Eq.trans (h.catchUp a) (h'.catchUp a)⟩

theorem check_of_appendEach (h : appendEach canon t items = (t', none)) :
    ∀ item ∈ items, item.check canon = .ok () := by
  induction items generalizing t with
  | nil => simp
  | cons item items ih =>
    obtain ⟨u, happend, hrest⟩ := appendEach_cons h
    rw [List.forall_mem_cons]
    exact ⟨(appendMessage_eq_ok happend).1, ih hrest⟩

theorem batchChecks_of_plain (hd : ∀ item ∈ items, ¬ item.isDelegate)
    (hcheck : ∀ item ∈ items, item.check canon = .ok ()) : batchChecks canon items = .ok false := by
  induction items with
  | nil => rfl
  | cons item items ih =>
    rw [List.forall_mem_cons] at hd hcheck
    rw [batchChecks, hcheck.1]
    simp only [if_neg hd.1]
    exact ih hd.2 hcheck.2

theorem batchChecks_of_delegate (hd : ∃ item ∈ items, item.isDelegate)
    (hcheck : ∀ item ∈ items, item.check canon = .ok ()) : batchChecks canon items = .ok true := by
  induction items with
  | nil => simp at hd
  | cons item items ih =>
    rw [List.forall_mem_cons] at hcheck
    rw [batchChecks, hcheck.1]
    by_cases hitem : item.isDelegate
    · simp only [if_pos hitem]
    · simp only [if_neg hitem]
      obtain ⟨p, hp, hpd⟩ := hd
      rcases List.mem_cons.mp hp with rfl | hp
      · exact absurd hpd hitem
      · exact ih ⟨p, hp, hpd⟩ hcheck.2

theorem appendMessages_of_plain {first second : Item} {rest : List Item}
    (hchecks : batchChecks canon (first :: second :: rest) = .ok false) :
    appendMessages canon s (first :: second :: rest) =
      match (s.advance 0).opened first.userId with
      | .error e => (s.advance 0, some e)
      | .ok u =>
        match Batch.addAll canon { conv := u } (first :: second :: rest) with
        | (.error e, b) => (b.conv, some e)
        | (.ok b, _) => (b.flush.noteAppends b.transcript b.touched, none) := by
  unfold appendMessages
  rw [hchecks] <;> rfl

theorem Batch.logs_start : ({ conv := s } : Batch).logs = s.logs := by
  simp [Batch.logs, Conv.logs, PyDict.get?]

theorem InBatch.run (hbatch : InBatch canon s before b)
    (hcheck : ∀ item ∈ items, item.check canon = .ok ())
    (hall : (b.addAll canon items).1 = .ok b') : InBatch canon s (before ++ items) b' := by
  induction items generalizing before b with
  | nil =>
    obtain rfl : b = b' := Except.ok.inj hall
    simpa using hbatch
  | cons item items ih =>
    rw [List.forall_mem_cons] at hcheck
    obtain ⟨c, hadd, hrest⟩ := Batch.addAll_cons hall
    have hrun := ih (hbatch.step hcheck.1 hadd) hcheck.2 hrest
    rwa [List.append_assoc] at hrun

theorem Logs.Same.refl (l : Logs) : l.Same l := ⟨rfl, rfl, fun _ => rfl, fun _ => rfl⟩

theorem appendMessages_iff (heach : appendEach canon s items = (t, none)) :
    (∃ u, appendMessages canon s items = (u, none) ∧ t.logs.Same u.logs) ↔
      items.length ≤ 1 ∨ (∃ item ∈ items, item.isDelegate) ∨ Agree canon s.opening [] items := by
  match items with
  | [] =>
    obtain rfl : s = t := congrArg Prod.fst heach
    exact iff_of_true ⟨s, rfl, .refl _⟩ (by simp)
  | [item] =>
    obtain ⟨u, happend, hrest⟩ := appendEach_cons heach
    obtain rfl : u = t := congrArg Prod.fst hrest
    exact iff_of_true ⟨u, happend, .refl _⟩ (by simp)
  | first :: second :: rest =>
    have hcheck := check_of_appendEach heach
    rw [or_iff_right (by simp)]
    by_cases hd : ∃ item ∈ first :: second :: rest, item.isDelegate
    · refine iff_of_true ⟨t, ?_, .refl _⟩ (Or.inl hd)
      unfold appendMessages
      rw [batchChecks_of_delegate hd hcheck]
      exact heach
    · rw [or_iff_right hd]
      have hplain : ∀ item ∈ first :: second :: rest, ¬ item.isDelegate :=
        fun item hitem hdel => hd ⟨item, hitem, hdel⟩
      obtain ⟨u, happend, hrest⟩ := appendEach_cons heach
      obtain ⟨hopen, hopening⟩ := appendMessage_opening happend
      have heach' : appendEach canon s.opening (first :: second :: rest) = (t, none) := by
        rw [appendEach, hopening]
        exact hrest
      have hrun := run_agree_iff hplain
        (OneByOne.refl Conv.created_opening Conv.lastSeq_opening) InBatch.refl
        Batch.logs_start.symm heach'
      rw [← hrun, appendMessages_of_plain (batchChecks_of_plain hplain hcheck), hopen]
      dsimp only
      cases hall : Batch.addAll canon { conv := s.opening } (first :: second :: rest) with
      | mk result b =>
        cases result with
        | error e => simp
        | ok b' =>
          have hin := InBatch.refl.run hcheck (congrArg Prod.fst hall)
          have hflush := Batch.same_flush hin.nodup
          constructor
          · rintro ⟨u, hu, hsame⟩
            obtain rfl : _ = u := congrArg Prod.fst hu
            exact ⟨b', rfl, hsame.trans hflush⟩
          · rintro ⟨b'', hb, hsame⟩
            obtain rfl : b' = b'' := Except.ok.inj hb
            exact ⟨_, rfl, hsame.trans hflush.symm⟩

end

/-! ## Refusals -/

/-- What is raised before anything is written. -/
def StoreError.isRefusal : StoreError → Bool
  | .noMsgId | .noTimestamp | .noTargetAgent | .locked | .noUserId => true
  | .noAgentName | .noSender => false

/-- An item of a batch that can be told to the agents the batch finds. -/
def Item.Sendable (canon : String → String) (s : Conv) (before : List Item) (item : Item) : Prop :=
  item.broadcasts →
    (∃ rows, item.candidates.mapM transformForShared = .ok rows) ∧
      broadcastRows (item.others canon (s.batchKnown canon before item)) item.candidates = .ok ()

def AllSendable (canon : String → String) (s : Conv) (before : List Item) : List Item → Prop
  | [] => True
  | item :: items => item.Sendable canon s before ∧ AllSendable canon s (before ++ [item]) items

/-- Something other than the lock stops the batch: it goes one by one, a check fails, or a
broadcast. -/
def Stopped (canon : String → String) (s : Conv) (items : List Item) : Prop :=
  items.length ≤ 1 ∨ (∃ item ∈ items, item.isDelegate) ∨
    (∃ item ∈ items, item.check canon ≠ .ok ()) ∨
    (¬ s.created ∧ ∃ item ∈ items.head?, item.userId = "") ∨
    ¬ AllSendable canon s.opening [] items

section

variable {canon : String → String} {s t t' : Conv} {b b' : Batch} {item : Item}
  {before : List Item} {e : StoreError}

theorem mapM_eq_error {α β ε : Type} {f : α → Except ε β} {xs : List α} {e : ε}
    (h : xs.mapM f = .error e) : ∃ x ∈ xs, f x = .error e := by
  induction xs with
  | nil => simp [pure, Except.pure] at h
  | cons x xs ih =>
    rw [List.mapM_cons] at h
    cases hx : f x with
    | error e' =>
      obtain rfl : e' = e := by simpa [hx, bind, Except.bind] using h
      exact ⟨x, List.mem_cons_self, hx⟩
    | ok y =>
      cases hxs : xs.mapM f with
      | ok ys => simp [hx, hxs, bind, Except.bind, pure, Except.pure] at h
      | error e' =>
        obtain rfl : e' = e := by simpa [hx, hxs, bind, Except.bind] using h
        obtain ⟨x', hx', hfx⟩ := ih hxs
        exact ⟨x', List.mem_cons_of_mem _ hx', hfx⟩

theorem transformForShared_error {row : Row} (h : transformForShared row = .error e) :
    e = .noAgentName := by
  unfold transformForShared at h
  dsimp only at h
  split at h
  · split at h
    · exact (Except.error.inj h).symm
    · simp at h
  · split at h <;> simp at h

variable {rows : List Row}

theorem broadcastRows_error {others : List String}
    (h : broadcastRows others rows = .error e) : e = .noAgentName ∨ e = .noSender := by
  unfold broadcastRows at h
  split at h
  · simp at h
  · split at h
    · exact Or.inl (Except.error.inj h).symm
    · split at h
      · exact Or.inr (Except.error.inj h).symm
      · simp at h

theorem shareRows_error {role route : String} {touched : List String}
    (h : (shareRows s role route rows touched).error = some e) : ¬ e.isRefusal := by
  unfold shareRows at h
  dsimp only at h
  split at h
  · simp at h
  · split at h
    · rename_i e' hmap
      obtain ⟨row, -, hrow⟩ := mapM_eq_error hmap
      obtain rfl := Option.some.inj h
      simp [transformForShared_error hrow, StoreError.isRefusal]
    · split at h
      · rename_i e' hcast
        obtain rfl := Option.some.inj h
        rcases broadcastRows_error hcast with rfl | rfl <;> simp [StoreError.isRefusal]
      · simp at h

theorem route_error (hd : ¬ item.isDelegate)
    (h : (route canon s item rows).error = some e) : ¬ e.isRefusal := by
  unfold route at h
  split at h
  · simp at h
  dsimp only at h
  split at h
  · exact shareRows_error h
  · simp at h

theorem refusal_cases (hd : ¬ item.isDelegate) (hcheck : item.check canon = .ok ())
    (h : appendMessage canon t item = (t', some e)) (he : e.isRefusal) :
    t.locked ∨ ∃ e', (t.advance 0).opened item.userId = .error e' := by
  unfold appendMessage at h
  rw [hcheck] at h
  dsimp only at h
  by_cases hl : (t.advance 0).locked
  · exact Or.inl hl
  · rw [if_neg hl] at h
    cases hopen : (t.advance 0).opened item.userId with
    | error e' => exact Or.inr ⟨e', rfl⟩
    | ok u =>
      rw [hopen] at h
      dsimp only at h
      split at h
      · rename_i e' herr
        obtain rfl := Option.some.inj (congrArg Prod.snd h)
        exact absurd he (route_error hd herr)
      · simp at h

variable {items : List Item}

theorem not_refused (hd : ∀ p ∈ items, ¬ p.isDelegate)
    (hcheck : ∀ p ∈ items, p.check canon = .ok ()) (hcreated : t.created)
    (hseq : t.lastSeq.isSome) (hlocked : ¬ t.locked)
    (h : appendEach canon t items = (t', some e)) : ¬ e.isRefusal := by
  induction items generalizing t with
  | nil => simp [appendEach] at h
  | cons item items ih =>
    rw [List.forall_mem_cons] at hd hcheck
    unfold appendEach at h
    cases happend : appendMessage canon t item with
    | mk u error =>
      rw [happend] at h
      cases error with
      | none =>
        obtain ⟨hc, hs, hl, -⟩ := appendMessage_keeps hd.1 hcreated hseq happend
        exact ih hd.2 hcheck.2 (hc.trans hcreated) hs (hl ▸ hlocked) h
      | some e' =>
        obtain rfl : e' = e := Option.some.inj (congrArg Prod.snd h)
        intro he
        rcases refusal_cases hd.1 hcheck.1 happend he with hl | ⟨e'', hopen⟩
        · exact hlocked hl
        · rw [Conv.advance_zero hseq, Conv.opened, if_pos hcreated] at hopen
          simp at hopen

theorem addItem_iff_sendable (hbatch : InBatch canon s before b) :
    (∃ c, (b.addItem canon item).1 = .ok c) ↔ item.Sendable canon s before := by
  by_cases hb : item.broadcasts
  · have hsame : ∀ a, a ∈ item.others canon (b.answers canon item).known ↔
        a ∈ item.others canon (s.batchKnown canon before item) := by
      intro a
      rw [Item.mem_others, Item.mem_others]
      constructor
      · rintro ⟨hmem, hne, ha⟩
        exact ⟨(hbatch.mem_known hb ha).mp hmem, hne, ha⟩
      · rintro ⟨hmem, hne, ha⟩
        exact ⟨(hbatch.mem_known hb ha).mpr hmem, hne, ha⟩
    have hnil : item.others canon (b.answers canon item).known = [] ↔
        item.others canon (s.batchKnown canon before item) = [] := by
      simp only [List.eq_nil_iff_forall_not_mem, hsame]
    rw [Batch.addItem_ok_iff hb, broadcastRows_congr hnil, Item.Sendable]
    simp [hb]
  · exact iff_of_true ⟨_, Batch.addItem_of_silent hb⟩ (fun h => absurd h hb)

theorem addAll_iff_sendable {items : List Item} (hbatch : InBatch canon s before b)
    (hcheck : ∀ p ∈ items, p.check canon = .ok ()) :
    (∃ b', (b.addAll canon items).1 = .ok b') ↔ AllSendable canon s before items := by
  induction items generalizing before b with
  | nil => exact iff_of_true ⟨b, rfl⟩ trivial
  | cons item items ih =>
    rw [List.forall_mem_cons] at hcheck
    rw [AllSendable, ← addItem_iff_sendable hbatch]
    constructor
    · rintro ⟨b', hall⟩
      obtain ⟨c, hadd, hrest⟩ := Batch.addAll_cons hall
      exact ⟨⟨c, hadd⟩, (ih (hbatch.step hcheck.1 hadd) hcheck.2).mp ⟨b', hrest⟩⟩
    · rintro ⟨⟨c, hadd⟩, hrest⟩
      rw [Batch.addAll_of_addItem hadd]
      exact (ih (hbatch.step hcheck.1 hadd) hcheck.2).mpr hrest

theorem batchChecks_error (h : batchChecks canon items = .error e) :
    ∃ item ∈ items, item.check canon ≠ .ok () := by
  induction items with
  | nil => simp [batchChecks] at h
  | cons item items ih =>
    unfold batchChecks at h
    cases hcheck : item.check canon with
    | error e' => exact ⟨item, List.mem_cons_self, by simp [hcheck]⟩
    | ok _ =>
      rw [hcheck] at h
      dsimp only at h
      split at h
      · simp at h
      · obtain ⟨p, hp, hbad⟩ := ih h
        exact ⟨p, List.mem_cons_of_mem _ hp, hbad⟩

theorem batchChecks_true (h : batchChecks canon items = .ok true) :
    ∃ item ∈ items, item.isDelegate := by
  induction items with
  | nil => simp [batchChecks] at h
  | cons item items ih =>
    unfold batchChecks at h
    cases hcheck : item.check canon with
    | error e' => simp [hcheck] at h
    | ok _ =>
      rw [hcheck] at h
      dsimp only at h
      split at h
      · rename_i hdel
        exact ⟨item, List.mem_cons_self, hdel⟩
      · obtain ⟨p, hp, hdel⟩ := ih h
        exact ⟨p, List.mem_cons_of_mem _ hp, hdel⟩

theorem batchChecks_false (h : batchChecks canon items = .ok false) :
    ∀ item ∈ items, item.check canon = .ok () ∧ ¬ item.isDelegate := by
  induction items with
  | nil => simp
  | cons item items ih =>
    unfold batchChecks at h
    cases hcheck : item.check canon with
    | error e' => simp [hcheck] at h
    | ok _ =>
      rw [hcheck] at h
      dsimp only at h
      split at h
      · simp at h
      · rename_i hdel
        rw [List.forall_mem_cons]
        exact ⟨⟨hcheck, hdel⟩, ih h⟩

theorem opened_error_iff {userId : String} :
    (∃ e', (s.advance 0).opened userId = .error e') ↔ ¬ s.created ∧ userId = "" := by
  unfold Conv.opened
  by_cases hc : s.created
  · rw [if_pos (show (s.advance 0).created from hc)]
    simp [hc]
  · rw [if_neg (show ¬ (s.advance 0).created from hc)]
    by_cases hu : userId = "" <;> simp [hc, hu]

theorem appendMessages_raises_iff {first second : Item} {rest : List Item}
    (hchecks : batchChecks canon (first :: second :: rest) = .ok false) :
    (appendMessages canon s (first :: second :: rest)).2.isSome ↔
      (¬ s.created ∧ first.userId = "") ∨
        ¬ AllSendable canon s.opening [] (first :: second :: rest) := by
  rw [appendMessages_of_plain hchecks, ← opened_error_iff]
  cases hopen : (s.advance 0).opened first.userId with
  | error e' => simp
  | ok u =>
    obtain rfl := Conv.opened_eq_ok hopen
    have hsend := @addAll_iff_sendable canon s.opening { conv := s.opening } []
      (first :: second :: rest) InBatch.refl
      (fun p hp => (batchChecks_false hchecks p hp).1)
    rw [← hsend]
    cases hall : Batch.addAll canon { conv := s.opening } (first :: second :: rest) with
    | mk result b =>
      cases result with
      | error e' => simp [hall]
      | ok b' => simp [hall]

theorem opened_of_refused (hd : ∀ p ∈ item :: items, ¬ p.isDelegate)
    (hcheck : ∀ p ∈ item :: items, p.check canon = .ok ()) (hlocked : ¬ s.locked)
    (heach : appendEach canon s (item :: items) = (t, some e)) (he : e.isRefusal) :
    ¬ s.created ∧ item.userId = "" := by
  rw [List.forall_mem_cons] at hd hcheck
  unfold appendEach at heach
  cases happend : appendMessage canon s item with
  | mk u error =>
    rw [happend] at heach
    cases error with
    | some e' =>
      obtain rfl : e' = e := Option.some.inj (congrArg Prod.snd heach)
      rcases refusal_cases hd.1 hcheck.1 happend he with hl | hopen
      · exact absurd hl hlocked
      · exact opened_error_iff.mp hopen
    | none =>
      obtain ⟨-, hopening⟩ := appendMessage_opening happend
      obtain ⟨hc, hs, hl, -⟩ := appendMessage_keeps hd.1 Conv.created_opening
        Conv.lastSeq_opening hopening
      have hunlocked : ¬ u.locked := by
        rwa [hl, Conv.locked_opening]
      exact absurd he (not_refused hd.2 hcheck.2 (hc.trans Conv.created_opening) hs
        hunlocked heach)

theorem appendMessages_refused_iff
    (heach : appendEach canon s items = (t, some e)) (he : e.isRefusal) :
    (appendMessages canon s items).2.isSome ↔ ¬ s.locked ∨ Stopped canon s items := by
  match items with
  | [] => simp [appendEach] at heach
  | [item] =>
    refine iff_of_true ?_ (Or.inr (Or.inl (by simp)))
    unfold appendEach at heach
    cases happend : appendMessage canon s item with
    | mk u error =>
      rw [happend] at heach
      cases error with
      | none => simp [appendEach] at heach
      | some e' => simp [appendMessages, happend]
  | first :: second :: rest =>
    have hlen : ¬ (first :: second :: rest).length ≤ 1 := by simp
    cases hchecks : batchChecks canon (first :: second :: rest) with
    | error e' =>
      have hbad := batchChecks_error hchecks
      refine iff_of_true ?_ (Or.inr (Or.inr (Or.inr (Or.inl hbad))))
      simp [appendMessages, hchecks]
    | ok single =>
      cases single with
      | true =>
        have hdel := batchChecks_true hchecks
        refine iff_of_true ?_ (Or.inr (Or.inr (Or.inl hdel)))
        simp [appendMessages, hchecks, heach]
      | false =>
        have hall := batchChecks_false hchecks
        have hstopped : Stopped canon s (first :: second :: rest) ↔
            (¬ s.created ∧ first.userId = "") ∨
              ¬ AllSendable canon s.opening [] (first :: second :: rest) := by
          have hno : ¬ ∃ item ∈ first :: second :: rest, item.isDelegate :=
            fun ⟨p, hp, hd⟩ => (hall p hp).2 hd
          have hbad : ¬ ∃ item ∈ first :: second :: rest, item.check canon ≠ .ok () :=
            fun ⟨p, hp, hc⟩ => hc (hall p hp).1
          unfold Stopped
          rw [or_iff_right hlen, or_iff_right hno, or_iff_right hbad]
          simp
        rw [appendMessages_raises_iff hchecks, hstopped]
        refine ⟨Or.inr, ?_⟩
        rintro (hlocked | h)
        · exact Or.inl (opened_of_refused (fun p hp => (hall p hp).2)
            (fun p hp => (hall p hp).1) hlocked heach he)
        · exact h

end

/-! ## The batch and its messages -/

/-- A batch leaves the logs its messages leave one by one exactly if it goes one by one itself or
all its items agree. Where a message would be refused, a batch raises unless the lock is what
refuses it and nothing else stops the batch. -/
theorem batch_like_one_by_one (canon : String → String) (s : Conv) (items : List Item) :
    (∀ t, appendEach canon s items = (t, none) →
      ((∃ u, appendMessages canon s items = (u, none) ∧ t.logs.Same u.logs) ↔
        items.length ≤ 1 ∨ (∃ item ∈ items, item.isDelegate) ∨
          Agree canon s.opening [] items)) ∧
      (∀ t e, appendEach canon s items = (t, some e) → e.isRefusal →
        ((appendMessages canon s items).2.isSome ↔ ¬ s.locked ∨ Stopped canon s items)) :=
  ⟨fun _ heach => appendMessages_iff heach, fun _ _ heach he => appendMessages_refused_iff heach he⟩

def userItem (id agent : String) : Item where
  msg := { row := { role := "user", msgId := id, ts := some 1, content := .text id
                    source := { type := "user", name := "u", targetAgent := agent } } }
  userId := "u"

theorem agree_userItem : Agree id ({} : Conv).opening [] [userItem "m1" "a", userItem "m2" "a"] := by
  have hloaded : ({} : Conv).opening.LoadedFirst id [userItem "m1" "a"] := Or.inl (by decide +kernel)
  refine ⟨⟨?_, ?_, ?_⟩, ⟨?_, ?_, ?_⟩, trivial⟩
  · intro a _ _ _ _
    simp
  · exact fun h => absurd h (by decide +kernel)
  · intro _
    exact ⟨by simp [notedAgents], fun h => absurd rfl h⟩
  · intro a _ hseeds _ hfirst
    have hsame : (userItem "m1" "a").seeds id a := hseeds
    exact absurd hsame (hfirst _ (by simp))
  · exact fun h => absurd h (by decide +kernel)
  · intro _
    refine ⟨?_, fun _ hnot => absurd hloaded hnot⟩
    intro a ha hne
    have hmem : notedAgents id [userItem "m1" "a"] = ["a"] := by decide +kernel
    have hroute : (userItem "m2" "a").routeAgent id = "a" := by decide +kernel
    rw [List.nil_append, hmem, List.mem_singleton] at ha
    exact absurd (ha.trans hroute.symm) hne

theorem batch_like_one_by_one_userItem :
    (∃ u, appendMessages id {} [userItem "m1" "a", userItem "m2" "a"] = (u, none) ∧
        (appendEach id {} [userItem "m1" "a", userItem "m2" "a"]).1.logs.Same u.logs) ∧
      (appendMessages id {} [{ userItem "m1" "a" with userId := "" },
        userItem "m2" "b"]).2.isSome := by
  have heach : (appendEach id {} [userItem "m1" "a", userItem "m2" "a"]).2 = none := by
    decide +kernel
  have hrefused : (appendEach id {} [{ userItem "m1" "a" with userId := "" },
      userItem "m2" "b"]).2 = some .noUserId := by
    decide +kernel
  constructor
  · exact ((batch_like_one_by_one id {} _).1 _ (Prod.ext rfl heach)).mpr
      (Or.inr (Or.inr agree_userItem))
  · exact ((batch_like_one_by_one id {} _).2 _ _ (Prod.ext rfl hrefused) rfl).mpr
      (Or.inl (by decide))

/-- In a new conversation the second message of a batch starts a context without the first one, and
a locked conversation takes a batch. -/
theorem batch_unlike_one_by_one :
    let items := [userItem "m1" "a", userItem "m2" "b"]
    (appendEach id {} items).2 = none ∧ (appendMessages id {} items).2 = none ∧
      ¬ (appendEach id {} items).1.logs.Same (appendMessages id {} items).1.logs ∧
      (appendEach id { created := true, locked := true } items).2 = some .locked ∧
      (appendMessages id { created := true, locked := true } items).2 = none := by
  intro items
  refine ⟨by decide +kernel, by decide +kernel, ?_, by decide +kernel, by decide +kernel⟩
  intro hsame
  have hlen := (hsame.context "b").length
  revert hlen
  decide +kernel

end PawFlow.Conversation
