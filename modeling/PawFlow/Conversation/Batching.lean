import PawFlow.Conversation.Steps

/-!
# A batch and its messages one by one

`append_messages` routes every item itself and writes the files at the end. On the logs a batch and
the same messages one by one take the same steps; they differ in what the store answers in between:
which rows a new context starts with, which row an answer belongs to, which agents there are.
-/

namespace PawFlow.Conversation

open PawFlow.Lib

/-! ## One item of a batch -/

namespace Batch

variable (canon : String → String) (b : Batch)

/-- The logs, with what the batch still has to write. -/
def logs : Logs where
  transcript := b.conv.transcript ++ b.transcript
  shared := b.conv.shared ++ b.shared
  context := fun agent =>
    (b.conv.contexts.get? agent).getD [] ++ (b.contexts.get? agent).getD []
  catchUp := b.conv.catchUp
  last := b.conv.counter

/-- What an item of the batch gets to know. -/
def answers (item : Item) : Answers where
  parent := parentRow b.parents b.conv.findParent item.row.toolCallId
  seed := if item.isContext ∨ item.owner canon ∈ b.seeded then []
    else b.conv.seedRows (item.owner canon)
  known := if item.broadcasts then
    (b.conv.knownAgents item.row.role (item.routeAgent canon)).1 else []

/-- The batch after the transcript rows of an item. -/
def noted (item : Item) (parent : String) : Batch :=
  { b with
    conv := b.conv.advance (item.stored parent).length
    transcript := b.transcript ++ b.conv.stamp (item.stored parent)
    parents := item.msg.noteCalls b.parents }

def owns (item : Item) (rows : List Row) : Batch :=
  if item.owner canon = "" then b
  else
    (if item.isContext ∨ item.owner canon ∈ b.seeded then b
      else { b with
        conv := b.conv.seedContext (item.owner canon)
        seeded := item.owner canon :: b.seeded }).addContext (item.owner canon) rows

def shares (item : Item) : Batch :=
  { b with
    conv := b.conv.advance item.sharedRows.length
    shared := b.shared ++ b.conv.stamp item.sharedRows }

def tells (item : Item) : Batch :=
  let k := b.conv.knownAgents item.row.role (item.routeAgent canon)
  { b with
    conv := k.2.queue (item.others canon k.1) item.news
    touched := mergeAgents b.touched (item.others canon k.1) }

end Batch

section

variable {canon : String → String} {b b' : Batch} {item : Item}

theorem Batch.own_eq (hdisplay : ¬ item.row.displayOnly) (rows : List Row) :
    b.own canon item rows = b.owns canon item rows := by
  unfold Batch.own Batch.owns
  rw [Item.owner_of_not_displayOnly hdisplay]

theorem Batch.addItem_of_silent (hb : ¬ item.broadcasts) :
    let parent := parentRow b.parents b.conv.findParent item.row.toolCallId
    (b.addItem canon item).1 =
      .ok ((b.noted item parent).owns canon item (item.msg.rowsUnder parent)) := by
  intro parent
  unfold Batch.addItem
  rw [← Prod.mk.eta (p := item.msg.canonicalRows _ _), Message.canonicalRows_fst,
    Message.canonicalRows_snd]
  change (if item.row.displayOnly then (Except.ok (b.noted item parent), b.noted item parent)
    else _ : Except StoreError Batch × Batch).1 = _
  by_cases hdisplay : item.row.displayOnly
  · simp [hdisplay, Batch.owns, Item.owner]
  · rw [if_neg hdisplay]
    change (if item.sharesRows then
      ((b.noted item parent).own canon item (item.msg.rowsUnder parent)).share item.row.role
        (item.routeAgent canon) (item.msg.rowsUnder parent) else _ :
        Except StoreError Batch × Batch).1 = _
    rw [Batch.own_eq hdisplay]
    by_cases hshares : item.sharesRows
    · have hnone : filterForShared (item.msg.rowsUnder parent) = [] := by
        rw [Message.filterForShared_rowsUnder]
        simpa [Item.broadcasts, Item.candidates, hdisplay, hshares] using hb
      rw [if_pos hshares]
      simp [Batch.share, hnone]
    · rw [if_neg hshares]
      exact congrArg Except.ok (Batch.own_eq hdisplay _)

theorem Batch.addItem_of_broadcasts (hb : item.broadcasts) :
    let parent := parentRow b.parents b.conv.findParent item.row.toolCallId
    let c := ((b.noted item parent).owns canon item (item.msg.rowsUnder parent)).shares item
    (b.addItem canon item).1 =
      match item.candidates.mapM transformForShared with
      | .error e => .error e
      | .ok _ =>
        match broadcastRows (item.others canon
          (c.conv.knownAgents item.row.role (item.routeAgent canon)).1) item.candidates with
        | .error e => .error e
        | .ok () => .ok (c.tells canon item) := by
  intro parent c
  have hdisplay := Item.not_displayOnly_of_broadcasts hb
  obtain ⟨hcand, hshares⟩ := Item.candidates_of_broadcasts hb parent
  have hne : item.candidates.isEmpty = false := by simpa [Item.broadcasts] using hb
  have hadd : b.addItem canon item =
      ((b.noted item parent).own canon item (item.msg.rowsUnder parent)).share item.row.role
        (item.routeAgent canon) (item.msg.rowsUnder parent) := by
    unfold Batch.addItem
    rw [← Prod.mk.eta (p := item.msg.canonicalRows _ _), Message.canonicalRows_fst,
    Message.canonicalRows_snd]
    simp only [hdisplay, hshares, if_true, if_false, Bool.false_eq_true]
    rfl
  rw [hadd, Batch.own_eq hdisplay]
  unfold Batch.share
  simp only [hcand, hne, Bool.false_eq_true, if_false]
  cases hmap : item.candidates.mapM transformForShared with
  | error e => rfl
  | ok sharedRows =>
    have hrows : sharedRows = item.sharedRows := by
      simp [Item.sharedRows, hmap, Except.toOption]
    subst hrows
    simp only
    change (match broadcastRows (item.others canon
      (c.conv.knownAgents item.row.role (item.routeAgent canon)).1) item.candidates with
      | .error e => _ | .ok () => _ : Except StoreError Batch × Batch).1 = _
    cases broadcastRows (item.others canon
      (c.conv.knownAgents item.row.role (item.routeAgent canon)).1) item.candidates <;> rfl

theorem Batch.owns_frame (rows : List Row) : ∃ contexts known last ctx touched seeded,
    b.owns canon item rows =
      { b with
        conv := { b.conv with contexts := contexts, ctxKnown := known, lastSeq := last }
        contexts := ctx, touched := touched, seeded := seeded } := by
  unfold Batch.owns
  split
  · exact ⟨_, _, _, _, _, _, rfl⟩
  split
  · exact ⟨_, _, _, _, _, _, rfl⟩
  · obtain ⟨contexts, known, heq⟩ := Conv.seedContext_frame (s := b.conv) (item.owner canon)
    rw [heq]
    exact ⟨_, _, _, _, _, _, rfl⟩

theorem Batch.context_owns (rows : List Row) (a : String) :
    (b.owns canon item rows).logs.context a =
      if a = item.owner canon ∧ a ≠ "" then
        (if item.isContext ∨ item.owner canon ∈ b.seeded then []
          else b.conv.seedRows (item.owner canon)) ++ b.logs.context a ++
          stampRows b.conv.counter rows
      else b.logs.context a := by
  unfold Batch.owns Batch.logs
  by_cases howner : item.owner canon = ""
  · have hno : ¬ (a = item.owner canon ∧ a ≠ "") := fun h => h.2 (h.1.trans howner)
    rw [if_pos howner, if_neg hno]
  · rw [if_neg howner]
    by_cases hseed : item.isContext ∨ item.owner canon ∈ b.seeded
    · rw [if_pos hseed, if_pos hseed]
      by_cases ha : a = item.owner canon
      · subst ha
        simp [howner, Batch.addContext, PyDict.get?_set_self, Conv.stamp, Conv.advance]
      · simp [ha, Batch.addContext, PyDict.get?_set_of_ne, Conv.advance]
    · rw [if_neg hseed, if_neg hseed]
      have hcounter : (b.conv.seedContext (item.owner canon)).counter = b.conv.counter := by
        obtain ⟨contexts, known, heq⟩ := Conv.seedContext_frame (s := b.conv) (item.owner canon)
        rw [heq]
        rfl
      have hcontext := Conv.context_seedContext (s := b.conv) (item.owner canon)
      by_cases ha : a = item.owner canon
      · subst ha
        simp [howner, Batch.addContext, PyDict.get?_set_self, Conv.stamp, Conv.advance, hcontext,
          hcounter]
      · simp [ha, Batch.addContext, PyDict.get?_set_of_ne, Conv.advance, hcontext]

theorem Batch.counter_owns (parent : String) :
    (b.owns canon item (item.msg.rowsUnder parent)).conv.counter =
      b.conv.counter + (item.owned canon parent).length := by
  unfold Batch.owns Item.owned
  split
  · rfl
  split
  · rfl
  · obtain ⟨contexts, known, heq⟩ := Conv.seedContext_frame (s := b.conv) (item.owner canon)
    rw [heq]
    rfl

theorem Batch.known_answers (hb : item.broadcasts) (parent : String) :
    ((((b.noted item parent).owns canon item (item.msg.rowsUnder parent)).shares
      item).conv.knownAgents item.row.role (item.routeAgent canon)).1 =
        (b.answers canon item).known := by
  obtain ⟨contexts, known, last, ctx, touched, seeded, heq⟩ := @Batch.owns_frame canon
    (b.noted item parent) item (item.msg.rowsUnder parent)
  simp only [Batch.answers, hb, if_true]
  apply Conv.fst_knownAgents_congr <;> rw [heq] <;> rfl

theorem Batch.addItem_ok_iff (hb : item.broadcasts) :
    (∃ c, (b.addItem canon item).1 = .ok c) ↔
      (∃ rows, item.candidates.mapM transformForShared = .ok rows) ∧
        broadcastRows (item.others canon (b.answers canon item).known) item.candidates =
          .ok () := by
  rw [Batch.addItem_of_broadcasts hb, Batch.known_answers hb]
  cases item.candidates.mapM transformForShared with
  | error e => simp
  | ok rows =>
    cases broadcastRows (item.others canon (b.answers canon item).known) item.candidates with
    | error e => simp
    | ok _ => simp

/-- An item of a batch is one step on the logs, given what the store answers. -/
theorem Batch.logs_addItem (h : (b.addItem canon item).1 = .ok b') :
    b'.logs = b.logs.add canon item (b.answers canon item) := by
  set parent := parentRow b.parents b.conv.findParent item.row.toolCallId with hparent
  set c := (b.noted item parent).owns canon item (item.msg.rowsUnder parent) with hc
  obtain ⟨contexts, known, last, ctx, touched, seeded, heq⟩ := @Batch.owns_frame canon
    (b.noted item parent) item (item.msg.rowsUnder parent)
  have hcounter : c.conv.counter =
      b.conv.counter + (item.stored parent).length + (item.owned canon parent).length :=
    Batch.counter_owns parent
  have htranscript : c.conv.transcript ++ c.transcript =
      b.conv.transcript ++ b.transcript ++ stampRows b.conv.counter (item.stored parent) := by
    rw [hc, heq, List.append_assoc]
    rfl
  have hcontext : c.logs.context = (b.logs.add canon item (b.answers canon item)).context := by
    funext a
    rw [hc, Batch.context_owns]
    by_cases ha : a = item.owner canon ∧ a ≠ ""
    · have howned : item.owned canon parent = item.msg.rowsUnder parent := if_neg (ha.1 ▸ ha.2)
      rw [if_pos ha, Logs.add]
      dsimp only
      rw [if_pos ha, Batch.answers, ← hparent, howned]
      rfl
    · rw [if_neg ha, Logs.add]
      dsimp only
      rw [if_neg ha]
      rfl
  by_cases hb : item.broadcasts
  · rw [Batch.addItem_of_broadcasts hb] at h
    cases hmap : item.candidates.mapM transformForShared with
    | error e => simp [hmap] at h
    | ok _ =>
      simp only [hmap] at h
      split at h
      · simp at h
      · rw [Except.ok.injEq] at h
        subst h
        obtain ⟨agents, hk⟩ := Conv.knownAgents_frame (s := (c.shares item).conv)
          item.row.role (item.routeAgent canon)
        have hknown : ((c.shares item).conv.knownAgents item.row.role
            (item.routeAgent canon)).1 = (b.answers canon item).known :=
          Batch.known_answers hb parent
        rw [← hparent, ← hc]
        simp only [Batch.tells, hk, hknown]
        ext1
        · exact htranscript
        · change c.conv.shared ++ (c.shared ++ stampRows c.conv.counter item.sharedRows) = _
          rw [hcounter, hc, heq, ← List.append_assoc]
          rfl
        · exact hcontext
        · funext a
          change (if a ∈ item.others canon _ then c.conv.catchUp a ++ item.news a
            else c.conv.catchUp a) = _
          simp only [Item.mem_others]
          rw [hc, heq]
          rfl
        · change c.conv.counter + item.sharedRows.length = _
          rw [hcounter]
          rfl
  · rw [Batch.addItem_of_silent hb, Except.ok.injEq] at h
    have hrows := Item.sharedRows_of_silent hb
    subst h
    rw [← hparent, ← hc]
    ext1
    · exact htranscript
    · change c.conv.shared ++ c.shared = _
      rw [hc, heq]
      simp [Logs.add, hrows, stampRows, Batch.logs, Batch.noted, Conv.advance]
    · exact hcontext
    · change c.conv.catchUp = _
      rw [hc, heq]
      simp [Logs.add, Batch.answers, hb, Batch.logs, Batch.noted, Conv.advance]
    · change c.conv.counter = _
      rw [hcounter]
      simp [Logs.add, hrows, Batch.logs, Batch.answers, hparent]

theorem context_foldl_set (contexts : PyDict String (List Row))
    (hnodup : (contexts.map Prod.fst).Nodup) (d : PyDict String (List Row)) (a : String) :
    ((contexts.foldl (fun d i => d.set i.1 ((d.get? i.1).getD [] ++ i.2)) d).get? a).getD [] =
      (d.get? a).getD [] ++ (contexts.get? a).getD [] := by
  induction contexts generalizing d with
  | nil => exact (List.append_nil _).symm
  | cons i contexts ih =>
    rw [List.map_cons, List.nodup_cons] at hnodup
    rw [List.foldl_cons, ih hnodup.2]
    by_cases ha : a = i.1
    · have hnone : PyDict.get? contexts i.1 = none := PyDict.get?_eq_none_iff.mpr hnodup.1
      have hcons : PyDict.get? (i :: contexts) i.1 = some i.2 := by simp [PyDict.get?]
      rw [ha, PyDict.get?_set_self, hnone, hcons]
      simp
    · have hcons : PyDict.get? (i :: contexts) a = PyDict.get? contexts a := by
        simp [PyDict.get?, Ne.symm ha]
      rw [PyDict.get?_set_of_ne _ _ ha, hcons]

variable {items : List Item}

theorem appendEach_cons {t t' : Conv} (h : appendEach canon t (item :: items) = (t', none)) :
    ∃ u, appendMessage canon t item = (u, none) ∧ appendEach canon u items = (t', none) := by
  unfold appendEach at h
  cases happend : appendMessage canon t item with
  | mk u error =>
    rw [happend] at h
    cases error with
    | some e => simp at h
    | none => exact ⟨u, rfl, h⟩

theorem Batch.addAll_cons (h : (b.addAll canon (item :: items)).1 = .ok b') :
    ∃ c, (b.addItem canon item).1 = .ok c ∧ (c.addAll canon items).1 = .ok b' := by
  unfold Batch.addAll at h
  cases hadd : b.addItem canon item with
  | mk result c =>
    rw [hadd] at h
    cases result with
    | error e => simp at h
    | ok c' => exact ⟨c', rfl, h⟩

theorem Batch.addAll_of_addItem {c : Batch} (h : (b.addItem canon item).1 = .ok c) :
    b.addAll canon (item :: items) = c.addAll canon items := by
  rw [Batch.addAll]
  cases hadd : b.addItem canon item with
  | mk result c' =>
    rw [hadd] at h
    dsimp only at h
    rw [h]

end

/-! ## What the answers depend on -/

def callRow (items : List Item) (id : String) : Option String :=
  items.foldl (fun found item => ((item.msg.noteCalls []).get? id).or found) none

/-- The agents noted for the next append, once the items are appended. -/
def notedAgents (canon : String → String) (items : List Item) : List String :=
  items.flatMap fun item => if item.isContext then [] else item.touches canon

def Item.seeds (canon : String → String) (item : Item) (agent : String) : Prop :=
  item.owner canon = agent ∧ ¬ item.isContext

namespace Conv

variable (canon : String → String) (s : Conv)

def loads (item : Item) : Bool :=
  item.broadcasts && s.looksUp item.row.role (item.routeAgent canon)

def LoadedFirst (items : List Item) : Prop :=
  s.appendAgents.isSome ∨ ∃ before item after,
    items = before ++ item :: after ∧ notedAgents canon before = [] ∧ s.loads canon item

/-- The agents an item of a batch finds, after the items before it. -/
def batchKnown (before : List Item) (item : Item) : List String :=
  if (before ++ [item]).any (s.loads canon) then s.directory else []

end Conv

section

variable {canon : String → String} {s t t' : Conv} {b b' : Batch} {item : Item}
  {before : List Item}

theorem callRow_concat (id : String) :
    callRow (before ++ [item]) id = ((item.msg.noteCalls []).get? id).or (callRow before id) := by
  simp [callRow]

theorem notedAgents_concat :
    notedAgents canon (before ++ [item]) =
      notedAgents canon before ++ if item.isContext then [] else item.touches canon := by
  simp [notedAgents]

variable {a : String}

theorem notedAgents_ne (h : a ∈ notedAgents canon before) : a ≠ "" := by
  unfold notedAgents at h
  rw [List.mem_flatMap] at h
  obtain ⟨item, -, ha⟩ := h
  split at ha
  · simp at ha
  · unfold Item.touches at ha
    split at ha
    · simp at ha
    · rename_i howner
      rw [List.mem_singleton] at ha
      exact ha ▸ howner

theorem Conv.loadedFirst_concat :
    s.LoadedFirst canon (before ++ [item]) ↔
      s.LoadedFirst canon before ∨ (notedAgents canon before = [] ∧ s.loads canon item) := by
  unfold Conv.LoadedFirst
  constructor
  · rintro (h | ⟨first, found, rest, heq, hnoted, hloads⟩)
    · exact Or.inl (Or.inl h)
    · rcases List.eq_nil_or_concat rest with rfl | ⟨rest', last, rfl⟩
      · obtain ⟨rfl, hitem⟩ := List.append_inj' heq rfl
        obtain rfl : item = found := by simpa using hitem
        exact Or.inr ⟨hnoted, hloads⟩
      · have heq' : before ++ [item] = (first ++ found :: rest') ++ [last] := by
          rw [heq]
          simp
        obtain ⟨hbefore, -⟩ := List.append_inj' heq' rfl
        exact Or.inl (Or.inr ⟨first, found, rest', hbefore, hnoted, hloads⟩)
  · rintro ((h | ⟨first, found, rest, heq, hnoted, hloads⟩) | ⟨hnoted, hloads⟩)
    · exact Or.inl h
    · exact Or.inr ⟨first, found, rest ++ [item], by simp [heq], hnoted, hloads⟩
    · exact Or.inr ⟨before, item, [], rfl, hnoted, hloads⟩

/-- The agents the next append finds, after some items one by one. -/
structure AgentsAfter (canon : String → String) (s : Conv) (before : List Item) (t : Conv) :
    Prop where
  convAgents : t.convAgents = s.convAgents
  cache : t.cache.isNone = s.cache.isNone
  loaded : s.LoadedFirst canon before → ∃ agents, t.appendAgents = some agents ∧
    ∀ a, a ≠ "" → (a ∈ agents ↔ a ∈ s.directory ∨ a ∈ notedAgents canon before)
  noted : ¬ s.LoadedFirst canon before → notedAgents canon before ≠ [] →
    ∃ agents, t.appendAgents = some agents ∧
      ∀ a, a ≠ "" → (a ∈ agents ↔ a ∈ notedAgents canon before)
  cold : ¬ s.LoadedFirst canon before → notedAgents canon before = [] →
    t.appendAgents = none ∧ t.declared = s.declared

/-- The store after some items one by one, as far as the next answers depend on it. -/
structure OneByOne (canon : String → String) (s : Conv) (before : List Item) (t : Conv) :
    Prop where
  created : t.created = true
  seq : t.lastSeq.isSome = true
  parent : ∀ id, t.findParent id =
    (callRow (before.filter fun item => !item.isContext) id).getD (s.findParent id)
  lacks : ∀ a, a ≠ "" → (t.lacks a ↔ s.lacks a ∧ ∀ item ∈ before, item.owner canon ≠ a)
  grown : (∃ item ∈ before, item.broadcasts) → s.shared.length < t.shared.length
  same : (∀ item ∈ before, ¬ item.broadcasts) → t.shared = s.shared
  agents : AgentsAfter canon s before t

theorem OneByOne.refl (hcreated : s.created) (hseq : s.lastSeq.isSome) : OneByOne canon s [] s where
  created := hcreated
  seq := hseq
  parent := fun _ => rfl
  lacks := by simp
  grown := by simp
  same := fun _ => rfl
  agents := by
    refine ⟨rfl, rfl, ?_, fun _ h => absurd rfl h, ?_⟩
    · intro h
      have hsome : s.appendAgents.isSome := by simpa [Conv.LoadedFirst] using h
      obtain ⟨agents, hagents⟩ := Option.isSome_iff_exists.mp hsome
      exact ⟨agents, hagents, fun a _ => by simp [Conv.directory, hagents, notedAgents]⟩
    · intro h _
      have hnone : ¬ s.appendAgents.isSome := by simpa [Conv.LoadedFirst] using h
      exact ⟨by simpa using hnone, rfl⟩

theorem Item.mem_touches (ha : a ≠ "") : a ∈ item.touches canon ↔ a = item.owner canon := by
  unfold Item.touches
  split
  · rename_i hempty
    simp [hempty, ha]
  · exact List.mem_singleton

theorem Conv.looksUp_of_some {agents : List String} (h : t.appendAgents = some agents)
    (role route : String) : t.looksUp role route ∧ t.directory = agents := by
  simp [Conv.looksUp, Conv.directory, h]

theorem Conv.directory_of_none (h : t.appendAgents = none) : t.directory = t.declared := by
  unfold Conv.directory Conv.declared
  rw [h]
  rfl

theorem Conv.looksUp_of_none (hs : s.appendAgents = none) (ht : t.appendAgents = none)
    (hc : t.cache.isNone = s.cache.isNone) (role route : String) :
    t.looksUp role route = s.looksUp role route := by
  simp [Conv.looksUp, hs, ht, hc]

theorem Conv.appendAgents_of_not_loadedFirst (h : ¬ s.LoadedFirst canon before) :
    s.appendAgents = none := by
  cases hs : s.appendAgents with
  | none => rfl
  | some agents => exact absurd (Or.inl (by simp [hs])) h

theorem Item.owner_ne_of_not_looksUp (hb : item.broadcasts)
    (hl : ¬ s.looksUp item.row.role (item.routeAgent canon)) : item.owner canon ≠ "" := by
  rw [Item.owner_of_not_displayOnly (Item.not_displayOnly_of_broadcasts hb)]
  simp only [Conv.looksUp, Bool.not_eq_true', Bool.not_eq_false, Bool.and_eq_true,
    decide_eq_true_eq] at hl
  exact hl.1.1.2

theorem AgentsAfter.step_silent (hagents : AgentsAfter canon s before t) (hd : ¬ item.isDelegate)
    (hb : ¬ item.broadcasts) (hcreated : t.created) (hseq : t.lastSeq.isSome)
    (h : appendMessage canon t item = (t', none)) : AgentsAfter canon s (before ++ [item]) t' := by
  obtain ⟨-, -, -, hconv, -, -, -⟩ := appendMessage_keeps hd hcreated hseq h
  have hcache := isNone_cache_appendMessage hd hcreated hseq h
  have hsilent := appendAgents_of_silent hd hb hcreated hseq h
  have hfirst : s.LoadedFirst canon (before ++ [item]) ↔ s.LoadedFirst canon before := by
    simp [Conv.loadedFirst_concat, Conv.loads, hb]
  by_cases hnone : item.isContext ∨ item.owner canon = ""
  · have hnoted : notedAgents canon (before ++ [item]) = notedAgents canon before := by
      rw [notedAgents_concat]
      rcases hnone with hc | howner
      · simp [hc]
      · simp [Item.touches, howner]
    rw [if_pos hnone] at hsilent
    obtain ⟨hsame, hdeclared⟩ := hsilent
    refine ⟨hconv.trans hagents.convAgents, hcache.trans hagents.cache, ?_, ?_, ?_⟩
    · rw [hfirst, hnoted, hsame]
      exact hagents.loaded
    · rw [hfirst, hnoted, hsame]
      exact hagents.noted
    · rw [hfirst, hnoted, hsame, hdeclared]
      exact hagents.cold
  · rw [if_neg hnone] at hsilent
    obtain ⟨agents', hagents', hmem⟩ := hsilent
    rw [not_or] at hnone
    have hnoted : ∀ a, a ∈ notedAgents canon (before ++ [item]) ↔
        a ∈ notedAgents canon before ∨ a = item.owner canon := by
      intro a
      simp [notedAgents_concat, hnone.1, Item.touches, hnone.2]
    refine ⟨hconv.trans hagents.convAgents, hcache.trans hagents.cache, ?_, ?_, ?_⟩
    · rw [hfirst]
      intro hl
      obtain ⟨agents, hsome, hiff⟩ := hagents.loaded hl
      refine ⟨agents', hagents', fun a ha => ?_⟩
      rw [hmem, hsome, Option.getD_some, hiff a ha, hnoted, or_assoc]
    · rw [hfirst]
      intro hl _
      refine ⟨agents', hagents', fun a ha => ?_⟩
      rw [hmem, hnoted]
      by_cases hempty : notedAgents canon before = []
      · rw [(hagents.cold hl hempty).1, hempty]
        rfl
      · obtain ⟨agents, hsome, hiff⟩ := hagents.noted hl hempty
        rw [hsome, Option.getD_some, hiff a ha]
    · intro _ hempty
      have hown := (hnoted (item.owner canon)).mpr (Or.inr rfl)
      rw [hempty] at hown
      exact absurd hown List.not_mem_nil

/-- A broadcast finds the agents in one of three ways, and leaves them known. -/
theorem AgentsAfter.step_broadcasts (hagents : AgentsAfter canon s before t)
    (hd : ¬ item.isDelegate) (hb : item.broadcasts) (hcreated : t.created)
    (hseq : t.lastSeq.isSome) (h : appendMessage canon t item = (t', none)) :
    AgentsAfter canon s (before ++ [item]) t' := by
  obtain ⟨-, -, -, hconv, -, -, -⟩ := appendMessage_keeps hd hcreated hseq h
  have hcache := isNone_cache_appendMessage hd hcreated hseq h
  obtain ⟨agents', hagents', hmem⟩ := appendAgents_of_broadcasts hd hb hcreated hseq h
  have hctx := Item.not_isContext_of_broadcasts hb
  have hnoted : ∀ a, a ≠ "" → (a ∈ notedAgents canon (before ++ [item]) ↔
      a ∈ notedAgents canon before ∨ a = item.owner canon) := by
    intro a ha
    rw [notedAgents_concat, if_neg hctx, List.mem_append, Item.mem_touches ha]
  have hloads : s.loads canon item ↔ s.looksUp item.row.role (item.routeAgent canon) := by
    simp [Conv.loads, hb]
  refine ⟨hconv.trans hagents.convAgents, hcache.trans hagents.cache, ?_, ?_, ?_⟩
  · intro hl
    refine ⟨agents', hagents', fun a ha => ?_⟩
    rw [hmem a ha, hnoted a ha, ← or_assoc]
    by_cases hbefore : s.LoadedFirst canon before
    · obtain ⟨agents, hsome, hiff⟩ := hagents.loaded hbefore
      obtain ⟨hlooks, hdir⟩ := Conv.looksUp_of_some hsome item.row.role (item.routeAgent canon)
      rw [hdir, hiff a ha]
      simp [hlooks]
    · rw [Conv.loadedFirst_concat, hloads] at hl
      obtain ⟨hempty, hlooks⟩ := hl.resolve_left hbefore
      obtain ⟨hnone, hdeclared⟩ := hagents.cold hbefore hempty
      have hs := Conv.appendAgents_of_not_loadedFirst hbefore
      rw [Conv.looksUp_of_none hs hnone hagents.cache, Conv.directory_of_none hnone, hdeclared,
        ← Conv.directory_of_none hs, hempty]
      simp [hlooks]
  · intro hl _
    rw [Conv.loadedFirst_concat, not_or, hloads] at hl
    obtain ⟨hbefore, hnot⟩ := hl
    refine ⟨agents', hagents', fun a ha => ?_⟩
    rw [hmem a ha, hnoted a ha]
    by_cases hempty : notedAgents canon before = []
    · have hlooks : ¬ s.looksUp item.row.role (item.routeAgent canon) :=
        fun hlooks => hnot ⟨hempty, hlooks⟩
      obtain ⟨hnone, -⟩ := hagents.cold hbefore hempty
      have hs := Conv.appendAgents_of_not_loadedFirst hbefore
      rw [Conv.looksUp_of_none hs hnone hagents.cache, hempty]
      simp [hlooks]
    · obtain ⟨agents, hsome, hiff⟩ := hagents.noted hbefore hempty
      obtain ⟨hlooks, hdir⟩ := Conv.looksUp_of_some hsome item.row.role (item.routeAgent canon)
      rw [hdir, hiff a ha]
      simp [hlooks]
  · intro hl hempty
    rw [Conv.loadedFirst_concat, not_or, hloads] at hl
    rw [notedAgents_concat, if_neg hctx, List.append_eq_nil_iff] at hempty
    have hnot := fun hlooks => hl.2 ⟨hempty.1, hlooks⟩
    have howner := Item.owner_ne_of_not_looksUp hb hnot
    exact absurd hempty.2 (by simp [Item.touches, howner])

theorem AgentsAfter.step (hagents : AgentsAfter canon s before t) (hd : ¬ item.isDelegate)
    (hcreated : t.created) (hseq : t.lastSeq.isSome) (h : appendMessage canon t item = (t', none)) :
    AgentsAfter canon s (before ++ [item]) t' := by
  by_cases hb : item.broadcasts
  · exact hagents.step_broadcasts hd hb hcreated hseq h
  · exact hagents.step_silent hd hb hcreated hseq h

theorem sharedRows_of_appendMessage (hd : ¬ item.isDelegate) (hb : item.broadcasts)
    (hcreated : t.created) (hseq : t.lastSeq.isSome) (h : appendMessage canon t item = (t', none)) :
    item.candidates.mapM transformForShared = .ok item.sharedRows :=
  (route_of_broadcasts hd hb (appendMessage_created hcreated hseq h).1).1

theorem Item.candidates_ne_nil (hb : item.broadcasts) : 0 < item.candidates.length := by
  unfold Item.broadcasts at hb
  rw [List.length_pos_iff]
  intro hnil
  simp [hnil] at hb

theorem OneByOne.step (hone : OneByOne canon s before t) (hd : ¬ item.isDelegate)
    (h : appendMessage canon t item = (t', none)) : OneByOne canon s (before ++ [item]) t' := by
  obtain ⟨hcreated, hseq, -⟩ := appendMessage_keeps hd hone.created hone.seq h
  have hshared : t'.shared = t.shared ++ stampRows _ item.sharedRows :=
    congrArg Logs.shared (logs_appendMessage hd hone.created hone.seq h)
  refine ⟨hcreated.trans hone.created, hseq, ?_, ?_, ?_, ?_,
    hone.agents.step hd hone.created hone.seq h⟩
  · intro id
    rw [findParent_appendMessage hd hone.created hone.seq h, hone.parent, List.filter_append]
    by_cases hc : item.isContext
    · simp [hc]
    · rw [List.filter_singleton, Bool.eq_false_iff.mpr hc, Bool.not_false, cond_true,
        callRow_concat, if_neg (by simp)]
      cases (item.msg.noteCalls []).get? id <;> rfl
  · intro a ha
    rw [lacks_appendMessage hd hone.created hone.seq h ha, hone.lacks a ha]
    simp only [List.mem_append, List.mem_singleton]
    constructor
    · rintro ⟨⟨hl, hbefore⟩, howner⟩
      refine ⟨hl, ?_⟩
      rintro other (hother | rfl)
      · exact hbefore other hother
      · exact howner
    · rintro ⟨hl, hall⟩
      exact ⟨⟨hl, fun other hother => hall other (Or.inl hother)⟩, hall item (Or.inr rfl)⟩
  · rintro ⟨other, hother, hb⟩
    rw [hshared, List.length_append, length_stampRows]
    rcases List.mem_append.mp hother with hbefore | hitem
    · have := hone.grown ⟨other, hbefore, hb⟩
      omega
    · obtain rfl := List.mem_singleton.mp hitem
      have hlen := Item.length_sharedRows
        (sharedRows_of_appendMessage hd hb hone.created hone.seq h)
      have hpos := Item.candidates_ne_nil hb
      by_cases hbefore : ∃ p ∈ before, p.broadcasts
      · have := hone.grown hbefore
        omega
      · have := congrArg List.length (hone.same fun p hp hbp => hbefore ⟨p, hp, hbp⟩)
        omega
  · intro hsilent
    have hitem := hsilent item (by simp)
    rw [hshared, Item.sharedRows_of_silent hitem, stampRows, List.append_nil]
    exact hone.same fun p hp => hsilent p (List.mem_append_left _ hp)

/-- A batch after some items, as far as the next answers depend on it. -/
structure InBatch (canon : String → String) (s : Conv) (before : List Item) (b : Batch) :
    Prop where
  find : ∀ id, b.conv.findParent id = s.findParent id
  shared : b.conv.shared = s.shared
  parents : ∀ id, b.parents.get? id = callRow before id
  calls : ∀ id row, callRow before id = some row → row ≠ ""
  seeded : ∀ a, a ≠ "" → (a ∈ b.seeded ↔ ∃ item ∈ before, item.seeds canon a)
  lacks : ∀ a, a ≠ "" → a ∉ b.seeded → (b.conv.lacks a ↔ s.lacks a)
  cache : b.conv.cache = s.cache
  convAgents : b.conv.convAgents = s.convAgents
  agents : b.conv.appendAgents =
    if before.any (s.loads canon) then some s.directory else s.appendAgents
  nodup : (b.contexts.map Prod.fst).Nodup

theorem InBatch.refl : InBatch canon s [] { conv := s } where
  find := fun _ => rfl
  shared := rfl
  parents := fun _ => rfl
  calls := by simp [callRow]
  seeded := by simp
  lacks := fun _ _ _ => Iff.rfl
  cache := rfl
  convAgents := rfl
  agents := rfl
  nodup := List.nodup_nil

/-- Everything an item of a batch can change beyond its own rows. -/
theorem Batch.addItem_frame (h : (b.addItem canon item).1 = .ok b') :
    let parent := parentRow b.parents b.conv.findParent item.row.toolCallId
    let c := (b.noted item parent).owns canon item (item.msg.rowsUnder parent)
    ∃ last catchUp shared touched,
      b' = { c with
        conv := { c.conv with
          lastSeq := last, catchUp := catchUp
          appendAgents :=
            if b.conv.loads canon item then some b.conv.directory else b.conv.appendAgents }
        shared := shared, touched := touched } := by
  intro parent c
  obtain ⟨contexts, known, last, ctx, touched, seeded, heq⟩ := @Batch.owns_frame canon
    (b.noted item parent) item (item.msg.rowsUnder parent)
  have hagents : c.conv.appendAgents = b.conv.appendAgents := by
    change (Batch.owns ..).conv.appendAgents = _
    rw [heq]
    rfl
  by_cases hb : item.broadcasts
  · rw [Batch.addItem_of_broadcasts hb] at h
    have hlooks : (c.shares item).conv.looksUp item.row.role (item.routeAgent canon) =
        b.conv.looksUp item.row.role (item.routeAgent canon) := by
      change (Batch.shares (Batch.owns ..) item).conv.looksUp _ _ = _
      rw [heq]
      rfl
    have hdir : (c.shares item).conv.directory = b.conv.directory := by
      change (Batch.shares (Batch.owns ..) item).conv.directory = _
      rw [heq]
      rfl
    cases hmap : item.candidates.mapM transformForShared with
    | error e => simp [hmap] at h
    | ok _ =>
      simp only [hmap] at h
      split at h
      · simp at h
      · rw [Except.ok.injEq] at h
        subst h
        change ∃ last catchUp shared touched, (c.shares item).tells canon item = _
        unfold Batch.tells Conv.loads
        rw [Conv.knownAgents_eq, hlooks, hdir, hb, Bool.true_and]
        by_cases hl : b.conv.looksUp item.row.role (item.routeAgent canon)
        · simp only [hl, if_true]
          exact ⟨_, _, _, _, rfl⟩
        · simp only [hl, if_false, Bool.false_eq_true]
          rw [← hagents]
          exact ⟨_, _, _, _, rfl⟩
  · rw [Batch.addItem_of_silent hb, Except.ok.injEq] at h
    subst h
    have hloads : b.conv.loads canon item = false := by simp [Conv.loads, hb]
    rw [hloads, if_neg (by simp), ← hagents]
    exact ⟨_, _, _, _, rfl⟩

theorem Batch.lacks_owns (rows : List Row) (ha : a ≠ item.owner canon) :
    (b.owns canon item rows).conv.lacks a ↔ b.conv.lacks a := by
  unfold Batch.owns
  split
  · rfl
  split
  · rfl
  · unfold Conv.lacks Batch.addContext
    have hget := Conv.get?_seedContext_of_ne (s := b.conv) ha
    have hmem := Conv.mem_ctxKnown_seedContext_of_ne (s := b.conv) ha
    simp only [Conv.advance, hget, hmem]

theorem Batch.seeded_owns (rows : List Row) (ha : a ≠ "") :
    a ∈ (b.owns canon item rows).seeded ↔ a ∈ b.seeded ∨ item.seeds canon a := by
  unfold Batch.owns Item.seeds
  by_cases howner : item.owner canon = ""
  · have hne : item.owner canon ≠ a := fun h => ha (h ▸ howner)
    simp [howner, Ne.symm ha]
  · rw [if_neg howner]
    by_cases hskip : item.isContext ∨ item.owner canon ∈ b.seeded
    · rw [if_pos hskip]
      change a ∈ b.seeded ↔ _
      constructor
      · exact Or.inl
      · rintro (h | ⟨rfl, hc⟩)
        · exact h
        · exact hskip.resolve_left hc
    · rw [if_neg hskip]
      rw [not_or] at hskip
      change a ∈ item.owner canon :: b.seeded ↔ _
      rw [List.mem_cons, or_comm, eq_comm]
      simp [hskip.1]

theorem Batch.nodup_owns (rows : List Row) (h : (b.contexts.map Prod.fst).Nodup) :
    ((b.owns canon item rows).contexts.map Prod.fst).Nodup := by
  unfold Batch.owns
  split
  · exact h
  split
  · exact PyDict.nodup_keys_set _ h
  · exact PyDict.nodup_keys_set _ h

theorem Conv.directory_congr (ha : t.appendAgents = s.appendAgents) (hc : t.cache = s.cache)
    (hv : t.convAgents = s.convAgents) : t.directory = s.directory := by
  simp [Conv.directory, ha, hc, hv]

theorem Item.valid_of_check (h : item.check canon = .ok ()) : item.msg.row.validate = .ok () := by
  unfold Item.check at h
  cases hv : item.row.validate with
  | error e => simp [hv] at h
  | ok _ => exact hv

theorem InBatch.directory (hbatch : InBatch canon s before b) : b.conv.directory = s.directory := by
  cases hany : before.any (s.loads canon) with
  | true =>
    have hagents := hbatch.agents
    rw [hany, if_pos rfl] at hagents
    exact (Conv.looksUp_of_some hagents "" "").2
  | false =>
    have hagents := hbatch.agents
    rw [hany, if_neg (by simp)] at hagents
    exact Conv.directory_congr hagents hbatch.cache hbatch.convAgents

theorem InBatch.looksUp (hbatch : InBatch canon s before b) (role route : String) :
    b.conv.looksUp role route = (before.any (s.loads canon) || s.looksUp role route) := by
  cases hany : before.any (s.loads canon) with
  | true =>
    have hagents := hbatch.agents
    rw [hany, if_pos rfl] at hagents
    exact (Conv.looksUp_of_some hagents role route).1
  | false =>
    have hagents := hbatch.agents
    rw [hany, if_neg (by simp)] at hagents
    simp [Conv.looksUp, hagents, hbatch.cache]

theorem InBatch.step (hbatch : InBatch canon s before b) (hcheck : item.check canon = .ok ())
    (h : (b.addItem canon item).1 = .ok b') : InBatch canon s (before ++ [item]) b' := by
  obtain ⟨last, catchUp, shared, touched, heq⟩ := Batch.addItem_frame h
  set parent := parentRow b.parents b.conv.findParent item.row.toolCallId with hparent
  obtain ⟨contexts, known, last', ctx, touched', seeded, howns⟩ := @Batch.owns_frame canon
    (b.noted item parent) item (item.msg.rowsUnder parent)
  have hvalid := Item.valid_of_check hcheck
  refine ⟨?_, ?_, ?_, ?_, ?_, ?_, ?_, ?_, ?_, ?_⟩
  · intro id
    rw [← hbatch.find id, heq, howns]
    rfl
  · rw [heq, howns]
    exact hbatch.shared
  · intro id
    rw [callRow_concat, ← hbatch.parents, ← Message.get?_noteCalls, heq, howns]
    rfl
  · intro id row hrow
    rw [callRow_concat] at hrow
    cases hcall : (item.msg.noteCalls []).get? id with
    | some row' =>
      rw [hcall, Option.some_or, Option.some.injEq] at hrow
      exact hrow ▸ Message.noteCalls_ne hvalid hcall
    | none =>
      rw [hcall, Option.none_or] at hrow
      exact hbatch.calls id row hrow
  · intro a ha
    rw [heq]
    change a ∈ (Batch.owns ..).seeded ↔ _
    rw [Batch.seeded_owns _ ha]
    change a ∈ b.seeded ∨ _ ↔ _
    rw [hbatch.seeded a ha]
    simp only [List.mem_append, List.mem_singleton]
    constructor
    · rintro (⟨p, hp, hs⟩ | hs)
      · exact ⟨p, Or.inl hp, hs⟩
      · exact ⟨item, Or.inr rfl, hs⟩
    · rintro ⟨p, hp | rfl, hs⟩
      · exact Or.inl ⟨p, hp, hs⟩
      · exact Or.inr hs
  · intro a ha hnot
    rw [heq] at hnot ⊢
    change a ∉ (Batch.owns ..).seeded at hnot
    rw [Batch.seeded_owns _ ha, not_or] at hnot
    have hb := hbatch.lacks a ha hnot.1
    by_cases hown : a = item.owner canon
    · -- The owner was not seeded, so the item is an injection and reads nothing.
      have hc : item.isContext := by
        by_contra hc
        exact hnot.2 ⟨hown.symm, hc⟩
      have hsame : (Batch.owns canon (b.noted item parent) item
          (item.msg.rowsUnder parent)).conv.lacks a ↔ b.conv.lacks a := by
        unfold Batch.owns
        rw [if_neg (hown ▸ ha), if_pos (Or.inl hc)]
        rfl
      exact hsame.trans hb
    · exact (Batch.lacks_owns (b := b.noted item parent) _ hown).trans hb
  · rw [heq, howns]
    exact hbatch.cache
  · rw [heq, howns]
    exact hbatch.convAgents
  · rw [heq]
    dsimp only
    rw [List.any_append, hbatch.directory, Conv.loads, hbatch.looksUp]
    cases hany : before.any (s.loads canon) with
    | true => simp [hbatch.agents, hany]
    | false =>
      rw [hbatch.agents, hany]
      simp [Conv.loads]
  · rw [heq]
    exact Batch.nodup_owns _ hbatch.nodup

end

end PawFlow.Conversation
