import PawFlow.Conversation.Append

/-!
# What one message leaves

The rows of a message depend on the store at one place only, the parent of a tool result. Beside
this are here the fields each write of `append_message` leaves alone, and the forms in which a
successful append is taken apart.
-/

namespace PawFlow.Conversation

open PawFlow.Lib

/-! ## The rows of a message -/

namespace Message

variable (m : Message)

def asksParent : Bool :=
  m.row.role = "tool" && m.row.toolCallId ≠ "" && m.row.parentMessageId = ""

/-- The rows, where the store answers with this parent. -/
def rowsUnder (parent : String) : List Row := (m.canonicalRows (fun _ => parent) []).1

/-- The calls of the message, noted. -/
def noteCalls (parents : Parents) : Parents := (m.canonicalRows (fun _ => "") parents).2

end Message

/-- The row of a call: noted, or found in the store. -/
def parentRow (parents : Parents) (find : String → String) (toolCallId : String) : String :=
  if (parents.get? toolCallId).getD "" ≠ "" then (parents.get? toolCallId).getD ""
  else find toolCallId

@[simp] theorem Parents.get?_nil (id : String) : PyDict.get? ([] : Parents) id = none := rfl

namespace Message

variable {m : Message} {parents : Parents}

theorem canonicalRows_fst (find : String → String) :
    (m.canonicalRows find parents).1 = m.rowsUnder (parentRow parents find m.row.toolCallId) := by
  unfold rowsUnder canonicalRows parentRow
  by_cases ha : m.row.role = "assistant"
  · simp [ha]
  by_cases hc : m.row.role = "tool_call"
  · simp [hc]
  by_cases ht : m.row.role = "tool" ∧ m.row.toolCallId ≠ ""
  · by_cases hp : m.row.parentMessageId = ""
    · by_cases hk : (parents.get? m.row.toolCallId).getD "" = ""
      · simp [ht, hp, hk]
      · simp [ht, hp, hk]
    · simp [ht, hp]
  · simp [ha, hc, ht]

theorem canonicalRows_snd (find : String → String) :
    (m.canonicalRows find parents).2 = m.noteCalls parents := by
  unfold noteCalls canonicalRows
  by_cases ha : m.row.role = "assistant"
  · simp [ha]
  by_cases hc : m.row.role = "tool_call"
  · simp [hc]
  by_cases ht : m.row.role = "tool" ∧ m.row.toolCallId ≠ ""
  · simp [ht]
  · simp [ha, hc, ht]

theorem rowsUnder_of_asks (h : m.asksParent) (parent : String) :
    m.rowsUnder parent = [{ m.row with parentMessageId := parent }] := by
  simp only [asksParent, Bool.and_eq_true, decide_eq_true_eq] at h
  obtain ⟨⟨hrole, hid⟩, hparent⟩ := h
  simp [rowsUnder, canonicalRows, hrole, hid, hparent]

theorem rowsUnder_of_not_asks (h : ¬ m.asksParent) (parent : String) :
    m.rowsUnder parent = m.rowsUnder "" := by
  unfold rowsUnder canonicalRows
  by_cases ha : m.row.role = "assistant"
  · simp [ha]
  by_cases hc : m.row.role = "tool_call"
  · simp [hc]
  by_cases ht : m.row.role = "tool" ∧ m.row.toolCallId ≠ ""
  · have hp : m.row.parentMessageId ≠ "" := by
      intro hp
      exact h (by simp [asksParent, ht, hp])
    simp [ht, hp]
  · simp [ha, hc, ht]

theorem rowsUnder_ne_nil (parent : String) : m.rowsUnder parent ≠ [] := by
  unfold rowsUnder canonicalRows
  dsimp only
  split
  · simp
  split
  · simp
  split <;> simp

theorem length_rowsUnder (parent : String) :
    (m.rowsUnder parent).length = (m.rowsUnder "").length := by
  by_cases h : m.asksParent
  · simp [rowsUnder_of_asks h]
  · rw [rowsUnder_of_not_asks h]

theorem filterForShared_rowsUnder (parent : String) :
    filterForShared (m.rowsUnder parent) = filterForShared (m.rowsUnder "") := by
  by_cases h : m.asksParent
  · have hrole : m.row.role = "tool" := by
      simp only [asksParent, Bool.and_eq_true, decide_eq_true_eq] at h
      exact h.1.1
    simp [rowsUnder_of_asks h, filterForShared, Row.isShared, hrole]
  · rw [rowsUnder_of_not_asks h]

theorem get?_note (parents : Parents) (call msgId id : String) :
    (Parents.note parents call msgId).get? id =
      ((Parents.note [] call msgId).get? id).or (parents.get? id) := by
  unfold Parents.note
  by_cases hc : call = ""
  · simp [hc]
  · rw [if_neg hc, if_neg hc]
    by_cases hid : id = call
    · subst hid
      rw [PyDict.get?_set_self, PyDict.get?_set_self]
      rfl
    · rw [PyDict.get?_set_of_ne _ _ hid, PyDict.get?_set_of_ne _ _ hid]
      rfl

theorem get?_foldl_note (calls : List ToolCall) (parents : Parents) (id : String) :
    (calls.foldl (fun parents call => Parents.note parents call.id call.msgId) parents).get? id =
      ((calls.foldl (fun parents call => Parents.note parents call.id call.msgId) []).get? id).or
        (parents.get? id) := by
  induction calls generalizing parents with
  | nil => rfl
  | cons call calls ih =>
    rw [List.foldl_cons, List.foldl_cons, ih, ih (Parents.note [] _ _), get?_note,
      Option.or_assoc]

theorem get?_noteCalls (parents : Parents) (id : String) :
    (m.noteCalls parents).get? id = ((m.noteCalls []).get? id).or (parents.get? id) := by
  unfold noteCalls canonicalRows
  dsimp only
  split
  · exact get?_foldl_note _ _ _
  split
  · exact get?_note _ _ _ _
  split <;> rfl

theorem foldl_note_ne (calls : List ToolCall) {parents : Parents}
    (h : ∀ id row, parents.get? id = some row → row ≠ "") (id row : String)
    (hrow : (calls.foldl (fun parents call => Parents.note parents call.id call.msgId)
      parents).get? id = some row) : row ≠ "" := by
  induction calls generalizing parents with
  | nil => exact h id row hrow
  | cons call calls ih =>
    refine ih ?_ hrow
    intro id' row' hrow'
    simp only [Parents.note] at hrow'
    split at hrow'
    · exact h id' row' hrow'
    · by_cases hid : id' = call.id
      · rw [hid, PyDict.get?_set_self, Option.some.injEq] at hrow'
        exact hrow' ▸ call.msgId_ne
      · rw [PyDict.get?_set_of_ne _ _ hid] at hrow'
        exact h id' row' hrow'

theorem validate_msgId {row : Row} (h : row.validate = .ok ()) (hrole : row.role ≠ "system") :
    row.msgId ≠ "" := by
  intro hid
  simp [Row.validate, hrole, hid] at h

theorem noteCalls_ne (hvalid : m.row.validate = .ok ()) {id row : String}
    (h : (m.noteCalls []).get? id = some row) : row ≠ "" := by
  unfold noteCalls canonicalRows at h
  dsimp only at h
  split at h
  · exact foldl_note_ne _ (by simp) id row h
  split at h
  · rename_i hrole
    have hne : m.row.msgId ≠ "" := validate_msgId hvalid (by rw [hrole]; decide)
    unfold Parents.note at h
    split at h
    · simp at h
    · by_cases hid : id = m.row.toolCallId
      · rw [hid, PyDict.get?_set_self, Option.some.injEq] at h
        exact h ▸ hne
      · rw [PyDict.get?_set_of_ne _ _ hid] at h
        simp at h
  split at h <;> simp at h

theorem noteCalls_empty : (m.noteCalls []).get? "" = none := by
  have hnote : ∀ (parents : Parents) (id row : String),
      (Parents.note parents id row).get? "" = parents.get? "" := by
    intro parents id row
    unfold Parents.note
    split
    · rfl
    · rename_i hid
      exact PyDict.get?_set_of_ne _ _ (Ne.symm hid)
  have hfold : ∀ (calls : List ToolCall) (parents : Parents),
      (calls.foldl (fun parents call => Parents.note parents call.id call.msgId)
        parents).get? "" = parents.get? "" := by
    intro calls
    induction calls with
    | nil => exact fun _ => rfl
    | cons call calls ih =>
      intro parents
      rw [List.foldl_cons, ih, hnote]
  unfold noteCalls canonicalRows
  dsimp only
  split
  · exact hfold _ _
  split
  · exact hnote _ _ _
  split <;> rfl

theorem rememberParents_toolCalls (calls : List ToolCall) (parents : Parents) :
    Conv.rememberParents parents (calls.map m.toolCallRow) =
      calls.foldl (fun parents call => Parents.note parents call.id call.msgId) parents := by
  induction calls generalizing parents with
  | nil => rfl
  | cons call calls ih =>
    have hone : Conv.rememberParents parents [m.toolCallRow call] =
        Parents.note parents call.id call.msgId := by
      by_cases hid : call.id = "" <;>
        simp [Conv.rememberParents, toolCallRow, Parents.note, hid, call.msgId_ne]
    rw [List.map_cons, List.foldl_cons, ← ih, ← hone]
    simp [Conv.rememberParents]

theorem rememberParents_rowsUnder (hvalid : m.row.validate = .ok ()) (parent : String)
    (parents : Parents) :
    Conv.rememberParents parents (m.rowsUnder parent) = m.noteCalls parents := by
  unfold rowsUnder noteCalls canonicalRows
  by_cases ha : m.row.role = "assistant"
  · have hthinking : Conv.rememberParents parents m.thinkingRows = parents := by
      unfold thinkingRows
      split <;> simp [Conv.rememberParents]
    have happ : ∀ xs ys, Conv.rememberParents parents (xs ++ ys) =
        Conv.rememberParents (Conv.rememberParents parents xs) ys := by
      intro xs ys
      exact List.foldl_append
    have hhead : Conv.rememberParents parents
        ({ m.row with toolCallId := "" } :: m.thinkingRows) = parents := by
      conv_rhs => rw [← hthinking]
      simp [Conv.rememberParents]
    simp only [ha, if_true, List.cons_append]
    rw [← List.cons_append, happ, ← ha, hhead, rememberParents_toolCalls]
  by_cases hc : m.row.role = "tool_call"
  · have hne : m.row.msgId ≠ "" := validate_msgId hvalid (by rw [hc]; decide)
    by_cases hid : m.row.toolCallId = "" <;>
      simp [hc, Conv.rememberParents, Parents.note, hid, hne]
  by_cases ht : m.row.role = "tool" ∧ m.row.toolCallId ≠ ""
  · simp [ht, Conv.rememberParents]
  · simp [ha, hc, ht, Conv.rememberParents]

end Message

/-! ## What an item is, before any state -/

namespace Item

variable (canon : String → String) (item : Item)

/-- The agent whose context gets the rows, if there is one. -/
def owner : String := if item.row.displayOnly then "" else item.routeAgent canon

/-- The rows for the transcript. -/
def stored (parent : String) : List Row := if item.isContext then [] else item.msg.rowsUnder parent

def owned (parent : String) : List Row :=
  if item.owner canon = "" then [] else item.msg.rowsUnder parent

/-- What the others are told. -/
def candidates : List Row :=
  if !item.row.displayOnly && item.sharesRows then filterForShared (item.msg.rowsUnder "") else []

def sharedRows : List Row := ((item.candidates.mapM transformForShared).toOption).getD []

/-- The catch-up rows of one of the others. -/
def news (agent : String) : List Row := ((transformAll item.candidates agent).toOption).getD []

/-- The message goes to the shared context and to the other agents. -/
def broadcasts : Bool := !item.candidates.isEmpty

end Item

/-! ## Logs -/

/-- What a reader of the conversation sees: the rows of every log. -/
@[ext] structure Logs where
  transcript : List Row
  shared : List Row
  context : String → List Row
  catchUp : String → List Row
  last : Nat

/-- What the routing of an item asks the store: the parent of its answer, the rows the owner's
context starts with, and the agents there are. -/
structure Answers where
  parent : String
  seed : List Row
  known : List String

def Logs.add (canon : String → String) (l : Logs) (item : Item) (answers : Answers) : Logs :=
  let stored := item.stored answers.parent
  let owned := item.owned canon answers.parent
  { transcript := l.transcript ++ stampRows l.last stored
    context := fun agent =>
      if agent = item.owner canon ∧ agent ≠ "" then
        answers.seed ++ l.context agent ++ stampRows (l.last + stored.length) owned
      else l.context agent
    shared := l.shared ++ stampRows (l.last + stored.length + owned.length) item.sharedRows
    catchUp := fun agent =>
      if agent ∈ answers.known ∧ agent ≠ "" ∧ agent ≠ item.routeAgent canon then
        l.catchUp agent ++ item.news agent
      else l.catchUp agent
    last := l.last + stored.length + owned.length + item.sharedRows.length }

namespace Conv

variable (canon : String → String) (s : Conv)

def logs : Logs where
  transcript := s.transcript
  shared := s.shared
  context := fun agent => (s.contexts.get? agent).getD []
  catchUp := s.catchUp
  last := s.counter

/-- There is no context of the agent, as far as the store can tell. -/
def lacks (agent : String) : Prop := agent ∉ s.ctxKnown ∧ s.contexts.get? agent = none

instance (agent : String) : Decidable (s.lacks agent) := inferInstanceAs (Decidable (_ ∧ _))

/-- The rows a context starts with when it is seeded now. -/
def seedRows (agent : String) : List Row :=
  if s.lacks agent then sharedForAgent s.shared agent else []

/-- What `append_message` gets to know. -/
def answers (item : Item) : Answers where
  parent := s.findParent item.row.toolCallId
  seed := if item.isContext then [] else s.seedRows (item.owner canon)
  known := if item.broadcasts then (s.knownAgents item.row.role (item.routeAgent canon)).1 else []

/-! ## What each write leaves alone -/

variable {canon : String → String} {s : Conv}

theorem seedContext_frame (agent : String) : ∃ contexts known,
    s.seedContext agent = { s with contexts := contexts, ctxKnown := known } := by
  unfold seedContext
  split
  · exact ⟨_, _, rfl⟩
  split
  · exact ⟨_, _, rfl⟩
  split <;> exact ⟨_, _, rfl⟩

def directory (s : Conv) : List String :=
  s.appendAgents.getD (match s.cache with
    | some cache => cache.agents
    | none => s.convAgents)

/-- The agents are looked up, and not only the addressee of a user's message taken. -/
def looksUp (s : Conv) (role route : String) : Bool :=
  !(role = "user" && route ≠ "" && s.appendAgents.isNone && s.cache.isNone)

theorem knownAgents_eq (role route : String) :
    s.knownAgents role route =
      if s.looksUp role route then
        (if route ≠ "" ∧ route ∉ s.directory then s.directory ++ [route] else s.directory,
          { s with appendAgents := some s.directory })
      else ([route], s) := by
  unfold knownAgents looksUp agentsForAppend directory
  by_cases hr : role = "user" ∧ route ≠ ""
  · cases ha : s.appendAgents with
    | some agents =>
      have hs : { s with appendAgents := some agents } = s := by rw [← ha]
      simp [hr, hs]
    | none => cases s.cache <;> simp [hr]
  · have hcond : ∀ p q : Prop, ¬ (role = "user" ∧ route ≠ "" ∧ p ∧ q) := by
      intro p q h
      exact hr ⟨h.1, h.2.1⟩
    have hb : (decide (role = "user") && decide (route ≠ "")) = false := by simpa using hr
    rw [if_neg (hcond _ _), hb]
    cases ha : s.appendAgents with
    | some agents =>
      have hs : { s with appendAgents := some agents } = s := by rw [← ha]
      simp [hs]
    | none => cases s.cache <;> simp

theorem fst_knownAgents_congr {t : Conv} (ha : s.appendAgents = t.appendAgents)
    (hc : s.cache = t.cache) (hv : s.convAgents = t.convAgents) (role route : String) :
    (s.knownAgents role route).1 = (t.knownAgents role route).1 := by
  have hlooks : s.looksUp role route = t.looksUp role route := by simp [looksUp, ha, hc]
  have hdir : s.directory = t.directory := by simp [directory, ha, hc, hv]
  rw [knownAgents_eq, knownAgents_eq, hlooks, hdir]
  split <;> rfl

theorem knownAgents_frame (role route : String) : ∃ agents,
    (s.knownAgents role route).2 = { s with appendAgents := agents } := by
  rw [knownAgents_eq]
  split <;> exact ⟨_, rfl⟩

theorem noteAppend_frame (touched : List String) (row : Row) : ∃ agents cache,
    noteAppend touched s row = { s with appendAgents := agents, cache := cache } := by
  unfold noteAppend
  by_cases h : touched.isEmpty
  · cases hc : s.cache <;> simp only [h, if_true, hc] <;> exact ⟨_, _, rfl⟩
  · cases s.cache <;> simp only [h, if_false, Bool.false_eq_true] <;> exact ⟨_, _, rfl⟩

theorem noteAppends_frame (rows : List Row) (touched : List String) : ∃ agents cache,
    s.noteAppends rows touched = { s with appendAgents := agents, cache := cache } := by
  unfold noteAppends
  induction rows generalizing s with
  | nil => exact ⟨_, _, rfl⟩
  | cons row rows ih =>
    obtain ⟨agents, cache, hrow⟩ := noteAppend_frame (s := s) touched row
    obtain ⟨agents', cache', hrows⟩ := ih (s := noteAppend touched s row)
    rw [List.foldl_cons, hrows, hrow]
    exact ⟨_, _, rfl⟩

theorem sharedForAgent_nil (agent : String) : sharedForAgent [] agent = [] := rfl

theorem context_seedContext (agent a : String) :
    ((s.seedContext agent).contexts.get? a).getD [] =
      if a = agent then s.seedRows agent ++ (s.contexts.get? a).getD []
      else (s.contexts.get? a).getD [] := by
  by_cases hl : s.lacks agent
  · have hseed : s.seedRows agent = sharedForAgent s.shared agent := if_pos hl
    rw [seedContext, if_neg hl.1, if_neg (by simp [hl.2]), hseed]
    by_cases he : s.shared = []
    · simp [he, sharedForAgent_nil]
    · rw [if_neg (by simpa using he)]
      by_cases ha : a = agent
      · simp [ha, PyDict.get?_set_self, hl.2]
      · simp only [PyDict.get?_set_of_ne _ _ ha, ha, if_false]
  · have hseed : s.seedRows agent = [] := if_neg hl
    have hcontexts : (s.seedContext agent).contexts = s.contexts := by
      by_cases hk : agent ∈ s.ctxKnown
      · simp [seedContext, hk]
      · have hsome : (s.contexts.get? agent).isSome :=
          Option.isSome_iff_ne_none.mpr fun hc => hl ⟨hk, hc⟩
        simp [seedContext, hk, hsome]
    simp [hseed, hcontexts]

variable {agent : String}

theorem get?_seedContext_of_ne {a : String} (h : a ≠ agent) :
    (s.seedContext agent).contexts.get? a = s.contexts.get? a := by
  unfold seedContext
  split
  · rfl
  split
  · rfl
  split
  · rfl
  · exact PyDict.get?_set_of_ne _ _ h

theorem mem_ctxKnown_seedContext_of_ne {a : String} (h : a ≠ agent) :
    a ∈ (s.seedContext agent).ctxKnown ↔ a ∈ s.ctxKnown := by
  unfold seedContext
  split
  · rfl
  split
  · simp [h]
  split
  · rfl
  · simp [h]

end Conv

theorem length_stampRows (n : Nat) (rows : List Row) : (stampRows n rows).length = rows.length := by
  induction rows generalizing n with
  | nil => rfl
  | cons row rows ih => simp [stampRows, ih]

variable {α β : Type}

variable {xs : List α}

theorem forall₂_of_mapM {ε : Type} {f : α → Except ε β} {ys : List β}
    (h : xs.mapM f = .ok ys) : List.Forall₂ (fun x y => f x = .ok y) xs ys := by
  induction xs generalizing ys with
  | nil =>
    obtain rfl : [] = ys := by simpa [pure, Except.pure] using h
    exact List.Forall₂.nil
  | cons x xs ih =>
    rw [List.mapM_cons] at h
    cases hx : f x with
    | error e => simp [hx, bind, Except.bind] at h
    | ok y =>
      cases hxs : xs.mapM f with
      | error e => simp [hx, hxs, bind, Except.bind] at h
      | ok rest =>
        obtain rfl : y :: rest = ys := by
          simpa [hx, hxs, bind, Except.bind, pure, Except.pure] using h
        exact List.Forall₂.cons hx (ih hxs)

theorem exists_of_forall₂ {R : α → β → Prop} {ys : List β}
    (h : List.Forall₂ R xs ys) {x : α} (hx : x ∈ xs) : ∃ y, R x y := by
  induction h with
  | nil => simp at hx
  | cons hy _ ih =>
    rcases List.mem_cons.mp hx with rfl | hx
    · exact ⟨_, hy⟩
    · exact ih hx

theorem exists_mapM {ε : Type} {f : α → Except ε β}
    (h : ∀ x ∈ xs, ∃ y, f x = .ok y) : ∃ ys, xs.mapM f = .ok ys := by
  induction xs with
  | nil => exact ⟨[], rfl⟩
  | cons x xs ih =>
    rw [List.forall_mem_cons] at h
    obtain ⟨y, hy⟩ := h.1
    obtain ⟨ys, hys⟩ := ih h.2
    exact ⟨y :: ys, by simp [List.mapM_cons, hy, hys, bind, Except.bind, pure, Except.pure]⟩

theorem transformForOtherAgent_ok {row shared : Row} (h : transformForShared row = .ok shared)
    (agent : String) : ∃ row', transformForOtherAgent row agent = .ok row' := by
  unfold transformForShared at h
  unfold transformForOtherAgent
  dsimp only at h ⊢
  by_cases htype : row.source.type = "agent"
  · rw [if_pos htype] at h ⊢
    by_cases hname : row.source.name = ""
    · simp [hname] at h
    · rw [if_neg hname]
      split <;> exact ⟨_, rfl⟩
  · rw [if_neg htype]
    split <;> exact ⟨_, rfl⟩

/-! ## A successful append -/

section

variable {canon : String → String} {s t t' : Conv} {item : Item}

/-- The agents told of a message, among those known. -/
def Item.others (canon : String → String) (item : Item) (known : List String) : List String :=
  known.filter fun other => other ≠ "" && other ≠ item.routeAgent canon

variable {known : List String} {rows : List Row}

theorem Item.mem_others {agent : String} :
    agent ∈ item.others canon known ↔
      agent ∈ known ∧ agent ≠ "" ∧ agent ≠ item.routeAgent canon := by
  simp [Item.others]

def Conv.owns (canon : String → String) (s : Conv) (item : Item) (rows : List Row) : Conv :=
  if item.owner canon = "" then s
  else (if item.isContext then s else s.seedContext (item.owner canon)).appendContext
    (item.owner canon) rows

def Item.touches (canon : String → String) (item : Item) : List String :=
  if item.owner canon = "" then [] else [item.owner canon]

theorem Item.owner_of_not_displayOnly (h : ¬ item.row.displayOnly) :
    item.owner canon = item.routeAgent canon := by
  simp [Item.owner, h]

theorem Item.not_displayOnly_of_broadcasts (h : item.broadcasts) : ¬ item.row.displayOnly := by
  intro hd
  simp [Item.broadcasts, Item.candidates, hd] at h

theorem Item.not_isContext_of_broadcasts (h : item.broadcasts) : ¬ item.isContext := by
  intro hc
  simp [Item.broadcasts, Item.candidates, Item.sharesRows, hc] at h

theorem route_of_silent (hd : ¬ item.isDelegate) (hb : ¬ item.broadcasts) (parent : String) :
    route canon s item (item.msg.rowsUnder parent) =
      ⟨s.owns canon item (item.msg.rowsUnder parent), item.touches canon, none⟩ := by
  unfold route Conv.owns Item.touches
  by_cases hdisplay : item.row.displayOnly
  · simp [hdisplay, Item.owner]
  · rw [if_neg hdisplay, if_neg hd, Item.owner_of_not_displayOnly hdisplay]
    have hown : ownContext canon s item (item.msg.rowsUnder parent) =
        if item.routeAgent canon = "" then s
        else (if item.isContext then s else s.seedContext (item.routeAgent canon)).appendContext
          (item.routeAgent canon) (item.msg.rowsUnder parent) := rfl
    by_cases hshares : item.sharesRows
    · have hnone : filterForShared (item.msg.rowsUnder parent) = [] := by
        rw [Message.filterForShared_rowsUnder]
        simpa [Item.broadcasts, Item.candidates, hdisplay, hshares] using hb
      simp only [hshares, if_true, shareRows, hnone, List.isEmpty_nil, hown]
    · simp only [hshares, if_false, hown, Bool.false_eq_true]

theorem Item.candidates_of_broadcasts (h : item.broadcasts) (parent : String) :
    filterForShared (item.msg.rowsUnder parent) = item.candidates ∧ item.sharesRows := by
  rw [Message.filterForShared_rowsUnder]
  unfold Item.broadcasts Item.candidates at h
  unfold Item.candidates
  split at h
  · rename_i hcond
    rw [if_pos hcond]
    simp only [Bool.and_eq_true] at hcond
    exact ⟨rfl, hcond.2⟩
  · simp at h

variable {parent : String}

theorem route_of_broadcasts (hd : ¬ item.isDelegate) (hb : item.broadcasts)
    (h : (route canon s item (item.msg.rowsUnder parent)).error = none) :
    let k := ((s.owns canon item (item.msg.rowsUnder parent)).appendShared
      item.sharedRows).knownAgents item.row.role (item.routeAgent canon)
    item.candidates.mapM transformForShared = .ok item.sharedRows ∧
      broadcastRows (item.others canon k.1) item.candidates = .ok () ∧
      route canon s item (item.msg.rowsUnder parent) =
        ⟨k.2.queue (item.others canon k.1) item.news,
          mergeAgents (item.touches canon) (item.others canon k.1), none⟩ := by
  have hdisplay := Item.not_displayOnly_of_broadcasts hb
  obtain ⟨hcand, hshares⟩ := Item.candidates_of_broadcasts hb parent
  have hne : item.candidates.isEmpty = false := by simpa [Item.broadcasts] using hb
  have hown : ownContext canon s item (item.msg.rowsUnder parent) =
      s.owns canon item (item.msg.rowsUnder parent) := by
    unfold Conv.owns
    rw [Item.owner_of_not_displayOnly hdisplay]
    rfl
  have htouch : (if item.routeAgent canon = "" then [] else [item.routeAgent canon]) =
      item.touches canon := by
    unfold Item.touches
    rw [Item.owner_of_not_displayOnly hdisplay]
  have hroute : route canon s item (item.msg.rowsUnder parent) =
      shareRows (s.owns canon item (item.msg.rowsUnder parent)) item.row.role
        (item.routeAgent canon) (item.msg.rowsUnder parent) (item.touches canon) := by
    simp only [route, hdisplay, hd, hshares, if_true, if_false, hown, htouch, Bool.false_eq_true]
  rw [hroute] at h ⊢
  unfold shareRows at h ⊢
  simp only [hcand, hne, Bool.false_eq_true, if_false] at h ⊢
  cases hmap : item.candidates.mapM transformForShared with
  | error e => simp [hmap] at h
  | ok sharedRows =>
    have hrows : item.sharedRows = sharedRows := by
      simp [Item.sharedRows, hmap, Except.toOption]
    subst hrows
    simp only [hmap] at h ⊢
    refine ⟨trivial, ?_⟩
    cases hcast : broadcastRows (item.others canon
        (((s.owns canon item (item.msg.rowsUnder parent)).appendShared
          item.sharedRows).knownAgents item.row.role (item.routeAgent canon)).1)
        item.candidates with
    | error e =>
      simp only [Item.others, ne_eq, decide_not] at hcast h
      simp [hcast] at h
    | ok _ =>
      refine ⟨rfl, ?_⟩
      simp only [Item.others, ne_eq, decide_not] at hcast ⊢
      rw [hcast]
      rfl

/-- A successful append, taken apart. -/
theorem appendMessage_eq_ok (h : appendMessage canon t item = (t', none)) :
    item.check canon = .ok () ∧ t.locked = false ∧
      ∃ u, (t.advance 0).opened item.userId = .ok u ∧
        let parent := u.findParent item.row.toolCallId
        let routed := route canon (u.appendTranscript (item.stored parent)) item
          (item.msg.rowsUnder parent)
        routed.error = none ∧
          t' = routed.conv.noteAppends (u.stamp (item.stored parent)) routed.touched := by
  unfold appendMessage at h
  cases hcheck : item.check canon with
  | error e => simp [hcheck] at h
  | ok _ =>
    simp only [hcheck] at h
    cases hlocked : (t.advance 0).locked with
    | true => simp [hlocked] at h
    | false =>
      simp only [hlocked, Bool.false_eq_true, if_false] at h
      cases hopen : (t.advance 0).opened item.userId with
      | error e => simp [hopen] at h
      | ok u =>
        simp only [hopen] at h
        rw [Message.canonicalRows_fst] at h
        have hparent : parentRow [] u.findParent item.msg.row.toolCallId =
            u.findParent item.row.toolCallId := by
          simp [parentRow, Item.row]
        rw [hparent] at h
        refine ⟨rfl, hlocked, u, rfl, ?_⟩
        have hstored : (if item.isContext = true then []
            else item.msg.rowsUnder (u.findParent item.row.toolCallId)) =
            item.stored (u.findParent item.row.toolCallId) := rfl
        rw [hstored] at h
        cases herr : (route canon (u.appendTranscript
          (item.stored (u.findParent item.row.toolCallId))) item
          (item.msg.rowsUnder (u.findParent item.row.toolCallId))).error with
        | some e => simp [herr] at h
        | none =>
          simp only [herr, Prod.mk.injEq, and_true] at h
          exact ⟨herr, h.symm⟩

@[simp] theorem Conv.counter_advance (n : Nat) : (s.advance n).counter = s.counter + n := rfl

theorem Conv.logs_noteAppends (rows : List Row) (touched : List String)
    (h : s.lastSeq.isSome) : (s.noteAppends rows touched).logs = s.logs := by
  obtain ⟨agents, cache, heq⟩ := Conv.noteAppends_frame (s := s) rows touched
  obtain ⟨last, hlast⟩ := Option.isSome_iff_exists.mp h
  rw [heq]
  simp [Conv.logs, Conv.counter, hlast]

theorem Conv.context_owns (rows : List Row) (a : String) :
    ((s.owns canon item rows).contexts.get? a).getD [] =
      if a = item.owner canon ∧ a ≠ "" then
        (if item.isContext then [] else s.seedRows (item.owner canon)) ++
          (s.contexts.get? a).getD [] ++ stampRows s.counter rows
      else (s.contexts.get? a).getD [] := by
  unfold Conv.owns
  by_cases howner : item.owner canon = ""
  · have hno : ¬ (a = item.owner canon ∧ a ≠ "") := fun h => h.2 (h.1.trans howner)
    rw [if_pos howner, if_neg hno]
  · rw [if_neg howner]
    by_cases hc : item.isContext
    · simp only [hc, if_true, Conv.appendContext, List.nil_append]
      by_cases ha : a = item.owner canon
      · subst ha
        simp [howner, PyDict.get?_set_self, Conv.stamp]
      · simp [ha, PyDict.get?_set_of_ne]
    · simp only [hc, Bool.false_eq_true, if_false, Conv.appendContext]
      have hcounter : (s.seedContext (item.owner canon)).counter = s.counter := by
        obtain ⟨contexts, known, heq⟩ := Conv.seedContext_frame (s := s) (item.owner canon)
        rw [heq]
        rfl
      by_cases ha : a = item.owner canon
      · subst ha
        have hseed := Conv.context_seedContext (s := s) (item.owner canon) (item.owner canon)
        rw [if_pos rfl] at hseed
        simp [howner, PyDict.get?_set_self, Conv.stamp, hseed, hcounter]
      · have hkeep := Conv.get?_seedContext_of_ne (s := s) ha
        simp [ha, PyDict.get?_set_of_ne, hkeep]

theorem Conv.owns_frame (rows : List Row) : ∃ contexts known last,
    s.owns canon item rows =
      { s with contexts := contexts, ctxKnown := known, lastSeq := last } := by
  unfold Conv.owns
  split
  · exact ⟨_, _, _, rfl⟩
  split
  · exact ⟨_, _, _, rfl⟩
  · obtain ⟨contexts, known, heq⟩ := Conv.seedContext_frame (s := s) (item.owner canon)
    rw [heq]
    exact ⟨_, _, _, rfl⟩

theorem Conv.counter_owns (parent : String) :
    (s.owns canon item (item.msg.rowsUnder parent)).counter =
      s.counter + (item.owned canon parent).length := by
  unfold Conv.owns Item.owned
  split
  · rfl
  split
  · rfl
  · obtain ⟨contexts, known, heq⟩ := Conv.seedContext_frame (s := s) (item.owner canon)
    rw [heq]
    rfl

theorem Conv.advance_zero (h : s.lastSeq.isSome) : s.advance 0 = s := by
  obtain ⟨last, hlast⟩ := Option.isSome_iff_exists.mp h
  have hcounter : some (s.counter + 0) = s.lastSeq := by simp [Conv.counter, hlast]
  unfold Conv.advance
  rw [hcounter]

theorem appendMessage_created (hcreated : t.created) (hseq : t.lastSeq.isSome)
    (h : appendMessage canon t item = (t', none)) :
    let parent := t.findParent item.row.toolCallId
    let routed := route canon (t.appendTranscript (item.stored parent)) item
      (item.msg.rowsUnder parent)
    routed.error = none ∧
      t' = routed.conv.noteAppends (t.stamp (item.stored parent)) routed.touched := by
  obtain ⟨-, -, u, hopen, hrouted⟩ := appendMessage_eq_ok h
  rw [Conv.advance_zero hseq, Conv.opened, if_pos hcreated, Except.ok.injEq] at hopen
  subst hopen
  exact hrouted

theorem Item.length_sharedRows (h : item.candidates.mapM transformForShared = .ok item.sharedRows) :
    item.sharedRows.length = item.candidates.length :=
  (forall₂_of_mapM h).length_eq.symm

theorem Item.length_news (h : item.candidates.mapM transformForShared = .ok item.sharedRows)
    (agent : String) : (item.news agent).length = item.candidates.length := by
  have hok : ∀ row ∈ item.candidates, ∃ row', transformForOtherAgent row agent = .ok row' := by
    intro row hrow
    obtain ⟨shared, hshared⟩ := exists_of_forall₂ (forall₂_of_mapM h) hrow
    exact transformForOtherAgent_ok hshared agent
  obtain ⟨rows, hrows⟩ := exists_mapM hok
  have hnews : item.news agent = rows := by
    simp [Item.news, transformAll, hrows, Except.toOption]
  rw [hnews]
  exact (forall₂_of_mapM hrows).length_eq.symm

theorem Item.sharedRows_of_silent (hb : ¬ item.broadcasts) : item.sharedRows = [] := by
  have hnil : item.candidates = [] := by simpa [Item.broadcasts] using hb
  simp [Item.sharedRows, hnil, pure, Except.pure, Except.toOption]

theorem Conv.logs_owns_appendTranscript (parent : String) :
    let v := (s.appendTranscript (item.stored parent)).owns canon item (item.msg.rowsUnder parent)
    v.transcript = s.transcript ++ stampRows s.counter (item.stored parent) ∧
      v.shared = s.shared ∧ v.catchUp = s.catchUp ∧
      v.counter = s.counter + (item.stored parent).length + (item.owned canon parent).length ∧
      ∀ a, (v.contexts.get? a).getD [] =
        if a = item.owner canon ∧ a ≠ "" then
          (if item.isContext then [] else s.seedRows (item.owner canon)) ++
            (s.contexts.get? a).getD [] ++
            stampRows (s.counter + (item.stored parent).length) (item.owned canon parent)
        else (s.contexts.get? a).getD [] := by
  intro v
  obtain ⟨contexts, known, last, heq⟩ := @Conv.owns_frame canon
    (s.appendTranscript (item.stored parent)) item (item.msg.rowsUnder parent)
  refine ⟨?_, ?_, ?_, Conv.counter_owns parent, ?_⟩
  · change (Conv.owns ..).transcript = _
    rw [heq]
    rfl
  · change (Conv.owns ..).shared = _
    rw [heq]
    rfl
  · change (Conv.owns ..).catchUp = _
    rw [heq]
    rfl
  · intro a
    rw [Conv.context_owns]
    by_cases ha : a = item.owner canon ∧ a ≠ ""
    · have howned : item.owned canon parent = item.msg.rowsUnder parent :=
        if_neg (ha.1 ▸ ha.2)
      rw [if_pos ha, if_pos ha, howned]
      rfl
    · rw [if_neg ha, if_neg ha]
      rfl

theorem Conv.known_answers (hb : item.broadcasts) (parent : String) :
    ((((s.appendTranscript (item.stored parent)).owns canon item
      (item.msg.rowsUnder parent)).appendShared item.sharedRows).knownAgents item.row.role
        (item.routeAgent canon)).1 = (s.answers canon item).known := by
  obtain ⟨contexts, known, last, heq⟩ := @Conv.owns_frame canon
    (s.appendTranscript (item.stored parent)) item (item.msg.rowsUnder parent)
  simp only [Conv.answers, hb, if_true]
  apply Conv.fst_knownAgents_congr <;> rw [heq] <;> rfl

/-- One append is one step on the logs, given what the store answers. -/
theorem logs_appendMessage (hd : ¬ item.isDelegate) (hcreated : t.created)
    (hseq : t.lastSeq.isSome) (h : appendMessage canon t item = (t', none)) :
    t'.logs = t.logs.add canon item (t.answers canon item) := by
  obtain ⟨herr, rfl⟩ := appendMessage_created hcreated hseq h
  set parent := t.findParent item.row.toolCallId with hparent
  obtain ⟨htr, hsh, hcu, hco, hctx⟩ :=
    @Conv.logs_owns_appendTranscript canon t item parent
  have hlast : ((t.appendTranscript (item.stored parent)).owns canon item
      (item.msg.rowsUnder parent)).lastSeq.isSome := by
    unfold Conv.owns
    split
    · rfl
    split <;> rfl
  by_cases hb : item.broadcasts
  · obtain ⟨-, -, hroute⟩ := route_of_broadcasts hd hb herr
    rw [hroute]
    set v := (t.appendTranscript (item.stored parent)).owns canon item (item.msg.rowsUnder parent)
      with hv
    obtain ⟨agents, hk⟩ := Conv.knownAgents_frame (s := v.appendShared item.sharedRows)
      item.row.role (item.routeAgent canon)
    have hknown : ((v.appendShared item.sharedRows).knownAgents item.row.role
        (item.routeAgent canon)).1 = (t.answers canon item).known := Conv.known_answers hb parent
    rw [Conv.logs_noteAppends _ _ (by rw [hk]; rfl), hk, hknown]
    ext1
    · exact htr
    · change v.shared ++ stampRows v.counter item.sharedRows = _
      rw [hsh, hco]
      rfl
    · exact funext hctx
    · funext a
      change (if a ∈ item.others canon _ then v.catchUp a ++ item.news a else v.catchUp a) = _
      simp only [Item.mem_others, hcu]
      rfl
    · change v.counter + item.sharedRows.length = _
      rw [hco]
      rfl
  · rw [route_of_silent hd hb, Conv.logs_noteAppends _ _ hlast]
    have hrows := Item.sharedRows_of_silent hb
    ext1
    · exact htr
    · refine hsh.trans ?_
      simp [Logs.add, hrows, stampRows, Conv.logs]
    · exact funext hctx
    · refine hcu.trans ?_
      simp [Logs.add, Conv.answers, hb, Conv.logs]
    · refine hco.trans ?_
      simp [Logs.add, hrows, Conv.logs, Conv.answers, hparent]

/-! ## What the store answers next -/

theorem stampRows_find (n : Nat) (rows : List Row) (p : Row → Bool)
    (hp : ∀ row seq, p { row with seq := seq } = p row) (h : ∀ row ∈ rows, p row = false) :
    ∀ row ∈ stampRows n rows, p row = false := by
  induction rows generalizing n with
  | nil => simp [stampRows]
  | cons first rows ih =>
    rw [List.forall_mem_cons] at h
    rw [stampRows, List.forall_mem_cons]
    exact ⟨(hp first _).trans h.1, ih (n + 1) h.2⟩

theorem Conv.rememberParents_mono {parents : Parents} (rows : List Row) {id : String}
    (h : parents.get? id ≠ none) : (Conv.rememberParents parents rows).get? id ≠ none := by
  unfold Conv.rememberParents
  induction rows generalizing parents with
  | nil => exact h
  | cons row rows ih =>
    refine ih ?_
    simp only
    split
    · by_cases hid : id = row.toolCallId
      · rw [hid, PyDict.get?_set_self]
        simp
      · rwa [PyDict.get?_set_of_ne _ _ hid]
    · exact h

theorem Conv.rememberParents_call {parents : Parents} {row : Row}
    (hrow : row ∈ rows) (hrole : row.role = "tool_call") (hid : row.toolCallId ≠ "")
    (hmsg : row.msgId ≠ "") : (Conv.rememberParents parents rows).get? row.toolCallId ≠ none := by
  obtain ⟨before, after, rfl⟩ := List.append_of_mem hrow
  unfold Conv.rememberParents
  rw [List.foldl_append, List.foldl_cons, if_pos ⟨hrole, hid, hmsg⟩]
  refine Conv.rememberParents_mono after ?_
  rw [PyDict.get?_set_self]
  simp

theorem Message.call_msgId {m : Message} (hvalid : m.row.validate = .ok ())
    {row : Row} (hrow : row ∈ m.rowsUnder parent) (hrole : row.role = "tool_call") :
    row.msgId ≠ "" := by
  unfold Message.rowsUnder Message.canonicalRows at hrow
  by_cases ha : m.row.role = "assistant"
  · simp only [ha, if_true, List.cons_append, List.mem_cons, List.mem_append,
      List.mem_map] at hrow
    rcases hrow with rfl | hthinking | ⟨call, -, rfl⟩
    · exact absurd hrole (by simp)
    · unfold Message.thinkingRows at hthinking
      split at hthinking
      · simp at hthinking
      · rw [List.mem_singleton.mp hthinking] at hrole
        exact absurd hrole (by simp)
    · exact call.msgId_ne
  by_cases hc : m.row.role = "tool_call"
  · simp only [hc, if_true] at hrow
    have hne := Message.validate_msgId hvalid (by rw [hc]; decide)
    simp at hrow
    rwa [hrow]
  by_cases ht : m.row.role = "tool" ∧ m.row.toolCallId ≠ ""
  · simp only [ht, ne_eq, not_false_eq_true, and_self, if_true] at hrow
    simp at hrow
    rw [hrow] at hrole
    exact absurd hrole (by simp)
  · simp only [ha, hc, ht, if_false, List.mem_singleton] at hrow
    exact absurd (hrow ▸ hrole) hc

theorem Message.call_noted {m : Message} (hvalid : m.row.validate = .ok ()) {id parent : String}
    (hid : id ≠ "") (h : (m.noteCalls []).get? id = none) :
    ∀ row ∈ m.rowsUnder parent, (row.role = "tool_call" && row.toolCallId = id) = false := by
  -- A row of the call would have been remembered, and remembering is noting.
  intro row hrow
  rw [← Message.rememberParents_rowsUnder hvalid parent] at h
  by_contra hcall
  simp only [Bool.not_eq_false, Bool.and_eq_true, decide_eq_true_eq] at hcall
  obtain ⟨hrole, rfl⟩ := hcall
  exact Conv.rememberParents_call hrow hrole hid (Message.call_msgId hvalid hrow hrole) h

/-- Everything a successful append can change beyond the transcript and the own context. -/
theorem appendMessage_frame (hd : ¬ item.isDelegate) (hcreated : t.created)
    (hseq : t.lastSeq.isSome) (h : appendMessage canon t item = (t', none)) :
    let parent := t.findParent item.row.toolCallId
    ∃ shared catchUp agents cache last,
      t' = { (t.appendTranscript (item.stored parent)).owns canon item
          (item.msg.rowsUnder parent) with
        shared := shared, catchUp := catchUp, appendAgents := agents, cache := cache
        lastSeq := some last } := by
  obtain ⟨herr, rfl⟩ := appendMessage_created hcreated hseq h
  intro parent
  set v := (t.appendTranscript (item.stored parent)).owns canon item (item.msg.rowsUnder parent)
    with hv
  obtain ⟨agents, cache, hnote⟩ := Conv.noteAppends_frame
    (s := (route canon (t.appendTranscript (item.stored parent)) item
      (item.msg.rowsUnder parent)).conv) (t.stamp (item.stored parent))
    (route canon (t.appendTranscript (item.stored parent)) item
      (item.msg.rowsUnder parent)).touched
  rw [hnote]
  by_cases hb : item.broadcasts
  · obtain ⟨-, -, hroute⟩ := route_of_broadcasts hd hb herr
    obtain ⟨agents', hk⟩ := Conv.knownAgents_frame (s := v.appendShared item.sharedRows)
      item.row.role (item.routeAgent canon)
    rw [hroute, ← hv, hk]
    exact ⟨_, _, _, _, _, rfl⟩
  · obtain ⟨last, hlast⟩ : ∃ last, v.lastSeq = some last := by
      rw [hv]
      unfold Conv.owns
      split
      · exact ⟨_, rfl⟩
      split <;> exact ⟨_, rfl⟩
    rw [route_of_silent hd hb, ← hv]
    refine ⟨v.shared, v.catchUp, agents, cache, last, ?_⟩
    rw [← hlast]

theorem appendMessage_keeps (hd : ¬ item.isDelegate) (hcreated : t.created)
    (hseq : t.lastSeq.isSome) (h : appendMessage canon t item = (t', none)) :
    t'.created = t.created ∧ t'.lastSeq.isSome ∧ t'.locked = t.locked ∧
      t'.convAgents = t.convAgents ∧ t'.metaMsgCount = t.metaMsgCount ∧
      t'.metaMaxSeq = t.metaMaxSeq ∧
      t'.toolParents = Conv.rememberParents t.toolParents
        (item.stored (t.findParent item.row.toolCallId)) := by
  obtain ⟨shared, catchUp, agents, cache, last, heq⟩ := appendMessage_frame hd hcreated hseq h
  obtain ⟨contexts, known, last', howns⟩ := @Conv.owns_frame canon
    (t.appendTranscript (item.stored (t.findParent item.row.toolCallId))) item
    (item.msg.rowsUnder (t.findParent item.row.toolCallId))
  rw [heq, howns]
  exact ⟨rfl, rfl, rfl, rfl, rfl, rfl, rfl⟩

/-- The calls a later answer can find: those of the item, else those before it. -/
theorem findParent_appendMessage (hd : ¬ item.isDelegate) (hcreated : t.created)
    (hseq : t.lastSeq.isSome) (h : appendMessage canon t item = (t', none)) (id : String) :
    t'.findParent id =
      (if item.isContext then none else (item.msg.noteCalls []).get? id).getD
        (t.findParent id) := by
  have hvalid : item.msg.row.validate = .ok () := by
    have hcheck := (appendMessage_eq_ok h).1
    unfold Item.check at hcheck
    cases hv : item.row.validate with
    | error e => simp [hv] at hcheck
    | ok _ => exact hv
  have hparents := (appendMessage_keeps hd hcreated hseq h).2.2.2.2.2.2
  have htranscript : t'.transcript = t.transcript ++ stampRows t.counter
      (item.stored (t.findParent item.row.toolCallId)) :=
    congrArg Logs.transcript (logs_appendMessage hd hcreated hseq h)
  by_cases hid : id = ""
  · subst hid
    simp [Conv.findParent, Message.noteCalls_empty]
  by_cases hc : item.isContext
  · simp only [hc, if_true, Option.getD_none]
    simp [Item.stored, hc, stampRows, Conv.rememberParents] at hparents htranscript
    simp [Conv.findParent, hparents, htranscript]
  · simp only [hc, Bool.false_eq_true, if_false]
    simp only [Item.stored, hc, Bool.false_eq_true, if_false] at hparents htranscript
    rw [Message.rememberParents_rowsUnder hvalid] at hparents
    unfold Conv.findParent
    rw [if_neg hid, if_neg hid, hparents, htranscript, Message.get?_noteCalls]
    cases hcall : (item.msg.noteCalls []).get? id with
    | some row =>
      have hne := Message.noteCalls_ne hvalid hcall
      simp [hne]
    | none =>
      have hrows := @Message.call_noted _ hvalid id (t.findParent item.row.toolCallId)
        hid hcall
      have hstamped := stampRows_find t.counter _
        (fun row => row.role = "tool_call" && row.toolCallId = id) (fun _ _ => rfl) hrows
      have hfind : ((t.transcript ++ stampRows t.counter
          (item.msg.rowsUnder (t.findParent item.row.toolCallId))).reverse.find? fun row =>
            row.role = "tool_call" && row.toolCallId = id) =
          t.transcript.reverse.find? fun row =>
            row.role = "tool_call" && row.toolCallId = id := by
        rw [List.reverse_append, List.find?_append, List.find?_eq_none.mpr, Option.none_or]
        intro row hrow
        simpa using hstamped row (List.mem_reverse.mp hrow)
      rw [hfind]
      rfl

theorem Conv.mem_ctxKnown_appendContext (agent : String) (rows : List Row) :
    agent ∈ (s.appendContext agent rows).ctxKnown := by
  by_cases h : agent ∈ s.ctxKnown <;> simp [Conv.appendContext, h]

variable {a : String}

theorem lacks_owns (rows : List Row) (ha : a ≠ "") :
    (s.owns canon item rows).lacks a ↔ s.lacks a ∧ item.owner canon ≠ a := by
  unfold Conv.owns
  by_cases howner : item.owner canon = ""
  · rw [if_pos howner, howner]
    exact ⟨fun h => ⟨h, Ne.symm ha⟩, And.left⟩
  · rw [if_neg howner]
    by_cases hown : item.owner canon = a
    · refine iff_of_false ?_ (fun h => h.2 hown)
      rintro ⟨hknown, -⟩
      exact hknown (hown ▸ Conv.mem_ctxKnown_appendContext _ _)
    · have hne : a ≠ item.owner canon := Ne.symm hown
      have happend : ∀ u : Conv, (u.appendContext (item.owner canon) rows).lacks a ↔ u.lacks a := by
        intro u
        unfold Conv.lacks Conv.appendContext
        rw [PyDict.get?_set_of_ne _ _ hne]
        dsimp only
        split <;> simp [hne]
      rw [happend]
      split
      · exact ⟨fun h => ⟨h, hown⟩, And.left⟩
      · unfold Conv.lacks
        rw [Conv.get?_seedContext_of_ne hne, Conv.mem_ctxKnown_seedContext_of_ne hne]
        exact ⟨fun h => ⟨h, hown⟩, And.left⟩

theorem lacks_appendMessage (hd : ¬ item.isDelegate) (hcreated : t.created)
    (hseq : t.lastSeq.isSome) (h : appendMessage canon t item = (t', none))
    (ha : a ≠ "") : t'.lacks a ↔ t.lacks a ∧ item.owner canon ≠ a := by
  obtain ⟨shared, catchUp, agents, cache, last, heq⟩ := appendMessage_frame hd hcreated hseq h
  rw [heq]
  exact lacks_owns (s := t.appendTranscript _) _ ha

/-! ## The agents known next -/

theorem mem_mergeAgents {new : List String} :
    a ∈ mergeAgents known new ↔ a ∈ known ∨ (a ∈ new ∧ a ≠ "") := by
  unfold mergeAgents
  by_cases h : a ∈ known <;> simp [h]

namespace Conv

def declared (s : Conv) : List String :=
  match s.cache with
  | some cache => cache.agents
  | none => s.convAgents

theorem noteAppends_nil_touched (rows : List Row) :
    (s.noteAppends rows []).appendAgents = s.appendAgents ∧
      (s.noteAppends rows []).declared = s.declared ∧
      ((s.noteAppends rows []).cache.isNone ↔ s.cache.isNone) := by
  unfold noteAppends
  induction rows generalizing s with
  | nil => exact ⟨rfl, rfl, Iff.rfl⟩
  | cons row rows ih =>
    obtain ⟨hagents, hdeclared, hnone⟩ := ih (s := noteAppend [] s row)
    rw [List.foldl_cons, hagents, hdeclared, hnone]
    unfold noteAppend declared
    cases hc : s.cache <;> simp [hc, mergeAgents]

theorem isNone_cache_noteAppends (rows : List Row) (touched : List String) :
    (s.noteAppends rows touched).cache.isNone = s.cache.isNone := by
  unfold noteAppends
  induction rows generalizing s with
  | nil => rfl
  | cons row rows ih =>
    rw [List.foldl_cons, ih]
    unfold noteAppend
    by_cases ht : touched.isEmpty <;> cases hc : s.cache <;> simp [ht, hc]

theorem appendAgents_noteAppends {rows : List Row} {touched : List String} (hrows : rows ≠ [])
    (htouched : touched ≠ []) : ∃ agents,
    (s.noteAppends rows touched).appendAgents = some agents ∧
      ∀ a, a ∈ agents ↔ a ∈ s.appendAgents.getD [] ∨ (a ∈ touched ∧ a ≠ "") := by
  unfold noteAppends
  induction rows generalizing s with
  | nil => exact absurd rfl hrows
  | cons row rows ih =>
    have hstep : (noteAppend touched s row).appendAgents =
        some (mergeAgents (s.appendAgents.getD []) touched) := by
      unfold noteAppend
      cases s.cache <;> simp [htouched]
    by_cases hrest : rows = []
    · subst hrest
      refine ⟨_, hstep, ?_⟩
      intro a
      exact mem_mergeAgents
    · obtain ⟨agents, hagents, hmem⟩ := ih (s := noteAppend touched s row) hrest
      refine ⟨agents, hagents, ?_⟩
      intro a
      rw [hmem, hstep, Option.getD_some, mem_mergeAgents]
      tauto

end Conv

theorem Item.stored_eq_nil : item.stored parent = [] ↔ item.isContext := by
  unfold Item.stored
  by_cases h : item.isContext
  · simp [h]
  · simp [h, Message.rowsUnder_ne_nil]

theorem Conv.stamp_eq_nil : s.stamp rows = [] ↔ rows = [] := by
  rw [← List.length_eq_zero_iff, Conv.stamp, length_stampRows, List.length_eq_zero_iff]

theorem isNone_cache_appendMessage (hd : ¬ item.isDelegate) (hcreated : t.created)
    (hseq : t.lastSeq.isSome) (h : appendMessage canon t item = (t', none)) :
    t'.cache.isNone = t.cache.isNone := by
  obtain ⟨herr, rfl⟩ := appendMessage_created hcreated hseq h
  rw [Conv.isNone_cache_noteAppends]
  obtain ⟨contexts, known, last', howns⟩ := @Conv.owns_frame canon
    (t.appendTranscript (item.stored (t.findParent item.row.toolCallId))) item
    (item.msg.rowsUnder (t.findParent item.row.toolCallId))
  by_cases hb : item.broadcasts
  · obtain ⟨-, -, hroute⟩ := route_of_broadcasts hd hb herr
    rw [hroute, Conv.knownAgents_eq, howns]
    split <;> rfl
  · rw [route_of_silent hd hb, howns]
    rfl

/-- An item without a broadcast: its agent is noted, unless it is an injection. -/
theorem appendAgents_of_silent (hd : ¬ item.isDelegate) (hb : ¬ item.broadcasts)
    (hcreated : t.created) (hseq : t.lastSeq.isSome) (h : appendMessage canon t item = (t', none)) :
    if item.isContext ∨ item.owner canon = "" then
      t'.appendAgents = t.appendAgents ∧ t'.declared = t.declared
    else ∃ agents, t'.appendAgents = some agents ∧
      ∀ a, a ∈ agents ↔ a ∈ t.appendAgents.getD [] ∨ a = item.owner canon := by
  obtain ⟨herr, rfl⟩ := appendMessage_created hcreated hseq h
  obtain ⟨contexts, known, last', howns⟩ := @Conv.owns_frame canon
    (t.appendTranscript (item.stored (t.findParent item.row.toolCallId))) item
    (item.msg.rowsUnder (t.findParent item.row.toolCallId))
  rw [route_of_silent hd hb, howns]
  by_cases hc : item.isContext
  · rw [if_pos (Or.inl hc), Item.stored_eq_nil.mpr hc]
    exact ⟨rfl, rfl⟩
  by_cases howner : item.owner canon = ""
  · rw [if_pos (Or.inr howner), Item.touches, if_pos howner]
    obtain ⟨hagents, hdeclared, -⟩ := Conv.noteAppends_nil_touched
      (s := { t.appendTranscript (item.stored (t.findParent item.row.toolCallId)) with
        contexts := contexts, ctxKnown := known, lastSeq := last' })
      (t.stamp (item.stored (t.findParent item.row.toolCallId)))
    exact ⟨hagents, hdeclared⟩
  · rw [if_neg (by simp [hc, howner]), Item.touches, if_neg howner]
    have hrows : t.stamp (item.stored (t.findParent item.row.toolCallId)) ≠ [] := by
      rwa [ne_eq, Conv.stamp_eq_nil, Item.stored_eq_nil]
    obtain ⟨agents, hagents, hmem⟩ := Conv.appendAgents_noteAppends
      (s := { t.appendTranscript (item.stored (t.findParent item.row.toolCallId)) with
        contexts := contexts, ctxKnown := known, lastSeq := last' }) hrows
      (List.cons_ne_nil (item.owner canon) [])
    refine ⟨agents, hagents, ?_⟩
    intro a
    rw [hmem]
    have hone : (a ∈ [item.owner canon] ∧ a ≠ "") ↔ a = item.owner canon := by
      rw [List.mem_singleton]
      exact ⟨And.left, fun ha => ⟨ha, ha ▸ howner⟩⟩
    rw [hone]
    rfl

/-- A broadcast: the agents it looked up and its own one are known. -/
theorem appendAgents_of_broadcasts (hd : ¬ item.isDelegate) (hb : item.broadcasts)
    (hcreated : t.created) (hseq : t.lastSeq.isSome) (h : appendMessage canon t item = (t', none)) :
    ∃ agents, t'.appendAgents = some agents ∧ ∀ a, a ≠ "" →
      (a ∈ agents ↔ (t.looksUp item.row.role (item.routeAgent canon) ∧ a ∈ t.directory) ∨
        a = item.owner canon) := by
  obtain ⟨herr, rfl⟩ := appendMessage_created hcreated hseq h
  obtain ⟨contexts, known, last', howns⟩ := @Conv.owns_frame canon
    (t.appendTranscript (item.stored (t.findParent item.row.toolCallId))) item
    (item.msg.rowsUnder (t.findParent item.row.toolCallId))
  have howner : item.owner canon = item.routeAgent canon :=
    Item.owner_of_not_displayOnly (Item.not_displayOnly_of_broadcasts hb)
  have hrows : t.stamp (item.stored (t.findParent item.row.toolCallId)) ≠ [] := by
    rw [ne_eq, Conv.stamp_eq_nil, Item.stored_eq_nil]
    exact Item.not_isContext_of_broadcasts hb
  obtain ⟨-, -, hroute⟩ := route_of_broadcasts hd hb herr
  rw [hroute, howns, Conv.knownAgents_eq]
  set v := Conv.appendShared _ item.sharedRows with hv
  have hlooks : v.looksUp item.row.role (item.routeAgent canon) =
      t.looksUp item.row.role (item.routeAgent canon) := rfl
  have hdir : v.directory = t.directory := rfl
  rw [hlooks, hdir]
  have htouch : ∀ known' a, a ∈ mergeAgents (item.touches canon) (item.others canon known') ↔
      (a = item.owner canon ∧ a ≠ "") ∨ a ∈ item.others canon known' := by
    intro known' a
    rw [mem_mergeAgents, Item.mem_others, Item.touches]
    by_cases hempty : item.owner canon = ""
    · simp only [hempty, if_true, List.not_mem_nil, false_or]
      tauto
    · simp only [hempty, if_false, List.mem_singleton]
      have hne : a = item.owner canon → a ≠ "" := fun ha => ha ▸ hempty
      tauto
  by_cases hl : t.looksUp item.row.role (item.routeAgent canon)
  · simp only [hl, if_true, true_and]
    set known' := if item.routeAgent canon ≠ "" ∧ item.routeAgent canon ∉ t.directory then
      t.directory ++ [item.routeAgent canon] else t.directory with hknown'
    have hothers : ∀ a, a ∈ item.others canon known' →
        a ∈ t.directory ∧ a ≠ "" ∧ a ≠ item.routeAgent canon := by
      intro a ha
      rw [Item.mem_others] at ha
      refine ⟨?_, ha.2⟩
      have hmem := ha.1
      rw [hknown'] at hmem
      split at hmem
      · rcases List.mem_append.mp hmem with hmem | hmem
        · exact hmem
        · exact absurd (List.mem_singleton.mp hmem) ha.2.2
      · exact hmem
    by_cases htouched : mergeAgents (item.touches canon) (item.others canon known') = []
    · rw [htouched, (Conv.noteAppends_nil_touched _).1]
      refine ⟨t.directory, rfl, ?_⟩
      intro a ha
      have hno : a ≠ item.owner canon := by
        intro hown
        have hmem := (htouch known' a).mpr (Or.inl ⟨hown, ha⟩)
        rw [htouched] at hmem
        exact absurd hmem List.not_mem_nil
      simp [hno]
    · obtain ⟨agents, hagents, hmem⟩ := Conv.appendAgents_noteAppends
        (s := Conv.queue { v with appendAgents := some t.directory }
          (item.others canon known') item.news) hrows htouched
      refine ⟨agents, hagents, ?_⟩
      intro a ha
      rw [hmem, htouch]
      change a ∈ t.directory ∨ _ ↔ _
      have := hothers a
      tauto
  · simp only [hl, if_false, false_and, false_or, Bool.false_eq_true]
    have hcold : item.routeAgent canon ≠ "" ∧ t.appendAgents = none := by
      simp only [Conv.looksUp, Bool.not_eq_true', Bool.not_eq_false, Bool.and_eq_true,
        decide_eq_true_eq, Option.isNone_iff_eq_none] at hl
      exact ⟨hl.1.1.2, hl.1.2⟩
    have htouched : mergeAgents (item.touches canon)
        (item.others canon [item.routeAgent canon]) ≠ [] := by
      intro hnil
      have hmem := (htouch [item.routeAgent canon] (item.owner canon)).mpr
        (Or.inl ⟨rfl, howner ▸ hcold.1⟩)
      rw [hnil] at hmem
      exact absurd hmem List.not_mem_nil
    obtain ⟨agents, hagents, hmem⟩ := Conv.appendAgents_noteAppends
      (s := Conv.queue v (item.others canon [item.routeAgent canon]) item.news) hrows htouched
    refine ⟨agents, hagents, ?_⟩
    intro a ha
    have hnone : (Conv.queue v (item.others canon [item.routeAgent canon])
        item.news).appendAgents = none := hcold.2
    rw [hmem, htouch, hnone, Item.mem_others, List.mem_singleton, howner]
    simp only [Option.getD_none, List.not_mem_nil, false_or]
    tauto

/-! ## The conversation of an append -/

/-- The conversation, created if it does not exist, with its counter. -/
def Conv.opening (s : Conv) : Conv := if s.created then s.advance 0 else (s.advance 0).create

theorem Conv.opened_eq_ok {userId : String} {u : Conv} (h : (s.advance 0).opened userId = .ok u) :
    u = s.opening := by
  unfold Conv.opened at h
  unfold Conv.opening
  by_cases hc : s.created
  · rw [if_pos hc]
    rw [if_pos (show (s.advance 0).created from hc), Except.ok.injEq] at h
    exact h.symm
  · rw [if_neg hc]
    rw [if_neg (show ¬ (s.advance 0).created from hc)] at h
    split at h
    · simp at h
    · exact (Except.ok.inj h).symm

theorem Conv.created_opening : s.opening.created = true := by
  unfold Conv.opening
  split
  · assumption
  · rfl

theorem Conv.lastSeq_opening : s.opening.lastSeq.isSome = true := by
  unfold Conv.opening
  split <;> rfl

theorem Conv.locked_opening : s.opening.locked = s.locked := by
  unfold Conv.opening
  split <;> rfl

theorem Conv.opened_opening (userId : String) :
    (s.opening.advance 0).opened userId = .ok s.opening := by
  rw [Conv.advance_zero Conv.lastSeq_opening, Conv.opened, if_pos Conv.created_opening]

theorem appendMessage_opening (h : appendMessage canon s item = (t', none)) :
    (s.advance 0).opened item.userId = .ok s.opening ∧
      appendMessage canon s.opening item = (t', none) := by
  obtain ⟨hcheck, hlocked, u, hopen, -⟩ := appendMessage_eq_ok h
  have hu := Conv.opened_eq_ok hopen
  subst hu
  refine ⟨hopen, ?_⟩
  have hlocked' : (s.opening.advance 0).locked = false := Conv.locked_opening.trans hlocked
  rw [← h]
  unfold appendMessage
  rw [hcheck]
  simp only [hlocked', show (s.advance 0).locked = false from hlocked, Bool.false_eq_true,
    if_false, hopen, Conv.opened_opening]

end

end PawFlow.Conversation
