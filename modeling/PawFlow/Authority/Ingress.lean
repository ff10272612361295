import PawFlow.Lib.PyDict
import PawFlow.Lib.PyString
import PawFlow.Lib.Runs

/-!
# User authority

The directives of a user make up the lineage under which an agent works: a document for each
lineage, and one table with the revision that is active for each agent. `record_user_ingress` of
`core/authorization_context.py` writes both, and `load_authority` of `core/tool_authorization.py`
reads them.

Calls run next to each other. A document is revised under its own lock, in one step; the table is an
extra of the conversation that is read in one step and written back in another.
-/

namespace PawFlow.Authority

open PawFlow.Lib

/-! ## Documents -/

/-- `AuthorizationRef`. -/
structure Ref where
  contextId : String
  revision : Nat
  rootTurnId : String
deriving DecidableEq

inductive Operation where
  | root
  | revise
deriving DecidableEq

structure Directive where
  messageId : String
  content : String
  operation : Operation
deriving DecidableEq

/-- A document, by the user under whose directory it is. -/
structure Doc where
  user : String
  rootTurnId : String
  rootMessageId : String
  revision : Nat
  directives : List Directive
deriving DecidableEq

namespace Doc

variable (doc : Doc)

def ref (contextId : String) : Ref := ⟨contextId, doc.revision, doc.rootTurnId⟩

/-- The next revision. -/
def append (directive : Directive) : Doc :=
  { doc with revision := doc.revision + 1, directives := doc.directives ++ [directive] }

/-- Revision `r` of the lineage: its first `r` directives. -/
def upTo (r : Nat) : Doc := { doc with revision := r, directives := doc.directives.take r }

/-- As many directives as the revision says. -/
def WellFormed : Prop := 1 ≤ doc.revision ∧ doc.directives.length = doc.revision

end Doc

/-! ## Calls -/

/-- The arguments of `record_user_ingress`. -/
structure Message where
  user : String
  agent : String
  messageId : String
  turnId : String
  content : String
  steering : Bool
deriving DecidableEq

def directiveText (content : String) : String := .ofList ((strip content).toList.take 32000)

abbrev ActiveRefs := PyDict String Ref

/-- How far a call is. -/
inductive Phase where
  | ingress
  | revising (contextId : String)
  | creating
  | recorded (ref : Ref)
  | writing (ref : Ref) (table : ActiveRefs)
deriving DecidableEq

structure Call where
  msg : Message
  phase : Phase
deriving DecidableEq

structure State where
  docs : PyDict String Doc := []
  /-- Earlier revisions, oldest entry first. -/
  cache : PyDict (String × Nat) Doc := []
  table : ActiveRefs := []
  /-- The conversation exists; its extras can be written. -/
  stored : Bool := false
  calls : Nat → Option Call := fun _ => none
  /-- The agents of the calls that returned a reference. -/
  received : List String := []

inductive Act where
  | createConversation
  | start (call : Nat) (msg : Message)
  | readActive (call : Nat)
  | revise (call : Nat)
  | create (call : Nat) (contextId : String)
  | readTable (call : Nat)
  | writeTable (call : Nat)

def cacheLimit : Nat := 256

def remember (cache : PyDict (String × Nat) Doc) (contextId : String) (doc : Doc) :
    PyDict (String × Nat) Doc :=
  let cache := cache.set (contextId, doc.revision) doc
  cache.drop (cache.length - cacheLimit)

namespace State

variable (s : State)

/-- `_write` and `_remember`. -/
def put (contextId : String) (doc : Doc) : State :=
  { s with docs := s.docs.set contextId doc, cache := remember s.cache contextId doc }

/-- The extra, as `get_extra` reads it. -/
def readTable : ActiveRefs := if s.stored then s.table else []

def snapshot (user contextId : String) (revision : Nat) : Option Doc :=
  match s.docs.get? contextId with
  | none => none
  | some doc =>
    if doc.user ≠ user then none
    else if revision = doc.revision then some doc
    else s.cache.get? (contextId, revision)

def setCall (call : Nat) (value : Option Call) : State :=
  { s with calls := Function.update s.calls call value }

section

variable (contextId : String) (doc : Doc) (call : Nat) (value : Option Call)

@[simp] theorem put_docs : (s.put contextId doc).docs = s.docs.set contextId doc := rfl
@[simp] theorem put_cache : (s.put contextId doc).cache = remember s.cache contextId doc := by
  simp only [put]
@[simp] theorem put_table : (s.put contextId doc).table = s.table := rfl
@[simp] theorem put_calls : (s.put contextId doc).calls = s.calls := rfl
@[simp] theorem put_received : (s.put contextId doc).received = s.received := rfl
@[simp] theorem put_stored : (s.put contextId doc).stored = s.stored := rfl
@[simp] theorem setCall_docs : (s.setCall call value).docs = s.docs := rfl
@[simp] theorem setCall_cache : (s.setCall call value).cache = s.cache := rfl
@[simp] theorem setCall_table : (s.setCall call value).table = s.table := rfl
@[simp] theorem setCall_received : (s.setCall call value).received = s.received := rfl
@[simp] theorem setCall_stored : (s.setCall call value).stored = s.stored := rfl
@[simp] theorem setCall_calls :
    (s.setCall call value).calls = Function.update s.calls call value := rfl

end

variable (lower : String → String)

/-- `active_authority_ref`. -/
def activeRef (agent : String) : Option Ref :=
  (s.readTable.get? agent).or (s.readTable.get? (lower agent))

/-- `load_authority` by the active reference. -/
def loadAuthority (user agent : String) : Option Doc :=
  match s.activeRef lower agent with
  | none => none
  | some ref => s.snapshot user ref.contextId ref.revision

end State

/-- The document of a new lineage. -/
def Message.root (msg : Message) : Doc where
  user := msg.user
  rootTurnId := msg.turnId
  rootMessageId := msg.messageId
  revision := 1
  directives := [⟨msg.messageId, directiveText msg.content, .root⟩]

def Message.directive (msg : Message) : Directive :=
  ⟨msg.messageId, directiveText msg.content, .revise⟩

/-- The next step of a call, in the phase it is in. -/
def step (lower : String → String) (s : State) : Act → Option State
  | .createConversation => some { s with stored := true }
  | .start call msg =>
    match s.calls call with
    | some _ => none
    | none =>
      if msg.user = "" ∨ msg.agent = "" ∨ strip msg.content = "" then some s
      else some (s.setCall call (some ⟨msg, if msg.steering then .ingress else .creating⟩))
  | .readActive call =>
    match s.calls call with
    | some ⟨msg, .ingress⟩ =>
      some (s.setCall call (some ⟨msg, match s.activeRef lower msg.agent with
        | some ref => .revising ref.contextId
        | none => .creating⟩))
    | _ => none
  | .revise call =>
    match s.calls call with
    | some ⟨msg, .revising contextId⟩ =>
      match s.docs.get? contextId with
      | some doc =>
        if doc.user = msg.user then
          let doc := doc.append msg.directive
          some ((s.put contextId doc).setCall call
            (some ⟨msg, .recorded (doc.ref contextId)⟩))
        else some (s.setCall call (some ⟨msg, .creating⟩))
      | none => some (s.setCall call (some ⟨msg, .creating⟩))
    | _ => none
  | .create call contextId =>
    match s.calls call, s.docs.get? contextId with
    | some ⟨msg, .creating⟩, none =>
      some ((s.put contextId msg.root).setCall call
        (some ⟨msg, .recorded (msg.root.ref contextId)⟩))
    | _, _ => none
  | .readTable call =>
    match s.calls call with
    | some ⟨msg, .recorded ref⟩ =>
      some (s.setCall call (some ⟨msg, .writing ref s.readTable⟩))
    | _ => none
  | .writeTable call =>
    match s.calls call with
    | some ⟨msg, .writing ref table⟩ =>
      let s := { s.setCall call none with received := msg.agent :: s.received }
      some (if s.stored then { s with table := table.set msg.agent ref } else s)
    | _ => none

/-! ## Revisions -/

namespace Doc

variable {doc : Doc} {r : Nat}

theorem upTo_self (h : doc.WellFormed) : doc.upTo doc.revision = doc := by
  unfold upTo
  rw [List.take_of_length_le h.2.le]

theorem WellFormed.append (h : doc.WellFormed) (directive : Directive) :
    (doc.append directive).WellFormed := by
  refine ⟨Nat.le_succ_of_le h.1, ?_⟩
  change (doc.directives ++ [directive]).length = doc.revision + 1
  rw [List.length_append, h.2]
  rfl

theorem upTo_append (h : doc.WellFormed) (directive : Directive) (hr : r ≤ doc.revision) :
    (doc.append directive).upTo r = doc.upTo r := by
  unfold upTo Doc.append
  dsimp only
  rw [List.take_append_of_le_length (h.2 ▸ hr)]

end Doc

theorem Message.wellFormed_root (msg : Message) : msg.root.WellFormed := ⟨le_rfl, rfl⟩

/-- A document that has grown: the revisions it had are the same. -/
def Extends (doc doc' : Doc) : Prop :=
  doc.revision ≤ doc'.revision ∧ doc'.user = doc.user ∧
    ∀ r ≤ doc.revision, doc'.upTo r = doc.upTo r

theorem Extends.refl (doc : Doc) : Extends doc doc := ⟨le_rfl, rfl, fun _ _ => rfl⟩

theorem Extends.trans {a b c : Doc} (h : Extends a b) (h' : Extends b c) : Extends a c := by
  refine ⟨h.1.trans h'.1, h'.2.1.trans h.2.1, ?_⟩
  intro r hr
  rw [h'.2.2 r (hr.trans h.1), h.2.2 r hr]

theorem extends_append {doc : Doc} (h : doc.WellFormed) (directive : Directive) :
    Extends doc (doc.append directive) :=
  ⟨Nat.le_succ _, rfl, fun _ hr => Doc.upTo_append h directive hr⟩

namespace State

/-- Every document is well formed, and what the cache has is an earlier revision of it. -/
structure Consistent (s : State) : Prop where
  nodup : (s.cache.map Prod.fst).Nodup
  docs : ∀ contextId doc, s.docs.get? contextId = some doc → doc.WellFormed
  cache : ∀ contextId r old, s.cache.get? (contextId, r) = some old → ∃ doc,
    s.docs.get? contextId = some doc ∧ r ≤ doc.revision ∧ old = doc.upTo r

/-- Documents are never taken away, and only grow. -/
def Grows (s t : State) : Prop :=
  ∀ contextId doc, s.docs.get? contextId = some doc → ∃ doc',
    t.docs.get? contextId = some doc' ∧ Extends doc doc'

theorem Grows.refl (s : State) : s.Grows s := fun _ doc h => ⟨doc, h, Extends.refl doc⟩

theorem Grows.trans {s t u : State} (h : s.Grows t) (h' : t.Grows u) : s.Grows u := by
  intro contextId doc hdoc
  obtain ⟨doc', hdoc', hext⟩ := h contextId doc hdoc
  obtain ⟨doc'', hdoc'', hext'⟩ := h' contextId doc' hdoc'
  exact ⟨doc'', hdoc'', hext.trans hext'⟩

end State

section

variable {lower : String → String} {s t : State} {act : Act}

/-- What a step does to the documents. -/
theorem step_docs (h : step lower s act = some t) :
    (t.docs = s.docs ∧ t.cache = s.cache) ∨
      ∃ contextId doc, t.docs = s.docs.set contextId doc ∧ t.cache = remember s.cache contextId doc ∧
        ((∃ msg : Message, s.docs.get? contextId = none ∧ doc = msg.root) ∨
          ∃ old directive, s.docs.get? contextId = some old ∧ doc = old.append directive) := by
  cases act with
  | createConversation =>
    cases h
    exact Or.inl ⟨rfl, rfl⟩
  | start call msg =>
    simp only [step] at h
    split at h
    · cases h
    · split at h <;> cases h <;> exact Or.inl ⟨rfl, rfl⟩
  | readActive call =>
    simp only [step] at h
    split at h
    · cases h
      exact Or.inl ⟨rfl, rfl⟩
    · cases h
  | revise call =>
    simp only [step] at h
    split at h
    · rename_i msg contextId _
      split at h
      · rename_i doc hdoc
        split at h
        · cases h
          exact Or.inr ⟨contextId, doc.append msg.directive, by simp, by simp,
            Or.inr ⟨doc, _, hdoc, rfl⟩⟩
        · cases h
          exact Or.inl ⟨rfl, rfl⟩
      · cases h
        exact Or.inl ⟨rfl, rfl⟩
    · cases h
  | create call contextId =>
    simp only [step] at h
    split at h
    · rename_i msg _ hdoc
      cases h
      exact Or.inr ⟨contextId, msg.root, by simp, by simp, Or.inl ⟨msg, hdoc, rfl⟩⟩
    · cases h
  | readTable call =>
    simp only [step] at h
    split at h
    · cases h
      exact Or.inl ⟨rfl, rfl⟩
    · cases h
  | writeTable call =>
    simp only [step] at h
    split at h
    · cases h
      left
      split <;> exact ⟨rfl, rfl⟩
    · cases h

namespace State

theorem grows_step (hs : s.Consistent) (h : step lower s act = some t) : s.Grows t := by
  intro contextId doc hdoc
  rcases step_docs h with ⟨hdocs, -⟩ | ⟨context, new, hdocs, -, hnew⟩
  · exact ⟨doc, hdocs ▸ hdoc, Extends.refl doc⟩
  by_cases hc : contextId = context
  · subst hc
    refine ⟨new, ?_, ?_⟩
    · rw [hdocs, PyDict.get?_set_self]
    · rcases hnew with ⟨msg, hnone, -⟩ | ⟨old, directive, hold, rfl⟩
      · rw [hdoc] at hnone
        cases hnone
      · obtain rfl : doc = old := Option.some.inj (hdoc.symm.trans hold)
        exact extends_append (hs.docs _ _ hdoc) directive
  · refine ⟨doc, ?_, Extends.refl doc⟩
    rw [hdocs, PyDict.get?_set_of_ne _ _ hc]
    exact hdoc

end State

theorem get?_drop {κ ν : Type*} [DecidableEq κ] {d : PyDict κ ν} (hnodup : (d.map Prod.fst).Nodup)
    {n : Nat} {k : κ} {v : ν} (h : PyDict.get? (d.drop n) k = some v) : d.get? k = some v :=
  PyDict.get?_of_mem hnodup (List.mem_of_mem_drop (PyDict.mem_of_get? h))

namespace State

theorem Consistent.step (hs : s.Consistent) (h : Authority.step lower s act = some t) :
    t.Consistent := by
  have hgrows := grows_step hs h
  rcases step_docs h with ⟨hdocs, hcache⟩ | ⟨context, new, hdocs, hcache, hnew⟩
  · refine ⟨hcache ▸ hs.nodup, hdocs ▸ hs.docs, ?_⟩
    rw [hcache, hdocs]
    exact hs.cache
  have hwell : new.WellFormed := by
    rcases hnew with ⟨msg, -, rfl⟩ | ⟨old, directive, hold, rfl⟩
    · exact msg.wellFormed_root
    · exact (hs.docs _ _ hold).append directive
  have hset : ((s.cache.set (context, new.revision) new).map Prod.fst).Nodup :=
    PyDict.nodup_keys_set _ hs.nodup
  refine ⟨?_, ?_, ?_⟩
  · rw [hcache]
    unfold remember
    exact hset.sublist ((List.drop_sublist _ _).map _)
  · intro contextId doc hdoc
    rw [hdocs] at hdoc
    by_cases hc : contextId = context
    · subst hc
      rw [PyDict.get?_set_self, Option.some.injEq] at hdoc
      exact hdoc ▸ hwell
    · rw [PyDict.get?_set_of_ne _ _ hc] at hdoc
      exact hs.docs contextId doc hdoc
  · intro contextId r old hold
    rw [hcache] at hold
    replace hold := get?_drop hset hold
    by_cases hc : (contextId, r) = (context, new.revision)
    · rw [Prod.mk.injEq] at hc
      obtain ⟨rfl, rfl⟩ := hc
      rw [PyDict.get?_set_self, Option.some.injEq] at hold
      subst hold
      refine ⟨new, ?_, le_rfl, (Doc.upTo_self hwell).symm⟩
      rw [hdocs, PyDict.get?_set_self]
    · -- An earlier revision is the same in the document that has grown.
      rw [PyDict.get?_set_of_ne _ _ hc] at hold
      obtain ⟨doc, hdoc, hr, rfl⟩ := hs.cache contextId r old hold
      obtain ⟨doc', hdoc', hext⟩ := hgrows contextId doc hdoc
      exact ⟨doc', hdoc', hr.trans hext.1, (hext.2.2 r hr).symm⟩

theorem consistent_new : ({} : State).Consistent :=
  ⟨List.nodup_nil, by simp [PyDict.get?], by simp [PyDict.get?]⟩

theorem Consistent.snapshot (hs : s.Consistent) {user contextId : String} {r : Nat} {doc : Doc}
    (h : s.snapshot user contextId r = some doc) : ∃ whole, s.docs.get? contextId = some whole ∧
      r ≤ whole.revision ∧ doc = whole.upTo r := by
  unfold State.snapshot at h
  split at h
  · cases h
  rename_i whole hwhole
  split at h
  · cases h
  split at h
  · rename_i hr
    cases h
    exact ⟨doc, hwhole, hr.le, hr ▸ (Doc.upTo_self (hs.docs _ _ hwhole)).symm⟩
  · obtain ⟨doc', hdoc', hr, rfl⟩ := hs.cache _ _ _ h
    exact ⟨doc', hdoc', hr, rfl⟩

end State

end

/-! ## Active references -/

/-- The lineage that a call works on. -/
def Phase.contextId? : Phase → Option String
  | .revising contextId => some contextId
  | .recorded ref => some ref.contextId
  | .writing ref _ => some ref.contextId
  | _ => none

/-- The revision that a call has written and will make active. -/
def Phase.ref? : Phase → Option Ref
  | .recorded ref => some ref
  | .writing ref _ => some ref
  | _ => none

namespace State

variable (s : State)

/-- The names under which agents have an entry or a running call. -/
def Named (name : String) : Prop :=
  (s.table.get? name).isSome ∨ ∃ i c, s.calls i = some c ∧ c.msg.agent = name

/-- The lineage is active for the agent, or a call of the agent works on it. -/
def Holds (agent contextId : String) : Prop :=
  (∃ ref, s.table.get? agent = some ref ∧ ref.contextId = contextId) ∨
    ∃ i c, s.calls i = some c ∧ c.msg.agent = agent ∧ c.phase.contextId? = some contextId

/-- The revision is the latest one of its lineage, or another call is about to make that active. -/
def Latest (ref : Ref) (call : Nat → Prop) : Prop :=
  ∃ doc, s.docs.get? ref.contextId = some doc ∧
    (ref.revision = doc.revision ∨ ∃ i c newer, call i ∧ s.calls i = some c ∧
      c.phase.ref? = some newer ∧ newer.contextId = ref.contextId ∧
      newer.revision = doc.revision)

end State

/-- What keeps the active references right: every agent is always spelled the same way; and a table
is written back only to an existing conversation, with the entries that the other agents have now,
and with a reference that is the latest of its lineage or is about to be followed by it. -/
def Act.KeepsAuthority (lower : String → String) (s : State) : Act → Prop
  | .start _ msg => ∀ name, s.Named name → name ≠ msg.agent →
      name ≠ lower msg.agent ∧ lower name ≠ msg.agent
  | .writeTable call => ∀ msg ref table, s.calls call = some ⟨msg, .writing ref table⟩ →
      s.stored = true ∧ (∀ agent, agent ≠ msg.agent → table.get? agent = s.table.get? agent) ∧
        s.Latest ref (· ≠ call)
  | _ => True

/-- Each lineage belongs to one agent, and the latest revision of an active one is active or about
to be. -/
structure State.Tracked (lower : String → String) (s : State) : Prop where
  spelled : ∀ a b, s.Named a → s.Named b → a ≠ b → a ≠ lower b
  owned : ∀ a b contextId, s.Holds a contextId → s.Holds b contextId → a = b
  known : ∀ a contextId, s.Holds a contextId → ∃ doc, s.docs.get? contextId = some doc
  latest : ∀ a ref, s.table.get? a = some ref → s.Latest ref fun _ => True
  received : ∀ a ∈ s.received, (s.table.get? a).isSome
  stored : ∀ a, (s.table.get? a).isSome → s.stored = true

namespace State.Tracked

variable {lower : String → String} {s : State} {i : Nat} {c new : Call}

theorem named_of_call (hcall : s.calls i = some c) : s.Named c.msg.agent := Or.inr ⟨i, c, hcall, rfl⟩

/-- A call that goes on, with the documents as they are. -/
theorem setCall (h : s.Tracked lower)
    (hname : ∀ a, s.Named a → a ≠ new.msg.agent → a ≠ lower new.msg.agent ∧ lower a ≠ new.msg.agent)
    (hholds : ∀ contextId, new.phase.contextId? = some contextId →
      s.Holds new.msg.agent contextId)
    (href : ∀ c ref, s.calls i = some c → c.phase.ref? = some ref → new.phase.ref? = some ref) :
    (s.setCall i (some new)).Tracked lower := by
  have hnamed : ∀ a, (s.setCall i (some new)).Named a → s.Named a ∨ a = new.msg.agent := by
    rintro a (htable | ⟨j, c, hc, rfl⟩)
    · exact Or.inl (Or.inl htable)
    · by_cases hj : j = i
      · subst hj
        rw [setCall_calls, Function.update_self, Option.some.injEq] at hc
        exact Or.inr (hc ▸ rfl)
      · rw [setCall_calls, Function.update_of_ne hj] at hc
        exact Or.inl (Or.inr ⟨j, c, hc, rfl⟩)
  have hheld : ∀ a contextId, (s.setCall i (some new)).Holds a contextId → s.Holds a contextId := by
    rintro a contextId (htable | ⟨j, c, hc, rfl, hctx⟩)
    · exact Or.inl htable
    · by_cases hj : j = i
      · subst hj
        rw [setCall_calls, Function.update_self, Option.some.injEq] at hc
        subst hc
        exact hholds contextId hctx
      · rw [setCall_calls, Function.update_of_ne hj] at hc
        exact Or.inr ⟨j, c, hc, rfl, hctx⟩
  refine ⟨?_, ?_, ?_, ?_, h.received, h.stored⟩
  · intro a b ha hb hne
    rcases hnamed a ha with ha | rfl
    · rcases hnamed b hb with hb | rfl
      · exact h.spelled a b ha hb hne
      · exact (hname a ha hne).1
    · rcases hnamed b hb with hb | rfl
      · exact Ne.symm (hname b hb (Ne.symm hne)).2
      · exact absurd rfl hne
  · intro a b contextId ha hb
    exact h.owned a b contextId (hheld a contextId ha) (hheld b contextId hb)
  · intro a contextId ha
    exact h.known a contextId (hheld a contextId ha)
  · intro a ref ha
    obtain ⟨doc, hdoc, hlatest⟩ := h.latest a ref ha
    refine ⟨doc, hdoc, hlatest.imp_right ?_⟩
    rintro ⟨j, c, newer, -, hc, hnewer, hsame, hrev⟩
    by_cases hj : j = i
    · subst hj
      exact ⟨j, new, newer, trivial, by simp, href c newer hc hnewer, hsame, hrev⟩
    · exact ⟨j, c, newer, trivial, by simpa [Function.update_of_ne hj] using hc, hnewer, hsame, hrev⟩

theorem advance (h : s.Tracked lower) (hcall : s.calls i = some c) (hmsg : new.msg = c.msg)
    (hholds : ∀ contextId, new.phase.contextId? = some contextId →
      s.Holds c.msg.agent contextId)
    (href : ∀ ref, c.phase.ref? = some ref → new.phase.ref? = some ref) :
    (s.setCall i (some new)).Tracked lower := by
  have hself := named_of_call hcall
  refine h.setCall ?_ (hmsg ▸ hholds) ?_
  · intro a ha hne
    rw [hmsg] at hne ⊢
    exact ⟨h.spelled a _ ha hself hne, Ne.symm (h.spelled _ a hself ha (Ne.symm hne))⟩
  · intro c' ref hc' hc
    obtain rfl : c = c' := Option.some.inj (hcall.symm.trans hc')
    exact href ref hc

theorem activeRef (h : s.Tracked lower) {agent : String} (hname : s.Named agent) :
    s.activeRef lower agent = s.table.get? agent := by
  unfold State.activeRef State.readTable
  by_cases hstored : s.stored
  · rw [if_pos hstored]
    cases hown : s.table.get? agent with
    | some ref => rfl
    | none =>
      rw [Option.none_or]
      cases hlower : s.table.get? (lower agent) with
      | none => rfl
      | some ref =>
        have hlowerNamed : s.Named (lower agent) := Or.inl (by simp [hlower])
        by_cases heq : lower agent = agent
        · rw [heq, hown] at hlower
          cases hlower
        · exact absurd rfl (h.spelled _ _ hlowerNamed hname heq)
  · rw [if_neg hstored]
    cases hown : s.table.get? agent with
    | none => rfl
    | some ref => exact absurd (h.stored agent (by simp [hown])) hstored

/-- A new revision, of a lineage of the agent or of a lineage of its own. -/
theorem write (h : s.Tracked lower) {msg : Message} {phase : Phase} {contextId : String} {doc : Doc}
    (hcall : s.calls i = some ⟨msg, phase⟩) (hphase : phase.ref? = none)
    (hheld : phase.contextId? = some contextId ∨ s.docs.get? contextId = none) :
    ((s.put contextId doc).setCall i
      (some ⟨msg, .recorded (doc.ref contextId)⟩)).Tracked lower := by
  set t := (s.put contextId doc).setCall i (some ⟨msg, .recorded (doc.ref contextId)⟩) with ht
  have hself : t.calls i = some ⟨msg, .recorded (doc.ref contextId)⟩ := by simp [ht]
  have hother : ∀ j, j ≠ i → t.calls j = s.calls j := by
    intro j hj
    simp [ht, Function.update_of_ne hj]
  have hnamed : ∀ a, t.Named a → s.Named a := by
    rintro a (htable | ⟨j, c, hc, rfl⟩)
    · exact Or.inl htable
    · by_cases hj : j = i
      · subst hj
        rw [hself, Option.some.injEq] at hc
        subst hc
        exact Or.inr ⟨j, _, hcall, rfl⟩
      · rw [hother j hj] at hc
        exact Or.inr ⟨j, c, hc, rfl⟩
  have hheld' : ∀ a context, t.Holds a context → s.Holds a context ∨
      (a = msg.agent ∧ context = contextId) := by
    rintro a context (htable | ⟨j, c, hc, rfl, hctx⟩)
    · exact Or.inl (Or.inl htable)
    · by_cases hj : j = i
      · subst hj
        rw [hself, Option.some.injEq] at hc
        subst hc
        exact Or.inr ⟨rfl, (Option.some.inj hctx).symm⟩
      · rw [hother j hj] at hc
        exact Or.inl (Or.inr ⟨j, c, hc, rfl, hctx⟩)
  have hnobody : ∀ a, s.Holds a contextId → a = msg.agent := by
    intro a ha
    rcases hheld with hctx | hnone
    · exact h.owned a _ contextId ha (Or.inr ⟨i, _, hcall, rfl, hctx⟩)
    · obtain ⟨doc', hdoc'⟩ := h.known a contextId ha
      rw [hnone] at hdoc'
      cases hdoc'
  have hdocs : ∀ context, context ≠ contextId → t.docs.get? context = s.docs.get? context := by
    intro context hne
    exact PyDict.get?_set_of_ne _ _ hne
  have hdoc : t.docs.get? contextId = some doc := PyDict.get?_set_self _ _ _
  refine ⟨fun a b ha hb => h.spelled a b (hnamed a ha) (hnamed b hb), ?_, ?_, ?_, h.received,
    h.stored⟩
  · intro a b context ha hb
    rcases hheld' a context ha with ha' | ⟨rfl, rfl⟩
    · rcases hheld' b context hb with hb' | ⟨rfl, rfl⟩
      · exact h.owned a b context ha' hb'
      · exact hnobody a ha'
    · rcases hheld' b context hb with hb' | ⟨rfl, -⟩
      · exact (hnobody b hb').symm
      · rfl
  · intro a context ha
    by_cases hc : context = contextId
    · exact ⟨doc, hc ▸ hdoc⟩
    · rw [hdocs context hc]
      rcases hheld' a context ha with ha' | ⟨-, heq⟩
      · exact h.known a context ha'
      · exact absurd heq hc
  · intro a ref ha
    by_cases hc : ref.contextId = contextId
    · -- The call that wrote it will make it active.
      exact ⟨doc, hc ▸ hdoc, Or.inr ⟨i, _, doc.ref contextId, trivial, hself, rfl, hc.symm, rfl⟩⟩
    · obtain ⟨doc', hdoc', hlatest⟩ := h.latest a ref ha
      refine ⟨doc', hdocs _ hc ▸ hdoc', hlatest.imp_right ?_⟩
      rintro ⟨j, c, newer, -, hj, hnewer, hsame, hrev⟩
      have hne : j ≠ i := by
        rintro rfl
        rw [hcall, Option.some.injEq] at hj
        rw [← hj, hphase] at hnewer
        cases hnewer
      exact ⟨j, c, newer, trivial, (hother j hne).trans hj, hnewer, hsame, hrev⟩

end State.Tracked

/-! ## Runs -/

/-- The call of a step. -/
def Act.call? : Act → Option Nat
  | .createConversation => none
  | .start call _ => some call
  | .readActive call => some call
  | .revise call => some call
  | .create call _ => some call
  | .readTable call => some call
  | .writeTable call => some call

section

variable {lower : String → String} {s t : State} {act : Act}

theorem step_writeTable {i : Nat} (h : step lower s (.writeTable i) = some t) :
    ∃ msg ref table, s.calls i = some ⟨msg, .writing ref table⟩ ∧
      t = if s.stored then { s.setCall i none with
          received := msg.agent :: s.received, table := table.set msg.agent ref }
        else { s.setCall i none with received := msg.agent :: s.received } := by
  simp only [step] at h
  split at h
  · rename_i msg ref table hcall
    cases h
    exact ⟨msg, ref, table, hcall, rfl⟩
  · cases h

/-- The table is written at the end of a call only. -/
theorem table_step (h : step lower s act = some t) (hact : ∀ i, act ≠ .writeTable i) :
    t.table = s.table ∧ (s.stored = true → t.stored = true) := by
  cases act with
  | createConversation =>
    cases h
    exact ⟨rfl, fun _ => rfl⟩
  | start i msg =>
    simp only [step] at h
    split at h
    · cases h
    · split at h <;> cases h <;> exact ⟨rfl, id⟩
  | readActive i =>
    simp only [step] at h
    split at h
    · cases h
      exact ⟨rfl, id⟩
    · cases h
  | revise i =>
    simp only [step] at h
    split at h
    · split at h
      · split at h <;> cases h <;> exact ⟨rfl, id⟩
      · cases h
        exact ⟨rfl, id⟩
    · cases h
  | create i contextId =>
    simp only [step] at h
    split at h
    · cases h
      exact ⟨rfl, id⟩
    · cases h
  | readTable i =>
    simp only [step] at h
    split at h
    · cases h
      exact ⟨rfl, id⟩
    · cases h
  | writeTable i => exact absurd rfl (hact i)

namespace State.Tracked

theorem writeTable (h : s.Tracked lower) {i : Nat} (hok : (Act.writeTable i).KeepsAuthority lower s)
    (hstep : Authority.step lower s (.writeTable i) = some t) : t.Tracked lower := by
  obtain ⟨msg, ref, table, hcall, rfl⟩ := step_writeTable hstep
  obtain ⟨hstored, hkept, hlatest⟩ := hok msg ref table hcall
  rw [if_pos hstored]
  set u : State := { s.setCall i none with
    received := msg.agent :: s.received, table := table.set msg.agent ref } with hu
  have hown : u.table.get? msg.agent = some ref := PyDict.get?_set_self _ _ _
  have hothers : ∀ a, a ≠ msg.agent → u.table.get? a = s.table.get? a := by
    intro a ha
    rw [show u.table.get? a = _ from PyDict.get?_set_of_ne _ _ ha, hkept a ha]
  have hcalls : ∀ j c, u.calls j = some c → j ≠ i ∧ s.calls j = some c := by
    intro j c hj
    by_cases heq : j = i
    · subst heq
      simp [hu] at hj
    · exact ⟨heq, by simpa [hu, Function.update_of_ne heq] using hj⟩
  have hcalls' : ∀ j c, j ≠ i → s.calls j = some c → u.calls j = some c := by
    intro j c hne hj
    simpa [hu, Function.update_of_ne hne] using hj
  have hself : s.Named msg.agent := named_of_call hcall
  have hheldSelf : s.Holds msg.agent ref.contextId := Or.inr ⟨i, _, hcall, rfl, rfl⟩
  have hnamed : ∀ a, u.Named a → s.Named a := by
    rintro a (htable | ⟨j, c, hc, rfl⟩)
    · by_cases ha : a = msg.agent
      · exact ha ▸ hself
      · rw [hothers a ha] at htable
        exact Or.inl htable
    · exact named_of_call (hcalls j c hc).2
  have hheld : ∀ a contextId, u.Holds a contextId → s.Holds a contextId := by
    rintro a contextId (⟨ref', htable, rfl⟩ | ⟨j, c, hc, rfl, hctx⟩)
    · by_cases ha : a = msg.agent
      · subst ha
        rw [hown, Option.some.injEq] at htable
        exact htable ▸ hheldSelf
      · rw [hothers a ha] at htable
        exact Or.inl ⟨ref', htable, rfl⟩
    · exact Or.inr ⟨j, c, (hcalls j c hc).2, rfl, hctx⟩
  refine ⟨fun a b ha hb => h.spelled a b (hnamed a ha) (hnamed b hb),
    fun a b contextId ha hb => h.owned a b contextId (hheld a _ ha) (hheld b _ hb),
    fun a contextId ha => h.known a contextId (hheld a _ ha), ?_, ?_, fun _ _ => hstored⟩
  · intro a ref' htable
    by_cases ha : a = msg.agent
    · subst ha
      rw [hown, Option.some.injEq] at htable
      subst htable
      obtain ⟨doc, hdoc, hrev⟩ := hlatest
      refine ⟨doc, hdoc, hrev.imp_right ?_⟩
      rintro ⟨j, c, newer, hne, hj, hnewer⟩
      exact ⟨j, c, newer, trivial, hcalls' j c hne hj, hnewer⟩
    · rw [hothers a ha] at htable
      obtain ⟨doc, hdoc, hrev⟩ := h.latest a ref' htable
      refine ⟨doc, hdoc, hrev.imp_right ?_⟩
      rintro ⟨j, c, newer, -, hj, hnewer, hsame, hlast⟩
      have hne : j ≠ i := by
        -- The lineage is another agent's, so the call that ends is not the one that follows.
        rintro rfl
        obtain rfl : c = ⟨msg, .writing ref table⟩ := Option.some.inj (hj.symm.trans hcall)
        obtain rfl : ref = newer := Option.some.inj hnewer
        exact ha (h.owned a _ _ (Or.inl ⟨ref', htable, rfl⟩) (hsame ▸ hheldSelf))
      exact ⟨j, c, newer, trivial, hcalls' j c hne hj, hnewer, hsame, hlast⟩
  · intro a ha
    by_cases heq : a = msg.agent
    · rw [heq, hown]
      rfl
    · rw [hothers a heq]
      rcases List.mem_cons.mp ha with rfl | ha
      · exact absurd rfl heq
      · exact h.received a ha

theorem step (h : s.Tracked lower) (hok : act.KeepsAuthority lower s)
    (hstep : Authority.step lower s act = some t) : t.Tracked lower := by
  cases act with
  | createConversation =>
    cases hstep
    exact ⟨h.spelled, h.owned, h.known, h.latest, h.received, fun _ _ => rfl⟩
  | start i msg =>
    simp only [Authority.step] at hstep
    split at hstep
    · cases hstep
    rename_i hnone
    split at hstep
    · cases hstep
      exact h
    · cases hstep
      refine h.setCall hok ?_ ?_
      · intro contextId hctx
        split at hctx <;> cases hctx
      · intro c ref hc
        rw [hnone] at hc
        cases hc
  | readActive i =>
    simp only [Authority.step] at hstep
    split at hstep
    · rename_i msg hcall
      cases hstep
      refine h.advance hcall rfl ?_ ?_
      · intro contextId hctx
        dsimp only at hctx
        rw [h.activeRef (named_of_call hcall)] at hctx
        cases href : s.table.get? msg.agent with
        | none => simp [href, Phase.contextId?] at hctx
        | some ref =>
          rw [href] at hctx
          exact Or.inl ⟨ref, href, Option.some.inj hctx⟩
      · intro ref href
        cases href
    · cases hstep
  | revise i =>
    simp only [Authority.step] at hstep
    split at hstep
    · rename_i msg contextId hcall
      have hcreating : (s.setCall i (some ⟨msg, .creating⟩)).Tracked lower :=
        h.advance hcall rfl (fun _ hctx => by cases hctx) (fun _ href => by cases href)
      split at hstep
      · split at hstep
        · cases hstep
          exact h.write hcall rfl (Or.inl rfl)
        · cases hstep
          exact hcreating
      · cases hstep
        exact hcreating
    · cases hstep
  | create i contextId =>
    simp only [Authority.step] at hstep
    split at hstep
    · rename_i msg hcall hnone
      cases hstep
      exact h.write hcall rfl (Or.inr hnone)
    · cases hstep
  | readTable i =>
    simp only [Authority.step] at hstep
    split at hstep
    · rename_i msg ref hcall
      cases hstep
      refine h.advance hcall rfl ?_ fun _ href => href
      intro contextId hctx
      exact Or.inr ⟨i, _, hcall, rfl, hctx⟩
    · cases hstep
  | writeTable i => exact h.writeTable hok hstep

theorem tracked_new : ({} : State).Tracked lower where
  spelled := by
    rintro a b (htable | ⟨i, c, hc, -⟩)
    · cases htable
    · cases hc
  owned := by
    rintro a b contextId (⟨ref, htable, -⟩ | ⟨i, c, hc, -⟩)
    · cases htable
    · cases hc
  known := by
    rintro a contextId (⟨ref, htable, -⟩ | ⟨i, c, hc, -⟩)
    · cases htable
    · cases hc
  latest := fun _ _ htable => by cases htable
  received := fun _ ha => by cases ha
  stored := fun _ htable => by cases htable

/-- A step of a call leaves the active references of the other agents as they are. -/
theorem activeRef_step (h : s.Tracked lower) (hok : act.KeepsAuthority lower s)
    (hstep : Authority.step lower s act = some t) {other : String}
    (hother : ∀ i c, act.call? = some i → s.calls i = some c →
      other ≠ c.msg.agent ∧ lower other ≠ c.msg.agent) :
    t.activeRef lower other = s.activeRef lower other := by
  by_cases hwrite : ∃ i, act = .writeTable i
  · obtain ⟨i, rfl⟩ := hwrite
    obtain ⟨msg, ref, table, hcall, rfl⟩ := step_writeTable hstep
    obtain ⟨hstored, hkept, -⟩ := hok msg ref table hcall
    obtain ⟨hne, hne'⟩ := hother i _ rfl hcall
    rw [if_pos hstored]
    unfold State.activeRef State.readTable
    simp only [setCall_stored, hstored, if_true]
    rw [PyDict.get?_set_of_ne _ _ hne, PyDict.get?_set_of_ne _ _ hne', hkept _ hne, hkept _ hne']
  · obtain ⟨htable, hstays⟩ := table_step hstep fun i hi => hwrite ⟨i, hi⟩
    by_cases hstored : s.stored
    · unfold State.activeRef State.readTable
      rw [if_pos hstored, if_pos (hstays hstored), htable]
    · -- Nothing is in a table that cannot be written.
      have hnone : ∀ a, s.table.get? a = none := by
        intro a
        cases hget : s.table.get? a with
        | none => rfl
        | some ref => exact absurd (h.stored a (by simp [hget])) hstored
      have hread : ∀ a, t.readTable.get? a = none ∧ s.readTable.get? a = none := by
        intro a
        unfold State.readTable
        rw [htable, if_neg hstored]
        split
        · exact ⟨hnone a, rfl⟩
        · exact ⟨rfl, rfl⟩
      unfold State.activeRef
      rw [(hread _).1, (hread _).1, (hread _).2, (hread _).2]

end State.Tracked

end

/-- What the active reference of an agent says: it is the latest revision of its lineage, and the
document that is loaded for it has every directive. -/
def State.Governed (lower : String → String) (s : State) (agent : String) : Prop :=
  ∃ ref doc, s.activeRef lower agent = some ref ∧ s.docs.get? ref.contextId = some doc ∧
    ref.revision = doc.revision ∧ doc.directives.length = doc.revision ∧
    s.loadAuthority lower doc.user agent = some doc

section

variable {lower : String → String} {s t : State}

theorem State.Tracked.governed (h : s.Tracked lower) (hs : s.Consistent)
    (hquiet : ∀ i, s.calls i = none) {agent : String} (ha : agent ∈ s.received) :
    s.Governed lower agent := by
  obtain ⟨ref, href⟩ := Option.isSome_iff_exists.mp (h.received agent ha)
  obtain ⟨doc, hdoc, hlatest⟩ := h.latest agent ref href
  have hrev : ref.revision = doc.revision := by
    rcases hlatest with hrev | ⟨i, c, newer, -, hc, -⟩
    · exact hrev
    · rw [hquiet i] at hc
      cases hc
  have hactive : s.activeRef lower agent = some ref :=
    (h.activeRef (Or.inl (by simp [href]))).trans href
  refine ⟨ref, doc, hactive, hdoc, hrev, (hs.docs _ _ hdoc).2, ?_⟩
  unfold State.loadAuthority State.snapshot
  simp [hactive, hdoc, hrev]

theorem consistent_of_reach (hrun : Reach (step lower) {} s) : s.Consistent :=
  hrun.invariant State.Consistent (fun _ _ _ ht _ hstep => ht.step hstep) State.consistent_new

theorem grows_of_reach (hs : s.Consistent) (hrun : Reach (step lower) s t) : s.Grows t :=
  hrun.preserves State.Consistent State.Grows State.Grows.refl
    (fun _ _ _ h h' => h.trans h') (fun _ _ _ ht _ hstep => ht.step hstep)
    (fun _ _ _ ht _ hstep => State.grows_step ht hstep) hs

end

def messageTo (agent messageId : String) (steering : Bool) : Message :=
  ⟨"u", agent, messageId, messageId, messageId, steering⟩

/-- The acts, as far as they go. -/
def runActs (acts : List Act) : Option State := follow (step id) (fun _ _ => True) {} acts

def Act.newLineage (call : Nat) (agent messageId contextId : String) : List Act :=
  [.start call (messageTo agent messageId false), .create call contextId, .readTable call,
    .writeTable call]

end PawFlow.Authority
