import PawFlow.Agui.Fencing

/-!
# Rotation and the conversations it deletes

`resolve_agui_thread` and `rotate_agui_thread` call `delete_conversation` between two
transactions, and what they hold in their hands meanwhile is the marker they read. A `System`
is the store together with those calls. A call of the source is a sequence of acts of the
system; the acts may come in any order, so a run may stop (or crash) between any two.

Which conversation a rotation deletes follows the policy of the publication it is passed, but
the conversation itself was fixed by the policy of the publication that made the context.
`Matched` asks that the two agree, and then a rotation deletes what it should: see
`rotation_deletes_exactly`.
-/

namespace PawFlow.Agui

open PawFlow.Lib

namespace State

/-! ## The system -/

/-- Where a call that deletes a conversation stands. -/
inductive Phase
  | waiting | calling | returned
deriving DecidableEq

/-- A call of `resolve_agui_thread` or `rotate_agui_thread` with a marker to clean up. -/
structure Cleaner where
  thread : ThreadKey
  marker : String
  /-- The generation the rotation made; a resolve clears the marker under any. -/
  generation : Option Int
  phase : Phase := .waiting

structure System where
  store : State := {}
  cleaners : List Cleaner := []
  /-- History: every row `configure_publication` stored. A caller may hold any of them. -/
  versions : List Publication := []
  /-- History: the conversations a call of `delete_conversation` returned for. -/
  deleted : List String := []
  /-- History: the context rows that rotations removed. -/
  removed : List Context := []

inductive Act
  | configure (p : Publication)
  | ensure (k : ThreadKey)
  /-- The transaction of `resolve_agui_thread` that reads the marker. -/
  | resolvePending (k : ThreadKey) (generation : Int)
  | resolveContext (version : Nat) (keyId threadId : String) (generation : Int) (now : Time)
  /-- `callback`: a `delete_conversation` was passed. A sweep passes one. -/
  | rotate (version : Nat) (keyId threadId : String) (expectedGeneration : Int)
      (closeGeneration callback : Bool)
  | reserveSweep (minInterval now : Time)
  | call (i : Nat)
  | finish (i : Nat)
  | clear (i : Nat)
  /-- The call ends early: the callback raised, or the process died. -/
  | crash (i : Nat)
  /-- The turns of the threads: every other table may change at will. -/
  | turns (t : State)

namespace System

/-- `configure_publication`: a publication keeps its conversation. -/
def configure (p : Publication) (s : System) : Option System :=
  if p.conversationId = "" ∨ p.managedMode ∧ ¬ p.isolated then none
  else if (s.store.publications.get? p.publicationId).any
      fun q => q.conversationId ≠ p.conversationId then none
  else some { s with
    store := settle s.store (s.store.savePublication p)
    versions := p :: s.versions }

def resolvePending (k : ThreadKey) (generation : Int) (s : System) : Option System :=
  match s.store.threads.get? k with
  | none => none
  | some row =>
    if generation < row.closedBeforeGeneration ∨ generation ≠ row.generation then some s
    else if row.pendingCleanupConversation = "" then some s
    else some { s with
      cleaners := ⟨k, row.pendingCleanupConversation, none, .waiting⟩ :: s.cleaners }

/-- `rotate_agui_thread` up to its callback. -/
def rotate (p : Publication) (k : ThreadKey) (expectedGeneration : Int)
    (closeGeneration callback : Bool) (s : System) : System :=
  match s.store.rotate p k expectedGeneration closeGeneration with
  | .error _ => s
  | .ok ((marker, generation), store) => { s with
      store
      removed := (s.store.contexts.get? ⟨k, expectedGeneration⟩).toList ++ s.removed
      cleaners :=
        if marker ≠ "" ∧ callback then ⟨k, marker, some generation, .waiting⟩ :: s.cleaners
        else s.cleaners }

/-- A cleaner moves to its next phase. -/
def advance (i : Nat) (before after : Phase) (s : System) : Option (Cleaner × System) :=
  match s.cleaners[i]? with
  | none => none
  | some w =>
    if w.phase = before then
      some (w, { s with cleaners := s.cleaners.set i { w with phase := after } })
    else none

variable (digest : ContextId → String)

def step (s : System) : Act → Option System
  | .configure p => s.configure p
  | .ensure k => some { s with store := settle s.store (s.store.ensureThread k) }
  | .resolvePending k generation => s.resolvePending k generation
  | .resolveContext v keyId threadId generation now =>
    s.versions[v]?.map fun p =>
      let k : ThreadKey := ⟨p.publicationId, keyId, threadId⟩
      { s with
        store := settle s.store
          (s.store.resolveContext p k generation (digest ⟨k, generation⟩) now) }
  | .rotate v keyId threadId expected close callback =>
    s.versions[v]?.map fun p =>
      s.rotate p ⟨p.publicationId, keyId, threadId⟩ expected close callback
  | .reserveSweep interval now =>
    some { s with store := settle s.store (s.store.reserveSweep interval now) }
  | .call i => (s.advance i .waiting .calling).map Prod.snd
  | .finish i =>
    (s.advance i .calling .returned).map fun (w, s) => { s with
      deleted := w.marker :: s.deleted }
  | .clear i =>
    match s.cleaners[i]? with
    | none => none
    | some w =>
      if w.phase = .returned then
        some { s with
          store := settle s.store (s.store.clearCleanup w.thread w.marker w.generation)
          cleaners := s.cleaners.eraseIdx i }
      else none
  | .crash i => some { s with cleaners := s.cleaners.eraseIdx i }
  | .turns t => some { s with
      store := { t with
        publications := s.store.publications
        threads := s.store.threads
        contexts := s.store.contexts } }

def init : System := {}

/-! ## What a rotation should delete -/

/-- A conversation made for one context: `conversation::a2a::digest`. -/
def Derived (m : String) : Prop := ∃ conversation c, m = conversation ++ "::a2a::" ++ digest c

def Isolated (s : System) (c : ContextId) (m : String) : Prop :=
  ∃ p ∈ s.versions, p.publicationId = c.thread.publicationId ∧
    m = p.conversationId ++ "::a2a::" ++ digest c

/-- The policy passed in is the one the conversation was made under, and no conversation that
publications share has the name of one made for a context. -/
def Matched (s : System) : Act → Prop
  | .resolveContext v _ _ _ _ =>
    ∀ p, s.versions[v]? = some p → p.isolated = false → ¬ Derived digest p.conversationId
  | .rotate v keyId threadId expected _ _ =>
    ∀ p, s.versions[v]? = some p →
      ∀ x, s.store.contexts.get? ⟨⟨p.publicationId, keyId, threadId⟩, expected⟩ = some x →
        x.internalConversationId = internalConversation p (digest x.id)
  | _ => True

/-- The invariant of matched runs. -/
structure Tidy (s : System) : Prop where
  version : ∀ p ∈ s.versions, ∃ q, s.store.publications.get? p.publicationId = some q ∧
    q.conversationId = p.conversationId
  current : ∀ c x, s.store.contexts.get? c = some x →
    ∃ t, s.store.threads.get? c.thread = some t ∧ t.generation = c.generation
  conversation : ∀ c x, s.store.contexts.get? c = some x →
    s.Isolated digest c x.internalConversationId ∨ ¬ Derived digest x.internalConversationId
  pending : ∀ k t, s.store.threads.get? k = some t → t.pendingCleanupConversation ≠ "" →
    ∃ c, c.thread = k ∧ s.store.Closed c ∧ s.Isolated digest c t.pendingCleanupConversation
  cleaner : ∀ w ∈ s.cleaners,
    ∃ c, c.thread = w.thread ∧ s.store.Closed c ∧ s.Isolated digest c w.marker
  returned : ∀ w ∈ s.cleaners, w.phase = .returned → w.marker ∈ s.deleted
  removed : ∀ x ∈ s.removed, Derived digest x.internalConversationId →
    x.internalConversationId ∈ s.deleted ∨
      ∃ t, s.store.threads.get? x.id.thread = some t ∧
        t.pendingCleanupConversation = x.internalConversationId

variable {digest}

/-! ## Two states of one run -/

/-- What stays true of a system as it goes on. -/
structure Onward (s t : System) : Prop where
  versions : s.versions ⊆ t.versions
  threads : ∀ k x, s.store.threads.get? k = some x →
    ∃ x', t.store.threads.get? k = some x' ∧ x.generation ≤ x'.generation

theorem Onward.refl (s : System) : Onward s s :=
  ⟨List.Subset.refl _, fun _ x hx => ⟨x, hx, le_rfl⟩⟩

theorem Onward.trans {s t u : System} (h : Onward s t) (h' : Onward t u) : Onward s u := by
  refine ⟨fun _ hp => h'.versions (h.versions hp), ?_⟩
  intro k x hx
  obtain ⟨x', hx', hle⟩ := h.threads k x hx
  obtain ⟨x'', hx'', hle'⟩ := h'.threads k x' hx'
  exact ⟨x'', hx'', hle.trans hle'⟩

variable {s t : System}

theorem onward_of_threads (hversions : s.versions ⊆ t.versions)
    (hthreads : t.store.threads = s.store.threads) : Onward s t := by
  refine ⟨hversions, ?_⟩
  intro k x hx
  rw [hthreads]
  exact ⟨x, hx, le_rfl⟩

variable {c : ContextId} {k : ThreadKey} {p : Publication}

theorem Onward.closed (h : Onward s t) (hc : s.store.Closed c) : t.store.Closed c := by
  obtain ⟨x, hx, hlt⟩ := hc
  obtain ⟨x', hx', hle⟩ := h.threads c.thread x hx
  exact ⟨x', hx', by omega⟩

variable {m : String} {generation : Int}

theorem Isolated.onward (hm : s.Isolated digest c m) (h : Onward s t) : t.Isolated digest c m := by
  obtain ⟨p, hp, hid, hm⟩ := hm
  exact ⟨p, h.versions hp, hid, hm⟩

theorem Derived.ne_empty (hm : Derived digest m) : m ≠ "" := by
  rintro rfl
  obtain ⟨conversation, c, hm⟩ := hm
  have hlength := congrArg String.length hm
  simp only [String.length_append] at hlength
  have : "::a2a::".length = 7 := rfl
  have : "".length = 0 := rfl
  omega

theorem Onward.marker (h : Onward s t)
    (hm : ∃ c, c.thread = k ∧ s.store.Closed c ∧ s.Isolated digest c m) :
    ∃ c, c.thread = k ∧ t.store.Closed c ∧ t.Isolated digest c m := by
  obtain ⟨c, hk, hclosed, hm⟩ := hm
  exact ⟨c, hk, h.closed hclosed, hm.onward h⟩

theorem Tidy.conversationId_eq (h : Tidy digest s) {q : Publication} (hp : p ∈ s.versions)
    (hq : q ∈ s.versions) (hid : p.publicationId = q.publicationId) :
    p.conversationId = q.conversationId := by
  obtain ⟨p', hp', hconv⟩ := h.version p hp
  obtain ⟨q', hq', hconv'⟩ := h.version q hq
  rw [hid, hq'] at hp'
  obtain rfl := Option.some.inj hp'
  exact hconv.symm.trans hconv'

theorem Isolated.derived (hm : s.Isolated digest c m) : Derived digest m := by
  obtain ⟨p, -, -, hm⟩ := hm
  exact ⟨p.conversationId, c, hm⟩

theorem Tidy.ne_own (h : Tidy digest s) (hm : s.Isolated digest c m) (hp : p ∈ s.versions)
    (hid : p.publicationId = c.thread.publicationId) : m ≠ p.conversationId := by
  rintro rfl
  obtain ⟨q, hq, hqid, hconv⟩ := hm
  rw [h.conversationId_eq hp hq (hid.trans hqid.symm)] at hconv
  have hlength := congrArg String.length hconv
  simp only [String.length_append] at hlength
  have : "::a2a::".length = 7 := rfl
  omega

/-! ## Names of conversations -/

variable {l' : List Char} {before : Phase} {expected : Int}

theorem suffix_inj {l d d' : List Char} (hd : ':' ∉ d) (hd' : ':' ∉ d')
    (h : l ++ ':' :: d = l' ++ ':' :: d') : d = d' := by
  have hread : ∀ l d : List Char, ':' ∉ d →
      (l ++ ':' :: d).reverse.takeWhile (· ≠ ':') = d.reverse := by
    intro l d hd
    have hall : ∀ a ∈ d.reverse, (decide (a ≠ ':')) = true := by
      intro a ha
      simp only [decide_eq_true_eq]
      rintro rfl
      exact hd (List.mem_reverse.mp ha)
    rw [List.reverse_append, List.reverse_cons, List.append_assoc,
      List.takeWhile_append_of_pos hall]
    simp
  have heq := congrArg (fun l => (List.reverse l).takeWhile (· ≠ ':')) h
  simp only [hread l d hd, hread l' d' hd'] at heq
  exact List.reverse_injective heq

theorem derived_inj (hinj : Function.Injective digest) (hcolon : ∀ c, ':' ∉ (digest c).toList)
    {a b : String} {c' : ContextId} (h : a ++ "::a2a::" ++ digest c = b ++ "::a2a::" ++ digest c') :
    c = c' := by
  apply hinj
  apply String.toList_injective
  have hlist := congrArg String.toList h
  have hsep : "::a2a::".toList = "::a2a:".toList ++ [':'] := by decide
  simp only [String.toList_append, hsep, List.append_assoc, List.singleton_append] at hlist
  rw [← List.append_assoc, ← List.append_assoc] at hlist
  exact suffix_inj (hcolon c) (hcolon c') hlist

/-! ## Steps -/

theorem Tidy.of_store (h : Tidy digest s) (hpublications : t.store.publications = s.store.publications)
    (hthreads : t.store.threads = s.store.threads) (hcontexts : t.store.contexts = s.store.contexts)
    (hversions : t.versions = s.versions) (hdeleted : s.deleted ⊆ t.deleted)
    (hremoved : t.removed = s.removed)
    (hcleaners : ∀ w ∈ t.cleaners,
      (∃ c, c.thread = w.thread ∧ s.store.Closed c ∧ s.Isolated digest c w.marker) ∧
        (w.phase = .returned → w.marker ∈ t.deleted)) :
    Tidy digest t ∧ Onward s t := by
  have honward : Onward s t := onward_of_threads (by rw [hversions]; exact List.Subset.refl _) hthreads
  refine ⟨?_, honward⟩
  constructor
  · rw [hversions, hpublications]
    exact h.version
  · rw [hthreads, hcontexts]
    exact h.current
  · rw [hcontexts]
    intro c x hx
    exact (h.conversation c x hx).imp_left (·.onward honward)
  · rw [hthreads]
    intro k x hx hne
    exact honward.marker (h.pending k x hx hne)
  · intro w hw
    exact honward.marker (hcleaners w hw).1
  · intro w hw
    exact (hcleaners w hw).2
  · rw [hremoved, hthreads]
    intro x hx hderived
    exact (h.removed x hx hderived).imp_left (hdeleted ·)

theorem Tidy.configure (h : Tidy digest s) (hstep : s.configure p = some t) :
    Tidy digest t ∧ Onward s t := by
  unfold System.configure at hstep
  split at hstep
  · cases hstep
  split at hstep
  · cases hstep
  next hsame =>
  obtain rfl := Option.some.inj hstep
  have honward : Onward s { s with
      store := settle s.store (s.store.savePublication p)
      versions := p :: s.versions } :=
    onward_of_threads (List.subset_cons_self _ _) rfl
  refine ⟨⟨?_, h.current, ?_, ?_, ?_, h.returned, h.removed⟩, honward⟩
  · intro q hq
    show ∃ q', (s.store.publications.upsert p).get? q.publicationId = some q' ∧ _
    rw [Table.get?_upsert]
    rcases List.mem_cons.mp hq with rfl | hq
    · exact ⟨q, if_pos rfl, rfl⟩
    · obtain ⟨q', hq', hconv⟩ := h.version q hq
      split
      · next hid =>
        refine ⟨p, rfl, ?_⟩
        rw [← hid, hq'] at hsame
        simp only [Option.any_some, decide_not, Bool.not_eq_true', decide_eq_false_iff_not,
          not_not] at hsame
        exact hsame.symm.trans hconv
      · exact ⟨q', hq', hconv⟩
  · intro c x hx
    exact (h.conversation c x hx).imp_left (·.onward honward)
  · intro k x hx hne
    exact honward.marker (h.pending k x hx hne)
  · intro w hw
    exact honward.marker (h.cleaner w hw)

/-- Steps that only add threads, or clear the markers of deleted conversations. -/
theorem Tidy.of_threads (h : Tidy digest s) {threads : Table ThreadKey Thread Thread.key}
    {cleaners : List Cleaner} (hcleaners : ∀ w ∈ cleaners, w ∈ s.cleaners)
    (hkept : ∀ k x, s.store.threads.get? k = some x →
      ∃ x', threads.get? k = some x' ∧ x'.generation = x.generation ∧
        (x'.pendingCleanupConversation = x.pendingCleanupConversation ∨
          x.pendingCleanupConversation ∈ s.deleted))
    (hnew : ∀ k x', threads.get? k = some x' → x'.pendingCleanupConversation ≠ "" →
      ∃ x, s.store.threads.get? k = some x ∧
        x.pendingCleanupConversation = x'.pendingCleanupConversation) :
    let t : System := { s with
      store := { s.store with threads }
      cleaners }
    Tidy digest t ∧ Onward s t := by
  intro t
  have honward : Onward s t := by
    refine ⟨List.Subset.refl _, ?_⟩
    intro k x hx
    obtain ⟨x', hx', hgen, -⟩ := hkept k x hx
    exact ⟨x', hx', hgen.ge⟩
  refine ⟨⟨h.version, ?_, ?_, ?_, ?_, ?_, ?_⟩, honward⟩
  · intro c x hx
    obtain ⟨r, hr, hgen⟩ := h.current c x hx
    obtain ⟨r', hr', hgen', -⟩ := hkept c.thread r hr
    exact ⟨r', hr', hgen'.trans hgen⟩
  · exact h.conversation
  · intro k x' hx' hne
    obtain ⟨x, hx, hsame⟩ := hnew k x' hx' hne
    rw [← hsame] at hne ⊢
    exact honward.marker (h.pending k x hx hne)
  · intro w hw
    exact honward.marker (h.cleaner w (hcleaners w hw))
  · intro w hw
    exact h.returned w (hcleaners w hw)
  · intro x hx hderived
    rcases h.removed x hx hderived with hdone | ⟨r, hr, hpending⟩
    · exact .inl hdone
    · obtain ⟨r', hr', -, hsame | hdone⟩ := hkept x.id.thread r hr
      · exact .inr ⟨r', hr', hsame.trans hpending⟩
      · exact .inl (hpending ▸ hdone)

theorem Tidy.ensure (h : Tidy digest s) (k : ThreadKey) :
    let t : System := { s with store := settle s.store (s.store.ensureThread k) }
    Tidy digest t ∧ Onward s t := by
  intro t
  cases hensure : s.store.ensureThread k with
  | error e =>
    have ht : t = s := by
      show { s with store := settle s.store (s.store.ensureThread k) } = s
      rw [hensure]
      rfl
    rw [ht]
    exact ⟨h, .refl s⟩
  | ok r =>
    have ht : t = { s with store := { s.store with
        threads := s.store.threads.insertIgnore { key := k } } } := by
      show { s with store := settle s.store (s.store.ensureThread k) } = _
      unfold ensureThread at hensure ⊢
      split at hensure
      · cases hensure
      split at hensure
      · cases hensure
      next hthread hpublication =>
      rw [if_neg hthread, if_neg hpublication]
      rfl
    rw [ht]
    apply h.of_threads fun _ hw => hw
    · intro k' x hx
      exact ⟨x, by simp [Table.get?_insertIgnore, hx], rfl, .inl rfl⟩
    · intro k' x' hx' hne
      rw [Table.get?_insertIgnore, Option.or_eq_some_iff] at hx'
      rcases hx' with hx' | ⟨-, hx'⟩
      · exact ⟨x', hx', rfl⟩
      · split at hx'
        · obtain rfl := Option.some.inj hx'
          exact absurd rfl hne
        · cases hx'

variable {w : Cleaner}

theorem Tidy.clear (h : Tidy digest s) (hw : w ∈ s.cleaners)
    (hphase : w.phase = .returned) (i : Nat) :
    let t : System := { s with
      store := settle s.store (s.store.clearCleanup w.thread w.marker w.generation)
      cleaners := s.cleaners.eraseIdx i }
    Tidy digest t ∧ Onward s t := by
  have hdone := h.returned w hw hphase
  apply h.of_threads fun _ hw => List.mem_of_mem_eraseIdx hw
  · intro k x hx
    refine ⟨_, by rw [Table.get?_update, hx]; rfl, ?_, ?_⟩
    · dsimp only
      split <;> rfl
    · dsimp only
      split
      · next hmatch =>
        simp only [Bool.decide_and, Bool.and_eq_true, decide_eq_true_eq] at hmatch
        rw [hmatch.2.1]
        exact .inr hdone
      · exact .inl rfl
  · intro k x' hx' hne
    rw [Table.get?_update] at hx'
    obtain ⟨x, hx, rfl⟩ := Option.map_eq_some_iff.mp hx'
    refine ⟨x, hx, ?_⟩
    split at hne
    · exact absurd rfl hne
    · next hmatch => rw [if_neg hmatch]

theorem Tidy.resolvePending (h : Tidy digest s)
    (hstep : s.resolvePending k generation = some t) : Tidy digest t ∧ Onward s t := by
  unfold System.resolvePending at hstep
  split at hstep
  · cases hstep
  next row hrow =>
  split at hstep
  · obtain rfl := Option.some.inj hstep
    exact ⟨h, .refl s⟩
  split at hstep
  · obtain rfl := Option.some.inj hstep
    exact ⟨h, .refl s⟩
  next hpending =>
  obtain rfl := Option.some.inj hstep
  refine h.of_store rfl rfl rfl rfl (List.Subset.refl _) rfl ?_
  intro w hw
  rcases List.mem_cons.mp hw with rfl | hw
  · exact ⟨h.pending k row hrow hpending, fun hphase => by cases hphase⟩
  · exact ⟨h.cleaner w hw, h.returned w hw⟩

theorem advance_eq {i : Nat} {after : Phase} (h : s.advance i before after = some (w, t)) :
    w ∈ s.cleaners ∧ t = { s with cleaners := s.cleaners.set i { w with phase := after } } := by
  unfold System.advance at h
  split at h
  · cases h
  next w' hw =>
  split at h
  · obtain ⟨rfl, rfl⟩ := Prod.mk.inj (Option.some.inj h)
    exact ⟨List.mem_of_getElem? hw, rfl⟩
  · cases h

theorem Tidy.advance (h : Tidy digest s) {i : Nat} {after : Phase}
    (hstep : s.advance i before after = some (w, t)) {deleted : List String}
    (hdeleted : s.deleted ⊆ deleted) (hafter : after = .returned → w.marker ∈ deleted) :
    Tidy digest { t with deleted } ∧ Onward s { t with deleted } := by
  obtain ⟨hw, rfl⟩ := advance_eq hstep
  refine h.of_store rfl rfl rfl rfl hdeleted rfl ?_
  intro v hv
  rcases List.mem_or_eq_of_mem_set hv with hv | rfl
  · exact ⟨h.cleaner v hv, fun hphase => hdeleted (h.returned v hv hphase)⟩
  · exact ⟨h.cleaner w hw, hafter⟩

theorem Tidy.crash (h : Tidy digest s) (i : Nat) :
    Tidy digest { s with cleaners := s.cleaners.eraseIdx i } ∧
      Onward s { s with cleaners := s.cleaners.eraseIdx i } := by
  refine h.of_store rfl rfl rfl rfl (List.Subset.refl _) rfl ?_
  intro w hw
  have hw := List.mem_of_mem_eraseIdx hw
  exact ⟨h.cleaner w hw, h.returned w hw⟩

theorem Tidy.of_contexts (h : Tidy digest s) {contexts : Table ContextId Context Context.id}
    (hcontexts : ∀ c x, contexts.get? c = some x →
      (∃ y, s.store.contexts.get? c = some y ∧
        y.internalConversationId = x.internalConversationId) ∨
      (∃ t, s.store.threads.get? c.thread = some t ∧ t.generation = c.generation) ∧
        (s.Isolated digest c x.internalConversationId ∨
          ¬ Derived digest x.internalConversationId)) :
    let t : System := { s with store := { s.store with contexts } }
    Tidy digest t ∧ Onward s t := by
  intro t
  refine ⟨⟨h.version, ?_, ?_, h.pending, h.cleaner, h.returned, h.removed⟩,
    onward_of_threads (List.Subset.refl _) rfl⟩
  · intro c x hx
    rcases hcontexts c x hx with ⟨y, hy, -⟩ | ⟨hcurrent, -⟩
    · exact h.current c y hy
    · exact hcurrent
  · intro c x hx
    rcases hcontexts c x hx with ⟨y, hy, hsame⟩ | ⟨-, hname⟩
    · rw [← hsame]
      exact h.conversation c y hy
    · exact hname

theorem Tidy.resolveContext (h : Tidy digest s) {keyId threadId : String}
    {now : Time} (hp : p ∈ s.versions)
    (hshared : p.isolated = false → ¬ Derived digest p.conversationId) :
    let k : ThreadKey := ⟨p.publicationId, keyId, threadId⟩
    let t : System := { s with
      store := settle s.store
        (s.store.resolveContext p k generation (digest ⟨k, generation⟩) now) }
    Tidy digest t ∧ Onward s t := by
  intro k t
  cases hresolve : s.store.resolveContext p k generation (digest ⟨k, generation⟩) now with
  | error e =>
    have ht : t = s := by
      show { s with store := settle s.store _ } = s
      rw [hresolve]
      rfl
    rw [ht]
    exact ⟨h, .refl s⟩
  | ok r =>
    have ht : t = { s with store := r.2 } := by
      show { s with store := settle s.store _ } = _
      rw [hresolve]
      rfl
    rw [ht]
    unfold State.resolveContext at hresolve
    split at hresolve
    · cases hresolve
    next row hrow =>
    split at hresolve
    · cases hresolve
    next hgen =>
    obtain rfl : generation = row.generation := by
      by_contra hne
      exact hgen (.inr hne)
    split at hresolve
    · next context hcontext =>
      obtain rfl := Except.ok.inj hresolve
      apply h.of_contexts
      intro c x hx
      rw [Table.get?_update] at hx
      obtain ⟨y, hy, rfl⟩ := Option.map_eq_some_iff.mp hx
      refine .inl ⟨y, hy, ?_⟩
      split <;> rfl
    · split at hresolve
      · cases hresolve
      dsimp only at hresolve
      split at hresolve
      · cases hresolve
      next contexts hins =>
      obtain rfl := Except.ok.inj hresolve
      apply h.of_contexts
      intro c x hx
      rw [(Table.insert?_eq_some hins).2] at hx
      split at hx
      · next hc =>
        obtain rfl := Option.some.inj hx
        subst hc
        refine .inr ⟨⟨row, hrow, rfl⟩, ?_⟩
        cases hisolated : p.isolated with
        | true => exact .inl ⟨p, hp, rfl, by simp [internalConversation, hisolated, k]⟩
        | false =>
          right
          simpa [internalConversation, hisolated] using hshared hisolated
      · exact .inl ⟨x, hx, rfl⟩

theorem rotate_ok {s s' : State} {close : Bool} {marker : String}
    (h : s.rotate p k expected close = .ok ((marker, generation), s')) :
    ∃ row, s.threads.get? k = some row ∧ row.generation = expected ∧
      row.pendingCleanupConversation = "" ∧
      marker = (if p.isolated then
        ((s.contexts.get? ⟨k, expected⟩).map Context.internalConversationId).getD "" else "") ∧
      s' = { s with
        threads := s.threads.update (fun t => t.key = k) (rotatedThread marker close)
          (rotatedThread_key marker close) }.dropContext ⟨k, expected⟩ := by
  unfold State.rotate at h
  split at h
  · cases h
  next row hrow =>
  split at h
  · cases h
  next hexpected =>
  split at h
  · cases h
  next hpending =>
  dsimp only at h
  split at h
  · cases h
  split at h
  · cases h
  obtain rfl : expected = row.generation := not_not.mp hexpected
  obtain ⟨hreply, rfl⟩ := ok_pair_inj h
  obtain ⟨rfl, -⟩ := Prod.mk.inj hreply
  exact ⟨row, hrow, rfl, not_not.mp hpending, rfl, rfl⟩

/-- Under a matching policy the marker is the conversation made for the context, if one was. -/
theorem Tidy.marker_spec (h : Tidy digest s) (hp : p ∈ s.versions)
    (hid : p.publicationId = c.thread.publicationId)
    (hmatched : ∀ x, s.store.contexts.get? c = some x →
      x.internalConversationId = internalConversation p (digest x.id))
    {marker : String} (hmarker : marker = (if p.isolated then
      ((s.store.contexts.get? c).map Context.internalConversationId).getD "" else "")) :
    (marker ≠ "" → s.Isolated digest c marker) ∧
      ∀ x, s.store.contexts.get? c = some x → Derived digest x.internalConversationId →
        marker = x.internalConversationId := by
  cases hisolated : p.isolated with
  | true =>
    rw [hisolated, if_pos rfl] at hmarker
    constructor
    · intro hne
      cases hx : s.store.contexts.get? c with
      | none =>
        rw [hx] at hmarker
        exact absurd hmarker hne
      | some x =>
        rw [hx] at hmarker
        have hname := hmatched x hx
        rw [Table.get?_key hx] at hname
        refine ⟨p, hp, hid, ?_⟩
        rw [hmarker]
        simpa [internalConversation, hisolated] using hname
    · intro x hx _
      rw [hmarker, hx]
      rfl
  | false =>
    rw [hisolated, if_neg (by simp)] at hmarker
    refine ⟨fun hne => absurd hmarker hne, ?_⟩
    intro x hx hderived
    have hname : x.internalConversationId = p.conversationId := by
      simpa [internalConversation, hisolated] using hmatched x hx
    rcases h.conversation c x hx with hown | hplain
    · exact absurd hname (h.ne_own hown hp hid)
    · exact absurd hderived hplain

/-- The effect of a rotation on the system, table by table. -/
structure Rotated (s : System) (k : ThreadKey) (row : Thread) (marker : String) (t : System) :
    Prop where
  publications : t.store.publications = s.store.publications
  versions : t.versions = s.versions
  deleted : t.deleted = s.deleted
  thread : ∃ row', t.store.threads.get? k = some row' ∧ row'.generation = row.generation + 1 ∧
    row'.pendingCleanupConversation = marker
  threads : ∀ k', k' ≠ k → t.store.threads.get? k' = s.store.threads.get? k'
  contexts : ∀ c, t.store.contexts.get? c =
    if c = ⟨k, row.generation⟩ then none else s.store.contexts.get? c
  cleaners : ∀ w ∈ t.cleaners,
    w ∈ s.cleaners ∨ w.thread = k ∧ w.marker = marker ∧ marker ≠ "" ∧ w.phase = .waiting
  removed : ∀ x ∈ t.removed,
    x ∈ s.removed ∨ s.store.contexts.get? ⟨k, row.generation⟩ = some x

theorem Rotated.onward {row : Thread} {marker : String}
    (h : Rotated s k row marker t) (hrow : s.store.threads.get? k = some row) : Onward s t := by
  refine ⟨by rw [h.versions]; exact List.Subset.refl _, ?_⟩
  intro k' x hx
  by_cases hk : k' = k
  · subst hk
    rw [hrow] at hx
    obtain rfl := Option.some.inj hx
    obtain ⟨row', hrow', hgen, -⟩ := h.thread
    exact ⟨row', hrow', by omega⟩
  · exact ⟨x, (h.threads k' hk).trans hx, le_rfl⟩

theorem Tidy.rotated (h : Tidy digest s) {row : Thread} {marker : String}
    (heffect : Rotated s k row marker t) (hrow : s.store.threads.get? k = some row)
    (hfree : row.pendingCleanupConversation = "")
    (hmade : marker ≠ "" → s.Isolated digest ⟨k, row.generation⟩ marker)
    (hkept : ∀ x, s.store.contexts.get? ⟨k, row.generation⟩ = some x →
      Derived digest x.internalConversationId → marker = x.internalConversationId) :
    Tidy digest t := by
  have honward := heffect.onward hrow
  obtain ⟨row', hrow', hgen, hmarker⟩ := heffect.thread
  have hnew : marker ≠ "" → ∃ c, c.thread = k ∧ t.store.Closed c ∧ t.Isolated digest c marker := by
    intro hne
    exact ⟨⟨k, row.generation⟩, rfl, ⟨row', hrow', by show row.generation < _; omega⟩,
      (hmade hne).onward honward⟩
  have hcontext : ∀ c x, t.store.contexts.get? c = some x →
      c ≠ ⟨k, row.generation⟩ ∧ s.store.contexts.get? c = some x := by
    intro c x hx
    rw [heffect.contexts] at hx
    split at hx
    · cases hx
    · next hne => exact ⟨hne, hx⟩
  constructor
  · rw [heffect.versions, heffect.publications]
    exact h.version
  · -- a context that stays is one of another thread: the rotated one had no other context
    intro c x hx
    obtain ⟨hne, hx⟩ := hcontext c x hx
    obtain ⟨r, hr, hc⟩ := h.current c x hx
    have hk : c.thread ≠ k := by
      intro hk
      rw [hk, hrow] at hr
      obtain rfl := Option.some.inj hr
      exact hne (by rw [← hk, hc])
    exact ⟨r, (heffect.threads c.thread hk).trans hr, hc⟩
  · intro c x hx
    exact (h.conversation c x (hcontext c x hx).2).imp_left (·.onward honward)
  · intro k' x hx hne
    by_cases hk : k' = k
    · subst hk
      rw [hrow'] at hx
      obtain rfl := Option.some.inj hx
      rw [hmarker] at hne ⊢
      exact hnew hne
    · rw [heffect.threads k' hk] at hx
      exact honward.marker (h.pending k' x hx hne)
  · intro w hw
    rcases heffect.cleaners w hw with hw | ⟨hk, hm, hne, -⟩
    · exact honward.marker (h.cleaner w hw)
    · rw [hk, hm]
      exact hnew hne
  · intro w hw hphase
    rw [heffect.deleted]
    rcases heffect.cleaners w hw with hw | ⟨-, -, -, hwaiting⟩
    · exact h.returned w hw hphase
    · rw [hwaiting] at hphase
      cases hphase
  · intro x hx hderived
    rw [heffect.deleted]
    rcases heffect.removed x hx with hx | hx
    · rcases h.removed x hx hderived with hdone | ⟨r, hr, hpending⟩
      · exact .inl hdone
      · -- the rotation required that no marker was pending
        have hk : x.id.thread ≠ k := by
          intro hk
          rw [hk, hrow] at hr
          obtain rfl := Option.some.inj hr
          rw [hfree] at hpending
          exact hderived.ne_empty hpending.symm
        exact .inr ⟨r, (heffect.threads _ hk).trans hr, hpending⟩
    · refine .inr ⟨row', ?_, hmarker.trans (hkept x hx hderived)⟩
      rw [Table.get?_key hx]
      exact hrow'

theorem Tidy.rotate (h : Tidy digest s)
    {close callback : Bool} (hp : p ∈ s.versions) (hid : p.publicationId = k.publicationId)
    (hmatched : ∀ x, s.store.contexts.get? ⟨k, expected⟩ = some x →
      x.internalConversationId = internalConversation p (digest x.id)) :
    Tidy digest (s.rotate p k expected close callback) ∧
      Onward s (s.rotate p k expected close callback) := by
  unfold System.rotate
  split
  · exact ⟨h, .refl s⟩
  next marker generation store hrotate =>
  obtain ⟨row, hrow, rfl, hfree, hmarker, rfl⟩ := rotate_ok hrotate
  obtain ⟨hmade, hkept⟩ := h.marker_spec (c := ⟨k, row.generation⟩) hp hid hmatched hmarker
  have hthreads := fun k' =>
    s.store.threads.get?_update_at (rotatedThread marker close) (rotatedThread_key marker close) k k'
  have heffect : Rotated s k row marker { s with
      store := { s.store with
        threads := s.store.threads.update (fun t => t.key = k) (rotatedThread marker close)
          (rotatedThread_key marker close) }.dropContext ⟨k, row.generation⟩
      removed := (s.store.contexts.get? ⟨k, row.generation⟩).toList ++ s.removed
      cleaners :=
        if marker ≠ "" ∧ callback then ⟨k, marker, some generation, .waiting⟩ :: s.cleaners
        else s.cleaners } := by
    constructor
    · rfl
    · rfl
    · rfl
    · refine ⟨rotatedThread marker close row, (hthreads k).trans ?_, rfl, rfl⟩
      rw [if_pos rfl, hrow]
      rfl
    · intro k' hk
      exact (hthreads k').trans (if_neg hk)
    · exact get?_contexts_dropContext _
    · intro w hw
      dsimp only at hw
      split at hw
      · next hspawn =>
        rcases List.mem_cons.mp hw with rfl | hw
        · exact .inr ⟨rfl, rfl, hspawn.1, rfl⟩
        · exact .inl hw
      · exact .inl hw
    · intro x hx
      rcases List.mem_append.mp hx with hx | hx
      · exact .inr (Option.mem_toList.mp hx)
      · exact .inl hx
  exact ⟨h.rotated heffect hrow hfree hmade hkept, heffect.onward hrow⟩

/-! ## Runs -/

theorem step_tidy (h : Tidy digest s) {a : Act} (hmatched : s.Matched digest a)
    (hstep : s.step digest a = some t) : Tidy digest t ∧ Onward s t := by
  cases a with
  | configure p => exact h.configure hstep
  | ensure k =>
    obtain rfl := Option.some.inj hstep
    exact h.ensure k
  | resolvePending k generation => exact h.resolvePending hstep
  | resolveContext v keyId threadId generation now =>
    obtain ⟨p, hp, rfl⟩ := Option.map_eq_some_iff.mp hstep
    exact h.resolveContext (List.mem_of_getElem? hp) (hmatched p hp)
  | rotate v keyId threadId expected close callback =>
    obtain ⟨p, hp, rfl⟩ := Option.map_eq_some_iff.mp hstep
    exact h.rotate (List.mem_of_getElem? hp) rfl (hmatched p hp)
  | reserveSweep interval now =>
    obtain rfl := Option.some.inj hstep
    have hsweep : ∃ at', settle s.store (s.store.reserveSweep interval now) =
        { s.store with lastSweepAt := at' } := by
      unfold State.reserveSweep
      split
      · exact ⟨s.store.lastSweepAt, rfl⟩
      · exact ⟨some now, rfl⟩
    obtain ⟨at', hsweep⟩ := hsweep
    rw [hsweep]
    exact h.of_store rfl rfl rfl rfl (List.Subset.refl _) rfl
      fun w hw => ⟨h.cleaner w hw, h.returned w hw⟩
  | call i =>
    obtain ⟨⟨w, u⟩, hadvance, rfl⟩ := Option.map_eq_some_iff.mp hstep
    obtain ⟨-, rfl⟩ := advance_eq hadvance
    exact h.advance hadvance (List.Subset.refl _) fun h => by cases h
  | finish i =>
    obtain ⟨⟨w, u⟩, hadvance, rfl⟩ := Option.map_eq_some_iff.mp hstep
    obtain ⟨-, rfl⟩ := advance_eq hadvance
    exact h.advance hadvance (List.subset_cons_self _ _) fun _ => List.mem_cons_self
  | clear i =>
    simp only [System.step] at hstep
    split at hstep
    · cases hstep
    next w hw =>
    split at hstep
    · next hphase =>
      obtain rfl := Option.some.inj hstep
      exact h.clear (List.mem_of_getElem? hw) hphase i
    · cases hstep
  | crash i =>
    obtain rfl := Option.some.inj hstep
    exact h.crash i
  | turns u =>
    obtain rfl := Option.some.inj hstep
    exact h.of_store rfl rfl rfl rfl (List.Subset.refl _) rfl
      fun w hw => ⟨h.cleaner w hw, h.returned w hw⟩

theorem tidy_init : Tidy digest init := by
  constructor
  · intro p hp
    cases hp
  · intro c x hx
    cases hx
  · intro c x hx
    cases hx
  · intro k t ht
    cases ht
  · intro w hw
    cases hw
  · intro w hw
    cases hw
  · intro x hx
    cases hx

theorem Tidy.runs (h : Tidy digest s) (hrun : Runs (step digest) (Matched digest) s t) :
    Tidy digest t :=
  hrun.invariant (Tidy digest) (fun _ _ _ h hok hstep => (step_tidy h hok hstep).1) h

theorem Tidy.onward (h : Tidy digest s) (hrun : Runs (step digest) (Matched digest) s t) :
    Onward s t :=
  hrun.preserves (Tidy digest) Onward .refl (fun _ _ _ => .trans)
    (fun _ _ _ h hok hstep => (step_tidy h hok hstep).1)
    (fun _ _ _ h hok hstep => (step_tidy h hok hstep).2) h

/-- **A rotation deletes exactly the conversation it rotates out.** In every run in which each
rotation is passed the policy the context was made under: generations never decrease, only the
current generation of a thread has a context, `delete_conversation` is called neither with the
conversation of the publication nor with that of a live context, and a conversation made for
a context that was removed has been deleted or is still recorded as pending. -/
theorem rotation_deletes_exactly (hinj : Function.Injective digest)
    (hcolon : ∀ c, ':' ∉ (digest c).toList)
    (hs : Runs (step digest) (Matched digest) init s) :
    (∀ t, Runs (step digest) (Matched digest) s t →
      ∀ k x, s.store.threads.get? k = some x →
        ∃ x', t.store.threads.get? k = some x' ∧ x.generation ≤ x'.generation) ∧
    (∀ x ∈ s.store.contexts,
      (s.store.threads.get? x.id.thread).map Thread.generation = some x.id.generation) ∧
    (∀ i w t, s.advance i .waiting .calling = some (w, t) →
      (∀ p ∈ s.versions, p.publicationId = w.thread.publicationId → w.marker ≠ p.conversationId) ∧
        ∀ x ∈ s.store.contexts, w.marker ≠ x.internalConversationId) ∧
    ∀ x ∈ s.removed, s.Isolated digest x.id x.internalConversationId →
      x.internalConversationId ∈ s.deleted ∨
        (s.store.threads.get? x.id.thread).map Thread.pendingCleanupConversation =
          some x.internalConversationId := by
  have htidy : Tidy digest s := tidy_init.runs hs
  refine ⟨fun t ht => (htidy.onward ht).threads, ?_, ?_, ?_⟩
  · intro x hx
    obtain ⟨t, ht, hgen⟩ := htidy.current x.id x (Table.get?_of_mem hx)
    rw [ht, ← hgen]
    rfl
  · intro i w t hcall
    obtain ⟨hw, -⟩ := advance_eq hcall
    obtain ⟨c, hc, hclosed, hname⟩ := htidy.cleaner w hw
    refine ⟨fun p hp hid => htidy.ne_own hname hp (hid.trans (hc ▸ rfl)), ?_⟩
    intro x hx heq
    rcases htidy.conversation x.id x (Table.get?_of_mem hx) with hown | hplain
    · -- the two names are made for one context, which is closed and current at once
      obtain ⟨p, -, -, hp⟩ := hname
      obtain ⟨q, -, -, hq⟩ := hown
      obtain rfl := derived_inj hinj hcolon (hp.symm.trans (heq.trans hq))
      obtain ⟨r, hr, hgen⟩ := htidy.current x.id x (Table.get?_of_mem hx)
      obtain ⟨r', hr', hlt⟩ := hclosed
      rw [hr] at hr'
      obtain rfl := Option.some.inj hr'
      omega
    · exact hplain (heq ▸ hname.derived)
  · intro x hx hown
    rcases htidy.removed x hx hown.derived with hdone | ⟨t, ht, hpending⟩
    · exact .inl hdone
    · right
      rw [ht, ← hpending]
      rfl

/-! ## A change of policy between context and rotation -/

/-- A digest for sample runs: the parts of the context spelled out, each letter in unary. -/
def spell (text : String) : List Char :=
  text.toList.flatMap fun c => List.replicate c.toNat '1' ++ ['0']

def plainDigest (c : ContextId) : String :=
  String.ofList (spell c.thread.publicationId ++ '.' :: (spell c.thread.keyId ++ '.' ::
    (spell c.thread.threadId ++ '.' ::
      ((if c.generation < 0 then '-' else '+') :: List.replicate c.generation.natAbs '1'))))

theorem spell_append_inj {l r r' : List Char}
    (h : (l.flatMap fun c => List.replicate c.toNat '1' ++ ['0']) ++ '.' :: r =
      (l'.flatMap fun c => List.replicate c.toNat '1' ++ ['0']) ++ '.' :: r') :
    l = l' ∧ r = r' := by
  induction l generalizing l' with
  | nil =>
    cases l' with
    | nil => exact ⟨rfl, (List.cons.inj h).2⟩
    | cons c l' =>
      rw [List.flatMap_cons, List.append_assoc, List.append_assoc] at h
      obtain ⟨-, h⟩ := replicate_append_inj (m := 0) (by decide) (by decide) h
      cases h
  | cons c l ih =>
    rw [List.flatMap_cons, List.append_assoc, List.append_assoc] at h
    cases l' with
    | nil =>
      obtain ⟨-, h⟩ := replicate_append_inj (n := 0) (by decide) (by decide) h
      cases h
    | cons c' l' =>
      rw [List.flatMap_cons, List.append_assoc, List.append_assoc] at h
      obtain ⟨hc, h⟩ := replicate_append_inj (by decide) (by decide) h
      obtain ⟨rfl, hr⟩ := ih (List.cons.inj h).2
      exact ⟨by rw [Char.toNat_inj.mp hc], hr⟩

theorem plainDigest_injective : Function.Injective plainDigest := by
  rintro ⟨⟨p, k, t⟩, g⟩ ⟨⟨p', k', t'⟩, g'⟩ h
  have h := String.ofList_injective h
  obtain ⟨hp, h⟩ := spell_append_inj h
  obtain ⟨hk, h⟩ := spell_append_inj h
  obtain ⟨ht, h⟩ := spell_append_inj h
  obtain ⟨hsign, hg⟩ := List.cons.inj h
  have habs : g.natAbs = g'.natAbs := by
    simpa using congrArg List.length hg
  have hgen : g = g' := by
    dsimp only at hsign
    split at hsign <;> split at hsign <;> first | omega | cases hsign
  obtain rfl : p = p' := String.toList_injective hp
  obtain rfl : k = k' := String.toList_injective hk
  obtain rfl : t = t' := String.toList_injective ht
  rw [hgen]

theorem plainDigest_colon (c : ContextId) : ':' ∉ (plainDigest c).toList := by
  have hspell : ∀ text, ':' ∉ spell text := by
    intro text hmem
    obtain ⟨x, -, hx⟩ := List.mem_flatMap.mp hmem
    simp at hx
  simp only [plainDigest, String.toList_ofList, List.mem_append, List.mem_cons, not_or]
  refine ⟨hspell _, by decide, hspell _, by decide, hspell _, by decide, ?_, ?_⟩
  · split <;> decide
  · simp

/-- The guard of the sample run, in a form that can be evaluated. -/
def keepsPolicy (s : System) : Act → Bool
  | .resolveContext v _ _ _ _ => s.versions[v]?.all Publication.isolated
  | .rotate v keyId threadId expected _ _ =>
    s.versions[v]?.all fun p =>
      (s.store.contexts.get? ⟨⟨p.publicationId, keyId, threadId⟩, expected⟩).all fun x =>
        x.internalConversationId = internalConversation p (plainDigest x.id)
  | _ => true

theorem matched_of_keepsPolicy {a : Act} (h : s.keepsPolicy a = true) :
    s.Matched plainDigest a := by
  cases a with
  | resolveContext v keyId threadId generation now =>
    intro p hp hshared
    simp only [keepsPolicy, hp, Option.all_some] at h
    rw [h] at hshared
    cases hshared
  | rotate v keyId threadId expected close callback =>
    intro p hp x hx
    simp only [keepsPolicy, hp, Option.all_some, hx] at h
    exact of_decide_eq_true h
  | _ => trivial

/-- An isolated thread is rotated, its conversation deleted and the marker cleared. -/
def rotatedOnce : List Act :=
  [.configure ⟨"!", "conv", true, false⟩, .ensure ⟨"!", "!", "!"⟩,
    .resolveContext 0 "!" "!" 0 1, .rotate 0 "!" "!" 0 false true, .call 0, .finish 0, .clear 0]

theorem rotation_deletes_exactly_rotatedOnce :
    ∃ s, Runs (step plainDigest) (Matched plainDigest) init s ∧ s.removed.length = 1 ∧
      ∀ x ∈ s.removed, s.Isolated plainDigest x.id x.internalConversationId →
        x.internalConversationId ∈ s.deleted ∨
          (s.store.threads.get? x.id.thread).map Thread.pendingCleanupConversation =
            some x.internalConversationId := by
  have hfollow : (follow (step plainDigest) (fun s a => s.keepsPolicy a = true) init
      rotatedOnce).map (fun s => s.removed.length) = some 1 := by decide +kernel
  obtain ⟨s, hs, hlength⟩ := Option.map_eq_some_iff.mp hfollow
  have hrun : Runs (step plainDigest) (Matched plainDigest) init s :=
    (runs_of_follow hs).mono fun _ _ => matched_of_keepsPolicy
  obtain ⟨-, -, -, hremoved⟩ :=
    rotation_deletes_exactly plainDigest_injective plainDigest_colon hrun
  exact ⟨s, hrun, hlength, hremoved⟩

/-- A context is made under the first policy, and rotated under the second. -/
def policyChange (before after : Bool) : List Act :=
  [.configure ⟨"!", "conv", before, false⟩, .ensure ⟨"!", "!", "!"⟩,
    .resolveContext 0 "!" "!" 0 1, .configure ⟨"!", "conv", after, false⟩,
    .rotate 0 "!" "!" 0 false true]

/-- After a change from shared to isolated the rotation is about to delete the conversation of
the publication; after a change from isolated to shared the conversation made for the context
is neither deleted nor pending. -/
theorem rotation_deletes_wrong :
    (∃ s, Reach (step plainDigest) init s ∧
      ∃ w t, s.advance 0 .waiting .calling = some (w, t) ∧
        ∃ p ∈ s.versions, p.publicationId = w.thread.publicationId ∧
          w.marker = p.conversationId) ∧
    ∃ s, Reach (step plainDigest) init s ∧
      ∃ x ∈ s.removed, s.Isolated plainDigest x.id x.internalConversationId ∧
        x.internalConversationId ∉ s.deleted ∧
        (s.store.threads.get? x.id.thread).map Thread.pendingCleanupConversation = some "" := by
  constructor
  · obtain ⟨s, hs⟩ : ∃ s, follow (step plainDigest) (fun _ _ => True) init
        (policyChange false true) = some s :=
      Option.isSome_iff_exists.mp (by decide +kernel)
    have hcall : ((follow (step plainDigest) (fun _ _ => True) init (policyChange false true)).bind
        fun s => (s.advance 0 .waiting .calling).bind fun r => s.versions.head?.map fun p =>
          (decide (p.publicationId = r.1.thread.publicationId),
            decide (r.1.marker = p.conversationId))) = some (true, true) := by
      decide +kernel
    rw [hs, Option.bind_some] at hcall
    obtain ⟨⟨w, t⟩, hadvance, hcall⟩ := Option.bind_eq_some_iff.mp hcall
    obtain ⟨p, hp, hcall⟩ := Option.map_eq_some_iff.mp hcall
    obtain ⟨hid, hmarker⟩ := Prod.mk.inj hcall
    exact ⟨s, runs_of_follow hs, w, t, hadvance, p, List.mem_of_head? hp, of_decide_eq_true hid,
      of_decide_eq_true hmarker⟩
  · obtain ⟨s, hs⟩ : ∃ s, follow (step plainDigest) (fun _ _ => True) init
        (policyChange true false) = some s :=
      Option.isSome_iff_exists.mp (by decide +kernel)
    have hleft : ((follow (step plainDigest) (fun _ _ => True) init (policyChange true false)).bind
        fun s => s.removed.head?.bind fun x => s.versions.head?.map fun p =>
          (decide (p.publicationId = x.id.thread.publicationId),
            decide (x.internalConversationId = p.conversationId ++ "::a2a::" ++ plainDigest x.id),
            decide (x.internalConversationId ∉ s.deleted),
            (s.store.threads.get? x.id.thread).map Thread.pendingCleanupConversation)) =
        some (true, true, true, some "") := by
      decide +kernel
    rw [hs, Option.bind_some] at hleft
    obtain ⟨x, hx, hleft⟩ := Option.bind_eq_some_iff.mp hleft
    obtain ⟨p, hp, hleft⟩ := Option.map_eq_some_iff.mp hleft
    simp only [Prod.mk.injEq, decide_eq_true_eq] at hleft
    obtain ⟨hid, hname, hdeleted, hpending⟩ := hleft
    exact ⟨s, runs_of_follow hs, x, List.mem_of_head? hx, ⟨p, List.mem_of_head? hp, hid, hname⟩,
      hdeleted, hpending⟩

end System

end State

end PawFlow.Agui
