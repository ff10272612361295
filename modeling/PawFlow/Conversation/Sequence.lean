import PawFlow.Lib.Runs
import PawFlow.Conversation.Batching
import PawFlow.Conversation.Operations

/-!
# Sequence numbers

One counter numbers the rows of all logs of a conversation. As long as it is ahead of every number
that was given out, each log is numbered in the order of the file. What can put it behind, or leave
rows without a number, are the conditions of the runs.
-/

namespace PawFlow.Conversation

open PawFlow.Lib

/-! ## Numbered rows -/

/-- Rows in the order of their numbers, which are above `lo` and up to `hi`. -/
structure Numbered (lo hi : Nat) (rows : List Row) : Prop where
  within : ∀ row ∈ rows, ∃ n, row.seq = some n ∧ lo < n ∧ n ≤ hi
  increasing : rows.Pairwise fun a b => a.seq.getD 0 < b.seq.getD 0

namespace Numbered

variable {lo mid hi : Nat} {rows rows' : List Row}

theorem nil (lo hi : Nat) : Numbered lo hi [] := ⟨by simp, List.Pairwise.nil⟩

theorem mono {lo' hi' : Nat} (h : Numbered lo hi rows) (hlo : lo' ≤ lo) (hhi : hi ≤ hi') :
    Numbered lo' hi' rows := by
  refine ⟨fun row hrow => ?_, h.increasing⟩
  obtain ⟨n, hn, hlow, hhigh⟩ := h.within row hrow
  exact ⟨n, hn, by omega, by omega⟩

theorem append (h : Numbered lo mid rows) (h' : Numbered mid hi rows') (hlo : lo ≤ mid)
    (hhi : mid ≤ hi) : Numbered lo hi (rows ++ rows') := by
  refine ⟨?_, List.pairwise_append.mpr ⟨h.increasing, h'.increasing, ?_⟩⟩
  · intro row hrow
    rcases List.mem_append.mp hrow with hrow | hrow
    · exact (h.mono le_rfl hhi).within row hrow
    · exact (h'.mono hlo le_rfl).within row hrow
  · intro a ha b hb
    obtain ⟨n, hn, -, hlt⟩ := h.within a ha
    obtain ⟨m, hm, hgt, -⟩ := h'.within b hb
    rw [hn, hm]
    exact lt_of_le_of_lt hlt hgt

theorem stampRows (n : Nat) (rows : List Row) :
    Numbered n (n + rows.length) (stampRows n rows) := by
  induction rows generalizing n with
  | nil => exact Numbered.nil _ _
  | cons row rows ih =>
    have hfirst : Numbered n (n + 1) [{ row with seq := some (n + 1) }] := by
      refine ⟨fun first hfirst => ?_, List.pairwise_singleton _ _⟩
      obtain rfl := List.mem_singleton.mp hfirst
      exact ⟨n + 1, rfl, by omega, le_rfl⟩
    have hhi : n + 1 + rows.length = n + (row :: rows).length := by
      rw [List.length_cons]
      omega
    exact hfirst.append (hhi ▸ ih (n + 1)) (by omega) (by omega)

theorem sharedForAgent (h : Numbered lo hi rows)
    (hread : rows.Pairwise fun a b => a.readsBefore b = true) (agent : String) :
    Numbered lo hi (sharedForAgent rows agent) := by
  have hsort : sortedRows rows = rows := hread.insertionSort_eq
  have hseq : ∀ row, (personalizeFromShared row agent).seq = row.seq := by
    intro row
    unfold personalizeFromShared
    dsimp only
    split
    · split <;> rfl
    · split <;> rfl
  unfold Conversation.sharedForAgent
  rw [hsort]
  refine ⟨?_, ?_⟩
  · intro row hrow
    obtain ⟨row', hrow', rfl⟩ := List.mem_map.mp hrow
    rw [hseq]
    exact h.within row' hrow'
  · rw [List.pairwise_map]
    refine h.increasing.imp ?_
    intro a b hab
    rw [hseq, hseq]
    exact hab

end Numbered

/-! ## The logs of a conversation -/

/-- Every row has a number, and the numbers increase in the order of the file. -/
def Sequenced (rows : List Row) : Prop :=
  (∀ row ∈ rows, row.seq.isSome) ∧ rows.Pairwise fun a b => a.seq.getD 0 < b.seq.getD 0

theorem Numbered.sequenced {lo hi : Nat} {rows : List Row} (h : Numbered lo hi rows) :
    Sequenced rows := by
  refine ⟨fun row hrow => ?_, h.increasing⟩
  obtain ⟨n, hn, -⟩ := h.within row hrow
  simp [hn]

namespace Conv

variable {canon : String → String} {s t : Conv} {item : Item}

/-- All logs of the conversation are numbered in the order of the file. -/
structure InSequence (s : Conv) : Prop where
  transcript : Sequenced s.transcript
  shared : Sequenced s.shared
  context : ∀ agent rows, s.contexts.get? agent = some rows → Sequenced rows

/-- All logs are numbered, up to `n`. -/
structure NumberedTo (n : Nat) (s : Conv) : Prop where
  transcript : Numbered 0 n s.transcript
  shared : Numbered 0 n s.shared
  context : ∀ agent rows, s.contexts.get? agent = some rows → Numbered 0 n rows

theorem NumberedTo.inSequence {n : Nat} (h : s.NumberedTo n) : s.InSequence :=
  ⟨h.transcript.sequenced, h.shared.sequenced, fun a rows hr => (h.context a rows hr).sequenced⟩

theorem NumberedTo.mono {n m : Nat} (h : s.NumberedTo n) (hle : n ≤ m) : s.NumberedTo m :=
  ⟨h.transcript.mono le_rfl hle, h.shared.mono le_rfl hle,
    fun a rows hr => (h.context a rows hr).mono le_rfl hle⟩

/-- The counter is ahead of every number in the logs, and does not wait for a flush. -/
structure Counted (s : Conv) : Prop extends s.NumberedTo s.counter where
  cached : s.cache.isSome = true → s.lastSeq.isSome = true

theorem counter_le_advance (n : Nat) : s.counter ≤ (s.advance n).counter := by
  rw [counter_advance]
  omega

theorem Counted.advance (h : s.Counted) (n : Nat) : (s.advance n).Counted where
  toNumberedTo := ⟨h.transcript.mono le_rfl (counter_le_advance n),
    h.shared.mono le_rfl (counter_le_advance n),
    fun a rows hr => (h.context a rows hr).mono le_rfl (counter_le_advance n)⟩
  cached := fun _ => rfl

theorem numbered_stamp (rows : List Row) :
    Numbered s.counter (s.advance rows.length).counter (s.stamp rows) :=
  Numbered.stampRows _ _

theorem Counted.appendTranscript (h : s.Counted) (rows : List Row) :
    (s.appendTranscript rows).Counted := by
  have hadvance := h.advance rows.length
  exact ⟨⟨h.transcript.append (numbered_stamp rows) (Nat.zero_le _) (counter_le_advance _),
    hadvance.shared, hadvance.context⟩, fun _ => rfl⟩

theorem Counted.appendShared (h : s.Counted) (rows : List Row) : (s.appendShared rows).Counted := by
  have hadvance := h.advance rows.length
  exact ⟨⟨hadvance.transcript,
    h.shared.append (numbered_stamp rows) (Nat.zero_le _) (counter_le_advance _),
    hadvance.context⟩, fun _ => rfl⟩

theorem Counted.rows (h : s.Counted) (agent : String) :
    Numbered 0 s.counter ((s.contexts.get? agent).getD []) := by
  cases hr : s.contexts.get? agent with
  | none => exact Numbered.nil _ _
  | some rows => exact h.context agent rows hr

theorem Counted.appendContext (h : s.Counted) (agent : String) (rows : List Row) :
    (s.appendContext agent rows).Counted := by
  have hadvance := h.advance rows.length
  refine ⟨⟨hadvance.transcript, hadvance.shared, ?_⟩, fun _ => rfl⟩
  intro a rows' hget
  by_cases ha : a = agent
  · subst ha
    rw [show (s.appendContext a rows).contexts.get? a = _ from PyDict.get?_set_self _ _ _,
      Option.some.injEq] at hget
    subst hget
    exact (h.rows a).append (numbered_stamp rows) (Nat.zero_le _) (counter_le_advance _)
  · rw [show (s.appendContext agent rows).contexts.get? a = _ from
      PyDict.get?_set_of_ne _ _ ha] at hget
    exact hadvance.context a rows' hget

/-- What is seeded reads in the order of the file. -/
def ReadsInOrder (s : Conv) : Prop := s.shared.Pairwise fun a b => a.readsBefore b = true

theorem NumberedTo.seedContext {n : Nat} (h : s.NumberedTo n) (agent : String)
    (hread : s.lacks agent → s.ReadsInOrder) : (s.seedContext agent).NumberedTo n := by
  unfold Conv.seedContext
  by_cases hk : agent ∈ s.ctxKnown
  · rwa [if_pos hk]
  rw [if_neg hk]
  by_cases hc : (s.contexts.get? agent).isSome
  · rw [if_pos hc]
    exact ⟨h.transcript, h.shared, h.context⟩
  rw [if_neg hc]
  by_cases he : s.shared.isEmpty
  · rwa [if_pos he]
  rw [if_neg he]
  refine ⟨h.transcript, h.shared, ?_⟩
  intro a rows hget
  by_cases ha : a = agent
  · subst ha
    rw [PyDict.get?_set_self, Option.some.injEq] at hget
    subst hget
    exact h.shared.sharedForAgent (hread ⟨hk, by simpa using hc⟩) a
  · rw [PyDict.get?_set_of_ne _ _ ha] at hget
    exact h.context a rows hget

theorem counter_seedContext (agent : String) : (s.seedContext agent).counter = s.counter := by
  obtain ⟨contexts, known, heq⟩ := seedContext_frame (s := s) agent
  rw [heq]
  rfl

/-! ## One message -/

theorem Counted.seedContext (h : s.Counted) (agent : String)
    (hread : s.lacks agent → s.ReadsInOrder) : (s.seedContext agent).Counted := by
  refine ⟨?_, ?_⟩
  · rw [counter_seedContext]
    exact h.toNumberedTo.seedContext agent hread
  · obtain ⟨contexts, known, heq⟩ := seedContext_frame (s := s) agent
    rw [heq]
    exact h.cached

theorem Counted.knownAgents (h : s.Counted) (role route : String) :
    (s.knownAgents role route).2.Counted := by
  obtain ⟨agents, heq⟩ := knownAgents_frame (s := s) role route
  rw [heq]
  exact ⟨⟨h.transcript, h.shared, h.context⟩, h.cached⟩

theorem Counted.agentsForAppend (h : s.Counted) : s.agentsForAppend.2.Counted := by
  unfold Conv.agentsForAppend
  split
  · exact h
  · exact ⟨⟨h.transcript, h.shared, h.context⟩, h.cached⟩

theorem Counted.queue (h : s.Counted) (others : List String) (rows : String → List Row) :
    (s.queue others rows).Counted := ⟨⟨h.transcript, h.shared, h.context⟩, h.cached⟩

theorem isSome_cache_noteAppends (rows : List Row) (touched : List String) :
    (s.noteAppends rows touched).cache.isSome = s.cache.isSome := by
  unfold Conv.noteAppends
  induction rows generalizing s with
  | nil => rfl
  | cons row rows ih =>
    rw [List.foldl_cons, ih]
    unfold noteAppend
    by_cases h : touched.isEmpty
    · cases hc : s.cache <;> simp [h, hc]
    · cases hc : s.cache <;> simp [h]

theorem Counted.noteAppends (h : s.Counted) (rows : List Row) (touched : List String) :
    (s.noteAppends rows touched).Counted := by
  have hcache := isSome_cache_noteAppends (s := s) rows touched
  obtain ⟨agents, cache, heq⟩ := noteAppends_frame (s := s) rows touched
  rw [heq] at hcache ⊢
  exact ⟨⟨h.transcript, h.shared, h.context⟩, fun hc => h.cached (hcache ▸ hc)⟩

end Conv

/-- Where the item starts a context, the shared one reads in the order of the file. -/
def Item.ReadsInOrder (canon : String → String) (s : Conv) (item : Item) : Prop :=
  ¬ item.isDelegate → ¬ item.isContext → item.owner canon ≠ "" → s.lacks (item.owner canon) →
    s.ReadsInOrder

section

variable {canon : String → String} {s t : Conv} {item : Item}

theorem counted_shareRows (h : s.Counted) (role route : String) (rows : List Row)
    (touched : List String) : (shareRows s role route rows touched).conv.Counted := by
  unfold shareRows
  dsimp only
  split
  · exact h
  · split
    · exact h
    · have hknown := (h.appendShared ‹List Row›).knownAgents role route
      split
      · exact hknown
      · exact hknown.queue _ _

theorem counted_routeDelegate (h : s.Counted) (rows : List Row) (agentName : String) :
    (routeDelegate canon s rows agentName).conv.Counted := by
  unfold routeDelegate
  split
  · exact h
  · rename_i msg children
    dsimp only
    split
    · exact h
    · set u := if msg.source.externalTransport = "" ∨ msg.source.kind = "reply" then
        s.appendContext _ _ else s with hu
      have hown : u.Counted := by
        rw [hu]
        split
        · exact h.appendContext _ _
        · exact h
      split
      · exact hown
      · split
        · exact (hown.appendShared _).agentsForAppend
        · exact (hown.appendShared _).agentsForAppend.queue _ _

theorem counted_route (h : s.Counted) (hread : item.ReadsInOrder canon s) (rows : List Row) :
    (route canon s item rows).conv.Counted := by
  unfold route
  by_cases hdisplay : item.row.displayOnly
  · rwa [if_pos hdisplay]
  rw [if_neg hdisplay]
  by_cases hd : item.isDelegate
  · rw [if_pos hd]
    exact counted_routeDelegate h rows _
  rw [if_neg hd]
  have howner : item.owner canon = item.routeAgent canon :=
    Item.owner_of_not_displayOnly hdisplay
  have hown : (ownContext canon s item rows).Counted := by
    unfold ownContext
    dsimp only
    by_cases hempty : item.routeAgent canon = ""
    · rwa [if_pos hempty]
    rw [if_neg hempty]
    by_cases hc : item.isContext
    · rw [if_pos hc]
      exact h.appendContext _ _
    · rw [if_neg hc]
      refine (h.seedContext _ ?_).appendContext _ _
      intro hl
      exact hread hd hc (howner ▸ hempty) (howner ▸ hl)
  dsimp only
  split
  · exact counted_shareRows hown _ _ _ _
  · exact hown

theorem Conv.Counted.opening (h : s.Counted) : s.opening.Counted := by
  have hadvance := h.advance 0
  unfold Conv.opening
  split
  · exact hadvance
  · exact ⟨⟨hadvance.transcript, hadvance.shared, hadvance.context⟩, fun _ => rfl⟩

theorem counted_appendMessage (h : s.Counted) (hread : item.ReadsInOrder canon s.opening) :
    (appendMessage canon s item).1.Counted := by
  have hadvance := h.advance 0
  unfold appendMessage
  split
  · exact h
  · dsimp only
    split
    · exact hadvance
    · split
      · exact hadvance
      · rename_i u hopen
        obtain rfl := Conv.opened_eq_ok hopen
        have hrouted : ∀ stored rows,
            (route canon (s.opening.appendTranscript stored) item rows).conv.Counted := by
          intro stored rows
          exact counted_route (h.opening.appendTranscript stored) hread rows
        split
        · exact hrouted _ _
        · exact (hrouted _ _).noteAppends _ _

/-! ## A batch -/

/-- A batch begun at `n`: what is on disk is numbered up to `n`, what is collected above it. -/
structure Batch.Counted (s : Conv) (n : Nat) (b : Batch) : Prop where
  conv : b.conv.NumberedTo n
  seq : b.conv.lastSeq.isSome = true
  le : n ≤ b.conv.counter
  transcript : Numbered n b.conv.counter b.transcript
  shared : Numbered n b.conv.counter b.shared
  context : ∀ agent rows, b.contexts.get? agent = some rows → Numbered n b.conv.counter rows
  nodup : (b.contexts.map Prod.fst).Nodup
  source : b.conv.shared = s.shared
  lacks : ∀ agent, b.conv.lacks agent → s.lacks agent

variable {b : Batch} {n : Nat}

theorem Batch.Counted.rows (h : b.Counted s n) (agent : String) :
    Numbered n b.conv.counter ((b.contexts.get? agent).getD []) := by
  cases hr : b.contexts.get? agent with
  | none => exact Numbered.nil _ _
  | some rows => exact h.context agent rows hr

theorem Batch.Counted.advance (h : b.Counted s n) (k : Nat) :
    Batch.Counted s n { b with conv := b.conv.advance k } where
  conv := ⟨h.conv.transcript, h.conv.shared, h.conv.context⟩
  seq := rfl
  le := h.le.trans (Conv.counter_le_advance k)
  transcript := h.transcript.mono le_rfl (Conv.counter_le_advance k)
  shared := h.shared.mono le_rfl (Conv.counter_le_advance k)
  context := fun a rows hr => (h.context a rows hr).mono le_rfl (Conv.counter_le_advance k)
  nodup := h.nodup
  source := h.source
  lacks := h.lacks

theorem Conv.lacks_of_lacks_seedContext {agent a : String} (h : (s.seedContext agent).lacks a) :
    s.lacks a := by
  unfold Conv.seedContext at h
  split at h
  · exact h
  split at h
  · exact ⟨fun hk => h.1 (List.mem_cons_of_mem _ hk), h.2⟩
  split at h
  · exact h
  · by_cases ha : a = agent
    · exact absurd List.mem_cons_self (ha ▸ h.1)
    · refine ⟨fun hk => h.1 (List.mem_cons_of_mem _ hk), ?_⟩
      have hget := h.2
      rwa [PyDict.get?_set_of_ne _ _ ha] at hget

theorem Batch.Counted.seedContext (h : b.Counted s n) (agent : String)
    (hread : s.lacks agent → s.ReadsInOrder) (seeded : List String) :
    Batch.Counted s n { b with conv := b.conv.seedContext agent, seeded := seeded } := by
  have hcounter := Conv.counter_seedContext (s := b.conv) agent
  refine ⟨h.conv.seedContext agent ?_, ?_, ?_, ?_, ?_, ?_, h.nodup, ?_, ?_⟩
  · intro hl
    have hr := hread (h.lacks agent hl)
    unfold Conv.ReadsInOrder
    rwa [h.source]
  · obtain ⟨contexts, known, heq⟩ := Conv.seedContext_frame (s := b.conv) agent
    simp only [heq]
    exact h.seq
  · exact hcounter ▸ h.le
  · exact hcounter ▸ h.transcript
  · exact hcounter ▸ h.shared
  · exact hcounter ▸ h.context
  · obtain ⟨contexts, known, heq⟩ := Conv.seedContext_frame (s := b.conv) agent
    simp only [heq]
    exact h.source
  · intro a hl
    exact h.lacks a (Conv.lacks_of_lacks_seedContext hl)

theorem Batch.Counted.addContext (h : b.Counted s n) (agent : String) (rows : List Row) :
    (b.addContext agent rows).Counted s n := by
  have hadvance := h.advance rows.length
  refine ⟨hadvance.conv, rfl, hadvance.le, hadvance.transcript, hadvance.shared, ?_,
    PyDict.nodup_keys_set _ h.nodup, hadvance.source, hadvance.lacks⟩
  intro a rows' hget
  by_cases ha : a = agent
  · subst ha
    rw [show (b.addContext a rows).contexts.get? a = _ from PyDict.get?_set_self _ _ _,
      Option.some.injEq] at hget
    subst hget
    exact (h.rows a).append (Conv.numbered_stamp rows) h.le (Conv.counter_le_advance _)
  · rw [show (b.addContext agent rows).contexts.get? a = _ from
      PyDict.get?_set_of_ne _ _ ha] at hget
    exact hadvance.context a rows' hget

theorem Batch.Counted.own (h : b.Counted s n) (hread : item.ReadsInOrder canon s)
    (hd : ¬ item.isDelegate) (hdisplay : ¬ item.row.displayOnly) (rows : List Row) :
    (b.own canon item rows).Counted s n := by
  unfold Batch.own
  dsimp only
  have howner : item.owner canon = item.routeAgent canon :=
    Item.owner_of_not_displayOnly hdisplay
  by_cases hempty : item.routeAgent canon = ""
  · rwa [if_pos hempty]
  rw [if_neg hempty]
  by_cases hskip : item.isContext ∨ item.routeAgent canon ∈ b.seeded
  · rw [if_pos hskip]
    exact h.addContext _ _
  · rw [if_neg hskip]
    rw [not_or] at hskip
    refine (h.seedContext _ ?_ _).addContext _ _
    intro hl
    exact hread hd hskip.1 (howner ▸ hempty) (howner ▸ hl)

theorem Batch.Counted.knownAgents (h : b.Counted s n) (role route : String) :
    Batch.Counted s n { b with conv := (b.conv.knownAgents role route).2 } := by
  obtain ⟨agents, heq⟩ := Conv.knownAgents_frame (s := b.conv) role route
  rw [heq]
  exact ⟨⟨h.conv.transcript, h.conv.shared, h.conv.context⟩, h.seq, h.le, h.transcript,
    h.shared,
    h.context, h.nodup, h.source, h.lacks⟩

theorem Batch.Counted.share (h : b.Counted s n) (role route : String) (rows : List Row) :
    (b.share role route rows).2.Counted s n := by
  unfold Batch.share
  dsimp only
  split
  · exact h
  · split
    · exact h
    · rename_i sharedRows _
      have hshares : Batch.Counted s n { b with
          conv := b.conv.advance sharedRows.length
          shared := b.shared ++ b.conv.stamp sharedRows } := by
        have hadvance := h.advance sharedRows.length
        exact ⟨hadvance.conv, rfl, hadvance.le, hadvance.transcript,
          h.shared.append (Conv.numbered_stamp _) h.le (Conv.counter_le_advance _),
          hadvance.context, h.nodup, hadvance.source, hadvance.lacks⟩
      have hknown := hshares.knownAgents role route
      split
      · exact hknown
      · exact ⟨⟨hknown.conv.transcript, hknown.conv.shared, hknown.conv.context⟩, hknown.seq,
          hknown.le,
          hknown.transcript, hknown.shared, hknown.context, hknown.nodup, hknown.source, hknown.lacks⟩

theorem Batch.Counted.addItem (h : b.Counted s n) (hread : item.ReadsInOrder canon s)
    (hd : ¬ item.isDelegate) : (b.addItem canon item).2.Counted s n := by
  unfold Batch.addItem
  set stored := if item.isContext then []
    else (item.msg.canonicalRows b.conv.findParent b.parents).1 with hstored
  have hnoted : Batch.Counted s n { b with
      conv := b.conv.advance stored.length
      transcript := b.transcript ++ b.conv.stamp stored
      parents := (item.msg.canonicalRows b.conv.findParent b.parents).2 } := by
    have hadvance := h.advance stored.length
    exact ⟨hadvance.conv, rfl, hadvance.le,
      h.transcript.append (Conv.numbered_stamp _) h.le (Conv.counter_le_advance _),
      hadvance.shared, hadvance.context, h.nodup, hadvance.source, hadvance.lacks⟩
  dsimp only
  by_cases hdisplay : item.row.displayOnly
  · rw [if_pos hdisplay]
    exact hnoted
  rw [if_neg hdisplay]
  have hown := hnoted.own hread hd hdisplay (item.msg.canonicalRows b.conv.findParent b.parents).1
  split
  · exact hown.share _ _ _
  · exact hown

variable {b' : Batch}

theorem Batch.share_snd {role route : String} {rows : List Row}
    (h : (b.share role route rows).1 = .ok b') : (b.share role route rows).2 = b' := by
  unfold Batch.share at h ⊢
  dsimp only at h ⊢
  split at h
  · rw [if_pos ‹_›]
    exact Except.ok.inj h
  rw [if_neg ‹_›]
  cases hmap : (filterForShared rows).mapM transformForShared with
  | error e => simp [hmap] at h
  | ok sharedRows =>
    simp only [hmap] at h ⊢
    split at h
    · simp at h
    · exact Except.ok.inj h

theorem Batch.addItem_snd (h : (b.addItem canon item).1 = .ok b') :
    (b.addItem canon item).2 = b' := by
  unfold Batch.addItem at h ⊢
  dsimp only at h ⊢
  split at h
  · rw [if_pos ‹_›]
    exact Except.ok.inj h
  rw [if_neg ‹_›]
  split at h
  · rw [if_pos ‹_›]
    exact Batch.share_snd h
  · rw [if_neg ‹_›]
    exact Except.ok.inj h

variable {items : List Item}

theorem Batch.addAll_snd
    (h : (b.addAll canon items).1 = .ok b') : (b.addAll canon items).2 = b' := by
  induction items generalizing b with
  | nil => exact Except.ok.inj h
  | cons item items ih =>
    obtain ⟨c, hadd, hrest⟩ := Batch.addAll_cons h
    rw [Batch.addAll_of_addItem hadd]
    exact ih hrest

theorem Batch.Counted.addAll (h : b.Counted s n)
    (hread : ∀ item ∈ items, item.ReadsInOrder canon s) (hd : ∀ item ∈ items, ¬ item.isDelegate) :
    (b.addAll canon items).2.Counted s n := by
  induction items generalizing b with
  | nil => exact h
  | cons item items ih =>
    rw [List.forall_mem_cons] at hread hd
    have hitem := h.addItem hread.1 hd.1
    unfold Batch.addAll
    cases hadd : b.addItem canon item with
    | mk result c =>
      rw [hadd] at hitem
      cases result with
      | error e => exact hitem
      | ok c' =>
        obtain rfl : c = c' := by
          have hsnd : (b.addItem canon item).2 = c' := Batch.addItem_snd (by rw [hadd])
          rwa [hadd] at hsnd
        exact ih hitem hread.2 hd.2

theorem Batch.Counted.flush (h : b.Counted s n) : b.flush.Counted := by
  have hcounter : b.flush.counter = b.conv.counter := by
    obtain ⟨last, hlast⟩ := Option.isSome_iff_exists.mp h.seq
    have hlast' : b.flush.lastSeq = some last := hlast
    simp [Conv.counter, hlast, hlast']
  refine ⟨?_, fun _ => h.seq⟩
  rw [hcounter]
  refine ⟨?_, ?_, ?_⟩
  · exact h.conv.transcript.append h.transcript (Nat.zero_le _) h.le
  · exact h.conv.shared.append h.shared (Nat.zero_le _) h.le
  · intro a rows hget
    have hrows : rows = (b.conv.contexts.get? a).getD [] ++ (b.contexts.get? a).getD [] := by
      rw [← context_foldl_set b.contexts h.nodup]
      exact (congrArg (·.getD []) hget).symm
    rw [hrows]
    refine Numbered.append ?_ (h.rows a) (Nat.zero_le _) h.le
    cases hdisk : b.conv.contexts.get? a with
    | none => exact Numbered.nil _ _
    | some disk => exact h.conv.context a disk hdisk

/-! ## Several messages -/

/-- The same for messages that are appended one by one, each in the state before it. -/
def eachReadsInOrder (canon : String → String) (s : Conv) : List Item → Prop
  | [] => True
  | item :: items =>
    item.ReadsInOrder canon s.opening ∧
      eachReadsInOrder canon (appendMessage canon s item).1 items

/-- The same for `append_messages`. -/
def batchReadsInOrder (canon : String → String) (s : Conv) (items : List Item) : Prop :=
  match batchChecks canon items with
  | .ok true => eachReadsInOrder canon s items
  | _ => ∀ item ∈ items, item.ReadsInOrder canon s.opening

theorem counted_appendEach (h : s.Counted)
    (hread : eachReadsInOrder canon s items) : (appendEach canon s items).1.Counted := by
  induction items generalizing s with
  | nil => exact h
  | cons item items ih =>
    have hitem := counted_appendMessage h hread.1
    have hrest := hread.2
    unfold appendEach
    rcases happ : appendMessage canon s item with ⟨t, _ | e⟩
    · rw [happ] at hitem hrest
      exact ih hitem hrest
    · rw [happ] at hitem
      exact hitem

theorem not_isDelegate_of_batchChecks
    (h : batchChecks canon items = .ok false) : ∀ item ∈ items, ¬ item.isDelegate := by
  induction items with
  | nil => simp
  | cons item items ih =>
    unfold batchChecks at h
    split at h
    · simp at h
    · split at h
      · simp at h
      · exact List.forall_mem_cons.mpr ⟨‹_›, ih h⟩

theorem Batch.Counted.start (h : s.Counted) (hseq : s.lastSeq.isSome = true) :
    Batch.Counted s s.counter { conv := s } where
  conv := h.toNumberedTo
  seq := hseq
  le := le_rfl
  transcript := Numbered.nil _ _
  shared := Numbered.nil _ _
  context := by simp [PyDict.get?]
  nodup := List.nodup_nil
  source := rfl
  lacks := fun _ hl => hl

theorem Batch.Counted.convCounted (h : b.Counted s n) : b.conv.Counted :=
  ⟨h.conv.mono h.le, fun _ => h.seq⟩

theorem counted_appendMessages (h : s.Counted)
    (hread : batchReadsInOrder canon s items) : (appendMessages canon s items).1.Counted := by
  match items, hread with
  | [], _ => exact h
  | [item], hread =>
    refine counted_appendMessage h ?_
    unfold batchReadsInOrder at hread
    split at hread
    · exact hread.1
    · exact hread item List.mem_cons_self
  | first :: second :: rest, hread =>
    unfold appendMessages batchReadsInOrder at *
    cases hchecks : batchChecks canon (first :: second :: rest) with
    | error e => exact h
    | ok each =>
      cases each with
      | true =>
        simp only [hchecks] at hread ⊢
        exact counted_appendEach h hread
      | false =>
        simp only [hchecks] at hread ⊢
        cases hopen : (s.advance 0).opened first.userId with
        | error e => exact h.advance 0
        | ok u =>
          obtain rfl := Conv.opened_eq_ok hopen
          have hstart := Batch.Counted.start h.opening Conv.lastSeq_opening
          have hall := hstart.addAll hread (not_isDelegate_of_batchChecks hchecks)
          dsimp only
          split
          · rename_i e b hadd
            rw [hadd] at hall
            exact hall.convCounted
          · rename_i b b' hadd
            have hsnd := Batch.addAll_snd (congrArg Prod.fst hadd)
            rw [hsnd] at hall
            exact hall.flush.noteAppends _ _

end

/-! ## The other writes -/

namespace Conv

variable {s : Conv}

theorem Counted.saveContext (h : s.Counted) (agent : String) (ms : List Message) :
    (s.saveContext agent ms).1.Counted := by
  unfold Conv.saveContext
  split
  · exact h
  dsimp only
  set rows := canonicalAll s.findParent [] (ms.filter fun m => !m.row.displayOnly)
  split
  · exact h
  have hadvance := h.advance rows.length
  have hnew : Numbered 0 (s.advance rows.length).counter (s.stamp rows) :=
    (numbered_stamp rows).mono (Nat.zero_le _) le_rfl
  have hwritten : ((s.advance rows.length).putRows agent (s.stamp rows)).Counted := by
    unfold putRows
    split
    · exact ⟨⟨hadvance.transcript, hnew, hadvance.context⟩, fun _ => rfl⟩
    · refine ⟨⟨hadvance.transcript, hadvance.shared, ?_⟩, fun _ => rfl⟩
      intro a rows' hget
      by_cases ha : a = agent
      · subst ha
        rw [PyDict.get?_set_self, Option.some.injEq] at hget
        exact hget ▸ hnew
      · rw [PyDict.get?_set_of_ne _ _ ha] at hget
        exact hadvance.context a rows' hget
  split
  · exact hwritten
  · refine ⟨⟨hwritten.transcript, hwritten.shared, hwritten.context⟩, ?_⟩
    intro hcache
    refine hwritten.cached ?_
    simpa [noteContext] using hcache

theorem Counted.loadCache (h : s.Counted) : s.loadCache.Counted := by
  unfold Conv.loadCache
  split
  · exact h
  · -- Seeding only raises the counter.
    have hle : s.counter ≤ max (s.lastSeq.getD 0) s.peekMaxSeq := by
      unfold Conv.counter
      cases s.lastSeq with
      | none => simp
      | some last => simp
    have hmono := h.toNumberedTo.mono hle
    exact ⟨⟨hmono.transcript, hmono.shared, hmono.context⟩, fun _ => rfl⟩

theorem Counted.flush (h : s.Counted) (hcache : s.cache.isSome = true)
    (msgCount maxSeq : Option Nat) : (s.flush msgCount maxSeq).Counted := by
  obtain ⟨last, hlast⟩ := Option.isSome_iff_exists.mp (h.cached hcache)
  have hcounter : (s.flush msgCount maxSeq).counter = s.counter := by
    simp [Conv.counter, Conv.flush, hlast]
  refine ⟨?_, fun hc => h.cached hc⟩
  rw [hcounter]
  exact ⟨h.transcript, h.shared, h.context⟩

theorem Counted.restart (h : s.NumberedTo s.peekMaxSeq) : s.restart.Counted :=
  ⟨⟨h.transcript, h.shared, h.context⟩, fun hc => by simp [Conv.restart] at hc⟩

end Conv

/-! ## Runs -/

/-- The operations of a run. -/
inductive Op where
  | appendMessage (item : Item)
  | appendMessages (items : List Item)
  | appendContextMessage (agent : String) (m : Message)
  | saveContext (agent : String) (ms : List Message)
  | createDisplayTrace (traceId msgId : String) (ts : Time) (source : Source)
  | appendDisplayTrace (traceId msgId : String) (ts : Time)
  /-- Any reader that wants the cache entry. -/
  | loadCache
  /-- The worker that writes a snapshot of the entry; the snapshot may be an old one. -/
  | flush (msgCount maxSeq : Option Nat)
  | restart

/-- What an operation leaves, whether it raises or not. -/
def step (canon : String → String) (s : Conv) : Op → Option Conv
  | .appendMessage item => some (appendMessage canon s item).1
  | .appendMessages items => some (appendMessages canon s items).1
  | .appendContextMessage agent m => some (s.appendContextMessage agent m).1
  | .saveContext agent ms => some (s.saveContext agent ms).1
  | .createDisplayTrace traceId msgId ts source =>
    some (s.createDisplayTrace traceId msgId ts source)
  | .appendDisplayTrace traceId msgId ts => some (s.appendDisplayTrace traceId msgId ts)
  | .loadCache => some s.loadCache
  | .flush msgCount maxSeq => if s.cache.isSome then some (s.flush msgCount maxSeq) else none
  | .restart => some s.restart

/-- What keeps the numbers in order: a context is only started from a shared one that reads in the
order of its file; `append_agent_context_message` writes nothing, as its rows have no number; and a
process ends only when the metadata or the end of the transcript have the highest number. -/
def Op.KeepsOrder (canon : String → String) (s : Conv) : Op → Prop
  | .appendMessage item => item.ReadsInOrder canon s.opening
  | .appendMessages items => batchReadsInOrder canon s items
  | .appendContextMessage _ m =>
    s.created = true → Conv.validateAll (m.canonicalRows s.findParent []).1 ≠ .ok ()
  | .restart => s.NumberedTo s.peekMaxSeq
  | _ => True

section

variable {canon : String → String} {s t : Conv}

theorem counted_step {op : Op} (h : s.Counted) (hok : op.KeepsOrder canon s)
    (hstep : step canon s op = some t) : t.Counted := by
  cases op with
  | appendMessage item =>
    cases hstep
    exact counted_appendMessage h hok
  | appendMessages items =>
    cases hstep
    exact counted_appendMessages h hok
  | appendContextMessage agent m =>
    cases hstep
    unfold Conv.appendContextMessage
    by_cases hc : s.created
    · have hinvalid := hok hc
      simp only [hc, Bool.not_true, Bool.false_eq_true, if_false]
      split
      · exact h
      · exact absurd ‹_› hinvalid
    · simpa [hc] using h
  | saveContext agent ms =>
    cases hstep
    exact h.saveContext agent ms
  | createDisplayTrace traceId msgId ts source =>
    cases hstep
    exact h.appendTranscript _
  | appendDisplayTrace traceId msgId ts =>
    cases hstep
    exact h.appendTranscript _
  | loadCache =>
    cases hstep
    exact h.loadCache
  | flush msgCount maxSeq =>
    simp only [step] at hstep
    split at hstep
    · cases hstep
      exact h.flush ‹_› msgCount maxSeq
    · cases hstep
  | restart =>
    cases hstep
    exact Conv.Counted.restart hok

theorem counted_new : ({} : Conv).Counted :=
  ⟨⟨Numbered.nil _ _, Numbered.nil _ _, by simp [PyDict.get?]⟩, by simp⟩

/-- In every run that keeps the order, every log is numbered, strictly increasing in the order of
the file. -/
theorem inSequence_of_runs
    (hrun : Runs (step canon) (fun s op => op.KeepsOrder canon s) {} s) : s.InSequence := by
  have hcounted : s.Counted := by
    refine hrun.invariant Conv.Counted ?_ counted_new
    intro t op u ht hok hstep
    exact counted_step ht hok hstep
  exact hcounted.toNumberedTo.inSequence

def noteTo (id type agent : String) : Item where
  msg := { row := { role := "user", msgId := id, ts := some 1, content := .text id
                    source := { type, name := "u", targetAgent := agent } } }
  userId := "u"

theorem inSequence_of_runs_noteTo :
    (appendMessage id (((appendMessage id {} (noteTo "m1" "user" "a")).1.createDisplayTrace
      "t1" "m2" 1 {}).restart) (noteTo "m3" "user" "a")).1.InSequence := by
  set s₁ := (appendMessage id {} (noteTo "m1" "user" "a")).1 with h₁
  set s₂ := s₁.createDisplayTrace "t1" "m2" 1 {} with h₂
  have hcounted₁ : s₁.Counted :=
    counted_appendMessage counted_new fun _ _ _ _ => List.Pairwise.nil
  have hcounted₂ : s₂.Counted := hcounted₁.appendTranscript _
  -- The row of the trace is the last one, and has the highest number.
  have hpeek : s₂.counter = s₂.peekMaxSeq := by decide +kernel
  have hnumbered : s₂.NumberedTo s₂.peekMaxSeq := hpeek ▸ hcounted₂.toNumberedTo
  have hknown : ¬ (s₂.restart.opening.lacks "a") := by
    intro hl
    have hsome : (s₂.restart.opening.contexts.get? "a").isSome = true := by decide +kernel
    rw [hl.2] at hsome
    cases hsome
  refine @inSequence_of_runs id _ ?_
  refine Runs.snoc (a := Op.appendMessage (noteTo "m3" "user" "a")) (t := s₂.restart) ?_ ?_ rfl
  · refine Runs.snoc (a := Op.restart) (t := s₂) ?_ hnumbered rfl
    refine Runs.snoc (a := Op.createDisplayTrace "t1" "m2" 1 {}) (t := s₁) ?_ trivial rfl
    exact Runs.snoc (a := Op.appendMessage (noteTo "m1" "user" "a")) (Runs.refl _)
      (fun _ _ _ _ => List.Pairwise.nil) rfl
  · intro _ _ _ hl
    exact absurd hl hknown

/-- After a restart an injection gets a number that the context already has; and
`append_agent_context_message` writes a row without one. -/
theorem not_inSequence_after_restart :
    (∃ s, Reach (step id) {} s ∧ ¬ s.InSequence ∧
      (s.contexts.get? "a").map (List.map Row.seq) = some [some 2, some 2]) ∧
    ∃ s, Reach (step id) {} s ∧ ¬ s.InSequence ∧
      (s.contexts.get? "a").map (List.map Row.seq) = some [some 2, none] := by
  have hseqs : ∀ s : Conv, ∀ last, (s.contexts.get? "a").map (List.map Row.seq) =
      some [some 2, last] → last.getD 0 ≤ 2 → ¬ s.InSequence := by
    intro s last hmap hle hseq
    obtain ⟨rows, hget, hrows⟩ := Option.map_eq_some_iff.mp hmap
    have hlt : (rows.map Row.seq).Pairwise fun a b => a.getD 0 < b.getD 0 :=
      List.pairwise_map.mpr (hseq.context "a" rows hget).2
    rw [hrows] at hlt
    simp only [List.pairwise_cons, List.mem_singleton, forall_eq] at hlt
    exact absurd hlt.1 (by simpa using hle)
  set s₁ := (appendMessage id {} (noteTo "m1" "user" "a")).1 with h₁
  have hfirst : Reach (step id) {} s₁ :=
    Runs.snoc (a := Op.appendMessage (noteTo "m1" "user" "a")) (Runs.refl _) trivial rfl
  refine ⟨⟨(appendMessage id s₁.restart (noteTo "m2" "context" "a")).1, ?_, ?_, ?_⟩,
    ⟨(s₁.appendContextMessage "a" (noteTo "m2" "context" "a").msg).1, ?_, ?_, ?_⟩⟩
  · refine Runs.snoc (a := Op.appendMessage (noteTo "m2" "context" "a")) ?_ trivial rfl
    exact Runs.snoc (a := Op.restart) hfirst trivial rfl
  · exact hseqs _ (some 2) (by decide +kernel) le_rfl
  · decide +kernel
  · exact Runs.snoc (a := Op.appendContextMessage "a" (noteTo "m2" "context" "a").msg) hfirst
      trivial rfl
  · exact hseqs _ none (by decide +kernel) (by decide)
  · decide +kernel

end

end PawFlow.Conversation
