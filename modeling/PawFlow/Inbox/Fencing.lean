import PawFlow.Inbox.Store

/-!
# Ownership and fencing of inbox items

`Lawful s s'` says what every operation respects: it keeps the invariant `Sound`, it never
lowers a fence, and every item of `s'` is an item of `s` (the same one if its state was
final) or has a sequence that was not handed out before. It is a preorder, so an operation
made of several statements is lawful when each of them is.
-/

namespace PawFlow.Inbox

open PawFlow.Lib

namespace Store

def Owned (i : Item) : Prop :=
  (i.ownerRunId.isSome ↔ i.state = .claimed) ∧ (i.leaseExpiresAt.isSome ↔ i.state = .claimed)

structure Sound (s : Store) : Prop where
  owned : ∀ i ∈ s.items, Owned i
  /-- Unread and leased work is younger than the fence of its mailbox. -/
  beyond : ∀ i ∈ s.items, live i → ∀ f ∈ s.fences, f.mailbox = i.mailbox → f.cutoff < i.createdAt
  bounded : ∀ i ∈ s.items, i.sequence ≤ s.lastSequence
  distinct : ∀ i ∈ s.items, ∀ j ∈ s.items, i.sequence = j.sequence → i = j

/-- The item `i` seen again later as `i'`. -/
def Continues (i i' : Item) : Prop :=
  i'.sequence = i.sequence ∧ (i.state.isFinal → i'.state = i.state)

structure Advances (s s' : Store) : Prop where
  last : s.lastSequence ≤ s'.lastSequence
  items : ∀ i' ∈ s'.items, (∃ i ∈ s.items, Continues i i') ∨ s.lastSequence < i'.sequence
  fences : ∀ f ∈ s.fences, ∃ f' ∈ s'.fences, f'.mailbox = f.mailbox ∧ f.cutoff ≤ f'.cutoff

structure Lawful (s s' : Store) : Prop where
  sound : Sound s → Sound s'
  advances : Advances s s'

theorem Advances.refl (s : Store) : Advances s s where
  last := le_rfl
  items i hi := .inl ⟨i, hi, rfl, fun _ => rfl⟩
  fences f hf := ⟨f, hf, rfl, le_rfl⟩

variable {s s' : Store} {p : Item → Bool} {now : Time} {runId a c : String} {n : Nat}
  {msgIds : List String}

variable {t u : Store} {i : Item}

theorem Advances.trans (h : Advances s t) (h' : Advances t u) : Advances s u where
  last := h.last.trans h'.last
  items := by
    intro i'' hi''
    rcases h'.items i'' hi'' with ⟨i', hi', hseq', hfin'⟩ | hnew
    · rcases h.items i' hi' with ⟨i, hi, hseq, hfin⟩ | hnew
      · refine .inl ⟨i, hi, hseq'.trans hseq, ?_⟩
        intro hfinal
        have hstate := hfin hfinal
        exact (hfin' (hstate ▸ hfinal)).trans hstate
      · exact .inr (by omega)
    · exact .inr (lt_of_le_of_lt h.last hnew)
  fences := by
    intro f hf
    obtain ⟨f', hf', hbox, hle⟩ := h.fences f hf
    obtain ⟨f'', hf'', hbox', hle'⟩ := h'.fences f' hf'
    exact ⟨f'', hf'', hbox'.trans hbox, hle.trans hle'⟩

theorem Lawful.refl (s : Store) : Lawful s s := ⟨id, .refl s⟩

theorem Lawful.trans (h : Lawful s t) (h' : Lawful t u) : Lawful s u :=
  ⟨fun hs => h'.sound (h.sound hs), h.advances.trans h'.advances⟩

/-! ## Statements -/

theorem lawful_of_eq (hitems : s'.items = s.items)
    (hlast : s'.lastSequence = s.lastSequence) (hfences : s'.fences = s.fences) : Lawful s s' where
  sound hs := by
    constructor
    · rw [hitems]
      exact hs.owned
    · rw [hitems, hfences]
      exact hs.beyond
    · rw [hitems, hlast]
      exact hs.bounded
    · rw [hitems]
      exact hs.distinct
  advances := by
    constructor
    · rw [hlast]
    · rw [hitems]
      exact (Advances.refl s).items
    · rw [hfences]
      exact (Advances.refl s).fences

/-- One `UPDATE` of items out of a state that is not final. -/
structure Moves (p : Item → Bool) (f : Item → Item) : Prop where
  key : ∀ i, (f i).key = i.key
  sequence : ∀ i, (f i).sequence = i.sequence
  createdAt : ∀ i, (f i).createdAt = i.createdAt
  owned : ∀ i, p i → Owned i → Owned (f i)
  live : ∀ i, p i → live i

theorem not_final_of_live (h : live i) : i.state.isFinal = false := by
  cases hs : i.state <;> simp_all [live, ItemState.isFinal]

variable {f : Item → Item} {source claimId : String} {rows : List (Payload × Except Error String)}
  {r : Option Claim × List Item}

theorem Moves.continues (h : Moves p f) (i : Item) :
    Continues i (if p i then f i else i) := by
  split
  · next hp =>
    refine ⟨h.sequence i, ?_⟩
    intro hfinal
    rw [not_final_of_live (h.live i hp)] at hfinal
    exact absurd hfinal (by simp)
  · exact ⟨rfl, fun _ => rfl⟩

theorem lawful_updateItems (s : Store) (h : Moves p f) :
    Lawful s (s.updateItems p f h.key) where
  sound hs := by
    constructor
    · intro i' hi'
      obtain ⟨i, hi, rfl⟩ := (Table.mem_update h.key).mp hi'
      split
      · next hp => exact h.owned i hp (hs.owned i hi)
      · exact hs.owned i hi
    · intro i' hi' hlive fence hfence hbox
      obtain ⟨i, hi, rfl⟩ := (Table.mem_update h.key).mp hi'
      by_cases hp : p i
      · rw [if_pos hp] at hlive hbox ⊢
        have hkey := h.key i
        simp only [Item.key, Prod.mk.injEq] at hkey
        rw [h.createdAt]
        refine hs.beyond i hi (h.live i hp) fence hfence (hbox.trans ?_)
        exact Prod.ext hkey.1 hkey.2.1
      · rw [if_neg hp] at hlive hbox ⊢
        exact hs.beyond i hi hlive fence hfence hbox
    · intro i' hi'
      obtain ⟨i, hi, rfl⟩ := (Table.mem_update h.key).mp hi'
      rw [(h.continues i).1]
      exact hs.bounded i hi
    · intro i' hi' j' hj' hseq
      obtain ⟨i, hi, rfl⟩ := (Table.mem_update h.key).mp hi'
      obtain ⟨j, hj, rfl⟩ := (Table.mem_update h.key).mp hj'
      rw [(h.continues i).1, (h.continues j).1] at hseq
      rw [hs.distinct i hi j hj hseq]
  advances := by
    refine ⟨le_rfl, ?_, (Advances.refl s).fences⟩
    intro i' hi'
    obtain ⟨i, hi, rfl⟩ := (Table.mem_update h.key).mp hi'
    exact .inl ⟨i, hi, h.continues i⟩

variable {state : ItemState} {box : Mailbox}

theorem owned_freed (hstate : state ≠ .claimed) (now : Time) (i : Item) :
    Owned (i.freed state now) := by
  simp [Owned, Item.freed, hstate]

theorem moves_freed
    (hstate : state ≠ .claimed) (hlive : ∀ i, p i → live i) : Moves p (Item.freed state now) where
  key := Item.freed_key state now
  sequence _ := rfl
  createdAt _ := rfl
  owned i _ _ := owned_freed hstate now i
  live := hlive

theorem lawful_freed (s : Store) (hstate : state ≠ .claimed) (hlive : ∀ i, p i → live i) :
    Lawful s (s.updateItems p (Item.freed state now) (Item.freed_key _ now)) :=
  lawful_updateItems s (moves_freed hstate hlive)

theorem lawful_claims (s : Store) (claims : Table String Claim Claim.claimId) :
    Lawful s { s with claims } := lawful_of_eq rfl rfl rfl

theorem live_of_claimed (h : i.state = .claimed) : live i := by simp [live, h]

theorem live_of_held (h : held box runId i) : live i := by
  simp only [held, decide_eq_true_eq] at h
  exact live_of_claimed h.2.1

/-! ## Enqueueing -/

theorem lawful_insertItem (s : Store) (i : Item) (hseq : i.sequence = s.lastSequence + 1)
    (howned : Owned i) (hfence : live i → s.fenced i.mailbox i.createdAt = false) :
    Lawful s (s.insertItem i) := by
  unfold insertItem
  split
  · next items hins =>
    refine ⟨fun hs => ⟨?_, ?_, ?_, ?_⟩, ?_, ?_, (Advances.refl s).fences⟩
    · intro x hx
      rcases (Table.mem_insert? hins).mp hx with hx | rfl
      · exact hs.owned x hx
      · exact howned
    · intro x hx hlive f hf hbox
      rcases (Table.mem_insert? hins).mp hx with hx | rfl
      · exact hs.beyond x hx hlive f hf hbox
      · have hget : s.fences.get? x.mailbox = some f := hbox ▸ Table.get?_of_mem hf
        have := hfence hlive
        simpa [fenced, hget] using this
    · intro x hx
      rcases (Table.mem_insert? hins).mp hx with hx | rfl
      · exact (hs.bounded x hx).trans (Nat.le_succ _)
      · exact hseq.le
    · intro x hx y hy hxy
      rcases (Table.mem_insert? hins).mp hx with hx | rfl
      · rcases (Table.mem_insert? hins).mp hy with hy | rfl
        · exact hs.distinct x hx y hy hxy
        · have := hs.bounded x hx
          omega
      · rcases (Table.mem_insert? hins).mp hy with hy | rfl
        · have := hs.bounded y hy
          omega
        · rfl
    · exact Nat.le_succ _
    · intro x hx
      rcases (Table.mem_insert? hins).mp hx with hx | rfl
      · exact (Advances.refl s).items x hx
      · exact .inr (by omega)
  · exact .refl s

theorem lawful_enqueueItem {p : Payload} {enqueuedAt : Option Time} {row : Item}
    (h : enqueueItem c a p source now enqueuedAt s = .ok (row, s')) : Lawful s s' := by
  unfold enqueueItem at h
  obtain ⟨msgId, -, h⟩ := bind_ok h
  obtain ⟨source, -, h⟩ := bind_ok h
  obtain ⟨created, -, h⟩ := bind_ok h
  simp only at h
  split at h
  · simp at h
  · split at h
    · simp at h
    · obtain ⟨-, rfl⟩ := ok_pair_inj h
      refine lawful_insertItem s _ rfl ?_ ?_
      · simp only [Owned, Option.isSome_none, Bool.false_eq_true, false_iff]
        split <;> simp
      · intro hlive
        -- behind the fence the new row is born discarded
        by_contra hfenced
        rw [Bool.not_eq_false] at hfenced
        simp only at hfenced
        simp [live, hfenced] at hlive

theorem lawful_migrateRows
    {u : Unit} (h : migrateRows box now rows s = .ok (u, s')) : Lawful s s' := by
  induction rows generalizing s with
  | nil =>
    obtain ⟨-, rfl⟩ := ok_pair_inj h
    exact .refl s
  | cons r rest ih =>
    obtain ⟨p, source⟩ := r
    obtain ⟨source, -, h⟩ := bind_ok h
    obtain ⟨⟨row, s₁⟩, hrow, h⟩ := bind_ok h
    exact (lawful_enqueueItem hrow).trans (ih h)

/-! ## Operations -/

variable (lower : String → String)

theorem lawful_recoverExpired (now : Time) (s : Store) : Lawful s (s.recoverExpired now) := by
  refine (lawful_freed s (by simp) ?_).trans (lawful_claims _ _)
  intro i hi
  simp only [decide_eq_true_eq] at hi
  exact live_of_claimed hi.1

theorem lawful_writeClaim {a : ClaimArgs} {taskId : String}
    {ids : List String}
    (h : writeClaim a box runId taskId claimId ids now s = .ok (r, s')) : Lawful s s' := by
  unfold writeClaim at h
  simp only at h
  split at h
  · simp at h
  · split at h
    · simp at h
    · obtain ⟨-, rfl⟩ := ok_pair_inj h
      refine (lawful_updateItems s ?_).trans (lawful_of_eq rfl rfl rfl)
      refine ⟨fun _ => rfl, fun _ => rfl, fun _ => rfl, fun _ _ _ => by simp [Owned], ?_⟩
      intro i hi
      simp only [decide_eq_true_eq] at hi
      simp [live, hi.2.1]

theorem lawful_claim {a : ClaimArgs}
    (h : claim lower a claimId now s = .ok (r, s')) :
    Lawful s s' := by
  unfold claim at h
  obtain ⟨box, -, h⟩ := bind_ok h
  obtain ⟨runId, -, h⟩ := bind_ok h
  obtain ⟨taskId, -, h⟩ := bind_ok h
  refine (lawful_recoverExpired now s).trans ?_
  split at h
  · simp at h
  · simp only at h
    split at h
    · obtain ⟨-, rfl⟩ := ok_pair_inj h
      exact .refl _
    · split at h
      · obtain ⟨-, rfl⟩ := ok_pair_inj h
        exact .refl _
      · exact lawful_writeClaim h

theorem lawful_transfer {old new : String} {lease : Time}
    (h : transfer lower c a old new lease now s = .ok (n, s')) : Lawful s s' := by
  unfold transfer at h
  obtain ⟨box, -, h⟩ := bind_ok h
  obtain ⟨old, -, h⟩ := bind_ok h
  obtain ⟨new, -, h⟩ := bind_ok h
  simp only at h
  split at h
  · simp at h
  · obtain ⟨-, rfl⟩ := ok_pair_inj h
    refine (lawful_updateItems s ?_).trans (lawful_of_eq rfl rfl rfl)
    refine ⟨fun _ => rfl, fun _ => rfl, fun _ => rfl, ?_, fun _ => live_of_held⟩
    intro i hi _
    simp only [held, decide_eq_true_eq] at hi
    simp [Owned, hi.2.1]

theorem mem_of_mem_raiseFence {cutoff : Time} {f : Fence}
    (hf : f ∈ (s.raiseFence box cutoff).fences) (hne : f.mailbox ≠ box) : f ∈ s.fences := by
  have hget := Table.get?_of_mem hf
  simp only [raiseFence, Table.get?_upsert] at hget
  rw [if_neg hne] at hget
  exact Table.get?_mem hget

theorem raiseFence_le {f : Fence} (box : Mailbox) (cutoff : Time) (hf : f ∈ s.fences) :
    ∃ f' ∈ (s.raiseFence box cutoff).fences, f'.mailbox = f.mailbox ∧ f.cutoff ≤ f'.cutoff := by
  by_cases hmine : f.mailbox = box
  · have hget : s.fences.get? box = some f := hmine ▸ Table.get?_of_mem hf
    refine ⟨⟨box.1, box.2, max f.cutoff cutoff⟩, ?_, hmine.symm, le_max_left _ _⟩
    refine Table.get?_mem (k := box) ?_
    simp [raiseFence, Table.get?_upsert, hget]
  · refine ⟨f, Table.get?_mem (k := f.mailbox) ?_, rfl, le_rfl⟩
    simp only [raiseFence, Table.get?_upsert]
    rw [if_neg hmine]
    exact Table.get?_of_mem hf

/-- The fence rises first, and everything it now covers is discarded in the same call. -/
theorem lawful_fence (s : Store) (box : Mailbox) (cutoff now : Time) :
    Lawful s ((s.raiseFence box cutoff).updateItems
      (fun i => i.mailbox = box ∧ live i ∧ (s.raiseFence box cutoff).fenced box i.createdAt)
      (Item.freed .discarded now) (Item.freed_key _ now)) := by
  have hmoves : Moves (fun i => i.mailbox = box ∧ live i ∧
      (s.raiseFence box cutoff).fenced box i.createdAt) (Item.freed .discarded now) := by
    refine moves_freed (by simp) ?_
    intro i hi
    simp only [decide_eq_true_eq] at hi
    exact hi.2.1
  -- all but the fences is the update of the old store
  have hitems := lawful_updateItems s hmoves
  refine ⟨?_, le_rfl, hitems.advances.items, fun f hf => raiseFence_le box cutoff hf⟩
  intro hs
  have hupd := hitems.sound hs
  refine ⟨hupd.owned, ?_, hupd.bounded, hupd.distinct⟩
  intro i' hi' hlive f hf hbox
  by_cases hmine : i'.mailbox = box
  · have hget : (s.raiseFence box cutoff).fences.get? box = some f := by
      have hself := Table.get?_of_mem hf
      rw [hbox, hmine] at hself
      exact hself
    obtain ⟨i, hi, rfl⟩ := (Table.mem_update hmoves.key).mp hi'
    by_contra hle
    by_cases hold : decide (i.mailbox = box ∧ live i ∧
        (s.raiseFence box cutoff).fenced box i.createdAt) = true
    · rw [if_pos hold] at hlive
      simp [live, Item.freed] at hlive
    · rw [if_neg hold] at hlive hmine hle
      refine hold (decide_eq_true ⟨hmine, hlive, ?_⟩)
      simpa [fenced, hget] using hle
  · exact hupd.beyond i' hi' hlive f (mem_of_mem_raiseFence hf (hbox ▸ hmine)) hbox

theorem lawful_purge {older : Time}
    (h : purgeAcknowledged older now s = .ok (n, s')) : Lawful s s' := by
  unfold purgeAcknowledged at h
  split at h
  · simp at h
  · obtain ⟨-, rfl⟩ := ok_pair_inj h
    refine ⟨fun hs => ⟨?_, ?_, ?_, ?_⟩, le_rfl, ?_, (Advances.refl s).fences⟩
    · intro i hi
      exact hs.owned i (Table.mem_delete.mp hi).1
    · intro i hi
      exact hs.beyond i (Table.mem_delete.mp hi).1
    · intro i hi
      exact hs.bounded i (Table.mem_delete.mp hi).1
    · intro i hi j hj
      exact hs.distinct i (Table.mem_delete.mp hi).1 j (Table.mem_delete.mp hj).1
    · intro i hi
      exact (Advances.refl s).items i (Table.mem_delete.mp hi).1

theorem lawful_enqueueContextHistory {p : Payload}
    {b : Bool} (h : enqueueContextHistory lower c a p now s = .ok (b, s')) : Lawful s s' := by
  unfold enqueueContextHistory at h
  obtain ⟨box, -, h⟩ := bind_ok h
  obtain ⟨msgId, -, h⟩ := bind_ok h
  split at h
  · obtain ⟨-, rfl⟩ := ok_pair_inj h
    exact .refl s
  · obtain ⟨⟨row, s₁⟩, hrow, h⟩ := bind_ok h
    simp only at h
    split at h
    · simp at h
    · obtain ⟨-, rfl⟩ := ok_pair_inj h
      exact (lawful_enqueueItem hrow).trans (lawful_of_eq rfl rfl rfl)

theorem lawful_prepareReceipt {p : Payload} {r : ReceiptState}
    (h : prepareReceipt lower c a p source now s = .ok (r, s')) : Lawful s s' := by
  unfold prepareReceipt at h
  obtain ⟨box, -, h⟩ := bind_ok h
  obtain ⟨msgId, -, h⟩ := bind_ok h
  obtain ⟨source, -, h⟩ := bind_ok h
  simp only at h
  split at h
  · obtain ⟨-, rfl⟩ := ok_pair_inj h
    exact lawful_of_eq rfl rfl rfl
  · split at h
    · simp at h
    · split at h
      · simp at h
      · obtain ⟨-, rfl⟩ := ok_pair_inj h
        exact .refl s

theorem lawful_markTranscriptPersisted {msgId : String}
    {row : Item} (h : markTranscriptPersisted lower c a msgId now s = .ok (row, s')) :
    Lawful s s' := by
  unfold markTranscriptPersisted at h
  obtain ⟨box, -, h⟩ := bind_ok h
  obtain ⟨msgId, -, h⟩ := bind_ok h
  split at h
  · simp at h
  · obtain ⟨⟨row, s₁⟩, hrow, h⟩ := bind_ok h
    obtain ⟨-, rfl⟩ := ok_pair_inj h
    have hqueued : Lawful s s₁ := by
      refine Lawful.trans ?_ (lawful_enqueueItem hrow)
      exact lawful_of_eq rfl rfl rfl
    exact hqueued.trans (lawful_of_eq rfl rfl rfl)

theorem lawful_acknowledge (h : acknowledge lower c a runId msgIds now s = .ok (n, s')) :
    Lawful s s' := by
  unfold acknowledge at h
  obtain ⟨box, -, h⟩ := bind_ok h
  obtain ⟨runId, -, h⟩ := bind_ok h
  split at h
  · obtain ⟨-, rfl⟩ := ok_pair_inj h
    exact .refl s
  · obtain ⟨-, rfl⟩ := ok_pair_inj h
    refine (lawful_freed s (by simp) ?_).trans (lawful_claims _ _)
    intro i hi
    simp only [decide_eq_true_eq] at hi
    exact live_of_held hi.1

theorem lawful_release (h : release lower c a runId msgIds now s = .ok (n, s')) : Lawful s s' := by
  unfold release at h
  obtain ⟨box, -, h⟩ := bind_ok h
  obtain ⟨runId, -, h⟩ := bind_ok h
  obtain ⟨-, rfl⟩ := ok_pair_inj h
  refine (lawful_freed s (by simp) ?_).trans (lawful_claims _ _)
  intro i hi
  simp only [decide_eq_true_eq] at hi
  exact live_of_held hi.1

theorem lawful_recoverOrphaned {runIds : List String}
    (h : recoverOrphanedWorkflowClaims runIds now s = .ok (n, s')) : Lawful s s' := by
  unfold recoverOrphanedWorkflowClaims at h
  obtain ⟨runIds, -, h⟩ := bind_ok h
  obtain ⟨-, rfl⟩ := ok_pair_inj h
  refine (lawful_freed s (by simp) ?_).trans (lawful_claims _ _)
  intro i hi
  simp only [decide_eq_true_eq] at hi
  exact live_of_claimed hi.1

theorem lawful_discardThrough {cutoff : Time}
    (h : discardThrough lower c a cutoff now s = .ok (n, s')) : Lawful s s' := by
  unfold discardThrough at h
  obtain ⟨box, -, h⟩ := bind_ok h
  obtain ⟨-, rfl⟩ := ok_pair_inj h
  exact (lawful_fence s box cutoff now).trans (lawful_claims _ _)

theorem lawful_discardMsgIds {sources : List String}
    (h : discardMsgIds lower c a msgIds sources now s = .ok (n, s')) : Lawful s s' := by
  unfold discardMsgIds at h
  split at h
  · obtain ⟨-, rfl⟩ := ok_pair_inj h
    exact .refl s
  · obtain ⟨box, -, h⟩ := bind_ok h
    obtain ⟨-, rfl⟩ := ok_pair_inj h
    refine lawful_freed s (by simp) ?_
    intro i hi
    simp only [decide_eq_true_eq] at hi
    exact hi.2.1

theorem lawful_markNotified {through : Int}
    (h : markNotified lower c a through now s = .ok (n, s')) : Lawful s s' := by
  unfold markNotified at h
  obtain ⟨box, -, h⟩ := bind_ok h
  obtain ⟨-, rfl⟩ := ok_pair_inj h
  refine lawful_updateItems s ?_
  refine ⟨fun _ => rfl, fun _ => rfl, fun _ => rfl, ?_, ?_⟩
  · -- a pending item has neither owner nor lease, and a notice gives it none
    intro i hi howned
    simp only [decide_eq_true_eq] at hi
    simp only [Owned, hi.2.1] at howned ⊢
    simpa using howned
  · intro i hi
    simp only [decide_eq_true_eq] at hi
    simp [live, hi.2.1]

theorem lawful_markRead {callId : String}
    (h : markRead lower c a msgIds callId now s = .ok (n, s')) : Lawful s s' := by
  unfold markRead at h
  obtain ⟨box, -, h⟩ := bind_ok h
  split at h
  · obtain ⟨-, rfl⟩ := ok_pair_inj h
    exact .refl s
  · obtain ⟨-, rfl⟩ := ok_pair_inj h
    refine (lawful_updateItems s ?_).trans (lawful_of_eq rfl rfl rfl)
    refine ⟨fun _ => rfl, fun _ => rfl, fun _ => rfl, fun _ _ _ => ?_, ?_⟩
    · simp [Owned, Item.freed]
    · intro i hi
      simp only [decide_eq_true_eq] at hi
      rcases hi.2.1 with hstate | hstate <;> simp [live, hstate]

theorem lawful_migrate {path digest : String}
    {b : Bool}
    (h : migratePendingJsonl lower c a path digest rows now s = .ok (b, s')) : Lawful s s' := by
  unfold migratePendingJsonl at h
  obtain ⟨box, -, h⟩ := bind_ok h
  split at h
  · simp at h
  · split at h
    · split at h
      · simp at h
      · obtain ⟨-, rfl⟩ := ok_pair_inj h
        exact .refl s
    · obtain ⟨⟨u, s₁⟩, hrows, h⟩ := bind_ok h
      simp only at h
      split at h
      · simp at h
      · split at h
        · simp at h
        · obtain ⟨-, rfl⟩ := ok_pair_inj h
          exact (lawful_migrateRows hrows).trans (lawful_of_eq rfl rfl rfl)

/-- **Every call is lawful.** -/
theorem lawful_perform (s : Store) (op : Op) : Lawful s (s.perform lower op) := by
  cases op with
  | enqueue c a p source now =>
    refine settle_rel (.refl s) fun _ _ h => ?_
    obtain ⟨box, -, h⟩ := bind_ok h
    exact lawful_enqueueItem h
  | enqueueContextHistory c a p now =>
    exact settle_rel (.refl s) fun _ _ h => lawful_enqueueContextHistory lower h
  | prepareReceipt c a p source now =>
    exact settle_rel (.refl s) fun _ _ h => lawful_prepareReceipt lower h
  | markTranscriptPersisted c a msgId now =>
    exact settle_rel (.refl s) fun _ _ h => lawful_markTranscriptPersisted lower h
  | claim a claimId now => exact settle_rel (.refl s) fun _ _ h => lawful_claim lower h
  | acknowledge c a runId msgIds now =>
    exact settle_rel (.refl s) fun _ _ h => lawful_acknowledge lower h
  | release c a runId msgIds now =>
    exact settle_rel (.refl s) fun _ _ h => lawful_release lower h
  | transfer c a old new lease now =>
    exact settle_rel (.refl s) fun _ _ h => lawful_transfer lower h
  | recoverExpiredLeases now => exact lawful_recoverExpired now s
  | recoverOrphanedWorkflowClaims runIds now =>
    exact settle_rel (.refl s) fun _ _ h => lawful_recoverOrphaned h
  | discardThrough c a cutoff now =>
    exact settle_rel (.refl s) fun _ _ h => lawful_discardThrough lower h
  | discardMsgIds c a msgIds sources now =>
    exact settle_rel (.refl s) fun _ _ h => lawful_discardMsgIds lower h
  | markNotified c a n now =>
    exact settle_rel (.refl s) fun _ _ h => lawful_markNotified lower h
  | markRead c a msgIds callId now =>
    exact settle_rel (.refl s) fun _ _ h => lawful_markRead lower h
  | purgeAcknowledged older now => exact settle_rel (.refl s) fun _ _ h => lawful_purge h
  | migratePendingJsonl c a path digest rows now =>
    exact settle_rel (.refl s) fun _ _ h => lawful_migrate lower h

/-! ## Whole runs of the store -/

theorem sound_init : Sound {} := by
  constructor <;> simp

theorem step_lawful {op : Op} (h : step lower s op = some s') : Lawful s s' := by
  obtain rfl := Option.some.inj h
  exact lawful_perform lower s op

theorem sound_of_reach (hs : Reach (step lower) {} s) : Sound s := by
  refine hs.invariant Sound ?_ sound_init
  intro t op u ht _ hstep
  exact (step_lawful lower hstep).sound ht

theorem advances_of_reach (hst : Reach (step lower) s t) : Advances s t := by
  refine hst.preserves (fun _ => True) Advances Advances.refl (fun _ _ _ => Advances.trans)
    (fun _ _ _ _ _ _ => trivial) ?_ trivial
  intro a op b _ _ hstep
  exact (step_lawful lower hstep).advances

theorem acknowledge_get? (h : acknowledge lower c a runId msgIds now s = .ok (n, s')) (k : ItemKey)
    (hk : s'.items.get? k ≠ s.items.get? k) :
    ∃ i, s.items.get? k = some i ∧ i.state = .claimed ∧ i.ownerRunId = some (strip runId) := by
  unfold acknowledge at h
  obtain ⟨box, -, h⟩ := bind_ok h
  obtain ⟨run, hrun, h⟩ := bind_ok h
  obtain rfl : strip runId = run := by
    unfold required at hrun
    split at hrun
    · simp at hrun
    · exact Except.ok.inj hrun
  split at h
  · obtain ⟨-, rfl⟩ := ok_pair_inj h
    exact absurd rfl hk
  · obtain ⟨-, rfl⟩ := ok_pair_inj h
    simp only [dropClaims, updateItems, Table.get?_update] at hk
    cases hget : s.items.get? k with
    | none =>
      rw [hget] at hk
      exact absurd rfl hk
    | some i =>
      rw [hget] at hk
      simp only [Option.map_some, ne_eq, Option.some.injEq] at hk
      split at hk
      · next hp =>
        simp only [held, decide_eq_true_eq] at hp
        exact ⟨i, rfl, hp.1.2.1, hp.1.2.2⟩
      · exact absurd rfl hk

/-- In every state a sequence of calls can reach: an item has an owner run and a lease exactly
while it is claimed; unread and claimed items are younger than their mailbox's fence; no
further calls lower a fence; an acknowledgement changes only items its run holds; and an
item in a final state keeps that state for as long as its row (its sequence) exists. -/
theorem inbox_fenced {s : Store} (hs : Reach (step lower) {} s) :
    (∀ i ∈ s.items, (i.ownerRunId.isSome ↔ i.state = .claimed) ∧
      (i.leaseExpiresAt.isSome ↔ i.state = .claimed)) ∧
    (∀ i ∈ s.items, i.state = .pending ∨ i.state = .notified ∨ i.state = .claimed →
      ∀ f ∈ s.fences, f.mailbox = i.mailbox → ¬ i.createdAt ≤ f.cutoff) ∧
    (∀ t, Reach (step lower) s t → ∀ f ∈ s.fences,
      ∃ f' ∈ t.fences, f'.mailbox = f.mailbox ∧ f.cutoff ≤ f'.cutoff) ∧
    (∀ c a runId msgIds now k,
      (s.perform lower (.acknowledge c a runId msgIds now)).items.get? k ≠ s.items.get? k →
      ∃ i, s.items.get? k = some i ∧ i.state = .claimed ∧ i.ownerRunId = some (strip runId)) ∧
    (∀ i ∈ s.items, i.state = .read ∨ i.state = .acknowledged ∨ i.state = .discarded →
      ∀ t, Reach (step lower) s t → ∀ i' ∈ t.items, i'.sequence = i.sequence →
        i'.state = i.state) := by
  have hsound := sound_of_reach lower hs
  refine ⟨hsound.owned, ?_, ?_, ?_, ?_⟩
  · intro i hi hlive f hf hbox
    exact not_le.mpr (hsound.beyond i hi (by simpa [live] using hlive) f hf hbox)
  · intro t ht
    exact (advances_of_reach lower ht).fences
  · intro c a runId msgIds now k hk
    change (settle s (acknowledge lower c a runId msgIds now s)).items.get? k ≠ _ at hk
    cases hack : acknowledge lower c a runId msgIds now s with
    | error e =>
      rw [hack] at hk
      exact absurd rfl hk
    | ok r =>
      rw [hack] at hk
      exact acknowledge_get? lower hack k hk
  · intro i hi hfinal t ht i' hi' hseq
    have hisFinal : i.state.isFinal := by
      rcases hfinal with h | h | h <;> simp [h, ItemState.isFinal]
    rcases (advances_of_reach lower ht).items i' hi' with ⟨j, hj, hjseq, hkeep⟩ | hnew
    · obtain rfl := hsound.distinct j hj i hi (hjseq.symm.trans hseq)
      exact hkeep hisFinal
    · have := hsound.bounded i hi
      omega

/-- Two messages, one of them claimed, behind a fence that covers the other one. -/
def claimedInbox : Store :=
  [Op.enqueue "c" "a" ⟨.obj [("msg_id", .str "m1")], "m1", .at 10⟩ "http" 10,
    .enqueue "c" "a" ⟨.obj [("msg_id", .str "m2")], "m2", .at 20⟩ "http" 20,
    .discardThrough "c" "a" 15 30,
    .claim
      { conversationId := "c", agentKey := "a", runId := "wr_1", taskId := "t" } "claim-1" 40].foldl
    (perform id) {}

theorem inbox_fenced_claimed :
    (claimedInbox.items.get? ("c", "a", "m1")).map Item.state = some .discarded ∧
      ∃ i ∈ claimedInbox.items, i.msgId = "m2" ∧ i.state = .claimed ∧ i.ownerRunId.isSome ∧
        i.leaseExpiresAt.isSome ∧ ∀ f ∈ claimedInbox.fences, f.mailbox = i.mailbox →
          ¬ i.createdAt ≤ f.cutoff := by
  have hreach : Reach (step id) {} claimedInbox := reach_foldl (fun _ _ => rfl) _ _
  have hstate : (claimedInbox.items.get? ("c", "a", "m2")).map Item.state = some .claimed := by
    decide +kernel
  obtain ⟨i, hget, hclaimed⟩ := Option.map_eq_some_iff.mp hstate
  have hmem := Table.get?_mem hget
  have hkey : i.key = ("c", "a", "m2") := Table.get?_key hget
  have hmsg : i.msgId = "m2" := congrArg (fun k => k.2.2) hkey
  obtain ⟨howned, hbeyond, -⟩ := inbox_fenced id hreach
  exact ⟨by decide +kernel, i, hmem, hmsg, hclaimed, (howned i hmem).1.mpr hclaimed,
    (howned i hmem).2.mpr hclaimed, hbeyond i hmem (.inr (.inr hclaimed))⟩

/-- The sequence number of an item that is gone never comes back. -/
theorem sequence_not_reused (hs : Reach (step lower) {} s)
    (hst : Reach (step lower) s t) (htu : Reach (step lower) t u) (hi : i ∈ s.items)
    (hgone : ∀ j ∈ t.items, j.sequence ≠ i.sequence) : ∀ j ∈ u.items, j.sequence ≠ i.sequence := by
  intro j hj heq
  have hbound := (sound_of_reach lower hs).bounded i hi
  have hlast := (advances_of_reach lower hst).last
  rcases (advances_of_reach lower htu).items j hj with ⟨k, hk, hsame, -⟩ | hnew
  · exact hgone k hk (hsame.symm.trans heq)
  · omega

def purgedInbox : Store := perform id claimedInbox (.purgeAcknowledged 0 100)

/-- The message comes again. -/
theorem sequence_not_reused_purged : purgedInbox.items.rows.length = 1 ∧
    ∀ j ∈ (perform id purgedInbox
      (.enqueue "c" "a" ⟨.obj [("msg_id", .str "m1")], "m1", .at 90⟩ "http" 90)).items,
      j.sequence ≠ 1 := by
  refine ⟨rfl, ?_⟩
  obtain ⟨i, hget, hone⟩ : ∃ i, claimedInbox.items.get? ("c", "a", "m1") = some i ∧
    i.sequence = 1 := ⟨_, rfl, rfl⟩
  rw [← hone]
  refine sequence_not_reused id (reach_foldl (fun _ _ => rfl) _ _)
    ((Runs.refl _).snoc (u := purgedInbox) trivial rfl) ((Runs.refl _).snoc trivial rfl)
    (Table.get?_mem hget) ?_
  rw [hone]
  decide +kernel

end Store

end PawFlow.Inbox
