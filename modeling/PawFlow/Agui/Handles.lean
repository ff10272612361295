import PawFlow.Agui.Changes

/-!
# Handles

A credential names its row by a handle. A handle is drawn once and never changes hands: the
row that holds it now is the row that held it first, until that row is gone.
-/

namespace PawFlow.Agui

open PawFlow.Lib

/-- The rows that have a handle. -/
inductive Holder
  | batch (k : RunKey)
  | call (k : CallKey)
  | run (k : RunKey)
deriving DecidableEq

namespace State

variable {s t : State}

inductive Holds (s : State) : String → Holder → Prop
  | batch {b : Batch} : b ∈ s.batches → Holds s b.handle (.batch b.key)
  | call {c : Call} : c ∈ s.calls → c.handle ≠ "" → Holds s c.handle (.call c.key)
  | run {r : RunToken} : r ∈ s.runTokens → Holds s r.handle (.run r.key)

/-- Every handle in use was drawn, for one row only. -/
structure Handled (s : State) : Prop where
  minted : ∀ h o, Holds s h o → h ∈ s.minted
  unique : ∀ h o o', Holds s h o → Holds s h o' → o = o'

/-- A handle that was drawn before `s` has no holder in `t` that it had not in `s`. -/
structure Held (s t : State) : Prop where
  minted : s.minted ⊆ t.minted
  holders : ∀ h ∈ s.minted, ∀ o, Holds t h o → Holds s h o

theorem Held.refl (s : State) : Held s s := ⟨fun _ h => h, fun _ _ _ h => h⟩

theorem Held.trans {u : State} (h : Held s t) (h' : Held t u) : Held s u := by
  constructor
  · exact fun x hx => h'.minted (h.minted hx)
  · intro x hx o ho
    exact h.holders x hx o (h'.holders x (h.minted hx) o ho)

variable {o : Holder} {x : String} {draw : Draw}

theorem Handled.holder_eq (h : Handled s) (hheld : Held s t) {o' : Holder}
    (ho : Holds s x o) (ho' : Holds t x o') : o' = o :=
  h.unique x o' o (hheld.holders x (h.minted x o ho) o' ho') ho

theorem Handled.of_holders (h : Handled s) (hminted : t.minted = s.minted)
    (hholders : ∀ x o, Holds t x o → Holds s x o) : Handled t ∧ Held s t := by
  refine ⟨⟨?_, ?_⟩, ⟨?_, ?_⟩⟩
  · intro x o ho
    rw [hminted]
    exact h.minted x o (hholders x o ho)
  · intro x o o' ho ho'
    exact h.unique x o o' (hholders x o ho) (hholders x o' ho')
  · rw [hminted]
    exact fun _ hx => hx
  · exact fun x _ o ho => hholders x o ho

theorem holds_of_rows (hbatches : ∀ b' ∈ t.batches, ∃ b ∈ s.batches, b.key = b'.key ∧
      b.handle = b'.handle)
    (hcalls : ∀ c' ∈ t.calls, c'.handle ≠ "" → ∃ c ∈ s.calls, c.key = c'.key ∧
      c.handle = c'.handle)
    (hruns : ∀ r ∈ t.runTokens, r ∈ s.runTokens) (x : String) (o : Holder) (h : Holds t x o) :
    Holds s x o := by
  cases h with
  | batch hb =>
    obtain ⟨b, hb, hkey, hhandle⟩ := hbatches _ hb
    rw [← hkey, ← hhandle]
    exact .batch hb
  | call hc hne =>
    obtain ⟨c, hc, hkey, hhandle⟩ := hcalls _ hc hne
    rw [← hkey, ← hhandle]
    exact .call hc (hhandle ▸ hne)
  | run hr => exact .run (hruns _ hr)

theorem batches_of_handles {p : Batch → Bool} {f : Batch → Batch} (hf : ∀ b, (f b).key = b.key)
    (hhandle : ∀ b, (f b).handle = b.handle) (b' : Batch) (hb' : b' ∈ s.batches.update p f hf) :
    ∃ b ∈ s.batches, b.key = b'.key ∧ b.handle = b'.handle := by
  obtain ⟨b, hb, rfl⟩ := (Table.mem_update hf).mp hb'
  refine ⟨b, hb, ?_⟩
  split
  · exact ⟨(hf b).symm, (hhandle b).symm⟩
  · exact ⟨rfl, rfl⟩

theorem calls_of_handles {p : Call → Bool} {f : Call → Call} (hf : ∀ c, (f c).key = c.key)
    (hhandle : ∀ c, (f c).handle = c.handle) (c' : Call) (hc' : c' ∈ s.calls.update p f hf)
    (_ : c'.handle ≠ "") : ∃ c ∈ s.calls, c.key = c'.key ∧ c.handle = c'.handle := by
  obtain ⟨c, hc, rfl⟩ := (Table.mem_update hf).mp hc'
  refine ⟨c, hc, ?_⟩
  split
  · exact ⟨(hf c).symm, (hhandle c).symm⟩
  · exact ⟨rfl, rfl⟩

variable {k : RunKey}

theorem batches_completeIfDone (b' : Batch) (hb' : b' ∈ (s.completeIfDone k).batches) :
    ∃ b ∈ s.batches, b.key = b'.key ∧ b.handle = b'.handle := by
  unfold completeIfDone at hb'
  dsimp only at hb'
  split at hb'
  · exact ⟨b', hb', rfl, rfl⟩
  · exact batches_of_handles Batch.completed_key (fun _ => rfl) b' hb'

/-! ## New handles -/

theorem Handled.drawn (h : Handled s) {drawn : List String}
    (hfresh : ∀ x ∈ drawn, x ∉ s.minted) (hminted : t.minted = drawn ++ s.minted)
    (hholders : ∀ x o, Holds t x o → Holds s x o ∨ x ∈ drawn)
    (hone : ∀ x ∈ drawn, ∀ o o', Holds t x o → Holds t x o' → o = o') : Handled t ∧ Held s t := by
  have hold : ∀ x ∈ s.minted, ∀ o, Holds t x o → Holds s x o := by
    intro x hx o ho
    rcases hholders x o ho with ho | hdrawn
    · exact ho
    · exact absurd hx (hfresh x hdrawn)
  refine ⟨⟨?_, ?_⟩, ⟨?_, hold⟩⟩
  · intro x o ho
    rw [hminted, List.mem_append]
    rcases hholders x o ho with ho | hdrawn
    · exact .inr (h.minted x o ho)
    · exact .inl hdrawn
  · intro x o o' ho ho'
    rcases hholders x o ho with hs | hdrawn
    · have hx := h.minted x o hs
      exact h.unique x o o' hs (hold x hx o' ho')
    · exact hone x hdrawn o o' ho ho'
  · rw [hminted]
    exact fun x hx => List.mem_append_right _ hx

theorem Handled.runToken (h : Handled s) {handle : String} {version : Nat}
    (hfresh : handle ∉ s.minted) :
    Handled { s with
        minted := handle :: s.minted
        runTokens := s.runTokens.insertIgnore ⟨handle, k.1, k.2, version⟩ } ∧
      Held s { s with
        minted := handle :: s.minted
        runTokens := s.runTokens.insertIgnore ⟨handle, k.1, k.2, version⟩ } := by
  have hcases : ∀ x o, Holds { s with
      minted := handle :: s.minted
      runTokens := s.runTokens.insertIgnore ⟨handle, k.1, k.2, version⟩ } x o →
      Holds s x o ∨ x = handle ∧ o = .run k := by
    intro x o ho
    cases ho with
    | batch hb => exact .inl (.batch hb)
    | call hc hne => exact .inl (.call hc hne)
    | run hr =>
      rcases Table.mem_insertIgnore.mp hr with hr | ⟨rfl, -⟩
      · exact .inl (.run hr)
      · exact .inr ⟨rfl, rfl⟩
  have hdrawn : ∀ x ∈ [handle], x ∉ s.minted := by
    rintro x hx
    rw [List.mem_singleton.mp hx]
    exact hfresh
  refine h.drawn hdrawn rfl ?_ ?_
  · intro x o ho
    rcases hcases x o ho with ho | ⟨rfl, -⟩
    · exact .inl ho
    · exact .inr (List.mem_singleton_self _)
  · intro x hx o o' ho ho'
    obtain rfl := List.mem_singleton.mp hx
    rcases hcases x o ho with ho | ⟨-, rfl⟩
    · exact absurd (h.minted x o ho) hfresh
    · rcases hcases x o' ho' with ho' | ⟨-, rfl⟩
      · exact absurd (h.minted x o' ho') hfresh
      · rfl

/-- The handles of a freeze: one for the batch and one for each pending call. -/
inductive Draws (s : State) (k : RunKey) (draw : Draw) : String → Holder → Prop
  | batch : Draws s k draw ("bh" ++ draw.handle) (.batch k)
  | call {c : Call} : c ∈ s.pendingCalls k →
      Draws s k draw ("ch" ++ draw.callHandle c.toolCallId) (.call c.key)

theorem Draws.mem (h : Draws s k draw x o) : x ∈ s.frozenHandles k draw := by
  cases h with
  | batch => exact List.mem_cons_self ..
  | call hc => exact List.mem_cons_of_mem _ (List.mem_map_of_mem hc)

theorem Draws.unique (hnodup : (s.frozenHandles k draw).Nodup)
    {x' : String} {o' : Holder} (h : Draws s k draw x o) (h' : Draws s k draw x' o')
    (hx : x = x') : o = o' := by
  obtain ⟨hbatch, hcalls⟩ := List.nodup_cons.mp hnodup
  cases h with
  | batch =>
    cases h' with
    | batch => rfl
    | call hc' =>
      rw [hx] at hbatch
      exact absurd (List.mem_map_of_mem hc') hbatch
  | call hc =>
    cases h' with
    | batch =>
      rw [← hx] at hbatch
      exact absurd (List.mem_map_of_mem hc) hbatch
    | call hc' => rw [List.inj_on_of_nodup_map hcalls hc hc' hx]

theorem Handled.froze (h : Handled s) {eventJson : String} {now : Time}
    {row : Batch} {batches : Table RunKey Batch Batch.key}
    {journal : Table (RunKey × Nat) JournalRow JournalRow.key} (hkey : row.key = k)
    (hhandle : row.handle = "bh" ++ draw.handle) (hins : s.batches.insert? row = some batches)
    (hnodup : (s.frozenHandles k draw).Nodup) (hfresh : ∀ x ∈ s.frozenHandles k draw, x ∉ s.minted) :
    Handled (s.freezeAndExit k draw eventJson now batches journal) ∧
      Held s (s.freezeAndExit k draw eventJson now batches journal) := by
  have hcases : ∀ x o, Holds (s.freezeAndExit k draw eventJson now batches journal) x o →
      Holds s x o ∨ Draws s k draw x o := by
    intro x o ho
    cases ho with
    | batch hb =>
      rcases (Table.mem_insert? hins).mp hb with hb | rfl
      · exact .inl (.batch hb)
      · right
        rw [hhandle, hkey]
        exact .batch
    | call hc hne =>
      obtain ⟨c, hmem, rfl⟩ := (Table.mem_update (Call.withHandle_key draw)).mp hc
      split at hne
      · next hp =>
        rw [if_pos hp]
        exact .inr (.call (List.mem_filter.mpr ⟨hmem, hp⟩))
      · next hp =>
        rw [if_neg hp]
        exact .inl (.call hmem hne)
    | run hr => exact .inl (.run hr)
  refine h.drawn hfresh rfl ?_ ?_
  · intro x o ho
    rcases hcases x o ho with ho | hdraws
    · exact .inl ho
    · exact .inr hdraws.mem
  · intro x hx o o' ho ho'
    rcases hcases x o ho with ho | hdraws
    · exact absurd (h.minted x o ho) (hfresh x hx)
    · rcases hcases x o' ho' with ho' | hdraws'
      · exact absurd (h.minted x o' ho') (hfresh x hx)
      · exact hdraws.unique hnodup hdraws' rfl

/-! ## Runs -/

variable {G : State → Op → Prop} {mac : Mac}

theorem Handled.change (h : Handled s) (hc : Change G s t) : Handled t ∧ Held s t := by
  -- rows that are not touched
  have hbatch : ∀ b ∈ s.batches, ∃ b' ∈ s.batches, b'.key = b.key ∧ b'.handle = b.handle :=
    fun b hb => ⟨b, hb, rfl, rfl⟩
  have hcall : ∀ c ∈ s.calls, c.handle ≠ "" →
      ∃ c' ∈ s.calls, c'.key = c.key ∧ c'.handle = c.handle := fun c hc _ => ⟨c, hc, rfl, rfl⟩
  have hrun : ∀ r ∈ s.runTokens, r ∈ s.runTokens := fun _ hr => hr
  cases hc with
  | rotated k row marker close _ _ =>
    refine h.of_holders rfl (holds_of_rows ?_ ?_ ?_)
    · exact fun b hb => hbatch b (Table.mem_delete.mp hb).1
    · exact fun c hc => hcall c (Table.mem_delete.mp hc).1
    · exact fun r hr => (Table.mem_delete.mp hr).1
  | admitted a now u admissions _ _ _ _ hbinds _ =>
    cases hbinds with
    | free _ => exact h.of_holders rfl (holds_of_rows hbatch hcall hrun)
    | consumed b _ _ _ _ =>
      exact h.of_holders rfl (holds_of_rows
        (batches_of_handles Batch.consume_key fun _ => rfl)
        (calls_of_handles Call.consume_key fun _ => rfl) hrun)
  | left k state a r _ _ _ _ _ =>
    refine h.of_holders rfl (holds_of_rows hbatch ?_ hrun)
    intro c' hc' hne
    have hc' : c' ∈ (if r.outcome ≠ "success" then (s.abandonCalls k).calls else s.calls) := hc'
    split at hc'
    · exact calls_of_handles Call.abandon_key (fun _ => rfl) c' hc' hne
    · exact hcall c' hc' hne
  | froze k draw version deadline eventJson now a r batches journal _ _ _ _ _ hnodup hfresh _
      hins _ => exact h.froze rfl rfl hins hnodup hfresh
  | recorded c a args _ _ _ _ _ _ _ _ hhandle _ _ =>
    refine h.of_holders rfl (holds_of_rows hbatch ?_ hrun)
    intro c' hc' hne
    rcases Table.mem_insertIgnore.mp hc' with hc' | ⟨rfl, -⟩
    · exact hcall c' hc' hne
    · exact absurd hhandle hne
  | claimed b claimId deadline _ _ _ _ =>
    exact h.of_holders rfl (holds_of_rows
      (batches_of_handles (Batch.claimed_key claimId deadline) fun _ => rfl) hcall hrun)
  | renewed b deadline _ _ =>
    exact h.of_holders rfl (holds_of_rows
      (batches_of_handles (Batch.renewed_key deadline) fun _ => rfl) hcall hrun)
  | expired b _ _ =>
    exact h.of_holders rfl (holds_of_rows
      (batches_of_handles Batch.expired_key fun _ => rfl) hcall hrun)
  | begun c b _ _ _ _ _ =>
    exact h.of_holders rfl (holds_of_rows
      (batches_of_handles Batch.committed_key fun _ => rfl)
      (calls_of_handles Call.execute_key fun _ => rfl) hrun)
  | ended c b outcome resultJson _ _ _ _ _ =>
    exact h.of_holders rfl (holds_of_rows batches_completeIfDone
      (calls_of_handles (Call.finish_key outcome resultJson) fun _ => rfl) hrun)
  | deadline b _ _ =>
    exact h.of_holders rfl (holds_of_rows batches_completeIfDone
      (calls_of_handles Call.expire_key fun c => c.expire_row.2.1) hrun)
  | runToken k handle version _ hfresh _ => exact h.runToken hfresh
  | _ => exact h.of_holders rfl (holds_of_rows hbatch hcall hrun)

theorem handled_init : Handled init where
  minted _ _ h := by cases h <;> contradiction
  unique _ _ _ h := by cases h <;> contradiction

end State

end PawFlow.Agui
