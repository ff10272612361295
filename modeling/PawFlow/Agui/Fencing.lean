import PawFlow.Agui.Changes

/-!
# Single writer and fencing

`Fenced` is the invariant of admissions and fences: every row belongs to the live generation
of its thread, an admission holds the current token of its context exactly while it is
active, and at most one admission of a context is active. `Later s t` relates two states of
one run: tokens only grow, a lease stays with its owner, and what disappears belongs to a
generation that is closed for good.
-/

namespace PawFlow.Agui

open PawFlow.Lib

namespace State

/-- The context exists. -/
def Live (s : State) (c : ContextId) : Prop := (s.contexts.get? c).isSome

/-- The thread has moved on to a later generation. -/
def Closed (s : State) (c : ContextId) : Prop :=
  ∃ t, s.threads.get? c.thread = some t ∧ c.generation < t.generation

/-- What a token says about its admission. -/
def Fits (a : Admission) (f : Fence) : Prop :=
  a.fenceToken ≤ f.token ∧ (a.isActive ↔ a.fenceToken = f.token)

structure Fenced (s : State) : Prop where
  closedBefore : ∀ k t, s.threads.get? k = some t → t.closedBeforeGeneration ≤ t.generation
  thread : ∀ c, s.Live c → ∃ t, s.threads.get? c.thread = some t ∧ t.generation = c.generation
  fence : ∀ c f, s.fences.get? c = some f → s.Live c
  admission : ∀ k a, s.admissions.get? k = some a → s.Live k.1
  token : ∀ k a, s.admissions.get? k = some a → ∃ f, s.fences.get? k.1 = some f ∧ Fits a f
  one : ∀ k k' a a', s.admissions.get? k = some a → s.admissions.get? k' = some a' →
    k.1 = k'.1 → a.isActive → a'.isActive → k = k'

theorem Fenced.not_closed {s : State} (h : Fenced s) {c : ContextId} (hlive : s.Live c) :
    ¬ s.Closed c := by
  rintro ⟨t, ht, hlt⟩
  obtain ⟨t', ht', heq⟩ := h.thread c hlive
  rw [ht] at ht'
  obtain rfl := Option.some.inj ht'
  omega

/-! ## Two states of one run -/

/-- An admission seen again later. -/
structure Continues (a a' : Admission) : Prop where
  bodyHash : a'.bodyHash = a.bodyHash
  parentRunId : a'.parentRunId = a.parentRunId
  fenceToken : a'.fenceToken = a.fenceToken
  ended : a.isActive = false → a' = a
  running : a.state = .running →
    a'.isActive = false ∨ a'.state = .running ∧ a'.leaseOwner = a.leaseOwner

structure Later (s t : State) : Prop where
  threads : ∀ k x, s.threads.get? k = some x →
    ∃ x', t.threads.get? k = some x' ∧ x.generation ≤ x'.generation
  contexts : ∀ c, s.Live c → t.Live c ∨ t.Closed c
  fences : ∀ c f, s.fences.get? c = some f →
    (∃ f', t.fences.get? c = some f' ∧ f.token ≤ f'.token) ∨ t.Closed c
  admissions : ∀ k a, s.admissions.get? k = some a →
    (∃ a', t.admissions.get? k = some a' ∧ Continues a a') ∨ t.Closed k.1

theorem Continues.refl (a : Admission) : Continues a a :=
  ⟨rfl, rfl, rfl, fun _ => rfl, fun h => .inr ⟨h, rfl⟩⟩

variable {a : Admission}

theorem Continues.trans {a' a'' : Admission} (h : Continues a a') (h' : Continues a' a'') :
    Continues a a'' where
  bodyHash := h'.bodyHash.trans h.bodyHash
  parentRunId := h'.parentRunId.trans h.parentRunId
  fenceToken := h'.fenceToken.trans h.fenceToken
  ended := by
    intro hover
    obtain rfl := h.ended hover
    exact h'.ended hover
  running := by
    intro hrunning
    rcases h.running hrunning with hover | ⟨hstate, howner⟩
    · obtain rfl := h'.ended hover
      exact .inl hover
    · rw [← howner]
      exact h'.running hstate

theorem Later.refl (s : State) : Later s s where
  threads _ x h := ⟨x, h, le_rfl⟩
  contexts _ h := .inl h
  fences _ f h := .inl ⟨f, h, le_rfl⟩
  admissions _ a h := .inl ⟨a, h, .refl a⟩

theorem Later.closed {s t : State} (h : Later s t) {c : ContextId} (hc : s.Closed c) :
    t.Closed c := by
  obtain ⟨x, hx, hlt⟩ := hc
  obtain ⟨x', hx', hle⟩ := h.threads c.thread x hx
  exact ⟨x', hx', by omega⟩

theorem Later.trans {s t u : State} (h : Later s t) (h' : Later t u) : Later s u where
  threads := by
    intro k x hx
    obtain ⟨x', hx', hle⟩ := h.threads k x hx
    obtain ⟨x'', hx'', hle'⟩ := h'.threads k x' hx'
    exact ⟨x'', hx'', hle.trans hle'⟩
  contexts := by
    intro c hlive
    rcases h.contexts c hlive with hlive | hclosed
    · exact h'.contexts c hlive
    · exact .inr (h'.closed hclosed)
  fences := by
    intro c f hf
    rcases h.fences c f hf with ⟨f', hf', hle⟩ | hclosed
    · rcases h'.fences c f' hf' with ⟨f'', hf'', hle'⟩ | hclosed
      · exact .inl ⟨f'', hf'', hle.trans hle'⟩
      · exact .inr hclosed
    · exact .inr (h'.closed hclosed)
  admissions := by
    intro k a ha
    rcases h.admissions k a ha with ⟨a', ha', hcont⟩ | hclosed
    · rcases h'.admissions k a' ha' with ⟨a'', ha'', hcont'⟩ | hclosed
      · exact .inl ⟨a'', ha'', hcont.trans hcont'⟩
      · exact .inr hclosed
    · exact .inr (h'.closed hclosed)

/-! ## Changes of other tables -/

theorem Fenced.congr {s t : State} (h : Fenced s) (hthreads : t.threads = s.threads)
    (hcontexts : t.contexts = s.contexts) (hadmissions : t.admissions = s.admissions)
    (hfences : t.fences = s.fences) : Fenced t := by
  constructor
  · rw [hthreads]
    exact h.closedBefore
  · unfold Live
    rw [hthreads, hcontexts]
    exact h.thread
  · unfold Live
    rw [hfences, hcontexts]
    exact h.fence
  · unfold Live
    rw [hadmissions, hcontexts]
    exact h.admission
  · rw [hadmissions, hfences]
    exact h.token
  · rw [hadmissions]
    exact h.one

theorem later_of_eq {s t : State} (hthreads : t.threads = s.threads)
    (hcontexts : t.contexts = s.contexts) (hadmissions : t.admissions = s.admissions)
    (hfences : t.fences = s.fences) : Later s t := by
  constructor
  · rw [hthreads]
    exact (Later.refl s).threads
  · intro c hlive
    left
    unfold Live
    rw [hcontexts]
    exact hlive
  · rw [hfences]
    exact fun c f hf => .inl ⟨f, hf, le_rfl⟩
  · rw [hadmissions]
    exact fun k a ha => .inl ⟨a, ha, .refl a⟩

/-! ## Threads and contexts -/

section

variable {s : State}

theorem Fenced.threads {threads : Table ThreadKey Thread Thread.key} (h : Fenced s)
    (hold : ∀ k x, s.threads.get? k = some x →
      ∃ x', threads.get? k = some x' ∧ x'.generation = x.generation)
    (hclosed : ∀ k x, threads.get? k = some x → x.closedBeforeGeneration ≤ x.generation) :
    Fenced { s with threads } ∧ Later s { s with threads } := by
  refine ⟨⟨hclosed, ?_, h.fence, h.admission, h.token, h.one⟩, ?_,
    fun c hlive => .inl hlive, fun c f hf => .inl ⟨f, hf, le_rfl⟩,
    fun k a ha => .inl ⟨a, ha, .refl a⟩⟩
  · intro c hlive
    obtain ⟨x, hx, hgen⟩ := h.thread c hlive
    obtain ⟨x', hx', hgen'⟩ := hold c.thread x hx
    exact ⟨x', hx', hgen'.trans hgen⟩
  · intro k x hx
    obtain ⟨x', hx', hgen⟩ := hold k x hx
    exact ⟨x', hx', hgen.ge⟩

theorem Fenced.thread_inserted (h : Fenced s) (k : ThreadKey) :
    Fenced { s with threads := s.threads.insertIgnore { key := k } } ∧
      Later s { s with threads := s.threads.insertIgnore { key := k } } := by
  apply h.threads
  · intro k' x hx
    exact ⟨x, by simp [Table.get?_insertIgnore, hx], rfl⟩
  · intro k' x hx
    rw [Table.get?_insertIgnore, Option.or_eq_some_iff] at hx
    rcases hx with hx | ⟨-, hx⟩
    · exact h.closedBefore k' x hx
    · split at hx
      · obtain rfl := Option.some.inj hx
        exact le_rfl
      · cases hx

theorem Fenced.thread_cleaned (h : Fenced s) (p : Thread → Bool) :
    Fenced { s with threads := s.threads.update p cleanedThread cleanedThread_key } ∧
      Later s { s with threads := s.threads.update p cleanedThread cleanedThread_key } := by
  have hgen : ∀ x : Thread, (if p x then cleanedThread x else x).generation = x.generation ∧
      (if p x then cleanedThread x else x).closedBeforeGeneration = x.closedBeforeGeneration := by
    intro x
    split <;> exact ⟨rfl, rfl⟩
  apply h.threads
  · intro k x hx
    exact ⟨_, by rw [Table.get?_update, hx]; rfl, (hgen x).1⟩
  · intro k x' hx'
    rw [Table.get?_update] at hx'
    obtain ⟨x, hx, rfl⟩ := Option.map_eq_some_iff.mp hx'
    rw [(hgen x).1, (hgen x).2]
    exact h.closedBefore k x hx

theorem Fenced.contexts {contexts : Table ContextId Context Context.id} (h : Fenced s)
    (hold : ∀ c, s.Live c → (contexts.get? c).isSome)
    (hnew : ∀ c, (contexts.get? c).isSome →
      ∃ x, s.threads.get? c.thread = some x ∧ x.generation = c.generation) :
    Fenced { s with contexts } ∧ Later s { s with contexts } :=
  ⟨⟨h.closedBefore, hnew, fun c f hf => hold c (h.fence c f hf),
      fun k a ha => hold k.1 (h.admission k a ha), h.token, h.one⟩,
    (Later.refl s).threads, fun c hlive => .inl (hold c hlive),
    fun _ f hf => .inl ⟨f, hf, le_rfl⟩, fun _ a ha => .inl ⟨a, ha, .refl a⟩⟩

theorem Fenced.context_seen (h : Fenced s) (c : ContextId) (now : Time) :
    let t : State := { s with
      contexts := s.contexts.update (fun x => x.id = c) (seenContext now) (seenContext_id now) }
    Fenced t ∧ Later s t := by
  have hsame : ∀ c', ((s.contexts.update (fun x => x.id = c) (seenContext now)
      (seenContext_id now)).get? c').isSome = (s.contexts.get? c').isSome := by
    intro c'
    rw [Table.get?_update, Option.isSome_map]
  apply h.contexts
  · intro c' hlive
    rw [hsame]
    exact hlive
  · intro c' hlive
    rw [hsame] at hlive
    exact h.thread c' hlive

theorem Fenced.context_inserted (h : Fenced s) {x : Context} {row : Thread}
    {contexts : Table ContextId Context Context.id} (hrow : s.threads.get? x.id.thread = some row)
    (hgen : x.id.generation = row.generation) (hins : s.contexts.insert? x = some contexts) :
    Fenced { s with contexts } ∧ Later s { s with contexts } := by
  obtain ⟨-, hget⟩ := Table.insert?_eq_some hins
  apply h.contexts
  · intro c hlive
    rw [hget]
    split
    · rfl
    · exact hlive
  · intro c hlive
    rw [hget] at hlive
    split at hlive
    · next hc =>
      rw [hc]
      exact ⟨row, hrow, hgen.symm⟩
    · exact h.thread c hlive

theorem get?_contexts_dropContext (c c' : ContextId) :
    (s.dropContext c).contexts.get? c' = if c' = c then none else s.contexts.get? c' :=
  s.contexts.get?_delete_keys (· = c) c'

theorem get?_fences_dropContext (c c' : ContextId) :
    (s.dropContext c).fences.get? c' = if c' = c then none else s.fences.get? c' :=
  s.fences.get?_delete_keys (· = c) c'

theorem get?_admissions_dropContext (c : ContextId) (k : RunKey) :
    (s.dropContext c).admissions.get? k = if k.1 = c then none else s.admissions.get? k :=
  s.admissions.get?_delete_keys (fun k => k.1 = c) k

theorem closed_rotated {k : ThreadKey} {row : Thread} (marker : String) (close : Bool)
    (hrow : s.threads.get? k = some row) :
    ({ s with
      threads := s.threads.update (fun x => x.key = k) (rotatedThread marker close)
        (rotatedThread_key marker close) }.dropContext ⟨k, row.generation⟩).Closed
      ⟨k, row.generation⟩ := by
  refine ⟨rotatedThread marker close row, ?_, ?_⟩
  · refine (s.threads.get?_update_at _ (rotatedThread_key marker close) k k).trans ?_
    rw [if_pos rfl, hrow]
    rfl
  · show row.generation < row.generation + 1
    omega

theorem Fenced.rotated (h : Fenced s) {k : ThreadKey} {row : Thread} (marker : String)
    (close : Bool) (hrow : s.threads.get? k = some row) :
    let t := { s with
      threads := s.threads.update (fun x => x.key = k) (rotatedThread marker close)
        (rotatedThread_key marker close) }.dropContext ⟨k, row.generation⟩
    Fenced t ∧ Later s t := by
  intro t
  have hthreads : ∀ k', t.threads.get? k' =
      if k' = k then (s.threads.get? k').map (rotatedThread marker close) else s.threads.get? k' :=
    fun k' => s.threads.get?_update_at _ (rotatedThread_key marker close) k k'
  have hcontexts : ∀ c, t.contexts.get? c =
      if c = ⟨k, row.generation⟩ then none else s.contexts.get? c :=
    get?_contexts_dropContext _
  have hfences : ∀ c, t.fences.get? c =
      if c = ⟨k, row.generation⟩ then none else s.fences.get? c :=
    get?_fences_dropContext _
  have hadmissions : ∀ k', t.admissions.get? k' =
      if k'.1 = ⟨k, row.generation⟩ then none else s.admissions.get? k' :=
    get?_admissions_dropContext _
  have hclosed : t.Closed ⟨k, row.generation⟩ := closed_rotated marker close hrow
  -- whatever is not dropped stays as it was
  have hlive : ∀ c, c ≠ ⟨k, row.generation⟩ → s.Live c → t.Live c := by
    intro c hc hlive
    show (t.contexts.get? c).isSome
    rw [hcontexts, if_neg hc]
    exact hlive
  refine ⟨⟨?_, ?_, ?_, ?_, ?_, ?_⟩, ?_, ?_, ?_, ?_⟩
  · intro k' x' hx'
    rw [hthreads] at hx'
    split at hx'
    · obtain ⟨x, hx, rfl⟩ := Option.map_eq_some_iff.mp hx'
      have := h.closedBefore k' x hx
      simp only [rotatedThread]
      split <;> omega
    · exact h.closedBefore k' x' hx'
  · intro c hc
    have hc : (t.contexts.get? c).isSome := hc
    rw [hcontexts] at hc
    split at hc
    · cases hc
    next hne =>
    obtain ⟨x, hx, hgen⟩ := h.thread c hc
    refine ⟨x, ?_, hgen⟩
    rw [hthreads, if_neg, hx]
    rintro rfl
    rw [hx] at hrow
    obtain rfl := Option.some.inj hrow
    exact hne (by rw [hgen])
  · intro c f hf
    rw [hfences] at hf
    split at hf
    · cases hf
    next hne => exact hlive c hne (h.fence c f hf)
  · intro k' a ha
    rw [hadmissions] at ha
    split at ha
    · cases ha
    next hne => exact hlive k'.1 hne (h.admission k' a ha)
  · intro k' a ha
    rw [hadmissions] at ha
    split at ha
    · cases ha
    next hne =>
    obtain ⟨f, hf, hfits⟩ := h.token k' a ha
    exact ⟨f, by rw [hfences, if_neg hne]; exact hf, hfits⟩
  · intro k₁ k₂ a₁ a₂ h₁ h₂ heq hactive₁ hactive₂
    rw [hadmissions] at h₁ h₂
    split at h₁
    · cases h₁
    split at h₂
    · cases h₂
    exact h.one k₁ k₂ a₁ a₂ h₁ h₂ heq hactive₁ hactive₂
  · intro k' x hx
    rw [hthreads, hx]
    split
    · refine ⟨_, rfl, ?_⟩
      show x.generation ≤ x.generation + 1
      omega
    · exact ⟨x, rfl, le_rfl⟩
  · intro c hc
    by_cases hne : c = ⟨k, row.generation⟩
    · exact .inr (hne ▸ hclosed)
    · exact .inl (hlive c hne hc)
  · intro c f hf
    by_cases hne : c = ⟨k, row.generation⟩
    · exact .inr (hne ▸ hclosed)
    · exact .inl ⟨f, by rw [hfences, if_neg hne]; exact hf, le_rfl⟩
  · intro k' a ha
    by_cases hne : k'.1 = ⟨k, row.generation⟩
    · exact .inr (hne ▸ hclosed)
    · exact .inl ⟨a, by rw [hadmissions, if_neg hne]; exact ha, .refl a⟩

/-! ## Admissions -/

variable {k : RunKey} {state : AdmissionState}

theorem get?_updateAdmission {f : Admission → Admission}
    (hf : ∀ a, (f a).key = a.key) (k' : RunKey) :
    (s.updateAdmission k f hf).admissions.get? k' =
      if k' = k then (s.admissions.get? k').map f else s.admissions.get? k' :=
  s.admissions.get?_update_at f hf k k'

theorem Moves.continues {a a' : Admission} (h : Moves a a') : Continues a a' where
  bodyHash := h.bodyHash
  parentRunId := h.parentRunId
  fenceToken := h.fenceToken
  ended := by
    intro hended
    rw [h.before] at hended
    cases hended
  running hrunning := .inr (h.leaseOwner hrunning)

theorem Fenced.moved (h : Fenced s) {k : RunKey} {f : Admission → Admission}
    (hf : ∀ a, (f a).key = a.key) {a : Admission} (ha : s.admissions.get? k = some a)
    (hmoves : Moves a (f a)) :
    Fenced (s.updateAdmission k f hf) ∧ Later s (s.updateAdmission k f hf) := by
  -- every row of the new table comes from a row with the same token, active when it is
  have hback : ∀ k' a', (s.updateAdmission k f hf).admissions.get? k' = some a' →
      ∃ b, s.admissions.get? k' = some b ∧ a'.fenceToken = b.fenceToken ∧
        (a'.isActive ↔ b.isActive) := by
    intro k' a' ha'
    rw [get?_updateAdmission] at ha'
    split at ha'
    · next hk =>
      rw [hk, ha] at ha'
      obtain rfl := Option.some.inj ha'
      exact ⟨a, hk ▸ ha, hmoves.fenceToken, by rw [hmoves.before, hmoves.after]⟩
    · exact ⟨a', ha', rfl, Iff.rfl⟩
  refine ⟨⟨h.closedBefore, h.thread, h.fence, ?_, ?_, ?_⟩, (Later.refl s).threads,
    (Later.refl s).contexts, (Later.refl s).fences, ?_⟩
  · intro k' a' ha'
    obtain ⟨b, hb, -⟩ := hback k' a' ha'
    exact h.admission k' b hb
  · intro k' a' ha'
    obtain ⟨b, hb, htoken, hactive⟩ := hback k' a' ha'
    obtain ⟨fence, hfence, hle, hfits⟩ := h.token k' b hb
    refine ⟨fence, hfence, ?_, ?_⟩
    · rw [htoken]
      exact hle
    · rw [htoken, hactive]
      exact hfits
  · intro k₁ k₂ a₁ a₂ h₁ h₂ heq hactive₁ hactive₂
    obtain ⟨b₁, hb₁, -, hiff₁⟩ := hback k₁ a₁ h₁
    obtain ⟨b₂, hb₂, -, hiff₂⟩ := hback k₂ a₂ h₂
    exact h.one k₁ k₂ b₁ b₂ hb₁ hb₂ heq (hiff₁.mp hactive₁) (hiff₂.mp hactive₂)
  · intro k' b hb
    left
    rw [get?_updateAdmission, hb]
    split
    · next hk =>
      rw [hk, ha] at hb
      obtain rfl := Option.some.inj hb
      exact ⟨f a, rfl, hmoves.continues⟩
    · exact ⟨b, rfl, .refl b⟩

variable {outcome : String}

theorem get?_fences_exitLease (c : ContextId) :
    (s.exitLease k state outcome).fences.get? c =
      if c = k.1 then (s.fences.get? c).map Fence.bumped else s.fences.get? c :=
  s.fences.get?_update_at Fence.bumped Fence.bumped_contextId k.1 c

theorem get?_admissions_exitLease (k' : RunKey) :
    (s.exitLease k state outcome).admissions.get? k' =
      if k' = k then (s.admissions.get? k').map (leftWith state outcome)
      else s.admissions.get? k' :=
  get?_updateAdmission (leftWith_key state outcome) k'

/-- A row that left the lease has an old token; so have the others of its context, which were
not active. -/
theorem Fenced.left (h : Fenced s) (outcome : String)
    {a : Admission} (ha : s.admissions.get? k = some a) (hactive : a.isActive)
    (hstate : state.isActive = false) :
    Fenced (s.exitLease k state outcome) ∧ Later s (s.exitLease k state outcome) := by
  obtain ⟨fence, hfence, hle, hfits⟩ := h.token k a ha
  have hfence' : (s.exitLease k state outcome).fences.get? k.1 = some fence.bumped := by
    rw [get?_fences_exitLease, if_pos rfl, hfence]
    rfl
  have hback : ∀ k' a', (s.exitLease k state outcome).admissions.get? k' = some a' →
      a'.isActive → s.admissions.get? k' = some a' ∧ k' ≠ k := by
    intro k' a' ha' hactive'
    rw [get?_admissions_exitLease] at ha'
    split at ha'
    · obtain ⟨b, -, rfl⟩ := Option.map_eq_some_iff.mp ha'
      have hstate' : state.isActive = true := hactive'
      rw [hstate] at hstate'
      cases hstate'
    · next hk => exact ⟨ha', hk⟩
  refine ⟨⟨h.closedBefore, h.thread, ?_, ?_, ?_, ?_⟩, (Later.refl s).threads,
    (Later.refl s).contexts, ?_, ?_⟩
  · intro c f hf
    rw [get?_fences_exitLease] at hf
    split at hf
    · obtain ⟨f', hf', -⟩ := Option.map_eq_some_iff.mp hf
      exact h.fence c f' hf'
    · exact h.fence c f hf
  · intro k' a' ha'
    rw [get?_admissions_exitLease] at ha'
    split at ha'
    · obtain ⟨b, hb, -⟩ := Option.map_eq_some_iff.mp ha'
      exact h.admission k' b hb
    · exact h.admission k' a' ha'
  · intro k' a' ha'
    rw [get?_admissions_exitLease] at ha'
    split at ha'
    · next hk =>
      subst hk
      rw [ha] at ha'
      obtain rfl := Option.some.inj ha'
      refine ⟨fence.bumped, hfence', Nat.le_succ_of_le hle, ?_⟩
      show state.isActive = true ↔ a.fenceToken = fence.token + 1
      rw [hstate]
      constructor
      · intro hfalse
        cases hfalse
      · intro htoken
        omega
    · next hk =>
      obtain ⟨f, hf, hle', hfits'⟩ := h.token k' a' ha'
      by_cases hc : k'.1 = k.1
      · rw [hc] at hf ⊢
        rw [hfence] at hf
        obtain rfl := Option.some.inj hf
        have hinactive : ¬ a'.isActive := by
          intro hactive'
          exact hk (h.one k' k a' a ha' ha hc hactive' hactive)
        refine ⟨fence.bumped, hfence', Nat.le_succ_of_le hle', ?_⟩
        show a'.isActive = true ↔ a'.fenceToken = fence.token + 1
        constructor
        · intro hactive'
          exact absurd hactive' hinactive
        · intro htoken
          omega
      · refine ⟨f, ?_, hle', hfits'⟩
        rw [get?_fences_exitLease, if_neg hc]
        exact hf
  · intro k₁ k₂ a₁ a₂ h₁ h₂ heq hactive₁ hactive₂
    obtain ⟨hb₁, -⟩ := hback k₁ a₁ h₁ hactive₁
    obtain ⟨hb₂, -⟩ := hback k₂ a₂ h₂ hactive₂
    exact h.one k₁ k₂ a₁ a₂ hb₁ hb₂ heq hactive₁ hactive₂
  · intro c f hf
    left
    rw [get?_fences_exitLease, hf]
    split
    · exact ⟨f.bumped, rfl, Nat.le_succ _⟩
    · exact ⟨f, rfl, le_rfl⟩
  · intro k' b hb
    left
    rw [get?_admissions_exitLease, hb]
    split
    · next hk =>
      rw [hk, ha] at hb
      obtain rfl := Option.some.inj hb
      refine ⟨_, rfl, rfl, rfl, rfl, ?_, fun _ => .inl hstate⟩
      intro hended
      rw [hactive] at hended
      cases hended
    · exact ⟨b, rfl, .refl b⟩

theorem lt_nextToken {c : ContextId} {f : Fence} (hf : s.fences.get? c = some f) :
    f.token < s.nextToken c := by
  simp [nextToken, hf]

/-- A new admission takes a token above all of its context; the rows already there are not
active, so theirs were old already. -/
theorem Fenced.admitted (h : Fenced s) {a : AcquireArgs} {now : Time}
    {admissions : Table RunKey Admission Admission.key} (hlive : s.Live a.contextId)
    (hactive : s.activeAdmission a.contextId = none)
    (hins : s.admissions.insert? (a.admission (s.nextToken a.contextId) now) = some admissions) :
    let t : State := { s with
      admissions
      fences := s.fences.upsert ⟨a.contextId, s.nextToken a.contextId⟩ }
    Fenced t ∧ Later s t := by
  intro t
  obtain ⟨hfree, hadmissions⟩ := Table.insert?_eq_some hins
  have hfences : ∀ c, t.fences.get? c =
      if c = a.contextId then some ⟨a.contextId, s.nextToken a.contextId⟩ else s.fences.get? c :=
    fun c => s.fences.get?_upsert _ c
  have hadmissions : ∀ k, t.admissions.get? k =
      if k = a.key then some (a.admission (s.nextToken a.contextId) now)
      else s.admissions.get? k := hadmissions
  have hinactive : ∀ k b, s.admissions.get? k = some b → k.1 = a.contextId → ¬ b.isActive := by
    intro k b hb hc
    obtain ⟨hmem, rfl⟩ := Table.get?_eq_some.mp hb
    rw [activeAdmission_eq_none.mp hactive b hmem hc]
    exact Bool.false_ne_true
  refine ⟨⟨h.closedBefore, h.thread, ?_, ?_, ?_, ?_⟩, (Later.refl s).threads,
    (Later.refl s).contexts, ?_, ?_⟩
  · intro c f hf
    rw [hfences] at hf
    split at hf
    · next hc => exact hc ▸ hlive
    · exact h.fence c f hf
  · intro k b hb
    rw [hadmissions] at hb
    split at hb
    · next hk => exact hk ▸ hlive
    · exact h.admission k b hb
  · intro k b hb
    rw [hadmissions] at hb
    split at hb
    · next hk =>
      obtain rfl := Option.some.inj hb
      refine ⟨⟨a.contextId, s.nextToken a.contextId⟩, ?_, le_rfl, fun _ => rfl, fun _ => rfl⟩
      rw [hfences, hk, if_pos rfl]
    · obtain ⟨f, hf, hle, hfits⟩ := h.token k b hb
      by_cases hc : k.1 = a.contextId
      · have hlt : b.fenceToken < s.nextToken a.contextId := by
          have := lt_nextToken hf
          rw [hc] at this
          omega
        refine ⟨⟨a.contextId, s.nextToken a.contextId⟩, ?_, hlt.le, ?_⟩
        · rw [hfences, if_pos hc]
        · constructor
          · intro hactive'
            exact absurd hactive' (hinactive k b hb hc)
          · intro htoken
            exact absurd htoken hlt.ne
      · refine ⟨f, ?_, hle, hfits⟩
        rw [hfences, if_neg hc]
        exact hf
  · intro k₁ k₂ a₁ a₂ h₁ h₂ heq hactive₁ hactive₂
    rw [hadmissions] at h₁ h₂
    split at h₁
    · next hk₁ =>
      split at h₂
      · next hk₂ => rw [hk₁, hk₂]
      · exact absurd hactive₂ (hinactive k₂ a₂ h₂ (by rw [← heq, hk₁]))
    · split at h₂
      · next hk₂ => exact absurd hactive₁ (hinactive k₁ a₁ h₁ (by rw [heq, hk₂]))
      · exact h.one k₁ k₂ a₁ a₂ h₁ h₂ heq hactive₁ hactive₂
  · intro c f hf
    left
    rw [hfences]
    split
    · next hc =>
      subst hc
      exact ⟨_, rfl, (lt_nextToken hf).le⟩
    · exact ⟨f, hf, le_rfl⟩
  · intro k b hb
    left
    rw [hadmissions, if_neg]
    · exact ⟨b, hb, .refl b⟩
    · rintro rfl
      have hfree : s.admissions.get? a.key = none := hfree
      rw [hfree] at hb
      cases hb

end

/-! ## Runs -/

variable {G : State → Op → Prop} {mac : Mac} {s t : State}

theorem fenced_init : Fenced init where
  closedBefore _ _ h := by cases h
  thread _ h := by cases h
  fence _ _ h := by cases h
  admission _ _ h := by cases h
  token _ _ h := by cases h
  one _ _ _ _ h := by cases h

theorem Fenced.change (h : Fenced s) (hc : Change G s t) : Fenced t ∧ Later s t := by
  cases hc with
  | thread k => exact h.thread_inserted k
  | cleaned p => exact h.thread_cleaned p
  | seen c now => exact h.context_seen c now
  | context x row contexts hrow hgen _ _ hins => exact h.context_inserted hrow hgen hins
  | rotated k row marker close hrow _ => exact h.rotated marker close hrow
  | admitted a now u admissions _ hcontext _ hactive hbinds hins =>
    have hu := h.admitted hcontext hactive hins
    cases hbinds with
    | consumed b _ _ _ _ =>
      exact ⟨hu.1.congr rfl rfl rfl rfl, hu.2.trans (later_of_eq rfl rfl rfl rfl)⟩
    | free _ => exact hu
  | moved k f hf a ha hmoves => exact h.moved hf ha hmoves
  | left k state a r ha hactive _ _ hstate =>
    have hu := h.left r.outcome ha hactive hstate
    exact ⟨hu.1.congr rfl rfl rfl rfl, hu.2.trans (later_of_eq rfl rfl rfl rfl)⟩
  | froze k draw version deadline eventJson now a r batches journal ha hrunning =>
    let u := ({ s with
      minted := s.frozenHandles k draw ++ s.minted
      batches
      journal }.assignHandles k draw).updateRun k (advance eventJson "success" true now)
        (advance_key eventJson "success" true now)
    have hu : Fenced u := h.congr rfl rfl rfl rfl
    have hsame : Later s u := later_of_eq rfl rfl rfl rfl
    have hleft : Fenced (u.exitLease k .terminal "success") ∧
        Later u (u.exitLease k .terminal "success") :=
      hu.left "success" ha (isActive_of_state hrunning) rfl
    exact ⟨hleft.1, hsame.trans hleft.2⟩
  | _ => exact ⟨h.congr rfl rfl rfl rfl, later_of_eq rfl rfl rfl rfl⟩

theorem Fenced.changes (h : Fenced s) (hc : Changes G s t) : Fenced t :=
  changes_invariant Fenced (fun _ _ h hc => (h.change hc).1) hc h

theorem Fenced.later (h : Fenced s) (hc : Changes G s t) : Later s t :=
  changes_preserves Fenced Later .refl (fun _ _ _ => .trans) (fun _ _ h hc => (h.change hc).1)
    (fun _ _ h hc => (h.change hc).2) hc h

theorem fenced_of_reach (h : Reach (step mac) init s) : Fenced s :=
  fenced_init.changes (changes_of_reach h)

variable {k : RunKey} {draw : Draw} {row : Admission}

theorem Fenced.find (h : Fenced s) (hc : Changes G s t) (ha : s.admissions.get? k = some a) :
    (∃ a', t.admissions.get? k = some a' ∧ Continues a a') ∨
      t.Closed k.1 ∧ ¬ t.Live k.1 := by
  rcases (h.later hc).admissions k a ha with hfound | hclosed
  · exact .inl hfound
  · exact .inr ⟨hclosed, fun hlive => (h.changes hc).not_closed hlive hclosed⟩

theorem Fenced.checkFence_iff (h : Fenced s) (ha : s.admissions.get? k = some a) :
    s.checkFence k.1 a.fenceToken = true ↔ a.isActive = true := by
  obtain ⟨f, hf, -, hfits⟩ := h.token k a ha
  simp only [checkFence, hf, Option.any_some, decide_eq_true_eq]
  rw [hfits]
  exact eq_comm

theorem Fenced.checkFence_later (h : Fenced s) (hc : Changes G s t)
    (ha : s.admissions.get? k = some a) :
    t.checkFence k.1 a.fenceToken = true ↔ ∃ a', t.admissions.get? k = some a' ∧ a'.isActive := by
  rcases h.find hc ha with ⟨a', ha', hcont⟩ | ⟨-, hgone⟩
  · rw [← hcont.fenceToken, (h.changes hc).checkFence_iff ha']
    simp [ha']
  · have hnone : t.fences.get? k.1 = none := by
      cases hf : t.fences.get? k.1 with
      | none => rfl
      | some f => exact absurd ((h.changes hc).fence k.1 f hf) hgone
    constructor
    · intro hcheck
      simp [checkFence, hnone] at hcheck
    · rintro ⟨a', ha', -⟩
      exact absurd ((h.changes hc).admission k a' ha') hgone

/-! ## Tokens handed out -/

theorem ensureRunTokens_rows (h : s.ensureRunTokens k draw = .ok t) :
    t.admissions = s.admissions ∧ t.batches = s.batches := by
  unfold ensureRunTokens at h
  split at h
  · obtain rfl := Except.ok.inj h
    exact ⟨rfl, rfl⟩
  obtain ⟨-, -, hu⟩ := currentKeyVersion_spec (G := fun _ _ => True)
    (Prod.mk.eta (p := s.currentKeyVersion draw.secret)).symm
  dsimp only at h
  obtain ⟨u, hmint, h⟩ := bind_ok h
  obtain ⟨-, -, rfl⟩ := mint_ok hmint
  obtain rfl := Except.ok.inj h
  show (s.currentKeyVersion draw.secret).2.admissions = s.admissions ∧
    (s.currentKeyVersion draw.secret).2.batches = s.batches
  rw [hu]
  exact ⟨rfl, rfl⟩

variable {now : Time}

theorem reserve_rows {a : AcquireArgs} (h : s.reserve a now draw = .ok (row, t)) :
    row = a.admission (s.nextToken a.contextId) now ∧ t.admissions.get? a.key = some row ∧
      t.batches = s.batches := by
  unfold reserve at h
  dsimp only at h
  split at h
  · cases h
  next admissions hins =>
  obtain ⟨w, hrun, h⟩ := bind_ok h
  obtain ⟨-, rfl⟩ := insertRun_ok hrun
  obtain ⟨w, htokens, h⟩ := bind_ok h
  obtain ⟨rfl, rfl⟩ := ok_pair_inj h
  obtain ⟨hadmissions, hbatches⟩ := ensureRunTokens_rows htokens
  refine ⟨rfl, ?_, hbatches⟩
  rw [hadmissions]
  exact ((Table.insert?_eq_some hins).2 a.key).trans (if_pos rfl)

/-- A turn that is not a replay finds its context idle, and binds its parent. -/
theorem acquire_reserve {a : AcquireArgs} (h : s.acquire a now draw = .ok ((row, false), t)) :
    s.Live a.contextId ∧ s.admissions.get? a.key = none ∧
      s.activeAdmission a.contextId = none ∧
      ∃ u, Binds s a u ∧ u.reserve a now draw = .ok (row, t) := by
  unfold acquire at h
  split at h
  · cases h
  split at h
  · cases h
  split at h
  · cases h
  split at h
  · cases h
  next hlive =>
  split at h
  · split at h
    · cases h
    · cases h
  next hnone =>
  split at h
  · cases h
  split at h
  · cases h
  next hactive =>
  obtain ⟨u, hbind, h⟩ := bind_ok h
  obtain ⟨⟨row', v⟩, hreserve, h⟩ := bind_ok h
  obtain ⟨hrow, rfl⟩ := ok_pair_inj h
  obtain rfl : row' = row := congrArg Prod.fst hrow
  refine ⟨?_, hnone, hactive, u, bindParent_ok hbind, hreserve⟩
  simpa [Live] using Option.isSome_iff_ne_none.mpr (by simpa using hlive)

theorem acquire_new {a : AcquireArgs} (h : s.acquire a now draw = .ok ((row, false), t)) :
    s.Live a.contextId ∧ s.admissions.get? a.key = none ∧
      row = a.admission (s.nextToken a.contextId) now ∧ t.admissions.get? a.key = some row := by
  obtain ⟨hlive, hnone, -, u, hbinds, hreserve⟩ := acquire_reserve h
  obtain ⟨hrow, hget, -⟩ := reserve_rows hreserve
  have htoken : u.nextToken a.contextId = s.nextToken a.contextId := by
    cases hbinds <;> rfl
  rw [htoken] at hrow
  exact ⟨hlive, hnone, hrow, hget⟩

theorem Fenced.token_lt (h : Fenced s) (hc : Changes G s t)
    (ha : s.admissions.get? k = some a) (hactive : a.isActive) (hlive : t.Live k.1) :
    a.fenceToken < t.nextToken k.1 := by
  obtain ⟨f, hf, -, hfits⟩ := h.token k a ha
  rcases (h.later hc).fences k.1 f hf with ⟨f', hf', hle⟩ | hclosed
  · have hlt := lt_nextToken hf'
    rw [hfits.mp hactive]
    omega
  · exact absurd hclosed ((h.changes hc).not_closed hlive)

/-- **Single writer and fencing**, over every interleaving of the transactions, with any
clock readings and any random draws: a context has at most one active admission; the tokens
handed out for a context are strictly increasing; the token of an admission passes the fence
check exactly while the admission is active; and the running lease of an admission is only
ever held by one worker. -/
theorem single_writer {mac : Mac} {s : State} (hs : Reach (step mac) init s) :
    (∀ a ∈ s.admissions, ∀ a' ∈ s.admissions,
      a.contextId = a'.contextId → a.isActive → a'.isActive → a = a') ∧
    (∀ a now draw row t, s.acquire a now draw = .ok ((row, false), t) →
      ∀ u, Reach (step mac) t u → ∀ a' now' draw' row' v,
        u.acquire a' now' draw' = .ok ((row', false), v) → a'.contextId = a.contextId →
        row.fenceToken < row'.fenceToken) ∧
    (∀ a ∈ s.admissions, ∀ t, Reach (step mac) s t →
      (t.checkFence a.contextId a.fenceToken ↔
        ∃ a' ∈ t.admissions, a'.key = a.key ∧ a'.isActive)) ∧
    (∀ a ∈ s.admissions, a.state = .running → ∀ t, Reach (step mac) s t →
      ∀ a' ∈ t.admissions, a'.key = a.key → a'.state = .running →
        a'.leaseOwner = a.leaseOwner) := by
  have hfenced := fenced_of_reach hs
  refine ⟨?_, ?_, ?_, ?_⟩
  · intro a ha a' ha' hc hactive hactive'
    have hkey := hfenced.one a.key a'.key a a' (Table.get?_of_mem ha) (Table.get?_of_mem ha') hc
      hactive hactive'
    exact Table.eq_of_key ha ha' hkey
  · intro a now draw row t hacquire u hu a' now' draw' row' v hacquire' hc
    obtain ⟨-, -, rfl, hrow⟩ := acquire_new hacquire
    obtain ⟨hlive', -, rfl, -⟩ := acquire_new hacquire'
    rw [hc] at hlive'
    have ht : Fenced t := hfenced.changes (changes_acquire (G := fun _ _ => True) hacquire ⟨s, trivial⟩)
    show _ < u.nextToken a'.contextId
    rw [hc]
    exact ht.token_lt (changes_of_reach hu) hrow rfl hlive'
  · intro a ha t ht
    rw [hfenced.checkFence_later (changes_of_reach ht) (Table.get?_of_mem ha)]
    constructor
    · rintro ⟨a', ha', hactive⟩
      obtain ⟨hmem, hkey⟩ := Table.get?_eq_some.mp ha'
      exact ⟨a', hmem, hkey, hactive⟩
    · rintro ⟨a', hmem, hkey, hactive⟩
      exact ⟨a', Table.get?_eq_some.mpr ⟨hmem, hkey⟩, hactive⟩
  · intro a ha hrunning t ht a' ha' hkey hrunning'
    have ha'' : t.admissions.get? a.key = some a' := Table.get?_eq_some.mpr ⟨ha', hkey⟩
    rcases hfenced.find (changes_of_reach ht) (Table.get?_of_mem ha) with ⟨b, hb, hcont⟩ | ⟨-, hgone⟩
    · rw [ha''] at hb
      obtain rfl := Option.some.inj hb
      rcases hcont.running hrunning with hended | ⟨-, howner⟩
      · rw [isActive_of_state hrunning'] at hended
        cases hended
      · exact howner
    · exact absurd ((hfenced.changes (changes_of_reach ht)).admission a.key a' ha'') hgone

def sampleThread : ThreadKey := ⟨"pub", "key", "thread"⟩

/-- A turn is admitted and adopted, loses its lease to the orphan sweep, and its follower is
adopted by another worker. -/
def twoTurns : State :=
  [⟨.savePublication ⟨"pub", "conv", true, true⟩, 0, {}⟩,
    ⟨.ensureThread sampleThread, 1, {}⟩,
    ⟨.resolveContext ⟨"pub", "conv", true, true⟩ sampleThread 0 "d", 2, {}⟩,
    ⟨.acquire ⟨sampleThread, 0, "r1", "h1", "", ""⟩, 3, { handle := "1" }⟩,
    ⟨.adopt (⟨sampleThread, 0⟩, "r1") "w1", 4, {}⟩,
    ⟨.orphanExpired 0, 2 * second, {}⟩,
    ⟨.acquire ⟨sampleThread, 0, "r2", "h2", "", ""⟩, 5, { handle := "2" }⟩,
    ⟨.adopt (⟨sampleThread, 0⟩, "r2") "w2", 6, {}⟩].foldl
    (perform fun _ handle _ _ _ => handle) init

theorem single_writer_twoTurns :
    twoTurns.admissions.rows.map (fun a => (a.runId, a.state, a.fenceToken)) =
        [("r1", .orphaned, 1), ("r2", .running, 3)] ∧
      ∀ a ∈ twoTurns.admissions, a.isActive →
        twoTurns.checkFence a.contextId a.fenceToken := by
  have hreach : Reach (step fun _ handle _ _ _ => handle) init twoTurns :=
    reach_foldl (fun _ _ => rfl) _ _
  refine ⟨by decide +kernel, ?_⟩
  intro a ha hactive
  obtain ⟨-, -, hcheck, -⟩ := single_writer hreach
  exact (hcheck a ha twoTurns (.refl _)).mpr ⟨a, ha, rfl, hactive⟩

end State

end PawFlow.Agui
