import PawFlow.Engine.Executor

/-!
# What the sends of a commit do

All sends of one attempt only add to queues, so a connection that refuses a FlowFile refuses it
until the commit is over. `Grows` collects what every send, and so every sequence of sends,
keeps; `holds_send` says exactly what one send adds.
-/

namespace PawFlow.Engine

open PawFlow.Lib PawFlow.Core

namespace State

def Holds (s : State) (c : ConnId) (r : Ref) : Prop := r ∈ (s.conns c).flowfiles

/-- The object stands in some queue. -/
def Queued (s : State) (r : Ref) : Prop := ∃ c, s.Holds c r

def admits (s : State) (c : ConnId) (r : Ref) : Prop := (s.conns c).admits (s.heap r).size

instance (s : State) (c : ConnId) (r : Ref) : Decidable (s.Holds c r) :=
  inferInstanceAs (Decidable (r ∈ (s.conns c).flowfiles))

instance (s : State) (c : ConnId) (r : Ref) : Decidable (s.admits c r) :=
  inferInstanceAs (Decidable ((s.conns c).admits (s.heap r).size = true))

end State

/-- The object is `x` itself or a clone made of it in attempt `k`. -/
def IsCopy (k : Nat) (x r : Ref) : Prop := r = x ∨ ∃ u, r = .clone x k u

theorem IsCopy.eq {k : Nat} {x y r : Ref} (hx : x.Before k) (hy : y.Before k)
    (hxr : IsCopy k x r) (hyr : IsCopy k y r) : y = x := by
  rcases hxr with rfl | ⟨u, rfl⟩ <;> rcases hyr with hyr | ⟨v, hyr⟩
  · exact hyr.symm
  · subst hyr
    exact absurd hx (Nat.lt_irrefl k)
  · subst hyr
    exact absurd hy (Nat.lt_irrefl k)
  · exact (Ref.clone.inj hyr).1.symm

/-- What the sends of attempt `k` keep: queues grow, room shrinks, and what decides about a
result (its size, its relationship) stays. -/
structure Grows (k : Nat) (s t : State) : Prop where
  keeps : ∀ c r, s.Holds c r → t.Holds c r
  tight : ∀ c n, (t.conns c).admits n → (s.conns c).admits n
  news : ∀ c r, t.Holds c r →
    s.Holds c r ∨ ∃ y, y.Before k ∧ IsCopy k y r ∧ s.admits c y
  size : ∀ r, r.Before k → (t.heap r).size = (s.heap r).size
  route : ∀ r, r.Before k →
    (t.heap r).getAttribute "route.relationship" = (s.heap r).getAttribute "route.relationship"
  relationship : ∀ c, (t.conns c).relationship = (s.conns c).relationship
  sourceId : ∀ c, (t.conns c).sourceId = (s.conns c).sourceId
  checkpoints : t.failureCheckpoints = s.failureCheckpoints

namespace Grows

variable {k : Nat} {s t u : State}

theorem refl (k : Nat) (s : State) : Grows k s s where
  keeps _ _ h := h
  tight _ _ h := h
  news _ _ h := .inl h
  size _ _ := rfl
  route _ _ := rfl
  relationship _ := rfl
  sourceId _ := rfl
  checkpoints := rfl

theorem admits_of {c : ConnId} {y : Ref} (h : Grows k s t) (hy : y.Before k)
    (hadmits : t.admits c y) : s.admits c y := by
  unfold State.admits at hadmits ⊢
  rw [h.size y hy] at hadmits
  exact h.tight c _ hadmits

theorem trans (hst : Grows k s t) (htu : Grows k t u) : Grows k s u where
  keeps c r h := htu.keeps c r (hst.keeps c r h)
  tight c n h := hst.tight c n (htu.tight c n h)
  news c r h := by
    rcases htu.news c r h with h | ⟨y, hy, hcopy, hadmits⟩
    · exact hst.news c r h
    · exact .inr ⟨y, hy, hcopy, hst.admits_of hy hadmits⟩
  size r hr := (htu.size r hr).trans (hst.size r hr)
  route r hr := (htu.route r hr).trans (hst.route r hr)
  relationship c := (htu.relationship c).trans (hst.relationship c)
  sourceId c := (htu.sourceId c).trans (hst.sourceId c)
  checkpoints := htu.checkpoints.trans hst.checkpoints

theorem matching_eq (h : Grows k s t) {x : Ref} (hx : x.Before k) (outgoing : List ConnId) :
    Executor.matching t outgoing x = Executor.matching s outgoing x := by
  simp only [Executor.matching, h.route x hx, h.relationship]

theorem outgoing_eq (h : Grows k s t) (e : Executor) (taskId : String) :
    e.outgoing t taskId = e.outgoing s taskId := by
  simp only [Executor.outgoing, h.sourceId]

theorem of_heap (heap : Ref → FlowFile) (uuids : Nat)
    (hsize : ∀ r, r.Before k → (heap r).size = (s.heap r).size)
    (hroute : ∀ r, r.Before k → (heap r).getAttribute "route.relationship" =
      (s.heap r).getAttribute "route.relationship") :
    Grows k s { s with heap, uuids } where
  keeps _ _ h := h
  tight _ _ h := h
  news _ _ h := .inl h
  size := hsize
  route := hroute
  relationship _ := rfl
  sourceId _ := rfl
  checkpoints := rfl

end Grows

/-! ## Single operations -/

namespace State

variable {s : State} {w : Call}

theorem size_setAttribute (r x : Ref) (key value : String) :
    ((s.setAttribute r key value).heap x).size = (s.heap x).size := by
  by_cases h : x = r
  · subst h
    simp [setAttribute, FlowFile.setAttribute, FlowFile.size]
  · simp [setAttribute, Function.update_of_ne h]

variable {value : String}

theorem route_setAttribute (r x : Ref) {key : String} (hkey : key ≠ "route.relationship") :
    ((s.setAttribute r key value).heap x).getAttribute "route.relationship" =
      (s.heap x).getAttribute "route.relationship" := by
  by_cases h : x = r
  · subst h
    simp only [setAttribute, Function.update_self, FlowFile.setAttribute, FlowFile.getAttribute]
    exact PyDict.get?_set_of_ne _ _ hkey.symm
  · simp [setAttribute, Function.update_of_ne h]

theorem grows_setAttribute (k : Nat) (r : Ref) {key : String}
    (hkey : key ≠ "route.relationship") : Grows k s (s.setAttribute r key value) :=
  Grows.of_heap _ s.uuids (fun x _ => size_setAttribute r x key value)
    fun x _ => route_setAttribute r x hkey

theorem grows_clone (k : Nat) (x : Ref) : Grows k s (s.clone w k x).2 := by
  have hne : ∀ r : Ref, r.Before k → r ≠ .clone x k s.uuids := by
    rintro r hr rfl
    exact absurd hr (Nat.lt_irrefl k)
  apply Grows.of_heap _ (s.uuids + 1)
  · intro r hr
    rw [Function.update_of_ne (hne r hr)]
  · intro r hr
    rw [Function.update_of_ne (hne r hr)]

theorem enqueue_fst (c : ConnId) (r : Ref) : (s.enqueue w c r).1 = true ↔ s.admits c r := by
  have h : (s.enqueue w c r).1 = (s.conns c).admits (s.heap r).size := Connection.enqueue_fst r
  rw [h, admits]

variable {r : Ref}

theorem enqueue_refused {c : ConnId} (h : ¬ s.admits c r) : s.enqueue w c r = (false, s) := by
  have hconn : (s.conns c).admits (s.heap r).size = false := by simpa [admits] using h
  have hpair : (s.conns c).enqueue s.heap w.now r = (false, s.conns c) :=
    Prod.ext ((Connection.enqueue_fst r).trans hconn) (Connection.enqueue_refused hconn)
  simp [enqueue, setConn, hpair]

theorem holds_enqueue {c d : ConnId} {y : Ref} :
    (s.enqueue w c r).2.Holds d y ↔ s.Holds d y ∨ (d = c ∧ s.admits c r ∧ y = r) := by
  by_cases h : d = c
  · subst h
    simp [Holds, enqueue, setConn, admits, Connection.mem_enqueue]
  · simp [Holds, enqueue, setConn, h]

theorem grows_enqueue {k : Nat} {c : ConnId} {x : Ref} (hx : x.Before k)
    (hcopy : IsCopy k x r) (hsize : (s.heap r).size = (s.heap x).size) :
    Grows k s (s.enqueue w c r).2 where
  keeps d y h := holds_enqueue.mpr (.inl h)
  tight d n h := by
    by_cases hd : d = c
    · subst hd
      simp only [enqueue, setConn, Function.update_self] at h
      exact Connection.admits_of_enqueue h
    · simpa only [enqueue, setConn, Function.update_of_ne hd] using h
  news d y h := by
    rcases holds_enqueue.mp h with h | ⟨rfl, hadmits, rfl⟩
    · exact .inl h
    · refine .inr ⟨x, hx, hcopy, ?_⟩
      unfold admits at hadmits ⊢
      rwa [hsize] at hadmits
  size _ _ := rfl
  route _ _ := rfl
  relationship d := by
    by_cases hd : d = c
    · subst hd
      simp [enqueue, setConn, Connection.relationship_enqueue]
    · simp [enqueue, setConn, Function.update_of_ne hd]
  sourceId d := by
    by_cases hd : d = c
    · subst hd
      simp [enqueue, setConn, Connection.sourceId_enqueue]
    · simp [enqueue, setConn, Function.update_of_ne hd]
  checkpoints := rfl

end State

/-! ## Sends -/

namespace Executor

variable {e : Executor} {w : Call} {k : Nat} {src : ConnId} {s t : State} {o : Option Exn}

/-- The object a send offers: the result to the first connection, a clone to the others. -/
def offered (k : Nat) (x : Ref) (first : Bool) (s : State) : Ref :=
  if first then x else .clone x k s.uuids

theorem isCopy_offered (x : Ref) (first : Bool) : IsCopy k x (offered k x first s) := by
  cases first with
  | true => exact .inl rfl
  | false => exact .inr ⟨s.uuids, rfl⟩

theorem send_eq (e : Executor) (w : Call) (k : Nat) (src : ConnId) (x : Ref) (first : Bool)
    (c : ConnId) (s : State) :
    ∃ s₁, Grows k s s₁ ∧ s₁.conns = s.conns ∧
      (s₁.heap (offered k x first s)).size = (s.heap x).size ∧
      ((∃ err, e.send w k (some src) x first c s = (s₁, some err)) ∨
        e.send w k (some src) x first c s =
          (if (s₁.enqueue w c (offered k x first s)).1 then
            ((s₁.enqueue w c (offered k x first s)).2, none)
          else (((s₁.enqueue w c (offered k x first s)).2.enqueue w src
            (offered k x first s)).2, none))) := by
  obtain ⟨s₀, hs₀, hgrows, hconns, hsize⟩ : ∃ s₀,
      (if first then (x, s) else s.clone w k x) = (offered k x first s, s₀) ∧
      Grows k s s₀ ∧ s₀.conns = s.conns ∧
      (s₀.heap (offered k x first s)).size = (s.heap x).size := by
    cases first with
    | true => exact ⟨s, rfl, .refl k s, rfl, rfl⟩
    | false =>
      refine ⟨(s.clone w k x).2, rfl, State.grows_clone k x, rfl, ?_⟩
      simp [State.clone, offered, FlowFile.clone, FlowFile.size]
  cases hprio : e.targetPriority (s₀.conns c).targetId (s₀.heap (offered k x first s)) with
  | error err => exact ⟨s₀, hgrows, hconns, hsize, .inl ⟨err, by simp [send, hs₀, hprio]⟩⟩
  | ok prio =>
    by_cases hzero : prio = 0
    · refine ⟨s₀, hgrows, hconns, hsize, .inr ?_⟩
      simp only [send, hs₀, hprio, hzero, ne_eq, not_true_eq_false, if_false]
    · refine ⟨s₀.setAttribute (offered k x first s) "priority" (toString prio),
        hgrows.trans (State.grows_setAttribute k _ (by decide)), hconns,
        (State.size_setAttribute _ _ _ _).trans hsize, .inr ?_⟩
      simp only [send, hs₀, hprio, hzero, ne_eq, not_false_eq_true, if_true]

variable {c : ConnId} {first : Bool} {x : Ref} {outgoing : List ConnId}

theorem send_grows (hx : x.Before k)
    (h : e.send w k (some src) x first c s = (t, o)) : Grows k s t := by
  obtain ⟨s₁, hgrows, -, hsize, hsend⟩ := send_eq e w k src x first c s
  have hsize₁ : (s₁.heap (offered k x first s)).size = (s₁.heap x).size :=
    hsize.trans (hgrows.size x hx).symm
  rcases hsend with ⟨err, hsend⟩ | hsend <;> rw [h] at hsend
  · obtain rfl := (Prod.mk.inj hsend).1
    exact hgrows
  · have hfirst := State.grows_enqueue (s := s₁) (w := w) (c := c) hx (isCopy_offered x first) hsize₁
    split at hsend
    · obtain rfl := (Prod.mk.inj hsend).1
      exact hgrows.trans hfirst
    · obtain rfl := (Prod.mk.inj hsend).1
      exact hgrows.trans (hfirst.trans
        (State.grows_enqueue hx (isCopy_offered x first) hsize₁))

theorem holds_send (h : e.send w k (some src) x first c s = (t, none)) (d : ConnId) (y : Ref) :
    t.Holds d y ↔ s.Holds d y ∨ y = offered k x first s ∧
      (d = c ∧ s.admits c x ∨ d = src ∧ ¬ s.admits c x ∧ s.admits src x) := by
  obtain ⟨s₁, -, hconns, hsize, hsend⟩ := send_eq e w k src x first c s
  have hadmits : ∀ d, s₁.admits d (offered k x first s) ↔ s.admits d x := by
    intro d
    rw [State.admits, State.admits, hconns, hsize]
  have hholds : ∀ d y, s₁.Holds d y ↔ s.Holds d y := by
    intro d y
    rw [State.Holds, State.Holds, hconns]
  rcases hsend with ⟨err, hsend⟩ | hsend <;> rw [h] at hsend
  · exact absurd (Prod.mk.inj hsend).2 (by simp)
  · by_cases hc : s.admits c x
    · rw [if_pos ((State.enqueue_fst c _).mpr ((hadmits c).mpr hc))] at hsend
      obtain rfl := (Prod.mk.inj hsend).1
      rw [State.holds_enqueue, hholds, hadmits]
      tauto
    · have hrefused : ¬ s₁.admits c (offered k x first s) := (hadmits c).not.mpr hc
      rw [if_neg (by simp [State.enqueue_refused hrefused])] at hsend
      obtain rfl := (Prod.mk.inj hsend).1
      rw [State.enqueue_refused hrefused, State.holds_enqueue, hholds, hadmits]
      tauto

/-! ## Offers that are decided at their turn -/

/-- A copy of `x` stands in the connection or is back in the source connection. -/
def Got (k : Nat) (src : ConnId) (x : Ref) (c : ConnId) (s : State) : Prop :=
  ∃ r, IsCopy k x r ∧ (s.Holds c r ∨ s.Holds src r)

/-- There is a copy of `x` or room for one. -/
def Fits (k : Nat) (src : ConnId) (x : Ref) (c : ConnId) (s : State) : Prop :=
  Got k src x c s ∨ s.admits c x ∨ s.admits src x

theorem Got.grows (h : Got k src x c s) (hst : Grows k s t) : Got k src x c t := by
  obtain ⟨r, hcopy, hholds⟩ := h
  exact ⟨r, hcopy, hholds.imp (hst.keeps c r) (hst.keeps src r)⟩

theorem Fits.of_grows (hx : x.Before k) (hst : Grows k s t)
    (h : Fits k src x c t) : Fits k src x c s := by
  rcases h with ⟨r, hcopy, hholds⟩ | hc | hsrc
  · -- a copy that came in since then is a copy of `x`, so there was room for `x`
    have hnew : ∀ d, t.Holds d r → s.Holds d r ∨ s.admits d x := by
      intro d hd
      rcases hst.news d r hd with hold | ⟨y, hy, hcopy', hadmits⟩
      · exact .inl hold
      · obtain rfl := IsCopy.eq hx hy hcopy hcopy'
        exact .inr hadmits
    rcases hholds with hc | hsrc
    · rcases hnew c hc with hold | hadmits
      · exact .inl ⟨r, hcopy, .inl hold⟩
      · exact .inr (.inl hadmits)
    · rcases hnew src hsrc with hold | hadmits
      · exact .inl ⟨r, hcopy, .inr hold⟩
      · exact .inr (.inr hadmits)
  · exact .inr (.inl (hst.admits_of hx hc))
  · exact .inr (.inr (hst.admits_of hx hsrc))

theorem got_send (hx : x.Before k)
    (h : e.send w k (some src) x first c s = (t, none)) (hfits : Fits k src x c s) :
    Got k src x c t := by
  have hcopy : IsCopy k x (offered k x first s) := isCopy_offered x first
  rcases hfits with hgot | hroom
  · exact hgot.grows (send_grows hx h)
  · by_cases hc : s.admits c x
    · exact ⟨_, hcopy, .inl ((holds_send h c _).mpr (.inr ⟨rfl, .inl ⟨rfl, hc⟩⟩))⟩
    · have hsrc : s.admits src x := hroom.resolve_left hc
      exact ⟨_, hcopy, .inr ((holds_send h src _).mpr (.inr ⟨rfl, .inr ⟨rfl, hc, hsrc⟩⟩))⟩

/-- **An offer is decided at its turn**: at the end of the commit there is a copy of the
result if and only if there was one, or room for one, when the offer was made. -/
theorem got_iff_fits {u : State} (hx : x.Before k)
    (h : e.send w k (some src) x first c s = (t, none)) (hu : Grows k t u) :
    Got k src x c u ↔ Fits k src x c s := by
  constructor
  · intro hgot
    exact Fits.of_grows hx ((send_grows hx h).trans hu) (.inl hgot)
  · intro hfits
    exact (got_send hx h hfits).grows hu

/-- Every offer of one result fits at its turn. -/
def SendsFit (e : Executor) (w : Call) (k : Nat) (src : ConnId) (x : Ref) :
    Bool → List ConnId → State → Prop
  | _, [], _ => True
  | first, c :: cs, s =>
    Fits k src x c s ∧ SendsFit e w k src x false cs (e.send w k (some src) x first c s).1

variable {cs : List ConnId}

theorem sendAll_grows (hx : x.Before k)
    (h : e.sendAll w k (some src) x first cs s = (t, o)) : Grows k s t := by
  induction cs generalizing first s with
  | nil =>
    obtain rfl := (Prod.mk.inj h).1
    exact .refl k s
  | cons c cs ih =>
    unfold sendAll at h
    split at h
    · next s₁ err hsend =>
      obtain rfl := (Prod.mk.inj h).1
      exact send_grows hx hsend
    · next s₁ hsend => exact (send_grows hx hsend).trans (ih h)

theorem sendAll_got {u : State} (hx : x.Before k)
    (h : e.sendAll w k (some src) x first cs s = (t, none)) (hu : Grows k t u) :
    (∀ c ∈ cs, Got k src x c u) ↔ SendsFit e w k src x first cs s := by
  induction cs generalizing first s with
  | nil => simp [SendsFit]
  | cons c cs ih =>
    unfold sendAll at h
    split at h
    · exact absurd (Prod.mk.inj h).2 (by simp)
    · next s₁ hsend =>
      have hrest : Grows k s₁ t := sendAll_grows hx h
      rw [List.forall_mem_cons, SendsFit, hsend, ih h,
        got_iff_fits hx hsend (hrest.trans hu)]

/-- Whether an object that is no clone of this attempt gets queued by the sends of `x`. -/
theorem sendAll_queued {i : Ref} (hi : i.Before k)
    (h : e.sendAll w k (some src) x first cs s = (t, none)) :
    t.Queued i ↔ s.Queued i ∨ first ∧ x = i ∧
      ∃ c ∈ cs.head?, s.admits c x ∨ s.admits src x := by
  induction cs generalizing first s with
  | nil =>
    obtain rfl := (Prod.mk.inj h).1
    simp
  | cons c cs ih =>
    unfold sendAll at h
    split at h
    · exact absurd (Prod.mk.inj h).2 (by simp)
    · next s₁ hsend =>
      have hone : s₁.Queued i ↔ s.Queued i ∨ i = offered k x first s ∧
          (s.admits c x ∨ s.admits src x) := by
        simp only [State.Queued, holds_send hsend]
        constructor
        · rintro ⟨d, hold | ⟨hi, hland⟩⟩
          · exact .inl ⟨d, hold⟩
          · exact .inr ⟨hi, hland.imp And.right fun hland => hland.2.2⟩
        · rintro (⟨d, hold⟩ | ⟨hi, hroom⟩)
          · exact ⟨d, .inl hold⟩
          · by_cases hc : s.admits c x
            · exact ⟨c, .inr ⟨hi, .inl ⟨rfl, hc⟩⟩⟩
            · exact ⟨src, .inr ⟨hi, .inr ⟨rfl, hc, hroom.resolve_left hc⟩⟩⟩
      rw [ih h, hone]
      cases first with
      | true => simp [offered, eq_comm]
      | false =>
        have hne : i ≠ .clone x k s.uuids := by
          rintro rfl
          exact absurd hi (Nat.lt_irrefl k)
        simp [offered, hne]

/-! ## All results -/

theorem tag_grows (cs : List ConnId) (x : Ref) : Grows k s (tag w cs x s) := by
  unfold tag
  split
  · exact Grows.of_heap _ _ (fun r _ => State.size_setAttribute x r _ _)
      fun r _ => State.route_setAttribute x r (by decide)
  · exact .refl k s

theorem conns_tag (cs : List ConnId) (x : Ref) : (tag w cs x s).conns = s.conns := by
  unfold tag
  split <;> rfl

theorem admits_tag (cs : List ConnId) (x y : Ref) (c : ConnId) :
    (tag w cs x s).admits c y ↔ s.admits c y := by
  have hsize : ((tag w cs x s).heap y).size = (s.heap y).size := by
    unfold tag
    split
    · exact State.size_setAttribute x y _ _
    · rfl
  rw [State.admits, State.admits, conns_tag, hsize]

/-- Every offer of every result fits at its turn. -/
def ResultsFit (e : Executor) (w : Call) (k : Nat) (src : ConnId) (outgoing : List ConnId) :
    List Ref → State → Prop
  | [], _ => True
  | x :: xs, s =>
    SendsFit e w k src x true (matching s outgoing x) (tag w (matching s outgoing x) x s) ∧
      ResultsFit e w k src outgoing xs (e.commitResult w k (some src) outgoing x s).1

/-- The object `i` is a result, and its own offer finds room. -/
def OwnFits (e : Executor) (w : Call) (k : Nat) (src : ConnId) (outgoing : List ConnId)
    (i : Ref) : List Ref → State → Prop
  | [], _ => False
  | x :: xs, s =>
    (x = i ∧ ∃ c ∈ (matching s outgoing x).head?, s.admits c x ∨ s.admits src x) ∨
      OwnFits e w k src outgoing i xs (e.commitResult w k (some src) outgoing x s).1

theorem commitResult_grows (hx : x.Before k)
    (h : e.commitResult w k (some src) outgoing x s = (t, o)) : Grows k s t :=
  (tag_grows _ x).trans (sendAll_grows hx h)

variable {xs : List Ref}

theorem commitResults_grows
    (hxs : ∀ x ∈ xs, x.Before k) (h : e.commitResults w k (some src) outgoing xs s = (t, o)) :
    Grows k s t := by
  induction xs generalizing s with
  | nil =>
    obtain rfl := (Prod.mk.inj h).1
    exact .refl k s
  | cons x xs ih =>
    rw [List.forall_mem_cons] at hxs
    unfold commitResults at h
    split at h
    · next s₁ err hone =>
      obtain rfl := (Prod.mk.inj h).1
      exact commitResult_grows hxs.1 hone
    · next s₁ hone => exact (commitResult_grows hxs.1 hone).trans (ih hxs.2 h)

/-- **A commit that goes through** leaves a copy of every result for every matching connection
if and only if every offer fits at its turn. -/
theorem commitResults_got (hxs : ∀ x ∈ xs, x.Before k)
    (h : e.commitResults w k (some src) outgoing xs s = (t, none)) :
    (∀ x ∈ xs, ∀ c ∈ matching t outgoing x, Got k src x c t) ↔
      ResultsFit e w k src outgoing xs s := by
  induction xs generalizing s with
  | nil => simp [ResultsFit]
  | cons x xs ih =>
    have hall : Grows k s t := commitResults_grows hxs h
    rw [List.forall_mem_cons] at hxs ⊢
    unfold commitResults at h
    split at h
    · exact absurd (Prod.mk.inj h).2 (by simp)
    · next s₁ hone =>
      rw [ResultsFit, hone, ih hxs.2 h, hall.matching_eq hxs.1,
        sendAll_got hxs.1 hone (commitResults_grows hxs.2 h)]

theorem commitResults_queued {i : Ref}
    (hi : i.Before k) (h : e.commitResults w k (some src) outgoing xs s = (t, none)) :
    t.Queued i ↔ s.Queued i ∨ OwnFits e w k src outgoing i xs s := by
  induction xs generalizing s with
  | nil =>
    obtain rfl := (Prod.mk.inj h).1
    simp [OwnFits]
  | cons x xs ih =>
    unfold commitResults at h
    split at h
    · exact absurd (Prod.mk.inj h).2 (by simp)
    · next s₁ hone =>
      have hone' := sendAll_queued hi hone
      have htag : (tag w (matching s outgoing x) x s).Queued i ↔ s.Queued i := by
        simp only [State.Queued, State.Holds, conns_tag]
      rw [ih h, OwnFits, hone, hone', htag]
      simp only [admits_tag, true_and]
      exact or_assoc

end Executor

end PawFlow.Engine
