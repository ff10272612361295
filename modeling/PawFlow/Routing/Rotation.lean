import PawFlow.Lib.Runs
import PawFlow.Routing.Router

/-!
# Rotation over a run of turns

Turns of many conversations share the counter of their router; each conversation has its own
affinity. A run is a list of plans and ends of turns, with changes of the health in between. The
history `heads` notes for every plan who made it and which candidate it starts with.
-/

namespace PawFlow.Routing

open PawFlow.Lib

structure TurnState where
  store : Store
  /-- The first candidate of the plan of an open turn. -/
  active : AffinityKey → Option ServiceRef
  heads : List (AffinityKey × ServiceRef)

inductive TurnEvent
  | plan (key : AffinityKey) (lastSelected : ServiceKey → Time) (now : Time)
  /-- The turn ends on its first candidate. -/
  | finalize (key : AffinityKey) (success : Bool) (now : Time)
  /-- The calls of open turns were recorded. -/
  | observe (health : CandidateKey → Option HealthRecord)

def TurnState.initial (store : Store) : TurnState := ⟨store, fun _ => none, []⟩

variable (cfg : RouterConfig) (registry : String → Option ServiceDef)

namespace TurnState

def step (s : TurnState) : TurnEvent → TurnState
  | .plan key lastSelected now =>
    match cfg.ensurePlan registry s.store key lastSelected now with
    | (.ok plan, store) =>
      match plan.ordered with
      | head :: _ =>
        ⟨store, Function.update s.active key (some head), s.heads ++ [(key, head)]⟩
      | [] => { s with store }
    | (.error _, store) => { s with store }
  | .finalize key success now =>
    match s.active key with
    | some child =>
      { s with
        store := cfg.finalizeRoute s.store key child success now
        active := Function.update s.active key none }
    | none => s
  | .observe health => { s with store := { s.store with health } }

/-- Every candidate is eligible for a plan made now. -/
def AllEligible (s : TurnState) (now : Time) : Prop :=
  eligible (cfg.healthMap s.store (cfg.resolved registry)) now (cfg.resolved registry) =
    cfg.resolved registry

instance (s : TurnState) (now : Time) : Decidable (s.AllEligible cfg registry now) :=
  inferInstanceAs (Decidable (_ = _))

/-- The plans of one conversation: their number among all plans, and what they start with. -/
def turnsOf (key : AffinityKey) (heads : List (AffinityKey × ServiceRef)) :
    List (Nat × ServiceRef) :=
  heads.zipIdx.filterMap fun ((k, ref), i) => if k = key then some (i, ref) else none

end TurnState

/-- The candidate a rotation by `counter` starts with. -/
def rotationStart (counter : Nat) : Option ServiceRef :=
  ((sortCandidates (cfg.resolved registry)).rotate counter).head?.map ResolvedCandidate.service

/-! ## Rotations -/

variable {cfg registry}

theorem length_sortCandidates (candidates : List ResolvedCandidate) :
    (sortCandidates candidates).length = candidates.length :=
  (List.perm_insertionSort _ _).length_eq

theorem rotationStart_eq {counter : Nat} (hne : cfg.resolved registry ≠ []) :
    rotationStart cfg registry counter =
      ((sortCandidates (cfg.resolved registry)).map ResolvedCandidate.service)[
        counter % (cfg.resolved registry).length]? := by
  have hlt : counter % (cfg.resolved registry).length < (sortCandidates (cfg.resolved registry)).length := by
    rw [length_sortCandidates]
    exact Nat.mod_lt _ (List.length_pos_of_ne_nil hne)
  rw [rotationStart, ← List.rotate_mod, length_sortCandidates, List.head?_rotate hlt,
    List.getElem?_map]

theorem rotationStart_isSome {counter : Nat} (hne : cfg.resolved registry ≠ []) :
    ∃ ref, rotationStart cfg registry counter = some ref := by
  rw [rotationStart_eq hne]
  refine ⟨_, List.getElem?_eq_getElem ?_⟩
  rw [List.length_map, length_sortCandidates]
  exact Nat.mod_lt _ (List.length_pos_of_ne_nil hne)

theorem mod_eq_of_rotationStart_eq {a b : Nat}
    (hnodup : ((cfg.resolved registry).map ResolvedCandidate.service).Nodup)
    (hne : cfg.resolved registry ≠ [])
    (h : rotationStart cfg registry a = rotationStart cfg registry b) :
    a % (cfg.resolved registry).length = b % (cfg.resolved registry).length := by
  have hpos := List.length_pos_of_ne_nil hne
  have hsorted : ((sortCandidates (cfg.resolved registry)).map ResolvedCandidate.service).Nodup :=
    ((List.perm_insertionSort _ _).map _).nodup_iff.mpr hnodup
  have hlength : ((sortCandidates (cfg.resolved registry)).map ResolvedCandidate.service).length =
      (cfg.resolved registry).length := by
    rw [List.length_map, length_sortCandidates]
  rw [rotationStart_eq hne, rotationStart_eq hne] at h
  have hlt : a % (cfg.resolved registry).length <
      ((sortCandidates (cfg.resolved registry)).map ResolvedCandidate.service).length := by
    rw [hlength]
    exact Nat.mod_lt _ hpos
  exact (List.getElem?_inj hlt hsorted).mp h

/-! ## One plan -/

namespace TurnState

variable {s : TurnState} {key : AffinityKey} {lastSelected : ServiceKey → Time} {now : Time}

/-- What a plan of a rotating strategy leaves, when it starts with `head`. -/
def planned (cfg : RouterConfig) (s : TurnState) (key : AffinityKey) (head : ServiceRef) :
    TurnState :=
  ⟨(s.store.nextCounter cfg.routerKey).2, Function.update s.active key (some head),
    s.heads ++ [(key, head)]⟩

theorem step_plan_eq {head : ResolvedCandidate} (tail : List ResolvedCandidate)
    (hne : cfg.resolved registry ≠ []) (hrotates : cfg.rotates = true)
    (hselected : (selectCandidates (cfg.resolved registry) cfg.strategy
      (cfg.healthMap s.store (cfg.resolved registry)) (s.store.counters cfg.routerKey)
      (s.store.affinity key) cfg.stickySuccessfulTurns lastSelected now).ordered = head :: tail) :
    s.step cfg registry (.plan key lastSelected now) = s.planned cfg key head.service := by
  simp only [step, RouterConfig.ensurePlan, hrotates, if_true, List.isEmpty_iff, hne, if_false,
    Store.nextCounter, hselected, List.map_cons, reduceCtorEq]
  rfl

theorem eq_cons_of_head? {α β : Type*} {f : α → β} {l : List α} {b : β}
    (h : l.head?.map f = some b) : ∃ a tail, l = a :: tail ∧ f a = b := by
  cases l with
  | nil => simp at h
  | cons a tail => exact ⟨a, tail, rfl, by simpa using h⟩

theorem step_plan_rotate {ref : ServiceRef} (hne : cfg.resolved registry ≠ [])
    (hall : s.AllEligible cfg registry now)
    (hstart : rotationStart cfg registry (s.store.counters cfg.routerKey) = some ref)
    (hcase : cfg.strategy = .roundRobin ∨ cfg.strategy = .stickyRoundRobin ∧
      stickyIndex? (sortCandidates (cfg.resolved registry)) (s.store.affinity key)
        (max 1 cfg.stickySuccessfulTurns) now = none) :
    s.step cfg registry (.plan key lastSelected now) = s.planned cfg key ref := by
  obtain ⟨c, tail, hlist, rfl⟩ := eq_cons_of_head? hstart
  rcases hcase with hstrategy | ⟨hstrategy, hsticky⟩
  · refine step_plan_eq tail hne (by simp [RouterConfig.rotates, hstrategy]) ?_
    simp only [selectCandidates, hstrategy]
    rw [hall, hlist]
  · refine step_plan_eq tail hne (by simp [RouterConfig.rotates, hstrategy]) ?_
    simp only [selectCandidates, hstrategy]
    rw [hall, hsticky]
    simp only [hlist]

theorem step_plan_sticky {a : AffinityRecord} (hne : cfg.resolved registry ≠ [])
    (hall : s.AllEligible cfg registry now) (hstrategy : cfg.strategy = .stickyRoundRobin)
    (haffinity : s.store.affinity key = some a) (hexpires : now < a.expiresAt)
    (hlimit : a.successfulTurns < max 1 cfg.stickySuccessfulTurns)
    (hmem : a.child ∈ (sortCandidates (cfg.resolved registry)).map ResolvedCandidate.service) :
    s.step cfg registry (.plan key lastSelected now) = s.planned cfg key a.child := by
  obtain ⟨c, hc, hchild⟩ := List.mem_map.mp hmem
  obtain ⟨i, hi⟩ : ∃ i, (sortCandidates (cfg.resolved registry)).findIdx?
      (fun c => c.service = a.child) = some i := by
    rw [← Option.isSome_iff_exists, List.findIdx?_isSome, List.any_eq_true]
    exact ⟨c, hc, by simpa using hchild⟩
  have hindex : stickyIndex? (sortCandidates (cfg.resolved registry)) (s.store.affinity key)
      (max 1 cfg.stickySuccessfulTurns) now = some i := by
    rw [haffinity]
    simp only [stickyIndex?]
    rw [if_pos ⟨hexpires, hlimit⟩, hi]
  obtain ⟨hlt, hservice, -⟩ := List.findIdx?_eq_some_iff_getElem.mp hi
  have hservice : ((sortCandidates (cfg.resolved registry))[i]).service = a.child := by
    simpa using hservice
  rw [← hservice]
  refine step_plan_eq ((sortCandidates (cfg.resolved registry)).drop (i + 1) ++
    (sortCandidates (cfg.resolved registry)).take i) hne
    (by simp [RouterConfig.rotates, hstrategy]) ?_
  simp only [selectCandidates, hstrategy]
  rw [hall, hindex]
  simp only [List.drop_eq_getElem_cons hlt, List.cons_append]

variable {head : ServiceRef}

@[simp] theorem planned_counter :
    (s.planned cfg key head).store.counters cfg.routerKey =
      s.store.counters cfg.routerKey + 1 := by
  simp [planned, Store.nextCounter]

@[simp] theorem planned_affinity : (s.planned cfg key head).store.affinity = s.store.affinity := rfl

@[simp] theorem planned_heads : (s.planned cfg key head).heads = s.heads ++ [(key, head)] := rfl

@[simp] theorem planned_active :
    (s.planned cfg key head).active = Function.update s.active key (some head) := rfl

variable {success : Bool}

variable {child : ServiceRef}

theorem finalizeRoute_counters {store : Store} :
    (cfg.finalizeRoute store key child success now).counters = store.counters := by
  unfold RouterConfig.finalizeRoute
  split <;> rfl

theorem step_finalize_none (h : s.active key = none) :
    s.step cfg registry (.finalize key success now) = s := by
  simp only [step, h]

theorem step_finalize_some (h : s.active key = some child) :
    s.step cfg registry (.finalize key success now) =
      { s with
        store := cfg.finalizeRoute s.store key child success now
        active := Function.update s.active key none } := by
  simp only [step, h]

theorem step_finalize_heads (cfg : RouterConfig) (registry : String → Option ServiceDef)
    (s : TurnState) (key : AffinityKey) (success : Bool) (now : Time) :
    (s.step cfg registry (.finalize key success now)).heads = s.heads ∧
      (s.step cfg registry (.finalize key success now)).store.counters = s.store.counters := by
  cases hactive : s.active key with
  | none =>
    rw [step_finalize_none hactive]
    exact ⟨rfl, rfl⟩
  | some child =>
    rw [step_finalize_some hactive]
    exact ⟨rfl, finalizeRoute_counters⟩

end TurnState

/-! ## Round robin -/

/-- Plans are made while all candidates are eligible. -/
def EligibleStep (cfg : RouterConfig) (registry : String → Option ServiceDef) (s : TurnState) :
    TurnEvent → Prop
  | .plan _ _ now => s.AllEligible cfg registry now
  | _ => True

instance (s : TurnState) (e : TurnEvent) : Decidable (EligibleStep cfg registry s e) :=
  match e with
  | .plan _ _ _ => inferInstanceAs (Decidable (TurnState.AllEligible ..))
  | .finalize _ _ _ => .isTrue trivial
  | .observe _ => .isTrue trivial

variable (cfg registry) in
/-- The `i`-th plan starts with the `i`-th rotation. -/
structure Rotating (first : Nat) (s : TurnState) : Prop where
  counter : s.store.counters cfg.routerKey = first + s.heads.length
  heads : ∀ i p, s.heads[i]? = some p → rotationStart cfg registry (first + i) = some p.2

theorem Rotating.step {first : Nat} {s : TurnState} {e : TurnEvent}
    (hne : cfg.resolved registry ≠ []) (hstrategy : cfg.strategy = .roundRobin)
    (h : Rotating cfg registry first s) (hok : EligibleStep cfg registry s e) :
    Rotating cfg registry first (s.step cfg registry e) := by
  cases e with
  | plan key lastSelected now =>
    obtain ⟨ref, href⟩ := @rotationStart_isSome cfg registry (first + s.heads.length) hne
    rw [TurnState.step_plan_rotate hne hok (by rw [h.counter, href]) (.inl hstrategy)]
    refine ⟨by simp [h.counter, Nat.add_assoc], fun i p hp => ?_⟩
    rw [TurnState.planned_heads, List.getElem?_append] at hp
    split at hp
    · exact h.heads i p hp
    · next hlt =>
      obtain ⟨rfl, rfl⟩ : i = s.heads.length ∧ p = (key, ref) := by
        rw [List.getElem?_singleton] at hp
        split at hp
        · exact ⟨by omega, (Option.some.inj hp).symm⟩
        · contradiction
      exact href
  | finalize key success now =>
    obtain ⟨hheads, hcounters⟩ :=
      TurnState.step_finalize_heads cfg registry s key success now
    exact ⟨by rw [hcounters, hheads, h.counter], by rw [hheads]; exact h.heads⟩
  | observe health => exact ⟨h.counter, h.heads⟩

theorem roundRobin_distinct {store : Store} {s : TurnState}
    (hnodup : ((cfg.resolved registry).map ResolvedCandidate.service).Nodup)
    (hstrategy : cfg.strategy = .roundRobin)
    (hrun : Runs (fun s e => some (s.step cfg registry e)) (EligibleStep cfg registry)
      (.initial store) s) {i j : Nat} (hij : i < j) (hj : j < i + (cfg.resolved registry).length)
    {p q : AffinityKey × ServiceRef} (hp : s.heads[i]? = some p) (hq : s.heads[j]? = some q) :
    p.2 ≠ q.2 := by
  have hne : cfg.resolved registry ≠ [] := by
    rintro hnil
    rw [hnil, List.length_nil] at hj
    omega
  have hrotating := hrun.invariant (Rotating cfg registry (store.counters cfg.routerKey))
    (fun t e u ht hok hstep => by
      obtain rfl := Option.some.inj hstep
      exact ht.step hne hstrategy hok)
    ⟨by simp [TurnState.initial], by simp [TurnState.initial]⟩
  intro heq
  have hstart := hrotating.heads i p hp
  rw [heq, ← hrotating.heads j q hq] at hstart
  have hmod := mod_eq_of_rotationStart_eq hnodup hne hstart
  have hdvd := (Nat.modEq_iff_dvd' (by omega)).mp hmod
  have hle := Nat.le_of_dvd (by omega) hdvd
  omega

/-! ## Sticky round robin -/

/-- The limit `select_candidates` works with. -/
def RouterConfig.stickyLimit (cfg : RouterConfig) : Nat := max 1 cfg.stickySuccessfulTurns

/-- A step of a run in which every turn succeeds and, for the conversation `key`: turns do not
overlap, each is planned before the affinity of the one before expires, and the plans the router
has made since the current target was chosen are no multiple of the candidates when it is to be
left. -/
def SteadyStep (cfg : RouterConfig) (registry : String → Option ServiceDef) (key : AffinityKey)
    (s : TurnState) : TurnEvent → Prop
  | .plan k _ now =>
    s.AllEligible cfg registry now ∧
      (k = key → s.active key = none ∧ (∀ a ∈ s.store.affinity key, now < a.expiresAt) ∧
        ((TurnState.turnsOf key s.heads).length % cfg.stickyLimit = 0 →
          ∀ chosen ∈ (TurnState.turnsOf key s.heads)[
              (TurnState.turnsOf key s.heads).length - cfg.stickyLimit]?,
            ¬ (cfg.resolved registry).length ∣ s.heads.length - chosen.1))
  | .finalize _ success _ => success = true
  | .observe _ => True

instance (key : AffinityKey) (s : TurnState) (e : TurnEvent) :
    Decidable (SteadyStep cfg registry key s e) :=
  match e with
  | .plan _ _ _ => inferInstanceAs (Decidable (_ ∧ (_ → _ ∧ _ ∧ (_ → _))))
  | .finalize _ success _ => inferInstanceAs (Decidable (success = true))
  | .observe _ => .isTrue trivial

/-- The affinity row counts the turns since the current target was chosen. -/
def Counted (limit : Nat) (turns : List (Nat × ServiceRef)) (affinity : Option AffinityRecord) :
    Prop :=
  match turns.getLast? with
  | none => affinity = none
  | some last => ∃ a, affinity = some a ∧ a.child = last.2 ∧
      a.successfulTurns = (turns.length - 1) % limit + 1

variable (cfg registry) in
/-- The turns of one conversation come in blocks of `stickyLimit`. -/
structure Sticky (first : Nat) (key : AffinityKey) (s : TurnState) : Prop where
  counter : s.store.counters cfg.routerKey = first + s.heads.length
  index : ∀ p ∈ TurnState.turnsOf key s.heads, p.1 < s.heads.length
  starts : ∀ j p, (TurnState.turnsOf key s.heads)[j]? = some p →
    ∃ q, (TurnState.turnsOf key s.heads)[j - j % cfg.stickyLimit]? = some q ∧
      rotationStart cfg registry (first + q.1) = some p.2
  blocks : ∀ j p q, (TurnState.turnsOf key s.heads)[j]? = some p →
    (TurnState.turnsOf key s.heads)[j + 1]? = some q →
    (q.2 = p.2 ↔ (j + 1) % cfg.stickyLimit ≠ 0)
  closed : s.active key = none →
    Counted cfg.stickyLimit (TurnState.turnsOf key s.heads) (s.store.affinity key)
  opened : ∀ child, s.active key = some child → ∃ earlier i,
    TurnState.turnsOf key s.heads = earlier ++ [(i, child)] ∧
      Counted cfg.stickyLimit earlier (s.store.affinity key)

theorem RouterConfig.stickyLimit_pos (cfg : RouterConfig) : 0 < cfg.stickyLimit :=
  lt_of_lt_of_le Nat.zero_lt_one (le_max_left _ _)

theorem succ_mod_eq {e limit : Nat} (hpos : 0 < limit) :
    (e + 1) % limit = if e % limit + 1 = limit then 0 else e % limit + 1 := by
  have hlt := Nat.mod_lt e hpos
  rw [← Nat.mod_add_mod]
  split
  · next h => rw [h, Nat.mod_self]
  · exact Nat.mod_eq_of_lt (by omega)

theorem length_mod_eq {α : Type*} {l : List α} {last : α} {limit : Nat} (hlimit : 0 < limit)
    (hlast : l.getLast? = some last) : 0 < l.length ∧
      l.length % limit =
        if (l.length - 1) % limit + 1 = limit then 0 else (l.length - 1) % limit + 1 := by
  have hpos : 0 < l.length := by
    refine List.length_pos_of_ne_nil ?_
    rintro rfl
    cases hlast
  have hsucc := succ_mod_eq (e := l.length - 1) hlimit
  rw [Nat.sub_add_cancel hpos] at hsucc
  exact ⟨hpos, hsucc⟩

namespace TurnState

theorem turnsOf_append (key k : AffinityKey) (heads : List (AffinityKey × ServiceRef))
    (ref : ServiceRef) :
    turnsOf key (heads ++ [(k, ref)]) =
      turnsOf key heads ++ if k = key then [(heads.length, ref)] else [] := by
  rw [turnsOf, List.zipIdx_append, List.filterMap_append, turnsOf]
  congr 1
  by_cases hk : k = key <;> simp [hk]

theorem exists_step_plan {s : TurnState} {key : AffinityKey} {lastSelected : ServiceKey → Time}
    {now : Time} (hne : cfg.resolved registry ≠ []) (hrotates : cfg.rotates = true)
    (hall : s.AllEligible cfg registry now) :
    ∃ ref, s.step cfg registry (.plan key lastSelected now) = s.planned cfg key ref := by
  have hperm := @ordered_perm_eligible (cfg.resolved registry) cfg.strategy
    (cfg.healthMap s.store (cfg.resolved registry)) (s.store.counters cfg.routerKey)
    (s.store.affinity key) cfg.stickySuccessfulTurns lastSelected now
  rw [hall] at hperm
  obtain ⟨c, tail, hcons⟩ := List.exists_cons_of_ne_nil fun hnil =>
    hne (List.nil_perm.mp (hnil ▸ hperm))
  exact ⟨c.service, step_plan_eq tail hne hrotates hcons⟩

end TurnState

namespace Sticky

variable {first : Nat} {key : AffinityKey} {s : TurnState}

variable {ref : ServiceRef}

variable {k : AffinityKey}

theorem planned_other (h : Sticky cfg registry first key s)
    (hk : k ≠ key) : Sticky cfg registry first key (s.planned cfg k ref) := by
  have hturns : TurnState.turnsOf key (s.planned cfg k ref).heads =
      TurnState.turnsOf key s.heads := by
    rw [TurnState.planned_heads, TurnState.turnsOf_append, if_neg hk, List.append_nil]
  have hactive : (s.planned cfg k ref).active key = s.active key := by
    rw [TurnState.planned_active, Function.update_of_ne (Ne.symm hk)]
  constructor
  · simp [h.counter, Nat.add_assoc]
  · rw [hturns]
    intro p hp
    have := h.index p hp
    simp only [TurnState.planned_heads, List.length_append, List.length_singleton]
    omega
  · rw [hturns]
    exact h.starts
  · rw [hturns]
    exact h.blocks
  · rw [hturns, hactive]
    exact h.closed
  · rw [hturns, hactive]
    exact h.opened

theorem getElem?_append_singleton {α : Type*} {l : List α} {a b : α} {i : Nat}
    (h : (l ++ [a])[i]? = some b) : l[i]? = some b ∨ i = l.length ∧ b = a := by
  rw [List.getElem?_append] at h
  split at h
  · exact .inl h
  · rw [List.getElem?_singleton] at h
    split at h
    · exact .inr ⟨by omega, (Option.some.inj h).symm⟩
    · contradiction

/-- Where the next turn of the conversation starts: inside a block with the target of the turn
before, at the beginning of a block with another one, chosen by rotation. -/
def Continues (cfg : RouterConfig) (registry : String → Option ServiceDef) (first : Nat)
    (key : AffinityKey) (s : TurnState) (ref : ServiceRef) : Prop :=
  if (TurnState.turnsOf key s.heads).length % cfg.stickyLimit = 0 then
    rotationStart cfg registry (first + s.heads.length) = some ref ∧
      ∀ last ∈ (TurnState.turnsOf key s.heads).getLast?, ref ≠ last.2
  else ∃ last ∈ (TurnState.turnsOf key s.heads).getLast?, ref = last.2

/-- A plan of the conversation itself. -/
theorem planned_own (h : Sticky cfg registry first key s)
    (hactive : s.active key = none) (href : Continues cfg registry first key s ref) :
    Sticky cfg registry first key (s.planned cfg key ref) := by
  have hturns : TurnState.turnsOf key (s.planned cfg key ref).heads =
      TurnState.turnsOf key s.heads ++ [(s.heads.length, ref)] := by
    rw [TurnState.planned_heads, TurnState.turnsOf_append, if_pos rfl]
  obtain ⟨hcounter, hindex, hstarts, hblocks, hclosed, -⟩ := h
  unfold Continues at href
  generalize TurnState.turnsOf key s.heads = turns at *
  have hlast : ∀ {p}, turns[turns.length - 1]? = some p → p ∈ turns.getLast? := by
    intro p hp
    rw [List.getLast?_eq_getElem?, hp]
    rfl
  have hkept : ∀ {i p}, turns[i]? = some p → (turns ++ [(s.heads.length, ref)])[i]? = some p :=
    fun hp => by rw [List.getElem?_append_left (List.getElem?_eq_some_iff.mp hp).1, hp]
  constructor
  · simp [hcounter, Nat.add_assoc]
  · rw [hturns]
    intro p hp
    rw [TurnState.planned_heads, List.length_append, List.length_singleton]
    rcases List.mem_append.mp hp with hp | hp
    · have := hindex p hp
      omega
    · rw [List.mem_singleton.mp hp]
      exact Nat.lt_succ_self _
  · rw [hturns]
    intro j p hp
    rcases getElem?_append_singleton hp with hp | ⟨rfl, rfl⟩
    · obtain ⟨q, hq, hstart⟩ := hstarts j p hp
      exact ⟨q, hkept hq, hstart⟩
    · split at href
      · next hmod =>
        rw [hmod, Nat.sub_zero]
        exact ⟨_, hp, href.1⟩
      · next hmod =>
        -- the turn before is in the same block
        obtain ⟨last, hmem, rfl⟩ := href
        have hsucc := succ_mod_eq (e := turns.length - 1) cfg.stickyLimit_pos
        have hpos : 0 < turns.length := by
          rcases Nat.eq_zero_or_pos turns.length with hzero | hpos
          · rw [hzero, Nat.zero_mod] at hmod
            exact absurd rfl hmod
          · exact hpos
        rw [Nat.sub_add_cancel hpos] at hsucc
        rw [List.getLast?_eq_getElem?] at hmem
        obtain ⟨q, hq, hstart⟩ := hstarts _ last hmem
        refine ⟨q, hkept ?_, hstart⟩
        rw [← hq]
        congr 1
        split at hsucc <;> omega
  · rw [hturns]
    intro j p q hp hq
    rcases getElem?_append_singleton hq with hq | ⟨hj, rfl⟩
    · have hlt := (List.getElem?_eq_some_iff.mp hq).1
      rw [List.getElem?_append_left (by omega)] at hp
      exact hblocks j p q hp hq
    · rw [List.getElem?_append_left (by omega)] at hp
      have hmem : p ∈ turns.getLast? := hlast (by rw [← hj, Nat.add_sub_cancel, hp])
      rw [hj]
      split at href
      · next hmod => simp [hmod, href.2 p hmem]
      · next hmod =>
        obtain ⟨last, hmem', rfl⟩ := href
        obtain rfl : p = last := Option.some.inj (hmem.symm.trans hmem')
        simp [hmod]
  · simp
  · rw [hturns]
    intro child hchild
    rw [TurnState.planned_active, Function.update_self] at hchild
    obtain rfl := Option.some.inj hchild
    exact ⟨turns, _, rfl, hclosed hactive⟩

theorem rotationStart_mem {counter : Nat} (h : rotationStart cfg registry counter = some ref) :
    ref ∈ (sortCandidates (cfg.resolved registry)).map ResolvedCandidate.service := by
  obtain ⟨c, tail, hcons, rfl⟩ := TurnState.eq_cons_of_head? h
  refine List.mem_map.mpr ⟨c, ?_, rfl⟩
  rw [← List.mem_rotate (n := counter), hcons]
  exact List.mem_cons_self ..

/-- At the beginning of a block the plan rotates, to another target than before. -/
theorem rotates_at_block {lastSelected : ServiceKey → Time} {now : Time}
    (hnodup : ((cfg.resolved registry).map ResolvedCandidate.service).Nodup)
    (hne : cfg.resolved registry ≠ []) (hstrategy : cfg.strategy = .stickyRoundRobin)
    (h : Sticky cfg registry first key s)
    (hok : SteadyStep cfg registry key s (.plan key lastSelected now))
    (hmod : (TurnState.turnsOf key s.heads).length % cfg.stickyLimit = 0) :
    ∃ ref, s.step cfg registry (.plan key lastSelected now) = s.planned cfg key ref ∧
      Continues cfg registry first key s ref := by
  obtain ⟨hall, hown⟩ := hok
  obtain ⟨hactive, -, hadvance⟩ := hown rfl
  obtain ⟨ref, href⟩ := @rotationStart_isSome cfg registry (first + s.heads.length) hne
  have hcounted := h.closed hactive
  -- the block before is full
  have hfull : ∀ {last}, (TurnState.turnsOf key s.heads).getLast? = some last →
      ((TurnState.turnsOf key s.heads).length - 1) % cfg.stickyLimit + 1 = cfg.stickyLimit := by
    intro last hlast
    obtain ⟨-, hsucc⟩ := length_mod_eq cfg.stickyLimit_pos hlast
    rw [hmod] at hsucc
    split at hsucc
    · assumption
    · omega
  have hsticky : stickyIndex? (sortCandidates (cfg.resolved registry)) (s.store.affinity key)
      (max 1 cfg.stickySuccessfulTurns) now = none := by
    unfold Counted at hcounted
    split at hcounted
    · rw [hcounted]
      rfl
    · next last hlast =>
      obtain ⟨a, ha, -, hturns⟩ := hcounted
      rw [hfull hlast] at hturns
      have hlimit : ¬ a.successfulTurns < max 1 cfg.stickySuccessfulTurns := by
        rw [hturns]
        exact lt_irrefl _
      simp [ha, stickyIndex?, hlimit]
  refine ⟨ref, TurnState.step_plan_rotate hne hall (by rw [h.counter, href])
    (.inr ⟨hstrategy, hsticky⟩), ?_⟩
  rw [Continues, if_pos hmod]
  refine ⟨href, fun last hlast heq => ?_⟩
  have hplace := hfull hlast
  have hlastGet := hlast
  rw [Option.mem_def, List.getLast?_eq_getElem?] at hlastGet
  obtain ⟨q, hq, hstart⟩ := h.starts _ last hlastGet
  have hindex : (TurnState.turnsOf key s.heads).length - 1 -
      ((TurnState.turnsOf key s.heads).length - 1) % cfg.stickyLimit =
      (TurnState.turnsOf key s.heads).length - cfg.stickyLimit := by omega
  rw [hindex] at hq
  rw [← heq, ← href] at hstart
  have hlt := h.index q (List.mem_of_getElem? hq)
  have hmodeq := mod_eq_of_rotationStart_eq hnodup hne hstart
  have hdvd := (Nat.modEq_iff_dvd' (by omega)).mp hmodeq
  rw [Nat.add_sub_add_left] at hdvd
  exact hadvance hmod q hq hdvd

/-- Inside a block the plan stays with the target. -/
theorem stays_in_block {lastSelected : ServiceKey → Time} {now : Time}
    (hne : cfg.resolved registry ≠ []) (hstrategy : cfg.strategy = .stickyRoundRobin)
    (h : Sticky cfg registry first key s)
    (hok : SteadyStep cfg registry key s (.plan key lastSelected now))
    (hmod : (TurnState.turnsOf key s.heads).length % cfg.stickyLimit ≠ 0) :
    ∃ ref, s.step cfg registry (.plan key lastSelected now) = s.planned cfg key ref ∧
      Continues cfg registry first key s ref := by
  obtain ⟨hall, hown⟩ := hok
  obtain ⟨hactive, hfresh, -⟩ := hown rfl
  have hcounted := h.closed hactive
  unfold Counted at hcounted
  split at hcounted
  · next hnil =>
    rw [List.getLast?_eq_none_iff] at hnil
    simp [hnil] at hmod
  · next last hlast =>
    obtain ⟨a, ha, hchild, hturns⟩ := hcounted
    obtain ⟨hpos, hsucc⟩ := length_mod_eq cfg.stickyLimit_pos hlast
    have hlimit : a.successfulTurns < max 1 cfg.stickySuccessfulTurns := by
      have hlt := Nat.mod_lt ((TurnState.turnsOf key s.heads).length - 1) cfg.stickyLimit_pos
      change a.successfulTurns < cfg.stickyLimit
      split at hsucc
      · exact absurd hsucc hmod
      · omega
    have hlastGet := hlast
    rw [List.getLast?_eq_getElem?] at hlastGet
    obtain ⟨q, -, hstart⟩ := h.starts _ last hlastGet
    refine ⟨a.child, TurnState.step_plan_sticky hne hall hstrategy ha (hfresh a ha) hlimit ?_, ?_⟩
    · rw [hchild]
      exact rotationStart_mem hstart
    · rw [Continues, if_neg hmod]
      exact ⟨last, hlast, hchild⟩

/-- The end of a successful turn. -/
theorem step_finalize {now : Time} (h : Sticky cfg registry first key s) :
    Sticky cfg registry first key (s.step cfg registry (.finalize k true now)) := by
  cases hactive : s.active k with
  | none =>
    rw [TurnState.step_finalize_none hactive]
    exact h
  | some child =>
    rw [TurnState.step_finalize_some hactive]
    refine ⟨?_, h.index, h.starts, h.blocks, ?_, ?_⟩
    · rw [TurnState.finalizeRoute_counters, h.counter]
    · intro hnone
      by_cases hk : k = key
      · subst hk
        obtain ⟨earlier, i, hturns, hcounted⟩ := h.opened child hactive
        have hblocks := h.blocks
        rw [hturns] at hblocks ⊢
        simp only [RouterConfig.finalizeRoute, Bool.not_true, Bool.false_eq_true, if_false,
          Store.setAffinity, Function.update_self, Counted, List.getLast?_concat,
          List.length_append, List.length_singleton, Nat.add_sub_cancel]
        refine ⟨_, rfl, rfl, ?_⟩
        unfold Counted at hcounted
        split at hcounted
        · next hnil =>
          rw [List.getLast?_eq_none_iff] at hnil
          simp [hcounted, hnil]
        · next last hlast =>
          obtain ⟨a, ha, hchild, hcount⟩ := hcounted
          obtain ⟨hpos, hsucc⟩ := length_mod_eq cfg.stickyLimit_pos hlast
          rw [List.getLast?_eq_getElem?] at hlast
          have hblock := hblocks (earlier.length - 1) last (i, child)
            (by rw [List.getElem?_append_left (by omega), hlast])
            (by rw [Nat.sub_add_cancel hpos]; simp)
          rw [Nat.sub_add_cancel hpos] at hblock
          simp only [ha, hchild]
          split
          · next heq =>
            have hmod := hblock.mp heq.symm
            rw [hcount]
            split at hsucc
            · exact absurd hsucc hmod
            · rw [hsucc]
          · next heq =>
            have hmod : earlier.length % cfg.stickyLimit = 0 := by
              by_contra hmod
              exact heq (hblock.mpr hmod).symm
            omega
      · have haff : (cfg.finalizeRoute s.store k child true now).affinity key =
            s.store.affinity key := by
          simp [RouterConfig.finalizeRoute, Store.setAffinity, Function.update_of_ne (Ne.symm hk)]
        rw [haff]
        exact h.closed (by simpa [Function.update_of_ne (Ne.symm hk)] using hnone)
    · intro child' hchild'
      by_cases hk : k = key
      · subst hk
        simp at hchild'
      · have haff : (cfg.finalizeRoute s.store k child true now).affinity key =
            s.store.affinity key := by
          simp [RouterConfig.finalizeRoute, Store.setAffinity, Function.update_of_ne (Ne.symm hk)]
        rw [haff]
        exact h.opened child' (by simpa [Function.update_of_ne (Ne.symm hk)] using hchild')

theorem step {e : TurnEvent}
    (hnodup : ((cfg.resolved registry).map ResolvedCandidate.service).Nodup)
    (hne : cfg.resolved registry ≠ []) (hstrategy : cfg.strategy = .stickyRoundRobin)
    (h : Sticky cfg registry first key s) (hok : SteadyStep cfg registry key s e) :
    Sticky cfg registry first key (s.step cfg registry e) := by
  cases e with
  | plan k lastSelected now =>
    by_cases hk : k = key
    · subst hk
      obtain ⟨ref, hstep, href⟩ :
          ∃ ref, s.step cfg registry (.plan k lastSelected now) = s.planned cfg k ref ∧
            Continues cfg registry first k s ref := by
        by_cases hmod : (TurnState.turnsOf k s.heads).length % cfg.stickyLimit = 0
        · exact rotates_at_block hnodup hne hstrategy h hok hmod
        · exact stays_in_block hne hstrategy h hok hmod
      rw [hstep]
      exact h.planned_own (hok.2 rfl).1 href
    · obtain ⟨ref, hstep⟩ := @TurnState.exists_step_plan cfg registry s k lastSelected now
        hne (by simp [RouterConfig.rotates, hstrategy]) hok.1
      rw [hstep]
      exact h.planned_other hk
  | finalize k success now =>
    obtain rfl : success = true := hok
    exact h.step_finalize
  | observe health => exact ⟨h.counter, h.index, h.starts, h.blocks, h.closed, h.opened⟩

theorem initial {store : Store} (hnone : store.affinity key = none) :
    Sticky cfg registry (store.counters cfg.routerKey) key (.initial store) := by
  refine ⟨by simp [TurnState.initial], ?_, ?_, ?_, ?_, ?_⟩
  · simp [TurnState.initial, TurnState.turnsOf]
  · simp [TurnState.initial, TurnState.turnsOf]
  · simp [TurnState.initial, TurnState.turnsOf]
  · intro _
    simpa [TurnState.initial, TurnState.turnsOf, Counted] using hnone
  · simp [TurnState.initial]

end Sticky

/-! ## The strategies -/

/-- **Rotation.** With all candidates eligible, `n` consecutive plans under `round_robin` start
with `n` candidates; under `sticky_round_robin` the turns of a conversation start with one
candidate in blocks of exactly `sticky_successful_turns`, when no block spans a multiple of `n`
plans of the router. Whatever the strategy and the health, a plan and its exclusions are all
candidates. A failed turn leaves the sticky count as it was, so it is reset only if there was
none. -/
theorem rotates_as_configured (cfg : RouterConfig) (registry : String → Option ServiceDef)
    (hnodup : ((cfg.resolved registry).map ResolvedCandidate.service).Nodup)
    (hn : 2 ≤ (cfg.resolved registry).length) :
    (cfg.strategy = .roundRobin → ∀ (store : Store) (s : TurnState),
      Runs (fun s e => some (s.step cfg registry e)) (EligibleStep cfg registry)
        (.initial store) s →
      ∀ i j p q, i < j → j < i + (cfg.resolved registry).length →
        s.heads[i]? = some p → s.heads[j]? = some q → p.2 ≠ q.2) ∧
    (cfg.strategy = .stickyRoundRobin → ∀ (key : AffinityKey) (store : Store) (s : TurnState),
      store.affinity key = none →
      Runs (fun s e => some (s.step cfg registry e)) (SteadyStep cfg registry key)
        (.initial store) s →
      ∀ j p q, (TurnState.turnsOf key s.heads)[j]? = some p →
        (TurnState.turnsOf key s.heads)[j + 1]? = some q →
        (q.2 = p.2 ↔ (j + 1) % cfg.stickyLimit ≠ 0)) ∧
    (∀ candidates strategy health counter affinity sticky lastSelected now,
      let selected := selectCandidates candidates strategy health counter affinity sticky
        lastSelected now
      (selected.ordered.map ResolvedCandidate.service ++
          selected.excluded.map CandidateExclusion.child).Perm
        (candidates.map ResolvedCandidate.service)) ∧
    ∀ store key child now,
      (cfg.finalizeRoute store key child false now).affinity key = none ↔
        store.affinity key = none := by
  have hne : cfg.resolved registry ≠ [] := by
    rintro hnil
    simp [hnil] at hn
  refine ⟨?_, ?_, ?_, ?_⟩
  · intro hstrategy store s hrun i j p q hij hj hp hq
    exact roundRobin_distinct hnodup hstrategy hrun hij hj hp hq
  · intro hstrategy key store s hnone hrun
    have hsticky := hrun.invariant
      (Sticky cfg registry (store.counters cfg.routerKey) key)
      (fun t e u ht hok hstep => by
        obtain rfl := Option.some.inj hstep
        exact ht.step hnodup hne hstrategy hok) (Sticky.initial hnone)
    exact hsticky.blocks
  · intros
    exact ordered_append_excluded_perm
  · intro store key child now
    rfl

/-! ## Two candidates -/

def sampleRef (id : String) : ServiceRef := ⟨"global", "g", id, "r"⟩

/-- Two connections, `a` before `b`. -/
def sampleRegistry (id : String) : Option ServiceDef :=
  some ⟨sampleRef id, true, "llmConnection", "openai", "m"⟩

def sampleConfig (strategy : Strategy) (sticky : Nat) : RouterConfig where
  routerKey := ("global", "g", "router")
  candidates := [⟨"a", 10, true⟩, ⟨"b", 20, true⟩]
  strategy := strategy
  stickySuccessfulTurns := sticky
  defaultModels := fun _ => ""

def sampleKey : AffinityKey := ⟨("global", "g", "router"), "u", "c", "agent"⟩

/-- `n` successful turns of one conversation. -/
def sampleTurns (n : Nat) : List TurnEvent :=
  (List.range n).flatMap fun i =>
    [.plan sampleKey (fun _ => 0) i, .finalize sampleKey true i]

def sampleRun (strategy : Strategy) (sticky : Nat) (events : List TurnEvent) : TurnState :=
  events.foldl (TurnState.step (sampleConfig strategy sticky) sampleRegistry) (.initial .empty)

def sampleHeads (strategy : Strategy) (sticky n : Nat) : List String :=
  (sampleRun strategy sticky (sampleTurns n)).heads.map fun p => p.2.serviceId

theorem rotates_as_configured_sampleTurns :
    sampleHeads .roundRobin 1 4 = ["a", "b", "a", "b"] ∧
    sampleHeads .stickyRoundRobin 3 7 = ["a", "a", "a", "b", "b", "b", "a"] ∧
    (∀ i j p q, i < j → j < i + 2 →
      (sampleRun .roundRobin 1 (sampleTurns 4)).heads[i]? = some p →
      (sampleRun .roundRobin 1 (sampleTurns 4)).heads[j]? = some q → p.2 ≠ q.2) ∧
    ∀ j p q,
      (TurnState.turnsOf sampleKey
        (sampleRun .stickyRoundRobin 3 (sampleTurns 7)).heads)[j]? = some p →
      (TurnState.turnsOf sampleKey
        (sampleRun .stickyRoundRobin 3 (sampleTurns 7)).heads)[j + 1]? = some q →
      (q.2 = p.2 ↔ (j + 1) % 3 ≠ 0) := by
  refine ⟨by decide, by decide, ?_, ?_⟩
  · exact (rotates_as_configured (sampleConfig .roundRobin 1) sampleRegistry (by decide)
      (by decide)).1 rfl .empty _ (runs_of_guarded (fun _ _ => rfl) (by decide))
  · exact (rotates_as_configured (sampleConfig .stickyRoundRobin 3) sampleRegistry (by decide)
      (by decide)).2.1 rfl sampleKey .empty _ rfl (runs_of_guarded (fun _ _ => rfl) (by decide))

/-- With two candidates and two sticky turns the target is kept for three turns: the counter has
gone full circle when the block ends. And a failed turn leaves the count of the turn before. -/
theorem sticky_block_overruns :
    sampleHeads .stickyRoundRobin 2 4 = ["a", "a", "a", "b"] ∧
      ((sampleRun .stickyRoundRobin 2 [.plan sampleKey (fun _ => 0) 1,
        .finalize sampleKey true 1, .plan sampleKey (fun _ => 0) 2,
        .finalize sampleKey false 2]).store.affinity sampleKey).map
          AffinityRecord.successfulTurns = some 1 := by
  decide

end PawFlow.Routing
