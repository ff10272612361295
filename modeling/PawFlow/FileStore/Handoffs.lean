import PawFlow.FileStore.Effects
import PawFlow.Lib.Runs

/-!
# Handoffs and wipes

Over a whole run of the store, in whatever order its threads take their steps: files follow the
handoffs of their conversation and do not survive its end. What has returned so far is remembered
beside the state.
-/

namespace PawFlow.FileStore

open PawFlow.Lib

/-- The files that a handoff gave to a new owner, and that no later one has taken from him. -/
structure Heir where
  conversation : String
  new : String
  ids : List FileId
deriving DecidableEq

namespace State

variable (s : State)

/-- The calls for the conversation that are under way. -/
def inProgress (conversationId : String) : List FileId :=
  (List.range s.calls.length).filter fun i =>
    (s.calls[i]?).any fun c => c.upload.conversationId = conversationId && !c.phase.ended

def beingWiped : List FileId :=
  (List.range s.calls.length).filter fun i =>
    (s.calls[i]?).any fun c => !c.phase.ended && s.wipers c.upload.conversationId ≠ 0

/-- What the old owner has in the conversation, and the calls that are under way. -/
def heirOf (h : Handoff) : Heir where
  conversation := h.conversation
  new := h.new
  ids := (s.entries.filter fun i => departs h.conversation h.old i.2).map Prod.fst ++
    s.inProgress h.conversation

/-- What a later handoff leaves with an heir: the files it registered for another owner. -/
def remain (h : Handoff) (heir : Heir) : Option Heir :=
  if heir.conversation ≠ h.conversation then some heir
  else if heir.new = h.old then none
  else some { heir with ids := heir.ids.filter fun i => (s.entries.get? i).isSome }

def passOn : Option Handoff → List Heir → List Heir
  | none, heirs => heirs
  | some h, heirs => s.heirOf h :: heirs.filterMap (s.remain h)

variable {s} {i : FileId} {conv : String}

theorem mem_inProgress : i ∈ s.inProgress conv ↔
    ∃ c, s.calls[i]? = some c ∧ c.upload.conversationId = conv ∧ ¬ c.phase.ended := by
  rw [inProgress, List.mem_filter, Option.any_eq_true]
  simp only [Bool.and_eq_true, decide_eq_true_eq, Bool.not_eq_true', Bool.not_eq_true]
  refine and_iff_right_of_imp ?_
  rintro ⟨c, hc, -⟩
  exact List.mem_range.mpr (List.getElem?_eq_some_iff.mp hc).1

theorem mem_beingWiped : i ∈ s.beingWiped ↔
    ∃ c, s.calls[i]? = some c ∧ ¬ c.phase.ended ∧ s.wipers c.upload.conversationId ≠ 0 := by
  rw [beingWiped, List.mem_filter, Option.any_eq_true]
  simp only [Bool.and_eq_true, decide_eq_true_eq, Bool.not_eq_true', Bool.not_eq_true]
  refine and_iff_right_of_imp ?_
  rintro ⟨c, hc, -⟩
  exact List.mem_range.mpr (List.getElem?_eq_some_iff.mp hc).1

end State

/-- The store with what has happened so far. -/
structure Watched where
  state : State := {}
  /-- The calls whose conversation was being wiped while they were under way. -/
  overlapped : List FileId := []
  /-- The conversations wiped, with the number of calls begun before that returned. -/
  past : List (String × Nat) := []
  heirs : List Heir := []
deriving DecidableEq

namespace Watched

def follow (w : Watched) (a : Act) : Option Watched :=
  (w.state.step a).map fun t => {
    state := t
    overlapped := w.overlapped ++ t.beingWiped
    past := w.state.returned a ++ w.past
    heirs := w.state.passOn (w.state.handoff a) w.heirs }

/-- Files survive handoffs and never survive a wipe. -/
structure Good (w : Watched) : Prop where
  wiped : ∀ conv n, (conv, n) ∈ w.past → ∀ i < n, ∀ c, w.state.calls[i]? = some c →
    c.upload.conversationId = conv → w.state.entries.get? i = none ∧
      (c.phase.ended → ∀ p, p.fileId = i → w.state.files.get? p = none)
  handed : ∀ h ∈ w.heirs, ∀ i ∈ h.ids, ∀ e, w.state.entries.get? i = some e →
    e.userId = h.new ∧ e.path.dir.owner = h.new ∧ e.path.dir.conversation = h.conversation ∧
      (w.state.files.get? e.path).isSome
  present : ∀ i e, w.state.entries.get? i = some e → ∃ c, w.state.calls[i]? = some c ∧
    w.state.files.get? e.path = some c.upload.content
  answered : ∀ (i : FileId) (c : Call), w.state.calls[i]? = some c → c.phase.ended → i ∉ w.overlapped →
    c.phase = .stored

/-- A call that finds its bucket gone has a wipe to thank for it. -/
def Guarded (w : Watched) (a : Act) : Prop :=
  ∀ i, a = .write i → w.state.misses i → i ∈ w.overlapped

/-! ## The invariant -/

structure Inv (w : Watched) : Prop where
  filed : w.state.Filed
  count : ∀ conv, w.state.wipingCount conv = w.state.wipers conv
  covers : w.state.Covers
  began : ∀ (k : FileId) (c : Call), w.state.calls[k]? = some c →
    c.wipes ≤ w.state.wipeCount c.upload.conversationId
  calm : ∀ (k : FileId) (c : Call), w.state.calls[k]? = some c → ¬ c.phase.ended → k ∉ w.overlapped →
    c.wipes = w.state.wipeCount c.upload.conversationId ∧
      w.state.wipers c.upload.conversationId = 0
  answered : ∀ (k : FileId) (c : Call), w.state.calls[k]? = some c → c.phase.ended → k ∉ w.overlapped →
    c.phase = .stored
  past : ∀ conv n, (conv, n) ∈ w.past → n ≤ w.state.calls.length ∧ ∀ k < n, ∀ c : Call,
    w.state.calls[k]? = some c → c.upload.conversationId = conv →
      w.state.entries.get? k = none ∧ c.wipes < w.state.wipeCount conv
  heirs : ∀ h ∈ w.heirs, ∀ k ∈ h.ids, ∃ c : Call, w.state.calls[k]? = some c ∧
    c.upload.conversationId = h.conversation ∧
    (∀ e, w.state.entries.get? k = some e → e.userId = h.new) ∧
    (¬ c.phase.ended → w.state.conversationOwners.get? h.conversation = some h.new ∨
      c.wipes < w.state.wipeCount h.conversation)

theorem inv_empty : Watched.Inv {} where
  filed := State.filed_empty
  count _ := rfl
  covers _ hd := nomatch hd
  began _ _ hc := nomatch hc
  calm _ _ hc := nomatch hc
  answered _ _ hc := nomatch hc
  past _ _ hp := nomatch hp
  heirs _ hh := nomatch hh

variable {w : Watched}

theorem Inv.good (h : Inv w) : Good w where
  wiped conv n hn i hi c hc hconv := by
    obtain ⟨hnone, -⟩ := (h.past conv n hn).2 i hi c hc hconv
    refine ⟨hnone, fun hended p hp => ?_⟩
    subst hp
    by_contra hsome
    obtain ⟨bytes, hbytes⟩ := Option.ne_none_iff_exists'.mp hsome
    rcases h.filed.files p bytes hbytes with ⟨e, he, -⟩ | ⟨c', dir, hc', hphase, -⟩
    · rw [hnone] at he
      cases he
    · obtain rfl := Option.some.inj (hc.symm.trans hc')
      rw [hphase] at hended
      exact Bool.false_ne_true hended
  handed heir hheir i hi e he := by
    obtain ⟨c, hc, hconv, howner, -⟩ := h.heirs heir hheir i hi
    obtain ⟨-, hdir, hsame, c', hc', -, hconv', hbytes⟩ := h.filed.entry i e he
    obtain rfl := Option.some.inj (hc.symm.trans hc')
    have hnew := howner e he
    exact ⟨hnew, hdir.trans hnew, hsame.trans (hconv'.trans hconv),
      Option.isSome_of_eq_some hbytes⟩
  present i e he := by
    obtain ⟨-, -, -, c, hc, -, -, hbytes⟩ := h.filed.entry i e he
    exact ⟨c, hc, hbytes⟩
  answered := h.answered

/-! ## Steps -/

variable {w' : Watched} {a : Act} {t : State}

theorem Inv.abandons (h : Inv w) {k : FileId} {c : Call} (hc : w.state.calls[k]? = some c)
    (hwiped : c.wipes < w.state.wipeCount c.upload.conversationId) : w.state.abandons c := by
  rw [State.abandons, decide_eq_true hwiped.ne', Bool.true_or]

variable {past : List (String × Nat)}

variable {moved : Option Handoff}

theorem Inv.calm_step (h : Inv w)
    (heff : w.state.Effect a past moved t) (k : FileId) (c : Call) (hc : t.calls[k]? = some c)
    (hopen : ¬ c.phase.ended) (hk : k ∉ w.overlapped ++ t.beingWiped) :
    c.wipes = t.wipeCount c.upload.conversationId ∧ t.wipers c.upload.conversationId = 0 := by
  rw [List.mem_append, not_or] at hk
  have hnone : t.wipers c.upload.conversationId = 0 := by
    by_contra hsome
    exact hk.2 (State.mem_beingWiped.mpr ⟨c, hc, hopen, hsome⟩)
  refine ⟨?_, hnone⟩
  rw [heff.wipeCount_eq]
  rcases heff.call_cases hc with ⟨c₀, hc₀, hupload, hwipes, hsame⟩ | ⟨-, hwipes, -, rfl⟩
  · have hopen₀ : ¬ c₀.phase.ended := fun hended => hopen (hsame hended ▸ hended)
    obtain ⟨hcalm, hwipers⟩ := h.calm k c₀ hc₀ hopen₀ hk.1
    rw [hwipes, hupload, hcalm, List.countP_eq_zero.mpr, Nat.add_zero]
    intro o ho heq
    have hpos : 0 < w.state.wipers o.1 := (heff.wiper_of_past ho).2.1
    rw [decide_eq_true_eq.mp heq] at hpos
    omega
  · exact hwipes

theorem Inv.answered_step (h : Inv w)
    (heff : w.state.Effect a past moved t) (hguarded : Guarded w a) (k : FileId) (c : Call)
    (hc : t.calls[k]? = some c) (hended : c.phase.ended) (hk : k ∉ w.overlapped ++ t.beingWiped) :
    c.phase = .stored := by
  rw [List.mem_append, not_or] at hk
  rcases heff.call_cases hc with ⟨c₀, hc₀, -, -, hsame⟩ | ⟨-, -, hcounted, -⟩
  · by_cases hopen : c₀.phase.ended
    · rw [hsame hopen]
      exact h.answered k c₀ hc₀ hopen hk.1
    · obtain ⟨hcalm, hwipers⟩ := h.calm k c₀ hc₀ hopen hk.1
      rcases heff.ends hc₀ hopen hc hended with hstored | habandons | ⟨rfl, hmisses⟩
      · exact hstored
      · rw [State.abandons, h.count, hcalm, hwipers] at habandons
        simp at habandons
      · exact absurd (hguarded k rfl hmisses) hk.1
  · rw [hcounted] at hended
    exact absurd hended Bool.false_ne_true

theorem Inv.past_step (h : Inv w) (heff : w.state.Effect a past moved t) (conv : String) (n : Nat)
    (hn : (conv, n) ∈ past ++ w.past) : n ≤ t.calls.length ∧ ∀ k < n, ∀ c : Call,
      t.calls[k]? = some c → c.upload.conversationId = conv →
        t.entries.get? k = none ∧ c.wipes < t.wipeCount conv := by
  have hlen : n ≤ w.state.calls.length := by
    rcases List.mem_append.mp hn with hn | hn
    · exact (heff.wiper_of_past hn).1.le
    · exact (h.past conv n hn).1
  refine ⟨hlen.trans heff.length_le, fun k hk c hc hconv => ?_⟩
  rcases heff.call_cases hc with ⟨c₀, hc₀, hupload, hwipes, -⟩ | ⟨hfresh, -⟩
  · rw [hupload] at hconv
    -- the call has no entry, and will not be given one
    obtain ⟨hnone, habandons, hlt⟩ : w.state.entries.get? k = none ∧ w.state.abandons c₀ ∧
        c₀.wipes < t.wipeCount conv := by
      rw [heff.wipeCount_eq]
      rcases List.mem_append.mp hn with hn | hn
      · obtain ⟨-, hwipers, d, hd, hopen, hwiping, htodo⟩ := heff.wiper_of_past hn
        refine ⟨?_, ?_, ?_⟩
        · by_contra hsome
          obtain ⟨e, he⟩ := Option.ne_none_iff_exists'.mp hsome
          obtain ⟨-, -, -, c', hc', -, hconv', -⟩ := h.filed.entry k e he
          obtain rfl := Option.some.inj (hc₀.symm.trans hc')
          have hmem := h.covers d hd hopen conv hwiping k e he (hconv'.trans hconv)
          rw [htodo] at hmem
          exact List.not_mem_nil hmem
        · exact State.abandons_of_wipers (h.count _) (hconv ▸ hwipers)
        · have hbegan := h.began k c₀ hc₀
          have hpos : 0 < past.countP fun o => o.1 = conv :=
            List.countP_pos_iff.mpr ⟨_, hn, decide_eq_true rfl⟩
          rw [hconv] at hbegan
          omega
      · obtain ⟨hnone, hlt⟩ := (h.past conv n hn).2 k hk c₀ hc₀ hconv
        exact ⟨hnone, h.abandons hc₀ (hconv ▸ hlt), by omega⟩
    refine ⟨?_, hwipes ▸ hlt⟩
    by_contra hsome
    obtain ⟨e, he⟩ := Option.ne_none_iff_exists'.mp hsome
    rcases heff.entry_cases he with ⟨e₀, he₀, -⟩ | ⟨c', dir, hc', -, hkept, -⟩
    · rw [hnone] at he₀
      cases he₀
    · obtain rfl := Option.some.inj (hc₀.symm.trans hc')
      exact hkept habandons
  · exact absurd hfresh (hk.trans_le hlen).ne

theorem Inv.heirs_step (h : Inv w)
    (heff : w.state.Effect a past none t) (heir : Heir) (hheir : heir ∈ w.heirs) (k : FileId)
    (hk : k ∈ heir.ids) : ∃ c : Call, t.calls[k]? = some c ∧
      c.upload.conversationId = heir.conversation ∧
      (∀ e, t.entries.get? k = some e → e.userId = heir.new) ∧
      (¬ c.phase.ended → t.conversationOwners.get? heir.conversation = some heir.new ∨
        c.wipes < t.wipeCount heir.conversation) := by
  obtain ⟨c₀, hc₀, hconv, hentry, howner⟩ := h.heirs heir hheir k hk
  obtain ⟨c, hc, hupload, hwipes, hsame⟩ := heff.call_stays hc₀
  refine ⟨c, hc, hupload ▸ hconv, fun e he => ?_, fun hopen => ?_⟩
  · rcases heff.entry_cases he with ⟨e₀, he₀, heq⟩ | ⟨c₁, dir, hc₁, hphase, hkept, -, huser⟩
    · rw [heq]
      exact hentry e₀ he₀
    · obtain rfl := Option.some.inj (hc₀.symm.trans hc₁)
      -- a call that is registered follows the owner published last
      rcases howner (by rw [hphase]; exact Bool.false_ne_true) with hnew | hlt
      · rw [huser, State.ownerOf, hconv, hnew, Option.getD_some]
      · exact absurd (h.abandons hc₀ (hconv ▸ hlt)) hkept
  · have hopen₀ : ¬ c₀.phase.ended := fun hended => hopen (hsame hended ▸ hended)
    rw [hwipes, heff.wipeCount_eq]
    rcases heff.owner_eq heir.conversation with heq | ⟨n, hn⟩
    · exact (howner hopen₀).imp (heq.trans ·) fun hlt => by omega
    · have hbegan := h.began k c₀ hc₀
      have hpos : 0 < past.countP fun o => o.1 = heir.conversation :=
        List.countP_pos_iff.mpr ⟨_, hn, decide_eq_true rfl⟩
      rw [hconv] at hbegan
      exact .inr (by omega)

theorem handedOver_of_not {conversationId old new : String} {e : Entry}
    (h : e.conversationId = conversationId → e.userId ≠ old) :
    State.handedOver conversationId old new e = e := by
  rw [State.handedOver, if_neg]
  rw [State.departs, Bool.and_eq_true, decide_eq_true_eq, decide_eq_true_eq]
  exact fun hdeparts => h hdeparts.1 hdeparts.2

theorem Inv.heirs_handoff (h : Inv w) {handoff : Handoff}
    (heff : w.state.Effect a past (some handoff) t) (heir : Heir)
    (hheir : heir ∈ w.state.passOn (some handoff) w.heirs) (k : FileId) (hk : k ∈ heir.ids) :
    ∃ c : Call, t.calls[k]? = some c ∧ c.upload.conversationId = heir.conversation ∧
      (∀ e, t.entries.get? k = some e → e.userId = heir.new) ∧
      (¬ c.phase.ended → t.conversationOwners.get? heir.conversation = some heir.new ∨
        c.wipes < t.wipeCount heir.conversation) := by
  cases heff with
  | handsOver _ entries files dirs hentries =>
  have hback : ∀ e, entries.get? k = some e → ∃ e₀, w.state.entries.get? k = some e₀ ∧
      e = State.handedOver handoff.conversation handoff.old handoff.new e₀ := by
    intro e he
    obtain ⟨e₀, he₀, rfl⟩ := Option.map_eq_some_iff.mp ((hentries k).symm.trans he)
    exact ⟨e₀, he₀, rfl⟩
  rcases List.mem_cons.mp hheir with rfl | hheir
  · rcases List.mem_append.mp hk with hk | hk
    · obtain ⟨⟨_, e₀⟩, hmem, rfl⟩ := List.mem_map.mp hk
      obtain ⟨hmem, hdeparts⟩ := List.mem_filter.mp hmem
      have he₀ := PyDict.get?_of_mem h.filed.keys hmem
      obtain ⟨-, -, -, c, hc, hstored, hconv, -⟩ := h.filed.entry _ e₀ he₀
      have hmatch := hdeparts
      rw [State.departs, Bool.and_eq_true, decide_eq_true_eq] at hmatch
      refine ⟨c, hc, hconv.symm.trans hmatch.1, fun e he => ?_, fun hopen => ?_⟩
      · obtain ⟨e₁, he₁, rfl⟩ := hback e he
        obtain rfl := Option.some.inj (he₀.symm.trans he₁)
        rw [State.handedOver, if_pos hdeparts]
        rfl
      · rw [hstored] at hopen
        exact absurd rfl hopen
    · obtain ⟨c, hc, hconv, hopen⟩ := State.mem_inProgress.mp hk
      refine ⟨c, hc, hconv, fun e he => ?_, fun _ => .inl (PyDict.get?_set_self _ _ _)⟩
      obtain ⟨e₀, he₀, -⟩ := hback e he
      obtain ⟨-, -, -, c', hc', hstored, -⟩ := h.filed.entry k e₀ he₀
      obtain rfl := Option.some.inj (hc.symm.trans hc')
      rw [hstored] at hopen
      exact absurd rfl hopen
  · obtain ⟨heir₀, hheir₀, hremain⟩ := List.mem_filterMap.mp hheir
    unfold State.remain at hremain
    split_ifs at hremain with hother hold
    · obtain rfl := Option.some.inj hremain
      obtain ⟨c, hc, hconv, hentry, howner⟩ := h.heirs heir₀ hheir₀ k hk
      refine ⟨c, hc, hconv, fun e he => ?_, fun hopen => (howner hopen).imp_left fun hnew => ?_⟩
      · obtain ⟨e₀, he₀, rfl⟩ := hback e he
        obtain ⟨-, -, -, c', hc', -, hconv', -⟩ := h.filed.entry k e₀ he₀
        obtain rfl := Option.some.inj (hc.symm.trans hc')
        rw [handedOver_of_not fun heq => absurd (hconv.symm.trans (hconv'.symm.trans heq)) hother]
        exact hentry e₀ he₀
      · exact (PyDict.get?_set_of_ne _ _ hother).trans hnew
    · obtain rfl := Option.some.inj hremain
      obtain ⟨hk, hsome⟩ := List.mem_filter.mp hk
      obtain ⟨c, hc, hconv, hentry, -⟩ := h.heirs heir₀ hheir₀ k hk
      obtain ⟨e₀, he₀⟩ := Option.isSome_iff_exists.mp hsome
      have huser := hentry e₀ he₀
      refine ⟨c, hc, hconv, fun e he => ?_, fun hopen => ?_⟩
      · obtain ⟨e₁, he₁, rfl⟩ := hback e he
        obtain rfl := Option.some.inj (he₀.symm.trans he₁)
        rw [handedOver_of_not fun _ => huser ▸ hold]
        exact huser
      · obtain ⟨-, -, -, c', hc', hstored, -⟩ := h.filed.entry k e₀ he₀
        obtain rfl := Option.some.inj (hc.symm.trans hc')
        rw [hstored] at hopen
        exact absurd rfl hopen

theorem Inv.step (h : Inv w) (hguarded : Guarded w a) (hs : w.follow a = some w') : Inv w' := by
  obtain ⟨t, ht, rfl⟩ := Option.map_eq_some_iff.mp hs
  have heff := State.step_effect h.filed ht
  refine ⟨h.filed.step ht, heff.wipingCount_eq h.count, heff.covers h.count h.covers,
    fun k c hc => ?_, h.calm_step heff, h.answered_step heff hguarded, h.past_step heff, ?_⟩
  · rw [heff.wipeCount_eq]
    rcases heff.call_cases hc with ⟨c₀, hc₀, hupload, hwipes, -⟩ | ⟨-, hwipes, -⟩
    · rw [hwipes, hupload]
      exact (h.began k c₀ hc₀).trans (Nat.le_add_right _ _)
    · rw [hwipes]
      exact Nat.le_add_right _ _
  · dsimp only
    generalize w.state.handoff a = moved at heff
    cases moved with
    | none => exact h.heirs_step heff
    | some handoff => exact h.heirs_handoff heff

/-! ## The guard is exact -/

theorem not_good_of_unguarded (h : Inv w) (hguarded : ¬ Guarded w a)
    (hs : w.follow a = some w') : ¬ Good w' := by
  obtain ⟨t, ht, rfl⟩ := Option.map_eq_some_iff.mp hs
  unfold Guarded at hguarded
  push Not at hguarded
  obtain ⟨i, rfl, ⟨c, dir, hc, hphase, hdir⟩, hi⟩ := hguarded
  obtain ⟨hcalm, hwipers⟩ := h.calm i c hc (by rw [hphase]; exact Bool.false_ne_true) hi
  intro hgood
  have hraised : t = { w.state with calls := w.state.setPhase i .raised } := by
    have ht : w.state.write i = some t := ht
    unfold State.write at ht
    rw [hc] at ht
    dsimp only at ht
    rw [hphase] at ht
    dsimp only at ht
    rw [if_neg hdir, if_neg (not_not.mpr hcalm.symm)] at ht
    exact (Option.some.inj ht).symm
  have hself : t.calls[i]? = some { c with phase := .raised } := by
    rw [hraised]
    exact State.getElem?_setPhase_self hc
  have hstored := hgood.answered i _ hself rfl ?_
  · cases hstored
  · refine fun hmem => (List.mem_append.mp hmem).elim hi fun hwiped => ?_
    obtain ⟨c', hc', hopen, -⟩ := State.mem_beingWiped.mp hwiped
    obtain rfl := Option.some.inj (hself.symm.trans hc')
    exact hopen rfl

/-- **Handoffs and wipes.** In a run of the store the files follow the handoffs, none survives the
end of its conversation, the bytes of every entry are there and every call whose conversation is not
wiped returns its file, throughout, exactly if no call finds its bucket gone without a wipe. -/
theorem survives_iff_guarded (as : List Act) :
    AllStates follow Good {} as ↔ AllSteps follow Guarded {} as :=
  allStates_iff_allSteps Inv (fun _ => Inv.good) (fun _ _ _ h _ hg hs => h.step hg hs)
    (fun _ _ _ h _ hg hs => not_good_of_unguarded h hg hs) inv_empty
    (allSteps_of_forall fun _ _ => trivial)

/-- A file is stored, a second call reserves the same bucket, the file is deleted and its bucket with
it; the second call then writes. -/
def emptiedBucketRun : List Act :=
  let upload : Upload := {
    filename := "a.txt", content := [1], conversationId := "c", userId := "alice" }
  [.store upload, .reserve 0, .write 0, .register 0 0, .store upload, .reserve 1,
    .delete 0 "alice", .deletion 0, .write 1]

theorem not_good_emptiedBucketRun : ¬ AllStates follow Good {} emptiedBucketRun := by
  intro h
  have hrun : ((emptiedBucketRun.foldlM follow {}).any fun w =>
      w.overlapped = [] ∧ (w.state.calls[1]?).any fun c => c.phase = .raised) := by decide +kernel
  obtain ⟨w, hw, hend⟩ := (Option.any_eq_true _ _).mp hrun
  obtain ⟨hoverlapped, hcall⟩ := of_decide_eq_true hend
  obtain ⟨c, hc, hraised⟩ := (Option.any_eq_true _ _).mp hcall
  have hphase := of_decide_eq_true hraised
  have hstored := (h.last hw).answered 1 c hc (by rw [hphase]; rfl)
    (by rw [hoverlapped]; exact List.not_mem_nil)
  rw [hphase] at hstored
  cases hstored

end Watched

end PawFlow.FileStore
