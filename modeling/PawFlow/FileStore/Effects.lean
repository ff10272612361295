import PawFlow.FileStore.Filing

/-!
# What a step does

Every step of the store is one of the effects below. What a run keeps is then shown by effect and
not by step.
-/

namespace PawFlow.FileStore

open PawFlow.Lib

/-- A handoff that has returned. -/
structure Handoff where
  conversation : String
  old : String
  new : String
deriving DecidableEq

theorem countP_modify {α : Type*} {p : α → Bool} {f : α → α} :
    ∀ {l : List α} {j : Nat} {x : α}, l[j]? = some x →
      (l.modify j f).countP p + (if p x then 1 else 0) = l.countP p + if p (f x) then 1 else 0
  | y :: l, 0, x, h => by
    obtain rfl := Option.some.inj h
    rw [List.modify_zero_cons, List.countP_cons, List.countP_cons]
    omega
  | y :: l, j + 1, x, h => by
    have ih := countP_modify (p := p) (f := f) (l := l) (j := j) h
    rw [List.modify_succ_cons, List.countP_cons, List.countP_cons]
    omega

theorem mem_modify {α : Type*} {f : α → α} {l : List α} {j : Nat} {x : α} (h : x ∈ l.modify j f) :
    x ∈ l ∨ ∃ y, l[j]? = some y ∧ x = f y := by
  obtain ⟨m, hm⟩ := List.mem_iff_getElem?.mp h
  rw [List.getElem?_modify] at hm
  obtain ⟨y, hy, rfl⟩ := Option.map_eq_some_iff.mp hm
  split_ifs with heq
  · exact .inr ⟨y, heq ▸ hy, rfl⟩
  · exact .inl (List.mem_of_getElem? hy)

namespace State

variable (s : State)

/-- How many calls of `delete_by` that end the conversation are under way. -/
def wipers (conversationId : String) : Nat :=
  s.deletions.countP fun d => d.wiping = some conversationId && !d.finished

/-- The conversation whose end the step completes, with the number of calls begun by then. -/
def returned : Act → List (String × Nat)
  | .finish j =>
    match (s.deletions[j]?).bind Deletion.wiping with
    | some conversationId => [(conversationId, s.calls.length)]
    | none => []
  | _ => []

def handoff : Act → Option Handoff
  | .reassign conversationId oldUserId newUserId =>
    if handsOff (strip conversationId) (strip oldUserId) (strip newUserId) &&
        (s.reassign conversationId oldUserId newUserId).isSome then
      some ⟨strip conversationId, strip oldUserId, strip newUserId⟩
    else none
  | _ => none

def misses (i : FileId) : Prop :=
  ∃ c dir, s.calls[i]? = some c ∧ c.phase = .reserved dir ∧ dir ∉ s.dirs

/-- What a step does, with what returns in it. -/
inductive Effect (a : Act) : List (String × Nat) → Option Handoff → State → Prop
  | idle : Effect a [] none s
  | begins (c : Call) (hwipes : c.wipes = s.wipeCount c.upload.conversationId)
      (hphase : c.phase = .counted) : Effect a [] none { s with calls := s.calls ++ [c] }
  | goesOn (i : FileId) (c : Call) (phase : Phase) (files : PyDict FilePath Bytes)
      (dirs : List Dir) (hc : s.calls[i]? = some c) (hopen : ¬ c.phase.ended)
      (hstored : phase ≠ .stored)
      (hends : phase.ended → s.abandons c ∨ a = .write i ∧ s.misses i) :
      Effect a [] none { s with files, dirs, calls := s.setPhase i phase }
  | registers (i : FileId) (c : Call) (dir : Dir) (e : Entry) (files : PyDict FilePath Bytes)
      (dirs : List Dir) (hc : s.calls[i]? = some c) (hphase : c.phase = .written dir)
      (hkept : ¬ s.abandons c) (hconv : e.conversationId = c.upload.conversationId)
      (howner : e.userId = s.ownerOf c.upload.conversationId dir.owner) :
      Effect a [] none
        { s with files, dirs, entries := s.entries.set i e, calls := s.setPhase i .stored }
  | snapshots (d : Deletion) (wiping : PyDict String Nat) (hopen : d.finished = false)
      (hcount : ∀ conv, (wiping.get? conv).getD 0 =
        s.wipingCount conv + if d.wiping = some conv then 1 else 0)
      (htodo : ∀ conv, d.wiping = some conv → ∀ k e, s.entries.get? k = some e →
        e.conversationId = conv → k ∈ d.todo) :
      Effect a [] none
        { s with conversationWiping := wiping, deletions := s.deletions ++ [d] }
  | deletes (j : Nat) (d : Deletion) (fileId : FileId) (rest : List FileId)
      (files : PyDict FilePath Bytes) (dirs : List Dir) (hd : s.deletions[j]? = some d)
      (htodo : d.todo = fileId :: rest) :
      Effect a [] none { s with
        files, dirs, entries := s.entries.erase fileId
        deletions := s.deletions.modify j fun d => { d with todo := rest } }
  | finishes (j : Nat) (d : Deletion) (hd : s.deletions[j]? = some d) (hnot : d.wiping = none) :
      Effect a [] none
        { s with deletions := s.deletions.modify j fun d => { d with finished := true } }
  | wiped (j : Nat) (d : Deletion) (conv : String) (wiping : PyDict String Nat)
      (hd : s.deletions[j]? = some d) (hwiping : d.wiping = some conv)
      (hopen : d.finished = false) (htodo : d.todo = [])
      (hcount : ∀ conv', (wiping.get? conv').getD 0 =
        if conv' = conv then s.wipingCount conv - 1 else s.wipingCount conv') :
      Effect a [(conv, s.calls.length)] none { s with
        conversationOwners := s.conversationOwners.erase conv
        conversationWipes := s.conversationWipes.set conv (s.wipeCount conv + 1)
        conversationWiping := wiping
        deletions := s.deletions.modify j fun d => { d with finished := true } }
  | handsOver (h : Handoff) (entries : PyDict FileId Entry) (files : PyDict FilePath Bytes)
      (dirs : List Dir)
      (hentries : ∀ k, entries.get? k =
        (s.entries.get? k).map (handedOver h.conversation h.old h.new)) :
      Effect a [] (some h) { s with
        entries, files, dirs, conversationOwners := s.conversationOwners.set h.conversation h.new }

variable {s} {t : State} {i : FileId} {j : Nat}

theorem write_effect (hs : s.write i = some t) : s.Effect (.write i) [] none t := by
  unfold State.write at hs
  split at hs
  · cases hs
  · next c hc =>
    split at hs
    · next dir hphase =>
      have hopen : ¬ c.phase.ended := by rw [hphase]; exact Bool.false_ne_true
      split_ifs at hs with hdir hwipes
      · obtain rfl := Option.some.inj hs
        exact .goesOn i c _ _ _ hc hopen Phase.noConfusion fun h => nomatch h
      · obtain rfl := Option.some.inj hs
        refine .goesOn i c _ _ _ hc hopen Phase.noConfusion fun _ => .inl ?_
        rw [abandons, decide_eq_true hwipes, Bool.true_or]
      · obtain rfl := Option.some.inj hs
        exact .goesOn i c _ _ _ hc hopen Phase.noConfusion fun _ =>
          .inr ⟨rfl, c, dir, hc, hphase, hdir⟩
    · cases hs

theorem register_effect (h : Filed s) {now : Int} (hs : s.register i now = some t) :
    s.Effect (.register i now) [] none t := by
  unfold State.register at hs
  split at hs
  · cases hs
  · next c hc =>
    split at hs
    · next dir hphase =>
      have hopen : ¬ c.phase.ended := by rw [hphase]; exact Bool.false_ne_true
      dsimp only at hs
      split_ifs at hs with hwiped hsame
      · obtain rfl := Option.some.inj hs
        exact .goesOn i c _ _ _ hc hopen Phase.noConfusion fun _ => .inl hwiped
      · obtain rfl := Option.some.inj hs
        exact .registers i c dir _ _ _ hc hphase hwiped rfl rfl
      · -- the bytes of a written call are there, so they can be moved
        obtain ⟨-, hbytes⟩ := h.written i c dir hc hphase
        rw [replace, hbytes] at hs
        obtain rfl := Option.some.inj hs
        exact .registers i c dir _ _ _ hc hphase hwiped rfl rfl
    · cases hs

theorem deleteBy_effect (category conversationId agentName : String) :
    s.Effect (.deleteBy category conversationId agentName) [] none
      (s.deleteBy category conversationId agentName) := by
  unfold State.deleteBy
  dsimp only
  split_ifs with hwipes
  · refine .snapshots _ _ rfl (fun conv => ?_) fun conv hconv k e he hmatch => ?_
    · by_cases heq : conv = conversationId
      · rw [heq, PyDict.get?_set_self, if_pos rfl, Option.getD_some]
      · rw [PyDict.get?_set_of_ne _ _ heq, if_neg fun hsome => heq (Option.some.inj hsome).symm]
        rfl
    · obtain rfl := Option.some.inj hconv
      refine List.mem_map.mpr ⟨(k, e), List.mem_filter.mpr ⟨PyDict.mem_of_get? he, ?_⟩, rfl⟩
      simp only [wipes, Bool.and_eq_true, decide_eq_true_eq] at hwipes
      simp [matchesFilters, hwipes.1.2, hwipes.2, hmatch]
  · exact .snapshots _ s.conversationWiping rfl (fun conv => by rw [if_neg nofun]; rfl) nofun

theorem deletion_effect (hs : s.deletion j = some t) : s.Effect (.deletion j) [] none t := by
  unfold State.deletion at hs
  split at hs
  · cases hs
  · next d hd =>
    split at hs
    · cases hs
    · next fileId rest hrest =>
      obtain rfl := Option.some.inj hs
      unfold State.deleteEntry
      split
      · next hnone =>
        have heff := Effect.deletes (a := .deletion j) j d fileId rest s.files s.dirs hd hrest
        rwa [PyDict.erase_of_get?_none hnone] at heff
      · exact .deletes j d fileId rest _ _ hd hrest

theorem finish_effect (hs : s.finish j = some t) :
    s.Effect (.finish j) (s.returned (.finish j)) none t := by
  unfold State.finish at hs
  split at hs
  · cases hs
  · next d hd =>
    split_ifs at hs with hopen
    split at hs
    · next hnot =>
      obtain rfl := Option.some.inj hs
      rw [returned, hd, Option.bind_some, hnot]
      exact .finishes j d hd hnot
    · next conv hwiping =>
      obtain rfl := Option.some.inj hs
      rw [returned, hd, Option.bind_some, hwiping]
      refine .wiped j d conv _ hd hwiping (Bool.not_eq_true _ ▸ hopen.2) hopen.1 fun conv' => ?_
      by_cases heq : conv' = conv
      · rw [heq, if_pos rfl, wipingCount]
        cases hget : s.conversationWiping.get? conv with
        | none =>
          rw [Option.getD_none, if_neg (by decide), PyDict.get?_erase, if_pos rfl]
          rfl
        | some n =>
          rw [Option.getD_some, Option.getD_some]
          split_ifs with hleft
          · rw [PyDict.get?_set_self, Option.getD_some]
          · rw [PyDict.get?_erase, if_pos rfl, Option.getD_none]
            omega
      · rw [if_neg heq, wipingCount]
        split_ifs
        · rw [PyDict.get?_set_of_ne _ _ heq]
        · rw [PyDict.get?_erase, if_neg heq]

theorem step_effect (h : Filed s) {a : Act} (hs : s.step a = some t) :
    s.Effect a (s.returned a) (s.handoff a) t := by
  cases a with
  | store upload =>
    obtain ⟨c, hupload, hwipes, hphase, rfl⟩ := start_eq hs
    exact .begins c (hupload ▸ hwipes) hphase
  | storeFile sourceName upload =>
    obtain ⟨c, hupload, hwipes, hphase, rfl⟩ := start_eq hs
    exact .begins c (hupload ▸ hwipes) hphase
  | reserve i =>
    change s.reserve i = some t at hs
    unfold State.reserve at hs
    split at hs
    · cases hs
    · next c hc =>
      split_ifs at hs with hphase
      obtain rfl := Option.some.inj hs
      exact .goesOn i c _ _ _ hc (by rw [hphase]; exact Bool.false_ne_true) Phase.noConfusion
        fun h => nomatch h
  | write i => exact write_effect hs
  | register i now => exact register_effect h hs
  | delete fileId userId =>
    obtain rfl := Option.some.inj hs
    unfold State.delete
    split
    · exact .idle
    · split_ifs
      · exact .idle
      · exact .snapshots _ s.conversationWiping rfl (fun conv => by rw [if_neg nofun]; rfl) nofun
  | deleteBy category conversationId agentName =>
    exact Option.some.inj hs ▸ deleteBy_effect category conversationId agentName
  | deletion j => exact deletion_effect hs
  | finish j => exact finish_effect hs
  | reassign conversationId oldUserId newUserId =>
    obtain rfl := Option.some.inj hs
    by_cases hands : handsOff (strip conversationId) (strip oldUserId) (strip newUserId)
    · obtain ⟨entries, files, dirs, owners, heq, rfl, -, hentries⟩ := h.reassign_eq hands
      rw [handoff, hands, heq]
      exact .handsOver ⟨strip conversationId, strip oldUserId, strip newUserId⟩ _ _ _ hentries
    · have heq : s.reassign conversationId oldUserId newUserId = some s := by
        unfold State.reassign
        dsimp only
        rw [if_neg hands]
      rw [handoff, heq, if_neg (by simp [hands])]
      exact .idle

/-! ## Frames -/

variable {a : Act} {past : List (String × Nat)} {moved : Option Handoff} {k : FileId}
  {c c' : Call} {conv : String}

theorem Effect.call_cases (h : s.Effect a past moved t) (hk : t.calls[k]? = some c') :
    (∃ c, s.calls[k]? = some c ∧ c'.upload = c.upload ∧ c'.wipes = c.wipes ∧
      (c.phase.ended → c' = c)) ∨
    k = s.calls.length ∧ c'.wipes = s.wipeCount c'.upload.conversationId ∧
      c'.phase = .counted ∧ past = [] := by
  have hphase : ∀ {i c phase}, s.calls[i]? = some c → ¬ c.phase.ended →
      (s.setPhase i phase)[k]? = some c' → ∃ c, s.calls[k]? = some c ∧ c'.upload = c.upload ∧
        c'.wipes = c.wipes ∧ (c.phase.ended → c' = c) := by
    intro i c phase hc hopen hk
    obtain ⟨c₀, hc₀, rfl⟩ := getElem?_setPhase.mp hk
    refine ⟨c₀, hc₀, ?_⟩
    split_ifs with heq
    · subst heq
      obtain rfl := Option.some.inj (hc.symm.trans hc₀)
      exact ⟨rfl, rfl, fun hended => absurd hended hopen⟩
    · exact ⟨rfl, rfl, fun _ => rfl⟩
  cases h with
  | begins c hwipes hcounted =>
    rcases getElem?_concat.mp hk with hk | ⟨hlen, rfl⟩
    · exact .inl ⟨c', hk, rfl, rfl, fun _ => rfl⟩
    · exact .inr ⟨hlen, hwipes, hcounted, rfl⟩
  | goesOn i c phase files dirs hc hopen => exact .inl (hphase hc hopen hk)
  | registers i c dir e files dirs hc hwritten =>
    exact .inl (hphase hc (by rw [hwritten]; exact Bool.false_ne_true) hk)
  | idle | snapshots | deletes | finishes | wiped | handsOver =>
    exact .inl ⟨c', hk, rfl, rfl, fun _ => rfl⟩

theorem Effect.length_le (h : s.Effect a past moved t) : s.calls.length ≤ t.calls.length := by
  cases h with
  | begins c => exact (List.length_append ▸ Nat.le_add_right _ _ : _ ≤ (s.calls ++ [c]).length)
  | goesOn | registers => exact (List.length_modify _ _ _).ge
  | idle | snapshots | deletes | finishes | wiped | handsOver => exact le_rfl

theorem Effect.call_stays (h : s.Effect a past moved t) (hk : s.calls[k]? = some c) :
    ∃ c', t.calls[k]? = some c' ∧ c'.upload = c.upload ∧ c'.wipes = c.wipes ∧
      (c.phase.ended → c' = c) := by
  have hlt := (List.getElem?_eq_some_iff.mp hk).1
  have hget := List.getElem?_eq_getElem (hlt.trans_le h.length_le)
  rcases h.call_cases hget with ⟨c₀, hc₀, hsame⟩ | ⟨hlen, -⟩
  · obtain rfl := Option.some.inj (hk.symm.trans hc₀)
    exact ⟨_, hget, hsame⟩
  · exact absurd hlen hlt.ne

theorem Effect.entry_cases (h : s.Effect a past moved t) {e : Entry}
    (he : t.entries.get? k = some e) :
    (∃ e₀, s.entries.get? k = some e₀ ∧
      e = moved.elim e₀ fun h => handedOver h.conversation h.old h.new e₀) ∨
    ∃ c dir, s.calls[k]? = some c ∧ c.phase = .written dir ∧ ¬ s.abandons c ∧
      e.conversationId = c.upload.conversationId ∧
      e.userId = s.ownerOf c.upload.conversationId dir.owner := by
  cases h with
  | registers i c dir e' files dirs hc hphase hkept hconv howner =>
    by_cases heq : k = i
    · subst heq
      obtain rfl := Option.some.inj ((PyDict.get?_set_self _ _ _).symm.trans he)
      exact .inr ⟨c, dir, hc, hphase, hkept, hconv, howner⟩
    · exact .inl ⟨e, (PyDict.get?_set_of_ne _ _ heq).symm.trans he, rfl⟩
  | deletes j d fileId rest files dirs hd htodo =>
    have he : (s.entries.erase fileId).get? k = some e := he
    rw [PyDict.get?_erase] at he
    split_ifs at he
    exact .inl ⟨e, he, rfl⟩
  | handsOver h entries files dirs hentries =>
    obtain ⟨e₀, he₀, rfl⟩ := Option.map_eq_some_iff.mp ((hentries k).symm.trans he)
    exact .inl ⟨e₀, he₀, rfl⟩
  | idle | begins | goesOn | snapshots | finishes | wiped => exact .inl ⟨e, he, rfl⟩

theorem handedOver_conversationId {conversationId old new : String} {e : Entry} :
    (handedOver conversationId old new e).conversationId = e.conversationId := by
  unfold handedOver
  split_ifs <;> rfl

theorem Effect.wipeCount_eq (h : s.Effect a past moved t) (conv : String) :
    t.wipeCount conv = s.wipeCount conv + past.countP fun o => o.1 = conv := by
  cases h with
  | wiped j d conv' wiping =>
    unfold wipeCount
    by_cases heq : conv = conv'
    · subst heq
      rw [PyDict.get?_set_self, List.countP_cons_of_pos (by simp)]
      rfl
    · rw [PyDict.get?_set_of_ne _ _ heq, List.countP_cons_of_neg (by simpa using Ne.symm heq)]
      rfl
  | idle | begins | goesOn | registers | snapshots | deletes | finishes | handsOver => rfl

theorem Effect.wiper_of_past (h : s.Effect a past moved t) {n : Nat} (hn : (conv, n) ∈ past) :
    n = s.calls.length ∧ 0 < s.wipers conv ∧
      ∃ d ∈ s.deletions, d.finished = false ∧ d.wiping = some conv ∧ d.todo = [] := by
  cases h with
  | wiped j d conv' wiping hd hwiping hopen htodo =>
    obtain ⟨rfl, rfl⟩ := Prod.mk.inj (List.mem_singleton.mp hn)
    have hmem := List.mem_of_getElem? hd
    refine ⟨rfl, List.countP_pos_iff.mpr ⟨d, hmem, ?_⟩, d, hmem, hopen, hwiping, htodo⟩
    rw [hwiping, hopen]
    simp
  | idle | begins | goesOn | registers | snapshots | deletes | finishes | handsOver => cases hn

theorem Effect.ends (h : s.Effect a past moved t) (hc : s.calls[k]? = some c)
    (hopen : ¬ c.phase.ended) (hc' : t.calls[k]? = some c') (hended : c'.phase.ended) :
    c'.phase = .stored ∨ s.abandons c ∨ a = .write k ∧ s.misses k := by
  have hsame : t.calls[k]? = s.calls[k]? → False := by
    intro heq
    rw [heq, hc] at hc'
    exact hopen (Option.some.inj hc' ▸ hended)
  cases h with
  | begins c₀ =>
    rw [getElem?_concat.mpr (.inl hc)] at hc'
    exact absurd (Option.some.inj hc' ▸ hended) hopen
  | goesOn i c₀ phase files dirs hc₀ hopen₀ hstored hends =>
    obtain ⟨c₁, hc₁, rfl⟩ := getElem?_setPhase.mp hc'
    obtain rfl := Option.some.inj (hc.symm.trans hc₁)
    split_ifs at hended ⊢ with heq
    · subst heq
      obtain rfl := Option.some.inj (hc.symm.trans hc₀)
      exact .inr (hends hended)
    · exact absurd hended hopen
  | registers i c₀ dir e files dirs hc₀ hphase =>
    obtain ⟨c₁, hc₁, rfl⟩ := getElem?_setPhase.mp hc'
    obtain rfl := Option.some.inj (hc.symm.trans hc₁)
    split_ifs at hended ⊢ with heq
    · exact .inl rfl
    · exact absurd hended hopen
  | idle | snapshots | deletes | finishes | wiped | handsOver => exact (hsame rfl).elim

theorem Effect.owner_eq (h : s.Effect a past none t) (conv : String) :
    t.conversationOwners.get? conv = s.conversationOwners.get? conv ∨ ∃ n, (conv, n) ∈ past := by
  cases h with
  | wiped j d conv' wiping =>
    by_cases heq : conv = conv'
    · exact .inr ⟨s.calls.length, List.mem_singleton.mpr (by rw [heq])⟩
    · refine .inl ?_
      rw [PyDict.get?_erase, if_neg heq]
  | idle | begins | goesOn | registers | snapshots | deletes | finishes => exact .inl rfl

def Covers (s : State) : Prop :=
  ∀ d ∈ s.deletions, d.finished = false → ∀ conv, d.wiping = some conv →
    ∀ k e, s.entries.get? k = some e → e.conversationId = conv → k ∈ d.todo

theorem abandons_of_wipers (hs : s.wipingCount c.upload.conversationId =
    s.wipers c.upload.conversationId) (h : 0 < s.wipers c.upload.conversationId) :
    s.abandons c := by
  rw [abandons, hs, decide_eq_true h.ne', Bool.or_true]

theorem Effect.covers (h : s.Effect a past moved t)
    (hs : ∀ conv, s.wipingCount conv = s.wipers conv) (hcovers : Covers s) : Covers t := by
  intro d hd hopen conv hwiping k e he hconv
  cases h with
  | registers i c dir e' files dirs hc hphase hkept hconv' =>
    by_cases heq : k = i
    · -- a call is not registered while its conversation is being wiped
      subst heq
      obtain rfl := Option.some.inj ((PyDict.get?_set_self _ _ _).symm.trans he)
      refine absurd (abandons_of_wipers (hs _) ?_) hkept
      refine List.countP_pos_iff.mpr ⟨d, hd, ?_⟩
      rw [hwiping, hopen, ← hconv, hconv']
      simp
    · exact hcovers d hd hopen conv hwiping k e ((PyDict.get?_set_of_ne _ _ heq).symm.trans he)
        hconv
  | snapshots d' wiping hopen' hcount htodo =>
    rcases List.mem_append.mp hd with hd | hd
    · exact hcovers d hd hopen conv hwiping k e he hconv
    · obtain rfl := List.mem_singleton.mp hd
      exact htodo conv hwiping k e he hconv
  | deletes j d' fileId rest files dirs hd' htodo =>
    have he : (s.entries.erase fileId).get? k = some e := he
    rw [PyDict.get?_erase] at he
    split_ifs at he with hne
    rcases mem_modify hd with hd | ⟨d₀, hd₀, rfl⟩
    · exact hcovers d hd hopen conv hwiping k e he hconv
    · obtain rfl := Option.some.inj (hd'.symm.trans hd₀)
      have hmem := hcovers d' (List.mem_of_getElem? hd') hopen conv hwiping k e he hconv
      rw [htodo] at hmem
      exact (List.mem_cons.mp hmem).resolve_left hne
  | finishes j | wiped j =>
    rcases mem_modify hd with hd | ⟨d₀, hd₀, rfl⟩
    · exact hcovers d hd hopen conv hwiping k e he hconv
    · cases hopen
  | handsOver h entries files dirs hentries =>
    obtain ⟨e₀, he₀, rfl⟩ := Option.map_eq_some_iff.mp ((hentries k).symm.trans he)
    rw [handedOver_conversationId] at hconv
    exact hcovers d hd hopen conv hwiping k e₀ he₀ hconv
  | idle | begins | goesOn => exact hcovers d hd hopen conv hwiping k e he hconv

/-- The mark of a conversation counts the calls that end it. -/
theorem Effect.wipingCount_eq (h : s.Effect a past moved t)
    (hs : ∀ conv, s.wipingCount conv = s.wipers conv) (conv : String) :
    t.wipingCount conv = t.wipers conv := by
  cases h with
  | snapshots d wiping hopen hcount =>
    refine (hcount conv).trans ?_
    rw [hs, wipers, wipers, List.countP_append]
    by_cases heq : d.wiping = some conv
    · rw [if_pos heq, List.countP_cons_of_pos (by simp [heq, hopen])]
      rfl
    · rw [if_neg heq, List.countP_cons_of_neg (by simp [heq])]
      rfl
  | deletes j d fileId rest files dirs hd =>
    refine (hs conv).trans ?_
    have hcount := countP_modify (p := fun d => d.wiping = some conv && !d.finished)
      (f := fun d => { d with todo := rest }) hd
    exact (Nat.add_right_cancel hcount).symm
  | finishes j d hd hnot =>
    refine (hs conv).trans ?_
    have hcount := countP_modify (p := fun d => d.wiping = some conv && !d.finished)
      (f := fun d => { d with finished := true }) hd
    simp only [hnot] at hcount
    unfold wipers
    simpa using hcount.symm
  | wiped j d conv' wiping hd hwiping hopen htodo hwipers =>
    refine (hwipers conv).trans ?_
    have hcount := countP_modify (p := fun d => d.wiping = some conv && !d.finished)
      (f := fun d => { d with finished := true }) hd
    rw [hs, hs]
    unfold wipers
    by_cases heq : conv = conv'
    · subst heq
      simp [hwiping, hopen] at hcount ⊢
      omega
    · have hne : conv' ≠ conv := Ne.symm heq
      simp [hwiping, hne] at hcount
      simp [heq, hcount]
  | idle | begins | goesOn | registers | handsOver => exact hs conv

end State

end PawFlow.FileStore
