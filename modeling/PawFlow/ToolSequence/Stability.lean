import PawFlow.ToolSequence.Validity

/-!
# Repairing a second time, and leaving a sequence alone

A repaired sequence is repaired into itself, up to the stamps of its synthetic results, and a
sequence that the repair calls unchanged is returned as it is.
-/

namespace PawFlow.ToolSequence

open PawFlow.Lib

section

variable {messages : List LLMMessage} {conversationId : String} {stamp : Nat → Stamp}

/-! ## The second repair -/

/-- Equal, or synthetic results of one call with other stamps. -/
inductive Similar (conversationId : String) : LLMMessage → LLMMessage → Prop
  | refl (m : LLMMessage) : Similar conversationId m m
  | synthetic (callId : String) (h : conversationId ≠ "") (stamp stamp' : Stamp) :
      Similar conversationId (synthetic callId conversationId h stamp)
        (synthetic callId conversationId h stamp')

variable {a : LLMMessage} {callId : String}

theorem isResult_of_spec
    (h : a.role = "tool" ∧ a.toolCallId = some callId) : isResult callId a = true := by
  simp [isResult, LLMMessage.callId, h.1, h.2]

variable {l out rest : List LLMMessage} {claimed : List String}

variable {post answers : List LLMMessage} {ids : List String} {m : LLMMessage}

theorem result_append
    (hl : ∀ m ∈ l, m.role = "tool" → m.callId ≠ callId) (hid : callId ≠ "")
    (ha : a.role = "tool" ∧ a.toolCallId = some callId) :
    result (l ++ a :: post) callId = some a := by
  have hnone : l.find? (isResult callId) = none := by
    rw [List.find?_eq_none]
    intro m hm hresult
    simp only [isResult, Bool.and_eq_true, decide_eq_true_eq] at hresult
    exact hl m hm hresult.1 hresult.2
  rw [result_eq_find? hid, List.find?_append, hnone, List.find?_cons, isResult_of_spec ha]
  rfl

theorem Answers.callId_mem
    (h : Answers messages conversationId claimed ids answers) :
    ∀ a ∈ answers, a.callId ∈ ids := by
  induction h with
  | nil => simp
  | cons hanswer _ ih =>
    intro a ha
    rcases List.mem_cons.mp ha with rfl | ha
    · rw [LLMMessage.callId, hanswer.spec.2]
      simp
    · exact List.mem_cons_of_mem _ (ih a ha)

theorem Answers.similar {answers' : List LLMMessage}
    (h : Answers messages conversationId claimed ids answers) (hids : ∀ callId ∈ ids, callId ≠ "")
    (hl : ∀ m ∈ l, m.role = "tool" → m.callId ∈ claimed)
    (h' : Answers (l ++ (answers ++ post)) conversationId claimed ids answers') :
    List.Forall₂ (Similar conversationId) answers answers' := by
  induction h generalizing l answers' with
  | nil =>
    cases h'
    exact .nil
  | @cons claimed rest callId a as hanswer _ ih =>
    cases h' with
    | @cons _ _ _ a' as' hanswer' hrest' =>
      have hid : callId ≠ "" := hids callId (by simp)
      have hresult : callId ∉ claimed →
          result (l ++ (a :: as ++ post)) callId = some a := fun hnew =>
        result_append (fun m hm hrole heq => hnew (heq ▸ hl m hm hrole)) hid hanswer.spec
      refine .cons ?_ (ih (l := l ++ [a]) (fun c hc => hids c (by simp [hc])) ?_ ?_)
      · cases hanswer' with
        | found hnew hfound =>
          rw [Option.some.inj (hfound.symm.trans (hresult hnew))]
          exact .refl a
        | missing hc stamp' hmissing =>
          have hold : callId ∈ claimed := by
            by_contra hnew
            rcases hmissing with hold | hnone
            · exact hnew hold
            · exact absurd (hnone.symm.trans (hresult hnew)) (by simp)
          cases hanswer with
          | found hnew => exact absurd hold hnew
          | missing hc' stamp _ => exact .synthetic callId hc' stamp stamp'
      · intro m hm hrole
        rcases List.mem_append.mp hm with hm | hm
        · exact List.mem_append_left _ (hl m hm hrole)
        · rw [List.mem_singleton.mp hm, LLMMessage.callId, hanswer.spec.2]
          simp
      · simpa using hrest'

theorem Rebuilt.of_results {results : List LLMMessage} (hresults : ∀ m ∈ results, m.role = "tool")
    (h : Rebuilt messages conversationId claimed (results ++ rest) out) :
    Rebuilt messages conversationId claimed rest out := by
  induction results with
  | nil => exact h
  | cons m results ih =>
    cases h with
    | result _ h => exact ih (fun m hm => hresults m (by simp [hm])) h
    | message hrole => exact absurd (hresults m (by simp)) hrole

theorem Rebuilt.similar {out' : List LLMMessage}
    (h : Rebuilt messages conversationId claimed rest out)
    (hl : ∀ m ∈ l, m.role = "tool" → m.callId ∈ claimed)
    (h' : Rebuilt (l ++ out) conversationId claimed out out') :
    List.Forall₂ (Similar conversationId) out out' := by
  induction h generalizing l out' with
  | nil =>
    cases h'
    exact .nil
  | result _ _ ih => exact ih hl h'
  | @message claimed m rest answers out hrole hanswers hrest ih =>
    cases own_cases m with
    | dropped hown _ haddressed _ =>
      rw [haddressed] at hanswers ih
      cases hanswers
      rw [hown] at h' ⊢
      rw [List.append_nil] at ih
      exact ih hl h'
    | kept m' hown hrole' _ haddressed hids =>
      have hnot : m'.role ≠ "tool" := hrole' ▸ hrole
      rw [hown, List.singleton_append, List.cons_append] at h' ⊢
      cases h' with
      | result htool => exact absurd htool hnot
      | @message _ _ _ answers' out₁ _ hanswers' hrest' =>
        rw [haddressed] at hanswers' hrest'
        rw [own_of_all hids, List.singleton_append]
        have hl₁ : ∀ m ∈ l ++ [m'], m.role = "tool" → m.callId ∈ claimed := by
          intro x hx hxrole
          rcases List.mem_append.mp hx with hx | hx
          · exact hl x hx hxrole
          · exact absurd (List.mem_singleton.mp hx ▸ hxrole) hnot
        have hids' : ∀ callId ∈ m.addressed, callId ≠ "" := by
          intro callId hcallId
          simpa using (List.mem_filter.mp hcallId).2
        refine .cons (.refl m') (List.rel_append ?_ ?_)
        · exact hanswers.similar hids' hl₁ (by simpa using hanswers')
        · refine ih (l := l ++ m' :: answers) ?_ ?_
          · intro x hx hxrole
            rcases List.mem_append.mp hx with hx | hx
            · exact List.mem_append_left _ (hl x hx hxrole)
            · rcases List.mem_cons.mp hx with rfl | hx
              · exact absurd hxrole hnot
              · exact List.mem_append_right _ (hanswers.callId_mem x hx)
          · simpa using hrest'.of_results hanswers.role

/-! ## Unchanged sequences -/

variable {i : Nat}

theorem sameItems_getElem? {α : Type} {same : α → α → Bool} {as bs : List α}
    (h : sameItems same as bs = true) {b : α} (hb : bs[i]? = some b) :
    ∃ a, as[i]? = some a ∧ same a b = true := by
  induction as generalizing bs i with
  | nil =>
    cases bs with
    | nil => exact absurd hb (by simp)
    | cons b' bs => exact absurd h (by simp [sameItems])
  | cons a as ih =>
    cases bs with
    | nil => exact absurd h (by simp [sameItems])
    | cons b' bs =>
      obtain ⟨hsame, hrest⟩ := Bool.and_eq_true_iff.mp h
      cases i with
      | zero =>
        obtain rfl : b' = b := by simpa using hb
        exact ⟨a, rfl, hsame⟩
      | succ i => exact ih hrest (by simpa using hb)

theorem same_result {b : LLMMessage} (h : a.same b = true) :
    a.role = b.role ∧ a.toolCallId = b.toolCallId := by
  simp only [LLMMessage.same, Bool.and_eq_true, beq_iff_eq] at h
  tauto

theorem Unchanged.first {idx : Nat}
    (h : Unchanged messages idx rest out) (hm : rest[i]? = some m)
    (hrole : m.role = "tool") : first messages m.callId = some (idx + i) := by
  induction h generalizing i with
  | nil => exact absurd hm (by simp)
  | result _ hfirst _ ih =>
    cases i with
    | zero =>
      obtain rfl : _ = m := by simpa using hm
      exact hfirst
    | succ i =>
      rw [ih (by simpa using hm)]
      congr 1
      omega
  | message hnot _ _ _ _ ih =>
    cases i with
    | zero =>
      obtain rfl : _ = m := by simpa using hm
      exact absurd hrole hnot
    | succ i =>
      rw [ih (by simpa using hm)]
      congr 1
      omega

theorem Unchanged.followed {idx : Nat}
    (h : Unchanged messages idx rest out) {t : Nat}
    (hm : rest[i]? = some m) (hrole : m.role ≠ "tool") (ht : m.addressed[t]? = some callId) :
    ∃ r, rest[i + 1 + t]? = some r ∧ r.role = "tool" ∧ r.callId = callId := by
  induction h generalizing i with
  | nil => exact absurd hm (by simp)
  | result htool _ _ ih =>
    cases i with
    | zero =>
      obtain rfl : _ = m := by simpa using hm
      exact absurd htool hrole
    | succ i =>
      obtain ⟨r, hr, hspec⟩ := ih (by simpa using hm)
      exact ⟨r, by simpa [Nat.add_right_comm] using hr, hspec⟩
  | @message idx m' rest answers out _ _ hall hsame _ ih =>
    cases i with
    | zero =>
      obtain rfl : m' = m := by simpa using hm
      obtain ⟨a, ha, hresult⟩ : ∃ a, answers[t]? = some a ∧
          ToolSequence.result messages callId = some a := by
        obtain ⟨hlength, hget⟩ := List.forall₂_iff_get.mp hall
        obtain ⟨hlt, heq⟩ := List.getElem?_eq_some_iff.mp ht
        refine ⟨answers[t], List.getElem?_eq_getElem (hlength ▸ hlt), ?_⟩
        have := hget t hlt (hlength ▸ hlt)
        simpa [heq] using this
      obtain ⟨r, hr, hrsame⟩ := sameItems_getElem? hsame ha
      obtain ⟨hrole', hid'⟩ := same_result hrsame
      obtain ⟨harole, haid⟩ := result_eq_some hresult
      refine ⟨r, ?_, hrole'.trans harole, ?_⟩
      · have hlt : t < answers.length := (List.getElem?_eq_some_iff.mp ha).1
        rw [List.getElem?_take_of_lt hlt] at hr
        simpa [Nat.add_comm 1 t] using hr
      · rw [LLMMessage.callId, hid', haid, Option.getD_some]
    | succ i =>
      obtain ⟨r, hr, hspec⟩ := ih (by simpa using hm)
      exact ⟨r, by simpa [Nat.add_right_comm] using hr, hspec⟩

/-- What all messages of an unchanged sequence together satisfy. -/
structure Settled (messages : List LLMMessage) : Prop where
  first : ∀ i m, messages[i]? = some m → m.role = "tool" → first messages m.callId = some i
  called : ∀ callId i, ToolSequence.first messages callId = some i →
    ∃ m ∈ messages, m.role ≠ "tool" ∧ callId ∈ m.addressed
  followed : ∀ i m t callId, messages[i]? = some m → m.role ≠ "tool" →
    m.addressed[t]? = some callId → ToolSequence.first messages callId = some (i + 1 + t)

/-- What is rebuilt from a position on, where the next `p` messages have been moved already. -/
theorem Unchanged.eq_drop {p : Nat} (hs : Settled messages)
    (hmessages : messages = l ++ rest) (h : Unchanged messages l.length rest out)
    (hmoved : ∀ m ∈ rest.take p, m.role = "tool") (hp : p ≤ rest.length)
    (hbefore : ∀ i m, i < l.length → messages[i]? = some m → m.role ≠ "tool" →
      i + 1 + m.addressed.length ≤ l.length + p) :
    out = rest.drop p := by
  generalize hidx : l.length = idx at h
  induction h generalizing l p with
  | nil => simp
  | @result idx m rest out hrole hfirst _ ih =>
    subst hidx
    have hlength : (l ++ [m]).length = l.length + 1 := by simp
    cases p with
    | zero =>
      -- nobody before has taken this result, so nobody does
      obtain ⟨m', hm', hrole', hcalled⟩ := hs.called _ _ hfirst
      obtain ⟨j, hj⟩ := List.mem_iff_getElem?.mp hm'
      obtain ⟨t, ht⟩ := List.mem_iff_getElem?.mp hcalled
      have hplace := hs.followed j m' t _ hj hrole' ht
      have heq : l.length = j + 1 + t := Option.some.inj (hfirst.symm.trans hplace)
      have hlt : t < m'.addressed.length := (List.getElem?_eq_some_iff.mp ht).1
      have := hbefore j m' (by omega) hj hrole'
      omega
    | succ p =>
      rw [List.drop_succ_cons]
      refine ih (l := l ++ [m]) (by simp [hmessages]) ?_ (by simpa using hp) ?_ hlength
      · intro x hx
        exact hmoved x (by simp [hx])
      · intro i x hi hx hxrole
        rw [hlength] at hi ⊢
        rcases Nat.lt_succ_iff_lt_or_eq.mp hi with hi | rfl
        · have := hbefore i x hi hx hxrole
          omega
        · rw [hmessages, List.getElem?_append_right (le_refl _)] at hx
          obtain rfl : m = x := by simpa using hx
          exact absurd hrole hxrole
  | @message idx m rest answers out hrole hids hall _ hrest ih =>
    subst hidx
    have hm : messages[l.length]? = some m := by simp [hmessages]
    have hlength : (l ++ [m]).length = l.length + 1 := by simp
    obtain rfl : p = 0 := by
      by_contra hne
      obtain ⟨p, rfl⟩ := Nat.exists_eq_succ_of_ne_zero hne
      exact absurd (hmoved m (by simp)) hrole
    -- the answers are the messages that follow
    have hnext : ∀ (t : Nat) callId, m.addressed[t]? = some callId →
        ToolSequence.result messages callId = rest[t]? := by
      intro t callId ht
      rw [result_of_first (hs.followed _ m t callId hm hrole ht), hmessages,
        List.getElem?_append_right (by omega)]
      have hsub : l.length + 1 + t - l.length = t + 1 := by omega
      rw [hsub, List.getElem?_cons_succ]
    have hanswers : ∀ (t : Nat) a, answers[t]? = some a → rest[t]? = some a := by
      intro t a ha
      obtain ⟨hcount, hget⟩ := List.forall₂_iff_get.mp hall
      obtain ⟨hlt, rfl⟩ := List.getElem?_eq_some_iff.mp ha
      have hlt' : t < m.addressed.length := hcount ▸ hlt
      rw [← hnext t _ (List.getElem?_eq_getElem hlt')]
      simpa using hget t hlt' hlt
    have hle : answers.length ≤ rest.length := by
      by_contra hlt
      have hlt : rest.length < answers.length := not_le.mp hlt
      have := hanswers rest.length _ (List.getElem?_eq_getElem hlt)
      simp at this
    have htake : answers = rest.take answers.length := by
      refine List.ext_getElem? fun t => ?_
      by_cases ht : t < answers.length
      · rw [List.getElem?_take_of_lt ht, List.getElem?_eq_getElem ht]
        exact (hanswers t _ (List.getElem?_eq_getElem ht)).symm
      · rw [List.getElem?_eq_none (not_lt.mp ht), List.getElem?_eq_none (by simp; omega)]
    have hout : out = rest.drop answers.length := by
      refine ih (l := l ++ [m]) (by simp [hmessages]) ?_ hle ?_ hlength
      · rw [← htake]
        intro a ha
        obtain ⟨t, ht⟩ := List.mem_iff_getElem?.mp ha
        obtain ⟨hcount, hget⟩ := List.forall₂_iff_get.mp hall
        obtain ⟨hlt, rfl⟩ := List.getElem?_eq_some_iff.mp ht
        have hresult := hget t (hcount ▸ hlt) hlt
        exact (result_eq_some (by simpa using hresult)).1
      · intro i x hi hx hxrole
        rw [hlength] at hi ⊢
        rcases Nat.lt_succ_iff_lt_or_eq.mp hi with hi | rfl
        · have := hbefore i x hi hx hxrole
          omega
        · obtain rfl := Option.some.inj (hm.symm.trans hx)
          rw [hall.length_eq]
    rw [hout, List.drop_zero]
    conv_rhs => rw [← List.take_append_drop answers.length rest, ← htake]
    rfl

/-! ## The whole repair -/

variable (messages stamp) in
theorem claimCalls_returns (hc : conversationId ≠ "") (calls : List LLMToolCall) (s : Claims) :
    ∃ s', claimCalls conversationId stamp messages calls s = .ok s' := by
  have hsynthetic : ∀ (s : Claims) callId, ∃ s', s.synthesize conversationId stamp callId =
      .ok s' := by
    intro s callId
    have hnew : syntheticResult callId conversationId (stamp s.minted) =
        .ok (synthetic callId conversationId hc (stamp s.minted)) := dif_neg hc
    exact ⟨_, by rw [Claims.synthesize, hnew]; rfl⟩
  induction calls generalizing s with
  | nil => exact ⟨s, rfl⟩
  | cons call rest ih =>
    have hcall : ∃ s', claimCall conversationId stamp messages s call = .ok s' := by
      unfold claimCall
      split
      · exact ⟨_, rfl⟩
      · rw [resultIndexes_get?]
        cases hfirst : first messages call.id with
        | none => exact hsynthetic s call.id
        | some i =>
          obtain ⟨m, hm, -⟩ := first_eq_some hfirst
          simp only [hm]
          split
          · exact ⟨_, rfl⟩
          · exact hsynthetic s call.id
    obtain ⟨s₁, hs₁⟩ := hcall
    rw [claimCalls, hs₁]
    exact ih s₁

variable (messages stamp) in
theorem repairFrom_returns (hc : conversationId ≠ "") (idx : Nat) (rest : List LLMMessage)
    (s : State) : ∃ s', repairFrom conversationId stamp messages idx rest s = .ok s' := by
  induction rest generalizing idx s with
  | nil => exact ⟨s, rfl⟩
  | cons m rest ih =>
    have hm : ∃ s', repairMessage conversationId stamp messages idx m s = .ok s' := by
      unfold repairMessage
      split
      · exact ⟨_, rfl⟩
      · split
        · split
          · exact ⟨_, rfl⟩
          · exact ⟨_, rfl⟩
        · split
          · exact ⟨_, rfl⟩
          · obtain ⟨c, hclaims⟩ := claimCalls_returns messages stamp hc
              (m.toolCalls.getD []) ⟨[], [], s.moved, s.changed, s.minted⟩
            simp only [hclaims]
            exact ⟨_, rfl⟩
    obtain ⟨s₁, hs₁⟩ := hm
    rw [repairFrom, hs₁]
    exact ih (idx + 1) s₁

theorem repairToolSequence_eq_ok {changed : Bool}
    (h : repairToolSequence conversationId stamp messages = .ok (out, changed)) :
    Rebuilt messages conversationId [] messages out ∧ (changed = false → out = messages) := by
  unfold repairToolSequence at h
  cases hloop : repairFrom conversationId stamp messages 0 messages {} with
  | error e => simp [hloop, Except.map] at h
  | ok s =>
    simp only [hloop, Except.map, Except.ok.injEq, Prod.mk.injEq] at h
    obtain ⟨rfl, rfl⟩ := h
    have hstart : Moved messages ({} : State).moved [] :=
      ⟨fun _ _ _ => iff_of_false List.not_mem_nil List.not_mem_nil,
        fun _ hi => absurd hi List.not_mem_nil⟩
    obtain ⟨out, claimed, hout, hrebuilt, hmoved, hclaimed, hunchanged⟩ :=
      repairFrom_eq_ok (l := []) rfl hstart hloop
    obtain rfl : s.rebuilt = out := hout
    refine ⟨hrebuilt, fun hchanged => ?_⟩
    obtain ⟨hfalse, hall⟩ := Bool.or_eq_false_iff.mp hchanged
    have hplain : Unchanged messages 0 messages s.rebuilt := (hunchanged hfalse).2
    have hfirst : ∀ i m, messages[i]? = some m → m.role = "tool" →
        first messages m.callId = some i := by
      intro i m hm hrole
      rw [hplain.first hm hrole, Nat.zero_add]
    have hsettled : Settled messages := by
      refine ⟨hfirst, fun callId i hi => ?_, fun i m t callId hm hrole ht => ?_⟩
      · have hmem : i ∈ s.moved := by
          have hindex := (resultIndexes_get? messages callId).trans hi
          have := List.any_eq_false.mp hall _ (PyDict.mem_of_get? hindex)
          simpa using this
        rcases (hclaimed callId).mp ((hmoved.mem_iff callId i hi).mp hmem) with hnone | hcalled
        · exact absurd hnone (by simp)
        · exact hcalled
      · obtain ⟨r, hr, hrrole, rfl⟩ := hplain.followed hm hrole ht
        exact hfirst _ r hr hrrole
    have hdrop : s.rebuilt = messages.drop 0 :=
      hplain.eq_drop (l := []) hsettled rfl (by simp) (by simp) (by simp)
    rw [hdrop, List.drop_zero]

end

/-- A repair returns, and what it returns is valid, keeps the other messages in their order and
answers every call, is a fixed point up to the stamps of the synthetic results, and is the input
where nothing is reported as changed. -/
theorem repairToolSequence_valid (messages : List LLMMessage) (conversationId : String)
    (stamp : Nat → Stamp) :
    (conversationId ≠ "" →
      ∃ out changed, repairToolSequence conversationId stamp messages = .ok (out, changed)) ∧
    ∀ out changed, repairToolSequence conversationId stamp messages = .ok (out, changed) →
      Valid out ∧
      out.filter (fun m => m.role ≠ "tool") =
        (messages.filter fun m => m.role ≠ "tool").flatMap LLMMessage.own ∧
      (∀ m ∈ messages, Own m) ∧
      Answers messages conversationId [] (called messages)
        (out.filter fun m => m.role = "tool") ∧
      (∀ stamp' out' changed', repairToolSequence conversationId stamp' out = .ok (out', changed') →
        List.Forall₂ (Similar conversationId) out out') ∧
      (changed = false → out = messages) := by
  constructor
  · intro hc
    obtain ⟨s, hs⟩ := repairFrom_returns messages stamp hc 0 messages {}
    exact ⟨s.rebuilt, _, by rw [repairToolSequence, hs]; rfl⟩
  · intro out changed h
    obtain ⟨hrebuilt, hunchanged⟩ := repairToolSequence_eq_ok h
    refine ⟨hrebuilt.valid, hrebuilt.order, fun m _ => own_cases m, hrebuilt.answers, ?_,
      hunchanged⟩
    intro stamp' out' changed' h'
    obtain ⟨hrebuilt', -⟩ := repairToolSequence_eq_ok h'
    exact hrebuilt.similar (l := []) (by simp) hrebuilt'

/-- An id that two assistants use: the second one is given a synthetic result, and the result that
follows it is dropped. -/
theorem not_every_result_used :
    let call : LLMToolCall := { id := "c", name := "read", arguments := [], timestamp := 1 }
    let assistant (msgId : String) : LLMMessage := {
      role := "assistant", toolCalls := some [call], msgId, timestamp := 1
      conversationId := "v", inConversation := by simp }
    let answer (msgId : String) : LLMMessage := {
      role := "tool", toolCallId := some "c", msgId, timestamp := 1
      conversationId := "v", inConversation := by simp }
    let messages := [assistant "a", answer "r", assistant "b", answer "s"]
    ¬ ∀ out changed, repairToolSequence "v" (fun _ => ⟨"new", 2⟩) messages = .ok (out, changed) →
      ∀ callId h stamp, synthetic callId "v" h stamp ∈ out →
        ∀ r ∈ messages, isResult callId r = true → r ∈ out := by
  intro call assistant answer messages hall
  have hv : "v" ≠ "" := by simp
  have hrepair : repairToolSequence "v" (fun _ => ⟨"new", 2⟩) messages =
      .ok ([assistant "a", answer "r", assistant "b", synthetic "c" "v" hv ⟨"new", 2⟩], true) := by
    rfl
  have hmem := hall _ _ hrepair "c" hv ⟨"new", 2⟩ (by simp) (answer "s") (by simp [messages]) rfl
  simp [assistant, answer, synthetic] at hmem

end PawFlow.ToolSequence
