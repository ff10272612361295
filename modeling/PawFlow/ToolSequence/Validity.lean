import PawFlow.ToolSequence.Repair
import Mathlib.Data.List.Forall2

/-!
# Repaired sequences are valid

The repaired sequence is described message by message (`Rebuilt`): each message that is no result
keeps its place, followed by one answer to each of its calls. What the provider requires, the
order of the messages, the choice of the answers and the second repair follow from this.
-/

namespace PawFlow.ToolSequence

open PawFlow.Lib

/-! ## Results and calls -/

def isResult (callId : String) (m : LLMMessage) : Bool := m.role = "tool" && m.callId = callId

/-- Where the earliest result of a call stands. -/
def first (messages : List LLMMessage) (callId : String) : Option Nat :=
  if callId = "" then none else messages.findIdx? (isResult callId)

def result (messages : List LLMMessage) (callId : String) : Option LLMMessage :=
  (first messages callId).bind (messages[·]?)

namespace LLMMessage

def calls (m : LLMMessage) : List LLMToolCall :=
  if m.role = "assistant" then m.toolCalls.getD [] else []

/-- The ids of its calls that have one. -/
def addressed (m : LLMMessage) : List String := (m.calls.map LLMToolCall.id).filter (· ≠ "")

/-- What is left of the message itself. -/
def own (m : LLMMessage) : List LLMMessage :=
  if m.calls.filter (fun call => call.id = "") = [] then [m] else stripCalls m m.calls

end LLMMessage

section

variable {messages : List LLMMessage} {callId : String}

theorem indexResults_get? (messages : List LLMMessage) (idx : Nat) (indexes : PyDict String Nat)
    (h : callId ≠ "") :
    PyDict.get? (indexResults idx messages indexes) callId =
      (PyDict.get? indexes callId).or ((messages.findIdx? (isResult callId)).map (· + idx)) := by
  induction messages generalizing idx indexes with
  | nil => simp [indexResults]
  | cons m rest ih =>
    rw [indexResults, List.findIdx?_cons]
    split
    · next hrole =>
      rw [ih, isResult, decide_eq_false hrole]
      simp [Function.comp_def, add_assoc, add_comm 1]
    · next hrole =>
      have hrole : m.role = "tool" := not_not.mp hrole
      split
      · next hnew =>
        rw [ih]
        by_cases hid : m.callId = callId
        · rw [isResult, decide_eq_true hrole, decide_eq_true hid, ← hid,
            PyDict.get?_set_self, hnew.2]
          simp
        · rw [isResult, decide_eq_true hrole, decide_eq_false hid,
            PyDict.get?_set_of_ne _ _ (fun h => hid h.symm)]
          simp [Function.comp_def, add_assoc, add_comm 1]
      · next hold =>
        rw [ih]
        by_cases hid : m.callId = callId
        · obtain ⟨i, hi⟩ : ∃ i, PyDict.get? indexes callId = some i := by
            rw [hid] at hold
            exact Option.ne_none_iff_exists'.mp fun hnone => hold ⟨h, hnone⟩
          rw [hi]
          simp
        · rw [isResult, decide_eq_true hrole, decide_eq_false hid]
          simp [Function.comp_def, add_assoc, add_comm 1]

theorem indexResults_get?_empty (messages : List LLMMessage) (idx : Nat)
    {indexes : PyDict String Nat} (h : PyDict.get? indexes "" = none) :
    PyDict.get? (indexResults idx messages indexes) "" = none := by
  induction messages generalizing idx indexes with
  | nil => exact h
  | cons m rest ih =>
    rw [indexResults]
    split
    · exact ih _ h
    · split
      · next hnew => exact ih _ (by rw [PyDict.get?_set_of_ne _ _ (Ne.symm hnew.1), h])
      · exact ih _ h

theorem resultIndexes_get? (messages : List LLMMessage) (callId : String) :
    PyDict.get? (resultIndexes messages) callId = first messages callId := by
  by_cases h : callId = ""
  · rw [h, resultIndexes, indexResults_get?_empty _ _ rfl, first, if_pos rfl]
  · rw [resultIndexes, indexResults_get? _ _ _ h, first, if_neg h]
    simp [PyDict.get?]

variable {i : Nat}

theorem first_eq_some (h : first messages callId = some i) :
    ∃ m, messages[i]? = some m ∧ m.role = "tool" ∧ m.callId = callId := by
  unfold first at h
  split at h
  · exact absurd h (by simp)
  · obtain ⟨hlt, hresult, -⟩ := List.findIdx?_eq_some_iff_getElem.mp h
    refine ⟨messages[i], List.getElem?_eq_getElem hlt, ?_⟩
    simpa [isResult] using hresult

theorem first_inj {callId' : String} (h : first messages callId = some i)
    (h' : first messages callId' = some i) : callId = callId' := by
  obtain ⟨m, hm, -, rfl⟩ := first_eq_some h
  obtain ⟨m', hm', -, rfl⟩ := first_eq_some h'
  rw [Option.some.inj (hm.symm.trans hm')]

theorem result_of_first (h : first messages callId = some i) :
    result messages callId = messages[i]? := by
  rw [result, h, Option.bind_some]

theorem result_eq_none_iff : result messages callId = none ↔ first messages callId = none := by
  cases h : first messages callId with
  | none => simp [result, h]
  | some i =>
    obtain ⟨m, hm, -⟩ := first_eq_some h
    simp [result, h, hm]

theorem result_eq_some {m : LLMMessage} (h : result messages callId = some m) :
    m.role = "tool" ∧ m.toolCallId = some callId := by
  obtain ⟨i, hfirst, hm⟩ := Option.bind_eq_some_iff.mp h
  obtain ⟨m', hm', hrole, hid⟩ := first_eq_some hfirst
  obtain rfl := Option.some.inj (hm.symm.trans hm')
  have hne : callId ≠ "" := by
    rintro rfl
    rw [first, if_pos rfl] at hfirst
    exact absurd hfirst (by simp)
  refine ⟨hrole, ?_⟩
  cases hcall : m.toolCallId with
  | none => exact absurd (by rw [← hid, LLMMessage.callId, hcall]; rfl) hne
  | some callId' => rw [← hid, LLMMessage.callId, hcall, Option.getD_some]

theorem result_eq_find? (hid : callId ≠ "") :
    result messages callId = messages.find? (isResult callId) := by
  rw [result, first, if_neg hid]
  cases hidx : messages.findIdx? (isResult callId) with
  | none => exact (List.find?_eq_none.mpr (by simpa using List.findIdx?_eq_none_iff.mp hidx)).symm
  | some i =>
    obtain ⟨hlt, hresult, hbefore⟩ := List.findIdx?_eq_some_iff_getElem.mp hidx
    rw [Option.bind_some, List.getElem?_eq_getElem hlt]
    refine (List.find?_eq_some_iff_getElem.mpr ⟨hresult, i, hlt, rfl, fun j hj => ?_⟩).symm
    simpa using hbefore j hj

end

/-! ## What is rebuilt -/

section

variable (messages : List LLMMessage) (conversationId : String)

/-- The message that answers a call: the earliest result for its id, or a synthetic one if an
earlier call with this id has been given that result. -/
inductive Answer (claimed : List String) (callId : String) : LLMMessage → Prop
  | found {m : LLMMessage} : callId ∉ claimed → result messages callId = some m →
      Answer claimed callId m
  | missing (h : conversationId ≠ "") (stamp : Stamp) :
      callId ∈ claimed ∨ result messages callId = none →
      Answer claimed callId (synthetic callId conversationId h stamp)

/-- The answers to some calls, one after another. -/
inductive Answers : List String → List String → List LLMMessage → Prop
  | nil {claimed : List String} : Answers claimed [] []
  | cons {claimed rest : List String} {callId : String} {m : LLMMessage} {ms : List LLMMessage} :
      Answer messages conversationId claimed callId m → Answers (claimed ++ [callId]) rest ms →
      Answers claimed (callId :: rest) (m :: ms)

/-- What is rebuilt of the remaining messages, where these ids have been called before. -/
inductive Rebuilt : List String → List LLMMessage → List LLMMessage → Prop
  | nil {claimed : List String} : Rebuilt claimed [] []
  | result {claimed : List String} {m : LLMMessage} {rest out : List LLMMessage} :
      m.role = "tool" → Rebuilt claimed rest out → Rebuilt claimed (m :: rest) out
  | message {claimed : List String} {m : LLMMessage} {rest answers out : List LLMMessage} :
      m.role ≠ "tool" → Answers messages conversationId claimed m.addressed answers →
      Rebuilt (claimed ++ m.addressed) rest out →
      Rebuilt claimed (m :: rest) (m.own ++ answers ++ out)

/-- What `changed = False` tells of the remaining messages, the first of which is at `idx`. -/
inductive Unchanged : Nat → List LLMMessage → List LLMMessage → Prop
  | nil {idx : Nat} : Unchanged idx [] []
  | result {idx : Nat} {m : LLMMessage} {rest out : List LLMMessage} :
      m.role = "tool" → first messages m.callId = some idx → Unchanged (idx + 1) rest out →
      Unchanged idx (m :: rest) out
  | message {idx : Nat} {m : LLMMessage} {rest answers out : List LLMMessage} :
      m.role ≠ "tool" → (∀ call ∈ m.calls, call.id ≠ "") →
      List.Forall₂ (fun callId a => result messages callId = some a) m.addressed answers →
      sameItems LLMMessage.same (rest.take answers.length) answers = true →
      Unchanged (idx + 1) rest out → Unchanged idx (m :: rest) (m :: answers ++ out)

end

/-! ## The calls of one message -/

section

variable {messages : List LLMMessage} {conversationId : String} {stamp : Nat → Stamp}

/-- The results of the ids called so far have been moved, and nothing else. -/
structure Moved (messages : List LLMMessage) (moved : List Nat) (claimed : List String) :
    Prop where
  mem_iff : ∀ callId i, first messages callId = some i → (i ∈ moved ↔ callId ∈ claimed)
  results : ∀ i ∈ moved, ∃ callId, first messages callId = some i

variable {claimed : List String} {rest : List LLMMessage}

variable {moved : List Nat} {call : LLMToolCall}

theorem Moved.claim {callId : String} {i : Nat}
    (h : Moved messages moved claimed) (hi : first messages callId = some i) :
    Moved messages (moved ++ [i]) (claimed ++ [callId]) := by
  constructor
  · intro callId' i' hi'
    rw [List.mem_append, List.mem_append, h.mem_iff callId' i' hi', List.mem_singleton,
      List.mem_singleton]
    constructor
    · rintro (hold | rfl)
      · exact Or.inl hold
      · exact Or.inr (first_inj hi' hi)
    · rintro (hold | rfl)
      · exact Or.inl hold
      · exact Or.inr (Option.some.inj (hi'.symm.trans hi))
  · intro i' hi'
    rcases List.mem_append.mp hi' with hold | hnew
    · exact h.results i' hold
    · exact ⟨callId, List.mem_singleton.mp hnew ▸ hi⟩

theorem Moved.again {callId : String} (h : Moved messages moved claimed)
    (hcalled : ∀ i, first messages callId = some i → callId ∈ claimed) :
    Moved messages moved (claimed ++ [callId]) := by
  refine ⟨fun callId' i' hi' => ?_, h.results⟩
  rw [h.mem_iff callId' i' hi', List.mem_append, List.mem_singleton]
  constructor
  · exact Or.inl
  · rintro (hold | rfl)
    · exact hold
    · exact hcalled i' hi'

variable {s s' : Claims}

theorem synthesize_eq_ok {callId : String} (h : s.synthesize conversationId stamp callId = .ok s') :
    ∃ hc : conversationId ≠ "", s' = { s with
      expected := s.expected ++ [synthetic callId conversationId hc (stamp s.minted)]
      changed := true, minted := s.minted + 1 } := by
  unfold Claims.synthesize syntheticResult at h
  split at h
  · exact absurd h (by simp [Except.map])
  · next hc => exact ⟨hc, (Except.ok.inj h).symm⟩

theorem claimCall_eq_ok
    (hmoved : Moved messages s.moved claimed) (hid : call.id ≠ "")
    (h : claimCall conversationId stamp messages s call = .ok s') :
    ∃ m, s'.expected = s.expected ++ [m] ∧ s'.stripped = s.stripped ∧
      Moved messages s'.moved (claimed ++ [call.id]) ∧
      Answer messages conversationId claimed call.id m ∧
      (s'.changed = false → s.changed = false ∧ result messages call.id = some m) := by
  unfold claimCall at h
  rw [if_neg hid, resultIndexes_get?] at h
  cases hfirst : first messages call.id with
  | none =>
    simp only [hfirst] at h
    obtain ⟨hc, rfl⟩ := synthesize_eq_ok h
    refine ⟨_, rfl, rfl, hmoved.again (by simp [hfirst]), ?_, by simp⟩
    exact .missing hc _ (Or.inr (result_eq_none_iff.mpr hfirst))
  | some i =>
    obtain ⟨m, hm, -⟩ := first_eq_some hfirst
    have hresult : result messages call.id = some m := (result_of_first hfirst).trans hm
    simp only [hfirst, hm] at h
    split at h
    · next hnew =>
      obtain rfl := Except.ok.inj h
      refine ⟨m, rfl, rfl, hmoved.claim hfirst, ?_, fun hsame => ⟨hsame, hresult⟩⟩
      exact .found (fun hold => hnew ((hmoved.mem_iff _ _ hfirst).mpr hold)) hresult
    · next hold =>
      have hold : call.id ∈ claimed := (hmoved.mem_iff _ _ hfirst).mp (not_not.mp hold)
      obtain ⟨hc, rfl⟩ := synthesize_eq_ok h
      exact ⟨_, rfl, rfl, hmoved.again fun _ _ => hold, .missing hc _ (Or.inl hold), by simp⟩

theorem claimCalls_eq_ok {calls : List LLMToolCall} (hmoved : Moved messages s.moved claimed)
    (h : claimCalls conversationId stamp messages calls s = .ok s') :
    let ids := (calls.map LLMToolCall.id).filter (· ≠ "")
    ∃ answers, s'.expected = s.expected ++ answers ∧
      s'.stripped = s.stripped ++ calls.filter (fun call => call.id = "") ∧
      Moved messages s'.moved (claimed ++ ids) ∧
      Answers messages conversationId claimed ids answers ∧
      (s'.changed = false → s.changed = false ∧ (∀ call ∈ calls, call.id ≠ "") ∧
        List.Forall₂ (fun callId a => result messages callId = some a) ids answers) := by
  induction calls generalizing s claimed with
  | nil =>
    obtain rfl := Except.ok.inj h
    exact ⟨[], by simp, by simp, by simpa using hmoved, .nil,
      fun hsame => ⟨hsame, by simp, .nil⟩⟩
  | cons call rest ih =>
    unfold claimCalls at h
    cases hcall : claimCall conversationId stamp messages s call with
    | error e => simp [hcall, Except.bind] at h
    | ok s₁ =>
      simp only [hcall, Except.bind] at h
      by_cases hid : call.id = ""
      · rw [claimCall, if_pos hid] at hcall
        obtain rfl := Except.ok.inj hcall
        obtain ⟨answers, hexpected, hstripped, hmoved', hanswers, hchanged⟩ :=
          ih (s := { s with stripped := s.stripped ++ [call], changed := true }) hmoved h
        refine ⟨answers, hexpected, ?_, ?_, ?_,
          fun hsame => absurd (hchanged hsame).1 (by simp)⟩
        · simpa [hid] using hstripped
        · simpa [hid] using hmoved'
        · simpa [hid] using hanswers
      · obtain ⟨m, hm, hsame, hmoved₁, hanswer, hkept⟩ := claimCall_eq_ok hmoved hid hcall
        obtain ⟨answers, hexpected, hstripped, hmoved', hanswers, hchanged⟩ := ih hmoved₁ h
        refine ⟨m :: answers, ?_, ?_, ?_, ?_, ?_⟩
        · rw [hexpected, hm]
          simp
        · rw [hstripped, hsame]
          simp [hid]
        · simpa [hid] using hmoved'
        · simpa [hid] using Answers.cons hanswer hanswers
        · intro hfalse
          obtain ⟨hfalse₁, hids, hall⟩ := hchanged hfalse
          obtain ⟨hfalse₀, hresult⟩ := hkept hfalse₁
          refine ⟨hfalse₀, by simpa [hid] using hids, ?_⟩
          have hids' : ((call :: rest).map LLMToolCall.id).filter (· ≠ "") =
              call.id :: (rest.map LLMToolCall.id).filter (· ≠ "") := by simp [hid]
          rw [hids']
          exact .cons hresult hall

/-! ## The whole loop -/

variable {m : LLMMessage} {ids : List String} {out : List LLMMessage}

theorem repairMessage_eq {idx : Nat} {s : State} (hidx : idx ∉ s.moved) (hrole : m.role ≠ "tool") :
    repairMessage conversationId stamp messages idx m s =
      (claimCalls conversationId stamp messages m.calls ⟨[], [], s.moved, s.changed, s.minted⟩).map
        fun c =>
          { moved := c.moved
            rebuilt := s.rebuilt ++ (if c.stripped = [] then [m] else stripCalls m m.calls) ++
              c.expected
            changed := c.changed || !sameItems LLMMessage.same
              ((messages.drop (idx + 1)).take c.expected.length) c.expected
            minted := c.minted } := by
  by_cases hskip : m.role ≠ "assistant" ∨ m.toolCalls.getD [] = []
  · have hempty : m.calls = [] := by
      unfold LLMMessage.calls
      rcases hskip with hother | hnone
      · exact if_neg hother
      · split
        · exact hnone
        · rfl
    rw [repairMessage, if_neg hidx, if_neg hrole, if_pos hskip, hempty]
    simp [claimCalls, Except.map, sameItems]
  · have hcalls : m.toolCalls.getD [] = m.calls :=
      (if_pos (not_not.mp (not_or.mp hskip).1)).symm
    rw [repairMessage, if_neg hidx, if_neg hrole, if_neg hskip, hcalls]

theorem repairFrom_eq_ok {l : List LLMMessage} {s s' : State}
    (hmessages : messages = l ++ rest) (hmoved : Moved messages s.moved claimed)
    (h : repairFrom conversationId stamp messages l.length rest s = .ok s') :
    ∃ out claimed', s'.rebuilt = s.rebuilt ++ out ∧
      Rebuilt messages conversationId claimed rest out ∧ Moved messages s'.moved claimed' ∧
      (∀ callId, callId ∈ claimed' ↔
        callId ∈ claimed ∨ ∃ m ∈ rest, m.role ≠ "tool" ∧ callId ∈ m.addressed) ∧
      (s'.changed = false → s.changed = false ∧ Unchanged messages l.length rest out) := by
  induction rest generalizing l s claimed with
  | nil =>
    obtain rfl := Except.ok.inj h
    exact ⟨[], claimed, by simp, .nil, hmoved, by simp, fun hsame => ⟨hsame, .nil⟩⟩
  | cons m rest ih =>
    have hm : messages[l.length]? = some m := by simp [hmessages]
    have hrest : messages = (l ++ [m]) ++ rest := by simp [hmessages]
    have hlength : (l ++ [m]).length = l.length + 1 := by simp
    unfold repairFrom at h
    by_cases hrole : m.role = "tool"
    · -- a result is only looked at
      have hstep : ∃ changed, repairMessage conversationId stamp messages l.length m s =
          .ok { s with changed } ∧ (changed = false → s.changed = false ∧
            first messages m.callId = some l.length) := by
        unfold repairMessage
        split
        · next hmem =>
          refine ⟨s.changed, rfl, fun hsame => ⟨hsame, ?_⟩⟩
          obtain ⟨callId, hfirst⟩ := hmoved.results _ hmem
          obtain ⟨m', hm', -, hid⟩ := first_eq_some hfirst
          rw [Option.some.inj (hm.symm.trans hm'), hid, hfirst]
        · rw [resultIndexes_get?]
          split
          · next hfirst => exact ⟨s.changed, rfl, fun hsame => ⟨hsame, hfirst⟩⟩
          · exact ⟨true, rfl, by simp⟩
      obtain ⟨changed, hstep, hsame⟩ := hstep
      rw [hstep] at h
      obtain ⟨out, claimed', hout, hrebuilt, hmoved', hclaimed, hunchanged⟩ :=
        ih (s := { s with changed }) hrest hmoved (hlength ▸ h)
      refine ⟨out, claimed', hout, .result hrole hrebuilt, hmoved', fun callId => ?_, ?_⟩
      · rw [hclaimed]
        simp [hrole]
      · intro hfalse
        obtain ⟨hchanged, hunchanged⟩ := hunchanged hfalse
        obtain ⟨hsame, hfirst⟩ := hsame hchanged
        exact ⟨hsame, .result hrole hfirst (hlength ▸ hunchanged)⟩
    · have hidx : l.length ∉ s.moved := by
        intro hmem
        obtain ⟨callId, hfirst⟩ := hmoved.results _ hmem
        obtain ⟨m', hm', hrole', -⟩ := first_eq_some hfirst
        exact hrole (Option.some.inj (hm.symm.trans hm') ▸ hrole')
      rw [repairMessage_eq hidx hrole] at h
      cases hclaims : claimCalls conversationId stamp messages m.calls
          ⟨[], [], s.moved, s.changed, s.minted⟩ with
      | error e => simp [hclaims, Except.map, Except.bind] at h
      | ok c =>
        obtain ⟨answers, hexpected, hstripped, hmoved₁, hanswers, hkept⟩ :=
          claimCalls_eq_ok (s := ⟨[], [], s.moved, s.changed, s.minted⟩) hmoved hclaims
        simp only [List.nil_append] at hexpected hstripped
        rw [hclaims] at h
        simp only [Except.map, Except.bind, hexpected, hstripped] at h
        obtain ⟨out, claimed', hout, hrebuilt, hmoved', hclaimed, hunchanged⟩ :=
          ih hrest hmoved₁ (hlength ▸ h)
        refine ⟨m.own ++ answers ++ out, claimed', ?_, .message hrole hanswers hrebuilt,
          hmoved', fun callId => ?_, fun hfalse => ?_⟩
        · rw [hout]
          simp [LLMMessage.own]
        · rw [hclaimed, List.mem_append]
          simp [hrole, LLMMessage.addressed, or_assoc]
        · obtain ⟨hchanged, hunchanged⟩ := hunchanged hfalse
          obtain ⟨hchanged, hsame⟩ := Bool.or_eq_false_iff.mp hchanged
          obtain ⟨hold, hids, hall⟩ := hkept hchanged
          have hown : m.own = [m] := by
            rw [LLMMessage.own, if_pos]
            simpa using hids
          refine ⟨hold, ?_⟩
          rw [hown]
          refine .message hrole hids hall ?_ (hlength ▸ hunchanged)
          simpa [hmessages] using hsame

/-! ## What is left of a message -/

theorem assistant_of_call (h : call ∈ m.calls) : m.role = "assistant" := by
  unfold LLMMessage.calls at h
  split at h
  · assumption
  · exact absurd h (by simp)

theorem addressed_eq (m : LLMMessage) :
    m.addressed = (m.calls.filter fun call => call.id ≠ "").map LLMToolCall.id := by
  rw [LLMMessage.addressed, List.filter_map]
  rfl

theorem own_of_all (h : ∀ call ∈ m.calls, call.id ≠ "") : m.own = [m] := by
  rw [LLMMessage.own, if_pos]
  simpa using h

/-- What is left of a message: it keeps its calls that have an id, and is dropped only without
text and without such a call. -/
inductive Own (m : LLMMessage) : Prop
  | kept (m' : LLMMessage) : m.own = [m'] → m'.role = m.role → m'.content = m.content →
      m'.addressed = m.addressed → (∀ call ∈ m'.calls, call.id ≠ "") → Own m
  | dropped : m.own = [] → m.role = "assistant" → m.addressed = [] →
      m.content.truthy = false → Own m

theorem own_cases (m : LLMMessage) : Own m := by
  by_cases hall : ∀ call ∈ m.calls, call.id ≠ ""
  · exact .kept m (own_of_all hall) rfl rfl rfl hall
  · push Not at hall
    obtain ⟨call, hcall, hid⟩ := hall
    have hassistant := assistant_of_call hcall
    have hown : m.own = stripCalls m m.calls := by
      rw [LLMMessage.own, if_neg]
      intro hnone
      exact absurd hid (by simpa using List.filter_eq_nil_iff.mp hnone call hcall)
    rw [stripCalls] at hown
    split at hown
    · let m' : LLMMessage := { m with toolCalls := some (m.calls.filter fun call => call.id ≠ "") }
      have hcalls : m'.calls = m.calls.filter fun call => call.id ≠ "" := if_pos hassistant
      refine .kept m' hown rfl rfl ?_ ?_
      · rw [addressed_eq, addressed_eq, hcalls, List.filter_filter]
        simp
      · rw [hcalls]
        simp
    · next hnone =>
      have hnone : m.calls.filter (fun call => call.id ≠ "") = [] := not_not.mp hnone
      have haddressed : m.addressed = [] := by rw [addressed_eq, hnone]; rfl
      split at hown
      · next hcontent => exact .dropped hown hassistant haddressed hcontent
      · have hcalls : ({ m with toolCalls := none } : LLMMessage).calls = [] := by
          simp [LLMMessage.calls]
        refine .kept _ hown rfl rfl ?_ ?_
        · rw [addressed_eq, hcalls, haddressed]
          rfl
        · rw [hcalls]
          simp

/-! ## What the rebuilt sequence is -/

theorem Answer.spec {callId : String} {a : LLMMessage}
    (h : Answer messages conversationId claimed callId a) :
    a.role = "tool" ∧ a.toolCallId = some callId := by
  cases h with
  | found _ hresult => exact result_eq_some hresult
  | missing => exact ⟨rfl, rfl⟩

theorem Answers.spec {answers : List LLMMessage}
    (h : Answers messages conversationId claimed ids answers) :
    List.Forall₂ (fun callId a => a.role = "tool" ∧ a.toolCallId = some callId) ids answers := by
  induction h with
  | nil => exact .nil
  | cons hanswer _ ih => exact .cons hanswer.spec ih

theorem Answers.role {answers : List LLMMessage}
    (h : Answers messages conversationId claimed ids answers) : ∀ a ∈ answers, a.role = "tool" := by
  induction h with
  | nil => simp
  | cons hanswer _ ih =>
    intro a ha
    rcases List.mem_cons.mp ha with rfl | ha
    · exact hanswer.spec.1
    · exact ih a ha

theorem Answers.append {ids' : List String} {answers answers' : List LLMMessage}
    (h : Answers messages conversationId claimed ids answers)
    (h' : Answers messages conversationId (claimed ++ ids) ids' answers') :
    Answers messages conversationId claimed (ids ++ ids') (answers ++ answers') := by
  induction h with
  | nil => simpa using h'
  | cons hanswer _ ih => exact .cons hanswer (ih (by simpa using h'))

/-- What a provider accepts: every message with calls is followed by its results, one for each
call and in their order, and no result stands anywhere else. -/
inductive Valid : List LLMMessage → Prop
  | nil : Valid []
  | block {m : LLMMessage} {answers rest : List LLMMessage} : m.role ≠ "tool" →
      (∀ call ∈ m.calls, call.id ≠ "") →
      List.Forall₂ (fun call a => a.role = "tool" ∧ a.toolCallId = some call.id) m.calls answers →
      Valid rest → Valid (m :: answers ++ rest)

theorem Rebuilt.valid (h : Rebuilt messages conversationId claimed rest out) : Valid out := by
  induction h with
  | nil => exact .nil
  | result _ _ ih => exact ih
  | @message claimed m rest answers out hrole hanswers _ ih =>
    cases own_cases m with
    | kept m' hown hrole' _ haddressed hids =>
      rw [hown]
      refine .block (hrole' ▸ hrole) hids ?_ ih
      have hcalls : m'.calls.map LLMToolCall.id = m.addressed := by
        rw [← haddressed, addressed_eq, List.filter_eq_self.mpr (by simpa using hids)]
      have hspec := hanswers.spec
      rwa [← hcalls, List.forall₂_map_left_iff] at hspec
    | dropped hown _ haddressed _ =>
      rw [haddressed] at hanswers
      cases hanswers
      simpa [hown] using ih

theorem Rebuilt.order (h : Rebuilt messages conversationId claimed rest out) :
    out.filter (fun m => m.role ≠ "tool") =
      (rest.filter fun m => m.role ≠ "tool").flatMap LLMMessage.own := by
  induction h with
  | nil => rfl
  | result hrole _ ih => rw [ih]; simp [hrole]
  | @message claimed m rest answers out hrole hanswers _ ih =>
    have hanswers : answers.filter (fun m => m.role ≠ "tool") = [] := by
      rw [List.filter_eq_nil_iff]
      intro a ha
      simp [hanswers.role a ha]
    have hown : m.own.filter (fun m => m.role ≠ "tool") = m.own := by
      cases own_cases m with
      | kept m' hown hrole' => rw [hown]; simp [hrole', hrole]
      | dropped hown => rw [hown]; rfl
    rw [List.filter_append, List.filter_append, hanswers, hown, ih]
    simp [hrole]

def called (messages : List LLMMessage) : List String :=
  (messages.filter fun m => m.role ≠ "tool").flatMap LLMMessage.addressed

theorem Rebuilt.answers (h : Rebuilt messages conversationId claimed rest out) :
    Answers messages conversationId claimed (called rest)
      (out.filter fun m => m.role = "tool") := by
  induction h with
  | nil => exact .nil
  | result hrole _ ih => simpa [called, hrole] using ih
  | @message claimed m rest answers out hrole hanswers _ ih =>
    have hfilter : answers.filter (fun m => m.role = "tool") = answers := by
      rw [List.filter_eq_self]
      intro a ha
      simp [hanswers.role a ha]
    have hown : m.own.filter (fun m => m.role = "tool") = [] := by
      cases own_cases m with
      | kept m' hown hrole' => rw [hown]; simp [hrole', hrole]
      | dropped hown => rw [hown]; rfl
    have hcalled : called (m :: rest) = m.addressed ++ called rest := by simp [called, hrole]
    rw [List.filter_append, List.filter_append, hfilter, hown, hcalled]
    exact hanswers.append ih

end

end PawFlow.ToolSequence
