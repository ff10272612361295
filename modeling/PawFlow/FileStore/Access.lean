import PawFlow.FileStore.Store

/-!
# Who may have a file

The calls of `core/file_store.py` that hand out a file, and the calls that change whose it is, one
after the other. A file moves together with its path, so its bytes are kept by its id. Of
`reassign_conversation_owner` the calls that publish the index are modelled.
-/

namespace PawFlow.FileStore.Access

open PawFlow.Lib

inductive Level where
  | accessPrivate
  | accessShared
  | accessAuthenticated
  | accessGatewayKey
  | accessPublic
deriving DecidableEq

structure Entry where
  filename : String
  contentType : String
  size : Nat
  createdAt : Int
  conversationId : String
  userId : String
  access : Level := .accessPrivate
  sharedWith : List String := []
  ttl : Int
  category : String
deriving DecidableEq

def Entry.expired (e : Entry) (now : Int) : Bool := 0 < e.ttl && e.ttl < now - e.createdAt

/-- An upload of another user that no conversation has adopted. -/
def Entry.pendingOfOther (e : Entry) (userId : String) : Bool :=
  e.conversationId = "_upload" && e.userId ≠ "" && e.userId ≠ "_anonymous" && e.userId ≠ userId

/-- `_accessible`. -/
def Entry.accessible (e : Entry) (userId : String) : Bool :=
  userId = "" || e.userId = "" || e.userId = userId || userId ∈ e.sharedWith

structure State where
  entries : PyDict FileId Entry := []
  bytes : PyDict FileId Bytes := []
  conversationOwners : PyDict String String := []
  /-- How many ids were given out. -/
  fresh : FileId := 0

/-- Why a file is refused, with what the message names. -/
inductive Refusal where
  | required (argument : String)
  | noEntry (fileId : FileId)
  | expired (fileId : FileId)
  | pendingUpload (owner userId : String)
  | otherConversation (belongs conversationId : String)
  | accessDenied (owner requester : String)
  | bytesMissing (fileId : FileId)
deriving DecidableEq

/-- `_INTERNAL_CATEGORIES`. -/
def internalCategories : List String :=
  ["tool_result", "checkpoint", "checkpoint_bin", "checkpoint_diff", "webchat_stt", "webchat_tts"]

namespace State

-- `key` is `_derive_gateway_key`.
variable (key : FileId → String) (s : State)

def deleteEntry (i : FileId) : State :=
  { s with entries := s.entries.erase i, bytes := s.bytes.erase i }

/-! ## Changes -/

def store (filename : String) (content : Bytes) (contentType conversationId userId : String)
    (ttl : Int) (category : String) (now : Int) : Except Refusal State :=
  if userId = "" then .error (.required "user_id")
  else if conversationId = "" then .error (.required "conversation_id")
  else
    let entry : Entry := {
      filename := pyOr (pathName filename) "file"
      contentType, size := content.length, createdAt := now, conversationId
      userId := (s.conversationOwners.get? conversationId).getD userId
      ttl, category }
    .ok { s with
      entries := s.entries.set s.fresh entry
      bytes := s.bytes.set s.fresh content
      fresh := s.fresh + 1 }

def setAccess (i : FileId) (level : Level) (sharedWith : Option (List String))
    (ownerUserId : String) : Bool × State :=
  match s.entries.get? i with
  | none => (false, s)
  | some e =>
    if ownerUserId ≠ "" ∧ e.userId ≠ "" ∧ e.userId ≠ ownerUserId then (false, s)
    else
      let e' := { e with access := level, sharedWith := sharedWith.getD e.sharedWith }
      (true, { s with entries := s.entries.set i e' })

def delete (i : FileId) (userId : String) : Bool × State :=
  match s.entries.get? i with
  | none => (false, s)
  | some e =>
    if userId ≠ "" ∧ e.userId ≠ "" ∧ e.userId ≠ userId then (false, s)
    else (true, s.deleteEntry i)

def reassignConversationOwner (conversationId oldUserId newUserId : String) : State :=
  let conversationId := strip conversationId
  let oldUserId := strip oldUserId
  let newUserId := strip newUserId
  if conversationId = "" ∨ oldUserId = "" ∨ newUserId = "" ∨ oldUserId = newUserId then s
  else
    { s with
      entries := s.entries.map fun i =>
        if i.2.conversationId = conversationId ∧ i.2.userId = oldUserId ∧
          (s.bytes.get? i.1).isSome then (i.1, { i.2 with userId := newUserId }) else i
      conversationOwners := s.conversationOwners.set conversationId newUserId }

/-! ## Retrieval -/

def checkAccess (i : FileId) (userId gatewayKey : String) : Bool :=
  match s.entries.get? i with
  | none => false
  | some e =>
    match e.access with
    | .accessPublic => true
    | .accessGatewayKey =>
      gatewayKey ≠ "" && gatewayKey = key i || e.userId = "" || userId = e.userId
    | .accessAuthenticated => userId ≠ ""
    | .accessShared => userId ≠ "" && (e.userId = userId || userId ∈ e.sharedWith)
    | .accessPrivate => e.userId = "" || userId = e.userId

def get (i : FileId) (userId gatewayKey : String) (now : Int) :
    Option (String × Bytes × String) × State :=
  match s.entries.get? i with
  | none => (none, s)
  | some e =>
    if e.expired now then (none, s.deleteEntry i)
    else if s.checkAccess key i userId gatewayKey then
      match s.bytes.get? i with
      | some content => (some (e.filename, content, e.contentType), s)
      | none => (none, s.deleteEntry i)
    else (none, s)

/-- The path of the file stands for the file. -/
def getDiskPath (i : FileId) (userId gatewayKey : String) (now : Int) : Option FileId × State :=
  match s.entries.get? i with
  | none => (none, s)
  | some e =>
    if e.expired now then (none, s.deleteEntry i)
    else if s.checkAccess key i userId gatewayKey && (s.bytes.get? i).isSome then (some i, s)
    else (none, s)

/-- A pending upload becomes a file of the conversation. -/
def adopt (i : FileId) (e : Entry) (conversationId : String) : Entry × State :=
  if e.conversationId = "_upload" then
    ({ e with conversationId },
      { s with entries := s.entries.set i { e with conversationId } })
  else (e, s)

/-- The strict calls; only one of them looks at the time to live. -/
def strict (checksTtl : Bool) (i : FileId) (userId conversationId : String) (now : Int) :
    Except Refusal (Entry × Bytes) × State :=
  if userId = "" then (.error (.required "user_id"), s)
  else if conversationId = "" then (.error (.required "conversation_id"), s)
  else
    match s.entries.get? i with
    | none => (.error (.noEntry i), s)
    | some e =>
      if checksTtl && e.expired now then (.error (.expired i), s.deleteEntry i)
      else if e.pendingOfOther userId then (.error (.pendingUpload e.userId userId), s)
      else
        -- adopted, whatever comes of the call
        let (e', s') := s.adopt i e conversationId
        if e'.conversationId ≠ "" ∧ e'.conversationId ≠ conversationId then
          (.error (.otherConversation e'.conversationId conversationId), s')
        else if s'.checkAccess key i userId "" then
          match s.bytes.get? i with
          | some content => (.ok (e', content), s')
          | none => (.error (.bytesMissing i), s'.deleteEntry i)
        else (.error (.accessDenied e.userId userId), s')

def getRequired (i : FileId) (userId conversationId : String) :
    Except Refusal (String × Bytes × String) × State :=
  let (answer, s) := s.strict key false i userId conversationId 0
  (answer.map fun found => (found.1.filename, found.2, found.1.contentType), s)

def getMetadataRequired (i : FileId) (userId conversationId : String) (now : Int) :
    Except Refusal (FileId × Entry) × State :=
  let (answer, s) := s.strict key true i userId conversationId now
  (answer.map fun found => (i, found.1), s)

def findByName (filename userId : String) : Option FileId :=
  let seen := s.entries.filter fun i => i.2.accessible userId
  let alike := fun i : FileId × Entry => occursIn filename.toList i.2.filename.toList ||
    occursIn i.2.filename.toList filename.toList
  ((seen.find? fun i => i.2.filename = filename).or (seen.find? alike)).map Prod.fst

/-- The ids of the files listed. -/
def listFiles (userId conversationId : String) (includeInternal : Bool) (now : Int) : List FileId :=
  (s.entries.filter fun i => i.2.accessible userId && !i.2.expired now &&
    (conversationId = "" || i.2.conversationId = conversationId) &&
    (includeInternal || i.2.category ∉ internalCategories &&
      !(i.2.category = "voice_clone_tts" && 0 < i.2.ttl))).map Prod.fst

/-! ## Runs -/

inductive Call where
  | store (filename : String) (content : Bytes) (contentType conversationId userId : String)
    (ttl : Int) (category : String)
  | setAccess (i : FileId) (level : Level) (sharedWith : Option (List String))
    (ownerUserId : String)
  | delete (i : FileId) (userId : String)
  | reassignConversationOwner (conversationId oldUserId newUserId : String)
  | get (i : FileId) (userId gatewayKey : String)
  | getDiskPath (i : FileId) (userId gatewayKey : String)
  | getRequired (i : FileId) (userId conversationId : String)
  | getMetadataRequired (i : FileId) (userId conversationId : String)

/-- What a call at this time leaves behind; one that raises leaves what it has done so far. -/
def perform (now : Int) : Call → State
  | .store filename content contentType conversationId userId ttl category =>
    match s.store filename content contentType conversationId userId ttl category now with
    | .ok s' => s'
    | .error _ => s
  | .setAccess i level sharedWith ownerUserId => (s.setAccess i level sharedWith ownerUserId).2
  | .delete i userId => (s.delete i userId).2
  | .reassignConversationOwner conversationId oldUserId newUserId =>
    s.reassignConversationOwner conversationId oldUserId newUserId
  | .get i userId gatewayKey => (s.get key i userId gatewayKey now).2
  | .getDiskPath i userId gatewayKey => (s.getDiskPath key i userId gatewayKey now).2
  | .getRequired i userId conversationId => (s.getRequired key i userId conversationId).2
  | .getMetadataRequired i userId conversationId =>
    (s.getMetadataRequired key i userId conversationId now).2

def run (calls : List (Int × Call)) : State := calls.foldl (fun s c => s.perform key c.1 c.2) {}

/-! ## What the ways to a file have in common -/

/-- The file is there for the user. -/
def Grants (i : FileId) (e : Entry) (userId : String) (now : Int) : Prop :=
  ¬ e.expired now ∧ s.checkAccess key i userId ""

/-- Every way to a file answers alike, and no search tells of a file that the user may not have. -/
structure Agrees (userId : String) (now : Int) : Prop where
  get : ∀ i e, s.entries.get? i = some e →
    ((s.get key i userId "" now).1.isSome ↔ s.Grants key i e userId now)
  path : ∀ i e, s.entries.get? i = some e →
    ((s.getDiskPath key i userId "" now).1.isSome ↔ s.Grants key i e userId now)
  required : ∀ i e, s.entries.get? i = some e →
    ((s.getRequired key i userId e.conversationId).1.isOk ↔ s.Grants key i e userId now)
  metadata : ∀ i e, s.entries.get? i = some e →
    ((s.getMetadataRequired key i userId e.conversationId now).1.isOk ↔
      s.Grants key i e userId now)
  listed : ∀ conversationId includeInternal,
    ∀ i ∈ s.listFiles userId conversationId includeInternal now, s.checkAccess key i userId ""
  found : ∀ filename i, s.findByName filename userId = some i → s.checkAccess key i userId ""

/-- When they do: of the files that the user may have, those past their time are the uploads that
another user has not put into a conversation, and a search that goes by the share list alone passes
over the rest. -/
structure Plain (userId : String) (now : Int) : Prop where
  inTime : ∀ i e, s.entries.get? i = some e → s.checkAccess key i userId "" →
    (e.expired now ↔ e.pendingOfOther userId)
  passed : ∀ before i e after, s.entries = before ++ (i, e) :: after → e.accessible userId →
    ¬ s.checkAccess key i userId "" →
      e.expired now ∧ ∃ p ∈ before, p.2.accessible userId ∧ p.2.filename = e.filename

/-- What every run keeps. -/
structure Good (s : State) : Prop where
  keys : (s.entries.map Prod.fst).Nodup
  kept : ∀ i ∈ s.entries, i.2.conversationId ≠ "" ∧ (s.bytes.get? i.1).isSome

variable {key s} {i : FileId} {e : Entry} {userId gatewayKey : String} {now : Int}

theorem Good.deleteEntry (h : s.Good) (i : FileId) : (s.deleteEntry i).Good where
  keys := h.keys.sublist (List.filter_sublist.map _)
  kept j hj := by
    obtain ⟨hmem, hne⟩ := PyDict.mem_erase.mp hj
    rw [State.deleteEntry, PyDict.get?_erase, if_neg hne]
    exact h.kept j hmem

theorem Good.setEntry (h : s.Good) {e' : Entry} (he : s.entries.get? i = some e)
    (hconv : e'.conversationId ≠ "") : Good { s with entries := s.entries.set i e' } where
  keys := PyDict.nodup_keys_set _ h.keys
  kept j hj := by
    rcases PyDict.mem_of_mem_set hj with hmem | rfl
    · exact h.kept j hmem
    · exact ⟨hconv, (h.kept _ (PyDict.mem_of_get? he)).2⟩

variable {conversationId : String}

theorem Good.store {filename contentType category : String} {content : Bytes}
    {ttl : Int} (h : s.Good) (t : State)
    (ht : s.store filename content contentType conversationId userId ttl category now = .ok t) :
    t.Good := by
  unfold State.store at ht
  split_ifs at ht with huser hconv
  obtain rfl := Except.ok.inj ht
  refine ⟨PyDict.nodup_keys_set _ h.keys, fun j hj => ?_⟩
  rcases PyDict.mem_of_mem_set hj with hmem | rfl
  · obtain ⟨hj, hbytes⟩ := h.kept j hmem
    refine ⟨hj, ?_⟩
    by_cases hkey : j.1 = s.fresh
    · rw [hkey, PyDict.get?_set_self]
      rfl
    · rwa [PyDict.get?_set_of_ne _ _ hkey]
  · exact ⟨hconv, by rw [PyDict.get?_set_self]; rfl⟩

theorem Good.adopt (h : s.Good) (he : s.entries.get? i = some e)
    (hconv : conversationId ≠ "") : (s.adopt i e conversationId).2.Good := by
  unfold State.adopt
  split_ifs
  · exact h.setEntry he hconv
  · exact h

theorem Good.strict (h : s.Good) (checksTtl : Bool) (i : FileId) (userId conversationId : String)
    (now : Int) : (s.strict key checksTtl i userId conversationId now).2.Good := by
  unfold State.strict
  split_ifs with huser hconv
  · exact h
  · exact h
  · cases he : s.entries.get? i with
    | none => exact h
    | some e =>
      have hadopt := h.adopt he hconv
      dsimp only
      split_ifs
      · exact h.deleteEntry i
      · exact h
      · exact hadopt
      · cases s.bytes.get? i with
        | none => exact hadopt.deleteEntry i
        | some content => exact hadopt
      · exact hadopt

theorem Good.perform (h : s.Good) (now : Int) (call : Call) : (s.perform key now call).Good := by
  cases call with
  | store filename content contentType conversationId userId ttl category =>
    unfold State.perform
    dsimp only
    cases ht : s.store filename content contentType conversationId userId ttl category now with
    | error e => exact h
    | ok t => exact h.store t ht
  | setAccess i level sharedWith ownerUserId =>
    show (s.setAccess i level sharedWith ownerUserId).2.Good
    unfold State.setAccess
    cases he : s.entries.get? i with
    | none => exact h
    | some e =>
      dsimp only
      split_ifs
      · exact h
      · exact h.setEntry he (h.kept _ (PyDict.mem_of_get? he)).1
  | delete i userId =>
    show (s.delete i userId).2.Good
    unfold State.delete
    cases s.entries.get? i with
    | none => exact h
    | some e =>
      dsimp only
      split_ifs
      · exact h
      · exact h.deleteEntry i
  | reassignConversationOwner conversationId oldUserId newUserId =>
    show (s.reassignConversationOwner conversationId oldUserId newUserId).Good
    unfold State.reassignConversationOwner
    dsimp only
    split_ifs
    · exact h
    · refine ⟨?_, ?_⟩
      · dsimp only
        rw [List.map_map]
        have hkeys : (Prod.fst ∘ fun j : FileId × Entry =>
            if j.2.conversationId = strip conversationId ∧ j.2.userId = strip oldUserId ∧
              (s.bytes.get? j.1).isSome then (j.1, { j.2 with userId := strip newUserId })
            else j) = Prod.fst := by
          funext j
          dsimp only [Function.comp_apply]
          split_ifs <;> rfl
        rw [hkeys]
        exact h.keys
      · rintro j hj
        obtain ⟨k, hk, rfl⟩ := List.mem_map.mp hj
        dsimp only
        split_ifs <;> exact h.kept k hk
  | get i userId gatewayKey =>
    show (s.get key i userId gatewayKey now).2.Good
    unfold State.get
    cases s.entries.get? i with
    | none => exact h
    | some e =>
      dsimp only
      split_ifs
      · exact h.deleteEntry i
      · cases s.bytes.get? i with
        | none => exact h.deleteEntry i
        | some content => exact h
      · exact h
  | getDiskPath i userId gatewayKey =>
    show (s.getDiskPath key i userId gatewayKey now).2.Good
    unfold State.getDiskPath
    cases s.entries.get? i with
    | none => exact h
    | some e =>
      dsimp only
      split_ifs
      · exact h.deleteEntry i
      · exact h
      · exact h
  | getRequired i userId conversationId => exact h.strict false i userId conversationId 0
  | getMetadataRequired i userId conversationId => exact h.strict true i userId conversationId now

theorem good_run (calls : List (Int × Call)) : (run key calls).Good := by
  have hfrom : ∀ (calls : List (Int × Call)) (s : State), s.Good →
      (calls.foldl (fun s c => s.perform key c.1 c.2) s).Good := by
    intro calls
    induction calls with
    | nil => exact fun s h => h
    | cons c calls ih => exact fun s h => ih _ (h.perform c.1 c.2)
  exact hfrom calls {} ⟨List.nodup_nil, nofun⟩

/-! ## Where they do -/

theorem get_isSome_iff (h : s.Good) (he : s.entries.get? i = some e) :
    (s.get key i userId "" now).1.isSome ↔ s.Grants key i e userId now := by
  obtain ⟨content, hbytes⟩ := Option.isSome_iff_exists.mp (h.kept _ (PyDict.mem_of_get? he)).2
  unfold State.get Grants
  rw [he]
  dsimp only
  split_ifs with hexpired hallowed
  · simp [hexpired]
  · rw [hbytes]
    simp [hexpired, hallowed]
  · simp [hallowed]

theorem getDiskPath_isSome_iff (h : s.Good) (he : s.entries.get? i = some e) :
    (s.getDiskPath key i userId "" now).1.isSome ↔ s.Grants key i e userId now := by
  have hbytes := (h.kept _ (PyDict.mem_of_get? he)).2
  unfold State.getDiskPath Grants
  rw [he]
  dsimp only
  split_ifs with hexpired hallowed
  · simp [hexpired]
  · simp_all
  · simp_all

theorem checkAccess_adopt (he : s.entries.get? i = some e) (conversationId : String) :
    (s.adopt i e conversationId).2.checkAccess key i userId gatewayKey =
      s.checkAccess key i userId gatewayKey := by
  unfold adopt
  split_ifs
  · unfold checkAccess
    rw [PyDict.get?_set_self, he]
  · rfl

theorem strict_isOk_iff (h : s.Good) (he : s.entries.get? i = some e) (huser : userId ≠ "")
    (checksTtl : Bool) :
    (s.strict key checksTtl i userId e.conversationId now).1.isOk ↔
      ¬ (checksTtl && e.expired now) ∧ ¬ e.pendingOfOther userId ∧
        s.checkAccess key i userId "" := by
  obtain ⟨hconv, hbytes⟩ := h.kept _ (PyDict.mem_of_get? he)
  obtain ⟨content, hbytes⟩ := Option.isSome_iff_exists.mp hbytes
  have hsame : (s.adopt i e e.conversationId).1.conversationId = e.conversationId := by
    unfold adopt
    split_ifs <;> rfl
  unfold State.strict
  rw [if_neg huser, if_neg hconv, he]
  dsimp only
  rw [checkAccess_adopt he, hsame, hbytes]
  split_ifs <;> simp_all [Except.isOk, Except.toBool]

theorem isOk_map {α β : Type} (answer : Except Refusal α) (f : α → β) :
    (answer.map f).isOk = answer.isOk := by
  cases answer <;> rfl

theorem getRequired_isOk_iff (h : s.Good) (he : s.entries.get? i = some e) (huser : userId ≠ "") :
    (s.getRequired key i userId e.conversationId).1.isOk ↔
      ¬ e.pendingOfOther userId ∧ s.checkAccess key i userId "" := by
  have hstrict := @strict_isOk_iff key s i e userId 0 h he huser false
  rw [getRequired, isOk_map, hstrict]
  simp

theorem getMetadataRequired_isOk_iff (h : s.Good) (he : s.entries.get? i = some e)
    (huser : userId ≠ "") :
    (s.getMetadataRequired key i userId e.conversationId now).1.isOk ↔
      ¬ e.expired now ∧ ¬ e.pendingOfOther userId ∧ s.checkAccess key i userId "" := by
  have hstrict := @strict_isOk_iff key s i e userId now h he huser true
  rw [getMetadataRequired, isOk_map, hstrict, Bool.true_and]

/-- A file behind another one of its name is not found. -/
theorem find?_ne_of_behind (h : s.Good) {before after : PyDict FileId Entry}
    (hentries : s.entries = before ++ (i, e) :: after) {p : FileId × Entry} (hp : p ∈ before)
    (hseen : p.2.accessible userId) (hname : p.2.filename = e.filename) (alike : String → Bool) :
    (s.entries.filter fun j => j.2.accessible userId).find? (fun j => alike j.2.filename) ≠
      some (i, e) := by
  intro hfind
  have halike : alike e.filename := by simpa using List.find?_some hfind
  rw [hentries, List.filter_append, List.find?_append] at hfind
  have hsome : ((before.filter fun j => j.2.accessible userId).find? fun j =>
      alike j.2.filename).isSome :=
    List.find?_isSome.mpr ⟨p, List.mem_filter.mpr ⟨hp, hseen⟩, by rwa [hname]⟩
  obtain ⟨r, hr⟩ := Option.isSome_iff_exists.mp hsome
  rw [hr, Option.some_or] at hfind
  obtain rfl := Option.some.inj hfind
  have hmem := (List.mem_filter.mp (List.mem_of_find?_eq_some hr)).1
  have hkeys := h.keys
  rw [hentries, List.map_append, List.nodup_append] at hkeys
  exact hkeys.2.2 i (List.mem_map_of_mem hmem) i List.mem_cons_self rfl

theorem Agrees.plain (h : s.Good) (huser : userId ≠ "") (ha : s.Agrees key userId now) :
    s.Plain key userId now where
  inTime i e he hallowed := by
    have hrequired := ha.required i e he
    rw [getRequired_isOk_iff h he huser, Grants] at hrequired
    tauto
  passed before i e after hentries hseen hallowed := by
    have hmem : (i, e) ∈ s.entries := by
      rw [hentries]
      exact List.mem_append_right _ List.mem_cons_self
    refine ⟨?_, ?_⟩
    · by_contra hexpired
      refine hallowed (ha.listed "" true i ?_)
      simp only [listFiles, List.mem_map, List.mem_filter]
      exact ⟨(i, e), ⟨hmem, by simp [hseen, hexpired]⟩, rfl⟩
    · by_contra hfirst
      refine hallowed (ha.found e.filename i ?_)
      have hnone : (before.filter fun j => j.2.accessible userId).find?
          (fun j => j.2.filename = e.filename) = none := by
        refine List.find?_eq_none.mpr fun p hp hname => hfirst ?_
        exact ⟨p, (List.mem_filter.mp hp).1, (List.mem_filter.mp hp).2, of_decide_eq_true hname⟩
      rw [findByName, hentries]
      simp [List.filter_append, List.find?_append, hnone, hseen]

theorem Plain.agrees (h : s.Good) (huser : userId ≠ "") (hp : s.Plain key userId now) :
    s.Agrees key userId now where
  get i e := get_isSome_iff h
  path i e := getDiskPath_isSome_iff h
  required i e he := by
    have htime := hp.inTime i e he
    rw [getRequired_isOk_iff h he huser, Grants]
    tauto
  metadata i e he := by
    have htime := hp.inTime i e he
    rw [getMetadataRequired_isOk_iff h he huser, Grants]
    tauto
  listed conversationId includeInternal i hi := by
    obtain ⟨⟨i, e⟩, hlisted, rfl⟩ := List.mem_map.mp hi
    obtain ⟨hmem, hshown⟩ := List.mem_filter.mp hlisted
    simp only [Bool.and_eq_true, Bool.not_eq_true'] at hshown
    by_contra hallowed
    obtain ⟨before, after, hentries⟩ := List.append_of_mem hmem
    have hexpired := (hp.passed before i e after hentries hshown.1.1.1 hallowed).1
    rw [hshown.1.1.2] at hexpired
    exact Bool.false_ne_true hexpired
  found filename i hi := by
    obtain ⟨⟨i, e⟩, hfound, rfl⟩ := Option.map_eq_some_iff.mp hi
    have hmem : (i, e) ∈ s.entries.filter fun j => j.2.accessible userId := by
      rcases Option.or_eq_some_iff.mp hfound with hfind | ⟨-, hfind⟩
      · exact List.mem_of_find?_eq_some hfind
      · exact List.mem_of_find?_eq_some hfind
    obtain ⟨hmem, hseen⟩ := List.mem_filter.mp hmem
    by_contra hallowed
    obtain ⟨before, after, hentries⟩ := List.append_of_mem hmem
    obtain ⟨-, p, hbefore, hp, hname⟩ := hp.passed before i e after hentries hseen hallowed
    rcases Option.or_eq_some_iff.mp hfound with hfind | ⟨-, hfind⟩
    · exact find?_ne_of_behind h hentries hbefore hp hname (fun name => name = filename) hfind
    · exact find?_ne_of_behind h hentries hbefore hp hname (fun name =>
        occursIn filename.toList name.toList || occursIn name.toList filename.toList) hfind

/-- An upload that was published before any conversation adopted it. -/
def published : State :=
  run (fun _ => "key") [(0, .store "a" [] "text/plain" "_upload" "bob" 0 ""),
    (1, .setAccess 0 .accessPublic none "bob")]

end State

end PawFlow.FileStore.Access
