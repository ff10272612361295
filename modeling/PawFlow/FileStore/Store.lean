import PawFlow.Lib.Bytes
import PawFlow.Lib.PyDict
import PawFlow.Lib.PyString

/-!
# The file store

`store`, `store_file`, `delete`, `delete_by` and `reassign_conversation_owner` of
`core/file_store.py` as the steps that other threads can come between: what happens under the lock
of the store is one step, and so is the write of the bytes outside of it. The index on disk and the
expiry of files are left out. A path is the owner, the conversation and the bucket it is filed
under, with the parts of the name of the file.
-/

namespace PawFlow.FileStore

open PawFlow.Lib

/-- The fresh uuid of a call: how many calls came before. -/
abbrev FileId := Nat

/-- `_scope_dir(owner, conversation) / bucket`. -/
structure Dir where
  owner : String
  conversation : String
  bucket : String
deriving DecidableEq

/-- The file `{file_id}_{safe_name}` in a bucket. -/
structure FilePath where
  dir : Dir
  fileId : FileId
  safeName : String
deriving DecidableEq

structure Entry where
  filename : String
  path : FilePath
  contentType : String
  size : Nat
  createdAt : Int
  conversationId : String
  userId : String
  ttl : Int
  agentName : String
  category : String
deriving DecidableEq

/-- The arguments of `store` and `store_file`; the latter copies the bytes of its source. -/
structure Upload where
  filename : String
  content : Bytes
  contentType : String := "application/octet-stream"
  conversationId : String
  userId : String
  ttl : Int := 0
  agentName : String := ""
  category : String := ""
deriving DecidableEq

/-- Where a call of `store` stands. -/
inductive Phase
  | counted
  | reserved (dir : Dir)
  | written (dir : Dir)
  | stored
  /-- The empty id was returned. -/
  | discarded
  | raised
deriving DecidableEq

def Phase.ended : Phase → Bool
  | stored | discarded | raised => true
  | _ => false

structure Call where
  safeName : String
  upload : Upload
  /-- The wipe counter when the call began. -/
  wipes : Nat
  phase : Phase := .counted
deriving DecidableEq

def Call.path (c : Call) (i : FileId) (dir : Dir) : FilePath := ⟨dir, i, c.safeName⟩

/-- A call of `delete` or `delete_by` that has chosen what to delete. -/
structure Deletion where
  todo : List FileId
  /-- The conversation whose end it is. -/
  wiping : Option String := none
  finished : Bool := false
deriving DecidableEq

structure State where
  entries : PyDict FileId Entry := []
  conversationOwners : PyDict String String := []
  conversationWipes : PyDict String Nat := []
  conversationWiping : PyDict String Nat := []
  files : PyDict FilePath Bytes := []
  dirs : List Dir := []
  calls : List Call := []
  deletions : List Deletion := []
deriving DecidableEq

/-- `Path(name).name`. -/
def pathName (name : String) : String :=
  (((name.toList.splitOn '/').map String.ofList).filter fun part =>
    part ≠ "" ∧ part ≠ ".").getLast?.getD ""

/-- `a or b`. -/
def pyOr (a b : String) : String := if a = "" then b else a

def bucketMax : Nat := 50

namespace State

variable (s : State)

def wipeCount (conversationId : String) : Nat := (s.conversationWipes.get? conversationId).getD 0

def wipingCount (conversationId : String) : Nat := (s.conversationWiping.get? conversationId).getD 0

/-- `self._conversation_owners.get(conversation_id, owner)`. -/
def ownerOf (conversationId owner : String) : String :=
  (s.conversationOwners.get? conversationId).getD owner

def setPhase (i : FileId) (phase : Phase) : List Call := s.calls.modify i fun c => { c with phase }

/-! ## Store -/

def pickBucket (owner conversation : String) : String :=
  let buckets := ((s.dirs.filter fun d => d.owner = owner ∧ d.conversation = conversation).map
    Dir.bucket).insertionSort (· ≤ ·)
  match buckets.getLast? with
  | none => "0000"
  | some last =>
    let count := (s.files.filter fun f =>
      f.1.dir = { owner, conversation, bucket := last }).length
    if count < bucketMax then last
    else .ofList (formatDecimal 4 ((last.toNat?.getD 0) + 1))

/-- `dir.mkdir(parents=True, exist_ok=True)`. -/
def mkdir (dir : Dir) : List Dir := if dir ∈ s.dirs then s.dirs else s.dirs ++ [dir]

/-- The call begins: the wipe counter is read. -/
def start (safeName : String) (upload : Upload) : Option State :=
  if upload.userId = "" ∨ upload.conversationId = "" then none
  else some { s with
    calls := s.calls ++ [{ safeName, upload, wipes := s.wipeCount upload.conversationId }] }

def store (upload : Upload) : Option State :=
  s.start (pyOr (pathName upload.filename) "file") upload

/-- `store_file` for a source file of this name. -/
def storeFile (sourceName : String) (upload : Upload) : Option State :=
  s.start (pyOr (pyOr (pathName upload.filename) sourceName) "file") upload

/-- `_reserve_scope`. -/
def reserve (i : FileId) : Option State :=
  match s.calls[i]? with
  | none => none
  | some c =>
    if c.phase = .counted then
      let owner := s.ownerOf c.upload.conversationId c.upload.userId
      let dir : Dir := {
        owner, conversation := c.upload.conversationId
        bucket := s.pickBucket owner c.upload.conversationId }
      some { s with dirs := s.mkdir dir, calls := s.setPhase i (.reserved dir) }
    else none

/-- The bytes are written, outside of the lock. -/
def write (i : FileId) : Option State :=
  match s.calls[i]? with
  | none => none
  | some c =>
    match c.phase with
    | .reserved dir =>
      if dir ∈ s.dirs then
        some { s with
          files := s.files.set (c.path i dir) c.upload.content
          calls := s.setPhase i (.written dir) }
      else if s.wipeCount c.upload.conversationId ≠ c.wipes then
        some { s with calls := s.setPhase i .discarded }
      else some { s with calls := s.setPhase i .raised }
    | _ => none

/-- `_abandon_if_wiped`. -/
def abandons (c : Call) : Bool :=
  s.wipeCount c.upload.conversationId ≠ c.wipes || s.wipingCount c.upload.conversationId ≠ 0

/-- `os.replace(src, dest)`; `none` where there is nothing to move. -/
def replace (files : PyDict FilePath Bytes) (src dest : FilePath) :
    Option (PyDict FilePath Bytes) :=
  (files.get? src).map fun bytes => (files.erase src).set dest bytes

def entryOf (c : Call) (path : FilePath) (userId : String) (now : Int) : Entry where
  filename := c.safeName
  path
  contentType := c.upload.contentType
  size := c.upload.content.length
  createdAt := now
  conversationId := c.upload.conversationId
  userId
  ttl := c.upload.ttl
  agentName := c.upload.agentName
  category := c.upload.category

/-- The last step of a call: the file is abandoned, or follows a handoff and is registered. -/
def register (i : FileId) (now : Int) : Option State :=
  match s.calls[i]? with
  | none => none
  | some c =>
    match c.phase with
    | .written dir =>
      let path := c.path i dir
      if s.abandons c then
        some { s with files := s.files.erase path, calls := s.setPhase i .discarded }
      else
        let current := s.ownerOf c.upload.conversationId dir.owner
        if current = dir.owner then
          some { s with
            entries := s.entries.set i (entryOf c path current now)
            calls := s.setPhase i .stored }
        else
          let destDir : Dir := {
            owner := current, conversation := c.upload.conversationId, bucket := dir.bucket }
          let dest := c.path i destDir
          match replace s.files path dest with
          | none => some { s with dirs := s.mkdir destDir, calls := s.setPhase i .raised }
          | some files =>
            some { s with
              files
              dirs := s.mkdir destDir
              entries := s.entries.set i (entryOf c dest current now)
              calls := s.setPhase i .stored }
    | _ => none

/-! ## Delete -/

/-- `delete` up to the deletion. -/
def delete (fileId : FileId) (userId : String) : State :=
  match s.entries.get? fileId with
  | none => s
  | some e =>
    if userId ≠ "" ∧ e.userId ≠ "" ∧ e.userId ≠ userId then s
    else { s with deletions := s.deletions ++ [{ todo := [fileId] }] }

/-- The entry meets the filters of `delete_by`. -/
def matchesFilters (category conversationId agentName : String) (e : Entry) : Bool :=
  (category = "" || e.category = category) &&
    (conversationId = "" || e.conversationId = conversationId) &&
    (agentName = "" || e.agentName = agentName)

/-- `delete_by` ends the conversation. -/
def wipes (category conversationId agentName : String) : Bool :=
  conversationId ≠ "" && category = "" && agentName = ""

/-- The snapshot of `delete_by`. -/
def deleteBy (category conversationId agentName : String) : State :=
  let todo := (s.entries.filter fun i =>
    matchesFilters category conversationId agentName i.2).map Prod.fst
  if wipes category conversationId agentName then
    { s with
      conversationWiping :=
        s.conversationWiping.set conversationId (s.wipingCount conversationId + 1)
      deletions := s.deletions ++ [{ todo, wiping := some conversationId }] }
  else { s with deletions := s.deletions ++ [{ todo }] }

/-- `_delete_entry`; an empty bucket goes too. -/
def deleteEntry (fileId : FileId) : State :=
  match s.entries.get? fileId with
  | none => s
  | some e =>
    let files := s.files.erase e.path
    { s with
      entries := s.entries.erase fileId
      files
      dirs := if files.any fun f => f.1.dir = e.path.dir then s.dirs
        else s.dirs.filter (· ≠ e.path.dir) }

/-- One deletion of `delete_by`, or the one of `delete`. -/
def deletion (j : Nat) : Option State :=
  match s.deletions[j]? with
  | none => none
  | some d =>
    match d.todo with
    | [] => none
    | fileId :: rest =>
      let t := s.deleteEntry fileId
      some { t with deletions := t.deletions.modify j fun d => { d with todo := rest } }

/-- The final step. -/
def finish (j : Nat) : Option State :=
  match s.deletions[j]? with
  | none => none
  | some d =>
    if d.todo = [] ∧ ¬ d.finished then
      let t := { s with
        deletions := s.deletions.modify j fun d => { d with finished := true } }
      match d.wiping with
      | none => some t
      | some conversationId =>
        let left := (s.conversationWiping.get? conversationId).getD 1 - 1
        some { t with
          conversationOwners := s.conversationOwners.erase conversationId
          conversationWipes :=
            s.conversationWipes.set conversationId (s.wipeCount conversationId + 1)
          conversationWiping :=
            if 0 < left then s.conversationWiping.set conversationId left
            else s.conversationWiping.erase conversationId }
    else none

/-! ## Handoff -/

def departs (conversationId oldUserId : String) (e : Entry) : Bool :=
  e.conversationId = conversationId && e.userId = oldUserId

/-- Where a handoff moves a file. -/
def destOf (conversationId newUserId : String) (path : FilePath) : FilePath :=
  { path with dir := {
      owner := newUserId, conversation := conversationId
      bucket := if !path.dir.bucket.isEmpty && path.dir.bucket.all Char.isDigit
        then path.dir.bucket else "0000" } }

/-- The entries a handoff moves: those whose bytes are there. -/
def planned (conversationId oldUserId : String) : List (FileId × Entry) :=
  s.entries.filter fun i =>
    departs conversationId oldUserId i.2 && (s.files.get? i.2.path).isSome

/-- `os.replace` of one file of the plan, and its entry after it. -/
def moveFile (conversationId newUserId : String) (t : State) (i : FileId × Entry) : State :=
  let dest := destOf conversationId newUserId i.2.path
  { t with
    dirs := t.mkdir dest.dir
    files := (replace t.files i.2.path dest).getD t.files
    entries := t.entries.set i.1 { i.2 with userId := newUserId, path := dest } }

/-- The arguments of a handoff that does something. -/
def handsOff (conversationId oldUserId newUserId : String) : Bool :=
  conversationId ≠ "" && oldUserId ≠ "" && newUserId ≠ "" && oldUserId ≠ newUserId

/-- `reassign_conversation_owner`, when index and disk do as they are told; `none` when it raises. -/
def reassign (conversationId oldUserId newUserId : String) : Option State :=
  let conversationId := strip conversationId
  let oldUserId := strip oldUserId
  let newUserId := strip newUserId
  if handsOff conversationId oldUserId newUserId then
    let planned := s.planned conversationId oldUserId
    if planned.any fun i => (s.files.get? (destOf conversationId newUserId i.2.path)).isSome then
      none
    else
      let t := planned.foldl (moveFile conversationId newUserId) s
      some { t with conversationOwners := t.conversationOwners.set conversationId newUserId }
  else some s

end State

/-! ## Steps -/

/-- A step of one of the threads. -/
inductive Act
  | store (upload : Upload)
  | storeFile (sourceName : String) (upload : Upload)
  | reserve (i : FileId)
  | write (i : FileId)
  | register (i : FileId) (now : Int)
  | delete (fileId : FileId) (userId : String)
  | deleteBy (category conversationId agentName : String)
  | deletion (j : Nat)
  | finish (j : Nat)
  | reassign (conversationId oldUserId newUserId : String)
deriving DecidableEq

def State.step (s : State) : Act → Option State
  | .store upload => s.store upload
  | .storeFile sourceName upload => s.storeFile sourceName upload
  | .reserve i => s.reserve i
  | .write i => s.write i
  | .register i now => s.register i now
  | .delete fileId userId => some (s.delete fileId userId)
  | .deleteBy category conversationId agentName =>
    some (s.deleteBy category conversationId agentName)
  | .deletion j => s.deletion j
  | .finish j => s.finish j
  | .reassign conversationId oldUserId newUserId =>
    some ((s.reassign conversationId oldUserId newUserId).getD s)

end PawFlow.FileStore
