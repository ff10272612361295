import PawFlow.Conversation.Names
import PawFlow.FileStore.Store
import PawFlow.Lib.Compensation
import PawFlow.Lib.FileTree
import PawFlow.Lib.Json

/-!
# Moving a conversation to another owner

`reassign_owner` of `core/_conversation_store_maint.py` over the four places it changes: the
directory of the conversation with its `extras.json`, the directories of its own resources, the
file store, and the owners the store remembers. All of it is about one conversation; what is on
disk is a map from the name of a user or user directory. A step that fails at a chosen point is an
input. The operations of the rollback succeed.
-/

namespace PawFlow.Ownership

open PawFlow.Lib PawFlow.Conversation

/-- The owner that `extras.json` names (`_meta_user_id`), and its other items. -/
structure Extras where
  metaUserId : Option String := none
  others : PyDict String Json := []

inductive ExtrasFile
  | missing
  | unreadable (text : String)
  | dict (extras : Extras)

/-- `_read_extras`: what is not there or cannot be read is empty. -/
def ExtrasFile.read : ExtrasFile → Extras
  | .dict extras => extras
  | _ => {}

/-- `<store>/<user>/<conversation>/`: the extras, and the logs and whatever else is in it. -/
structure ConvDir where
  extras : ExtrasFile := .missing
  content : FileTree := []

/-- The directory after `extras.json` is replaced. -/
def ConvDir.withExtras (dir : ConvDir) (extras : Extras) : ConvDir :=
  { dir with extras := .dict extras }

structure Store where
  /-- The user directories, as `iterdir` lists them. -/
  userDirs : List String
  dirs : String → Option ConvDir
  /-- `_cid_user[cid]`. -/
  cidUser : Option String := none
  /-- `_cache[cid]["user_id"]`. -/
  cachedUser : Option String := none
  /-- The types of resources, as `iterdir` lists them. -/
  rtypes : List String := []
  /-- `<repository>/<rtype>/users/<owner>/<cid>`. -/
  resources : String → String → Option FileTree := fun _ _ => none
  files : FileStore.State := {}

/-- Where a step fails. -/
structure Faults where
  /-- `FileStore.instance()`. -/
  opening : Bool := false
  /-- The move of the resources of a type. -/
  resource : String → Bool := fun _ => false
  /-- `reassign_conversation_owner`. -/
  files : Bool := false
  /-- The move of the directory of the conversation. -/
  rename : Bool := false
  /-- `_write_extras` under the new owner. -/
  extras : Bool := false
  /-- `_reload_cache`. -/
  cache : Bool := false

inductive Answer
  | returned (moved : Bool)
  | raised
deriving DecidableEq

/-- `os.rename` of what `src` names to where nothing is. -/
def rename {κ ν : Type} [DecidableEq κ] (m : κ → Option ν) (src dest : κ) : κ → Option ν :=
  Function.update (Function.update m src none) dest (m src)

/-- `os.rename` of the resources of a type. -/
def moveResource (src dest : String) (rtype : String) (m : String → String → Option FileTree) :
    String → String → Option FileTree :=
  Function.update m rtype (rename (m rtype) src dest)

/-- The compensations of the steps that were taken. -/
structure Undo where
  resources : List String := []
  files : Bool := false
  conversation : Bool := false

variable (U : Unicode) (cid : String)

/-- `_safe_name(user_id)`. -/
def dirOf (userId : String) : String := .ofList (U.safeName userId.toList)

namespace Store

variable (s : Store)

/-- `_conv_dir(cid)`: the user directory of the conversation, remembered. -/
def convDir : Option (String × Store) :=
  match s.cidUser.filter (· ≠ "") with
  | some uid => some (dirOf U uid, s)
  | none =>
    (s.userDirs.find? fun name => (s.dirs name).isSome).map fun name =>
      (name, { s with cidUser := some name })

/-- `exists(cid)`. -/
def knows : Bool :=
  s.cidUser.isSome || s.cachedUser.isSome ||
    match s.convDir U with
    | some (name, _) => (s.dirs name).isSome
    | none => false

/-- `_load_cache(cid)["user_id"]`, empty where the read fails. -/
def loadCache : String × Store :=
  match s.cachedUser with
  | some uid => (uid, s)
  | none =>
    match s.convDir U with
    | none => ("", s)
    | some (name, s) =>
      let extras := ((s.dirs name).getD {}).extras.read
      let uid := extras.metaUserId.getD ""
      (uid, { s with cachedUser := some uid })

/-- `resolve_owner(cid)`. -/
def resolveOwner : String × Store :=
  if s.knows U then
    let (uid, s) := s.loadCache U
    if strip uid ≠ "" then (strip uid, s)
    else
      match s.convDir U with
      | some (name, s) => (name, s)
      | none => ("", s)
  else ("", s)

/-- `_write_extras(cid, data)`. -/
def writeExtras (extras : Extras) : Store :=
  match s.convDir U with
  | none => s
  | some (name, s) =>
    let dir := (s.dirs name).getD {}
    { s with dirs := Function.update s.dirs name (some (dir.withExtras extras)) }

/-- `_move_conversation_resources`: the types that were moved; `none` when it raises, with what it
had moved put back. -/
def moveResources (oldOwner newOwner : String) (fails : String → Bool) :
    Option (List String) × Store :=
  if cid = "" ∨ oldOwner = "" ∨ newOwner = "" ∨ oldOwner = newOwner then (some [], s)
  else
    let planned := s.rtypes.filter fun rtype => (s.resources rtype oldOwner).isSome
    if planned.any fun rtype => (s.resources rtype newOwner).isSome then (none, s)
    else
      match perform (moveResource oldOwner newOwner) fails [] planned s.resources with
      | (true, moved, resources) => (some moved, { s with resources })
      | (false, moved, resources) =>
        (none, { s with
          resources := compensate (moveResource newOwner oldOwner) moved resources })

/-- The `try` block: whether it went through, and what there is to undo. -/
def transfer (src dest previousOwner newUserId : String) (extras : Extras) (faults : Faults) :
    Bool × Undo × Store :=
  match s.moveResources cid previousOwner newUserId faults.resource with
  | (none, s) => (false, {}, s)
  | (some resources, s) =>
    match if faults.files then none else s.files.reassign cid previousOwner newUserId with
    | none => (false, { resources }, s)
    | some files =>
      let s := { s with files }
      if faults.rename then (false, { resources, files := true }, s)
      else
        let s := { s with
          dirs := Ownership.rename s.dirs src dest, cidUser := some newUserId }
        let undo := { resources, files := true, conversation := true }
        if faults.extras then (false, undo, s)
        else
          let s := s.writeExtras U { extras with metaUserId := some newUserId }
          if faults.cache then (false, undo, { s with cachedUser := none })
          else (true, undo, { s with cachedUser := some newUserId })

/-- The `except` block. -/
def rollBack (src dest previousOwner newUserId : String) (extras : Extras) (undo : Undo) :
    Store :=
  let s := { s with
    cidUser := some previousOwner
    dirs := if undo.conversation then Ownership.rename s.dirs dest src else s.dirs
    files :=
      if undo.files then (s.files.reassign cid newUserId previousOwner).getD s.files else s.files
    resources := compensate (moveResource newUserId previousOwner) undo.resources s.resources }
  { s.writeExtras U extras with cachedUser := none }

def reassignOwner (newUserId : String) (expectedCurrentOwner : Option String) (faults : Faults) :
    Answer × Store :=
  let newUserId := strip newUserId
  if cid = "" ∨ newUserId = "" then (.returned false, s)
  else
    match s.convDir U with
    | none => (.returned false, s)
    | some (src, s) =>
      match s.dirs src with
      | none => (.returned false, s)
      | some dir =>
        let (owner, s) := s.resolveOwner U
        let previousOwner := strip owner
        if expectedCurrentOwner.any fun expected => previousOwner ≠ strip expected then
          (.returned false, s)
        else
          let dest := dirOf U newUserId
          if src = dest then (.returned true, s)
          else if (s.dirs dest).isSome then (.returned false, s)
          else
            let extras := dir.extras.read
            if faults.opening then (.raised, s)
            else
              match s.transfer U cid src dest previousOwner newUserId extras faults with
              | (true, _, s) => (.returned true, s)
              | (false, undo, s) =>
                (.returned false,
                  s.rollBack U cid src dest previousOwner newUserId extras undo)

end Store

end PawFlow.Ownership
