import PawFlow.Lib.FileTree
import PawFlow.Lib.Lines

/-!
# OpenAI patches

`_apply_openai_patch` of `tools/_fs_edit.py`: the sections of a patch are applied in memory, one
after the other, to the texts of the files they name, and the staged texts are then written out.
When a write fails, the files and the directories made so far are put back.

The resolution of a path below the root is an argument, and so are the failures of the file system.
-/

namespace PawFlow.PatchTool

open PawFlow.Lib

inductive PatchError
  /-- `OpenAI patch must start with '*** Begin Patch'`. -/
  | missingBegin
  /-- `OpenAI patch missing '*** End Patch'`. -/
  | missingEnd
  /-- `Invalid Add File line for …`. -/
  | invalidAddLine (path : String)
  /-- `Invalid Update File line for …`. -/
  | invalidUpdateLine (path : String)
  /-- `Unsupported patch marker: …`. -/
  | unsupportedMarker (marker : String)
  /-- `Patch did not contain any applicable hunks`. -/
  | noSections
  /-- `Patch target path is empty`. -/
  | emptyPath
  /-- `Path escapes workspace: …`. -/
  | escapes (path : String)
  /-- `Add File target already exists: …`. -/
  | alreadyExists (rel : String)
  /-- `Delete File target does not exist: …` and `Update File target does not exist: …`. -/
  | doesNotExist (rel : String)
  /-- `Patch context not found in …`. -/
  | contextNotFound (rel : String)
  /-- `Patch did not contain applicable hunks for …`. -/
  | noHunks (rel : String)
  /-- `Patch did not modify any files`. -/
  | nothingModified
  /-- A file that cannot be read, or is no text. -/
  | unreadable
  /-- A write, unlink or mkdir failed; how many steps of the rollback did, too. -/
  | failed (rollbackErrors : Nat)
deriving DecidableEq

/-! ## Sections -/

inductive Section
  | add (path : String) (body : List Line)
  | delete (path : String)
  | update (path : String) (hunks : List (List Line)) (moveTo : Option String)
deriving DecidableEq

/-- Where `_parse_openai_patch_sections` is. -/
inductive ParseState
  | top
  | inAdd (path : String) (body : List Line)
  | inUpdate (path : String) (hunks : List (List Line)) (current : List Line)
      (moveTo : Option String)

def hasPrefix (pre : String) (line : Line) : Bool := pre.toList.isPrefixOf line

/-- What follows a marker. -/
def afterMarker (pre : String) (line : Line) : String :=
  strip (.ofList (line.drop pre.toList.length))

def isBlank (line : Line) : Bool := strip (.ofList line) = ""

/-- `if current: hunks.append(current)`. -/
def closeHunk (hunks : List (List Line)) (current : List Line) : List (List Line) :=
  if current.isEmpty then hunks else hunks ++ [current]

namespace ParseState

/-- The line belongs to the section. -/
def continues (marker : Line) : ParseState → Bool
  | top => false
  | inAdd _ _ => !hasPrefix "*** " marker
  | inUpdate _ _ _ _ =>
    !(hasPrefix "*** Update File: " marker || hasPrefix "*** Add File: " marker ||
      hasPrefix "*** Delete File: " marker || marker = "*** End Patch".toList)

/-- The section, where a line ends it. -/
def close : ParseState → List Section
  | top => []
  | inAdd path body => [.add path body]
  | inUpdate path hunks current moveTo => [.update path (closeHunk hunks current) moveTo]

/-- One line of a section. -/
def bodyLine (line marker : Line) : ParseState → Except PatchError ParseState
  | top => .ok top
  | inAdd path body =>
    if hasPrefix "+" line then .ok (inAdd path (body ++ [line.drop 1]))
    else if isBlank line then .ok (inAdd path body)
    else .error (.invalidAddLine path)
  | inUpdate path hunks current moveTo =>
    if hasPrefix "*** Move to: " marker then
      .ok (inUpdate path hunks current (some (afterMarker "*** Move to: " marker)))
    else if marker = "*** End of File".toList then .ok (inUpdate path hunks current moveTo)
    else if hasPrefix "@@" line then .ok (inUpdate path (closeHunk hunks current) [] moveTo)
    else if hasPrefix " " line || hasPrefix "+" line || hasPrefix "-" line then
      .ok (inUpdate path hunks (current ++ [line]) moveTo)
    else if hasPrefix "\\ No newline" marker then .ok (inUpdate path hunks current moveTo)
    else if isBlank marker then .ok (inUpdate path hunks current moveTo)
    else .error (.invalidUpdateLine path)

/-- A line outside the sections: the new state, and a section that is complete. -/
def topLine (marker : Line) : Except PatchError (ParseState × List Section) :=
  if hasPrefix "*** Add File: " marker then
    .ok (inAdd (afterMarker "*** Add File: " marker) [], [])
  else if hasPrefix "*** Delete File: " marker then
    .ok (top, [.delete (afterMarker "*** Delete File: " marker)])
  else if hasPrefix "*** Update File: " marker then
    .ok (inUpdate (afterMarker "*** Update File: " marker) [] [] none, [])
  else if isBlank marker then .ok (top, [])
  else .error (.unsupportedMarker (.ofList marker))

end ParseState

def parseLines (state : ParseState) (sections : List Section) :
    List Line → Except PatchError (List Section)
  | [] => .error .missingEnd
  | line :: rest =>
    let marker := rstripNewline line
    if state.continues marker then
      match state.bodyLine line marker with
      | .error e => .error e
      | .ok state => parseLines state sections rest
    else if marker = "*** End Patch".toList then .ok (sections ++ state.close)
    else
      match ParseState.topLine marker with
      | .error e => .error e
      | .ok (state', done) => parseLines state' (sections ++ state.close ++ done) rest

/-- `_parse_openai_patch_sections`. -/
def parseSections (patch : String) : Except PatchError (List Section) :=
  match splitLines patch.toList with
  | [] => .error .missingBegin
  | first :: rest =>
    if rstripNewline first = "*** Begin Patch".toList then parseLines .top [] rest
    else .error .missingBegin

/-! ## Hunks -/

def findPatchSequence (lines seq : List Line) (start : Nat) : Option Nat :=
  if seq.isEmpty then some start
  else
    let places := List.range (lines.length + 1 - seq.length)
    let fits := fun i => decide ((lines.drop i).take seq.length = seq)
    ((places.filter fun i => start ≤ i).find? fits).or (places.find? fits)

def sideOf (marks : List Char) (hunk : List Line) : List Line :=
  hunk.filterMap fun line =>
    match line with
    | [] => none
    | mark :: body => if mark ∈ marks then some body else none

structure HunkState where
  lines : List Line
  cursor : Nat := 0
  applied : Nat := 0

def applyHunk (rel : String) (s : HunkState) (hunk : List Line) : Except PatchError HunkState :=
  let old := sideOf [' ', '-'] hunk
  let new := sideOf [' ', '+'] hunk
  if old.isEmpty && new.isEmpty then .ok s
  else
    match findPatchSequence s.lines old s.cursor with
    | none => .error (.contextNotFound rel)
    | some pos =>
      .ok ⟨s.lines.take pos ++ new ++ s.lines.drop (pos + old.length), pos + new.length,
        s.applied + 1⟩

/-- `_apply_patch_hunks`: the new text and how many hunks were applied. -/
def applyPatchHunks (content : String) (hunks : List (List Line)) (rel : String) :
    Except PatchError (String × Nat) :=
  (hunks.foldlM (applyHunk rel) ⟨splitLines content.toList, 0, 0⟩).map fun s =>
    (.ofList s.lines.flatten, s.applied)

/-! ## Staging -/

/-- `_resolve_tool_path(…).resolve()` with the path relative to the root. -/
abbrev Resolve := String → Except PatchError (Path × String)

def patchTarget (resolve : Resolve) (raw : String) : Except PatchError (Path × String) :=
  let name := strip raw
  if name = "" then .error .emptyPath
  else if startsWith name "a/" || startsWith name "b/" then resolve (.ofList (name.toList.drop 2))
  else resolve name

/-- `path.read_text(encoding="utf-8")` of these bytes. -/
def readText (bytes : Bytes) : Except PatchError String :=
  match decodeUtf8 bytes with
  | some text => .ok (.ofList (translateNewlines text.toList))
  | none => .error .unreadable

abbrev Pending := PyDict Path (Option String)

structure Staged where
  pending : Pending := []
  filesModified : List String := []
  hunksApplied : Nat := 0

namespace Staged

variable (t : FileTree) (s : Staged)

/-- `_exists`. -/
def targetExists (p : Path) : Bool :=
  match s.pending.get? p with
  | some content => content.isSome
  | none => t.exists? p

/-- `_read`. -/
def targetText (p : Path) : Except PatchError String :=
  match s.pending.get? p with
  | some (some text) => .ok text
  | some none => .error (.doesNotExist "")
  | none =>
    match t.get? p with
    | some (.file bytes) => readText bytes
    | _ => .error .unreadable

/-- `files_modified` with one more file. -/
def modified (rel : String) : List String :=
  if rel ∈ s.filesModified then s.filesModified else s.filesModified ++ [rel]

def stage (resolve : Resolve) : Section → Except PatchError Staged
  | .add path body =>
    match patchTarget resolve path with
    | .error e => .error e
    | .ok (target, rel) =>
      if s.targetExists t target then .error (.alreadyExists rel)
      else .ok ⟨s.pending.set target (some (.ofList body.flatten)), s.modified rel,
        s.hunksApplied + 1⟩
  | .delete path =>
    match patchTarget resolve path with
    | .error e => .error e
    | .ok (target, rel) =>
      if s.targetExists t target then
        .ok ⟨s.pending.set target none, s.modified rel, s.hunksApplied + 1⟩
      else .error (.doesNotExist rel)
  | .update path hunks moveTo =>
    match patchTarget resolve path with
    | .error e => .error e
    | .ok (target, rel) =>
      if !s.targetExists t target then .error (.doesNotExist rel)
      else
        match s.targetText t target with
        | .error e => .error e
        | .ok text =>
          match applyPatchHunks text hunks rel with
          | .error e => .error e
          | .ok (content, applied) =>
            let hunksApplied := s.hunksApplied + (if applied = 0 then 1 else applied)
            match moveTo.filter fun name => name ≠ "" with
            | none =>
              if applied = 0 then .error (.noHunks rel)
              else .ok ⟨s.pending.set target (some content), s.modified rel, hunksApplied⟩
            | some name =>
              match patchTarget resolve name with
              | .error e => .error e
              | .ok (dest, destRel) =>
                let pending :=
                  if dest ≠ target then s.pending.set target none else s.pending
                .ok ⟨pending.set dest (some content), s.modified destRel, hunksApplied⟩

end Staged

/-! ## Writing -/

/-- What the file system does to one staged file. -/
inductive Fault
  /-- `unlink`, or the first look at the directories, fails. -/
  | refused
  /-- `mkdir` fails after this many directories. -/
  | mkdir (made : Nat)
  /-- `write_text` fails, and has left the file with these bytes or has not opened it. -/
  | write (left : Option Bytes)
deriving DecidableEq

structure Commit where
  tree : FileTree
  createdDirs : List Path := []

namespace Commit

/-- One staged file; `none` where it raises, beside the state it leaves. -/
def writeOne (c : Commit) (fault : Option Fault) (target : Path) (content : Option String) :
    Commit × Bool :=
  match content with
  | none =>
    match fault, c.tree.unlink target with
    | none, some tree => ({ c with tree }, true)
    | _, _ => (c, false)
  | some text =>
    if fault = some .refused then (c, false)
    else
      let missing := c.tree.missing target
      let created := c.createdDirs ++ missing.filter fun d => d ∉ c.createdDirs
      match fault, c.tree.mkdirAbove target with
      | _, none => (⟨c.tree, created⟩, false)
      | some (.mkdir made), some _ =>
        (⟨c.tree.makeDirs (missing.reverse.take made), created⟩, false)
      | some (.write (some left)), some tree =>
        (⟨(tree.write target left).getD tree, created⟩, false)
      | some _, some tree => (⟨tree, created⟩, false)
      | none, some tree =>
        match tree.write target (encodeUtf8 text) with
        | some tree => (⟨tree, created⟩, true)
        | none => (⟨tree, created⟩, false)

/-- The loop over the staged files. -/
def writeAll (faults : Path → Option Fault) (c : Commit) : Pending → Commit × Bool
  | [] => (c, true)
  | (target, content) :: rest =>
    match c.writeOne (faults target) target content with
    | (c, true) => writeAll faults c rest
    | (c, false) => (c, false)

end Commit

/-- The tree and the number of errors of a rollback. -/
structure Rollback where
  tree : FileTree
  errors : Nat := 0

namespace Rollback

/-- A step that keeps the tree where it fails. -/
def attempt (r : Rollback) (tree : Option FileTree) : Rollback :=
  match tree with
  | some tree => { r with tree }
  | none => { r with errors := r.errors + 1 }

/-- One file as it was. -/
def restore (r : Rollback) (target : Path) (original : Option Bytes) : Rollback :=
  match original with
  | none => r.attempt (r.tree.unlink target)
  | some bytes =>
    match r.tree.mkdirAbove target with
    | none => r.attempt none
    | some tree => attempt { r with tree } (tree.write target bytes)

/-- The files, then the directories that were made, innermost first. -/
def run (tree : FileTree) (originals : PyDict Path (Option Bytes)) (dirs : List Path) : Rollback :=
  let r := originals.foldl (fun r i => r.restore i.1 i.2) ⟨tree, 0⟩
  (dirs.insertionSort fun a b => b.length ≤ a.length).foldl (fun r d => r.attempt (r.tree.rmdir d)) r

end Rollback

/-- `originals`: a target that is a directory cannot be read. -/
def originals (t : FileTree) (pending : Pending) : Option (PyDict Path (Option Bytes)) :=
  if pending.any fun i => t.isDir i.1 then none
  else some (pending.map fun i => (i.1, t.bytesAt i.1))

structure Summary where
  filesModified : List String
  hunksApplied : Nat
deriving DecidableEq

/-- The staged texts, written out. `setOrder` is the order a Python set is walked in. -/
def writeOut (setOrder : List Path → List Path) (faults : Path → Option Fault) (t : FileTree)
    (s : Staged) : Except PatchError Summary × FileTree :=
  match originals t s.pending with
  | none => (.error .unreadable, t)
  | some before =>
    match Commit.writeAll faults ⟨t, []⟩ s.pending with
    | (c, true) => (.ok ⟨s.filesModified, s.hunksApplied⟩, c.tree)
    | (c, false) =>
      let r := Rollback.run c.tree before (setOrder c.createdDirs)
      (.error (.failed r.errors), r.tree)

/-- The sections, applied in memory. -/
def stageAll (resolve : Resolve) (t : FileTree) (sections : List Section) :
    Except PatchError Staged :=
  sections.foldlM (fun s => s.stage t resolve) {}

def applySections (resolve : Resolve) (setOrder : List Path → List Path)
    (faults : Path → Option Fault) (t : FileTree) (sections : List Section) :
    Except PatchError Summary × FileTree :=
  if sections.isEmpty then (.error .noSections, t)
  else
    match stageAll resolve t sections with
    | .error e => (.error e, t)
    | .ok s =>
      if s.filesModified.isEmpty || s.hunksApplied = 0 then (.error .nothingModified, t)
      else writeOut setOrder faults t s

def applyOpenAiPatch (resolve : Resolve) (setOrder : List Path → List Path)
    (faults : Path → Option Fault) (t : FileTree) (patch : String) :
    Except PatchError Summary × FileTree :=
  match parseSections patch with
  | .error e => (.error e, t)
  | .ok sections => applySections resolve setOrder faults t sections

end PawFlow.PatchTool
