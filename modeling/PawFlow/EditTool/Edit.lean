import PawFlow.EditTool.Windows
import PawFlow.Lib.FileTree
import Mathlib.Data.List.SplitOn

/-!
# Edits of files

`action_edit` and `action_batch_edit` of `tools/_fs_edit.py`. How a path is resolved below the root
is an argument, and so is the way in which a write fails: what it leaves of the file.
-/

namespace PawFlow.EditTool

open PawFlow.Lib

inductive EditError
  /-- `Invalid line range …`. -/
  | invalidLineRange (startLine endLine : Int) (lines : Nat)
  /-- `Missing 'old_string' parameter …`. -/
  | missingOldString
  /-- What `_diagnose_edit_mismatch` says. -/
  | notFound
  /-- `old_string found … times (…; use replace_all=true)`. -/
  | ambiguous (count : Nat) (kinds : List MatchKind)
  /-- `fuzzy replace_all is not supported…`. -/
  | fuzzyReplaceAll
  /-- `Missing 'edits' parameter …`. -/
  | missingEdits
  /-- `Edit …: missing 'path'`. -/
  | missingPath
  /-- `Path escapes workspace: …`. -/
  | escapes (path : String)
  /-- `Edit …: file not found: …`. -/
  | fileNotFound (path : String)
  /-- The text of an error with the position of the edit before it. -/
  | inEdit (i : Nat) (e : EditError)
  /-- A file that is no text. -/
  | unreadable
  /-- A write failed. -/
  | writeFailed
deriving DecidableEq

/-- A request to `action_edit`, or one of the edits of `action_batch_edit`. -/
structure Edit where
  path : String := ""
  oldString : Option (List Char) := none
  old : Option (List Char) := none
  oldStr : Option (List Char) := none
  newString : Option (List Char) := none
  new : Option (List Char) := none
  newStr : Option (List Char) := none
  startLine : Int := 0
  endLine : Int := 0
  replaceAll : Option Bool := none
  fuzzy : Option Bool := none
  fuzzyThreshold : Option Rat := none

/-- `float(… or 0.92)`. -/
def thresholdOf (given : Option Rat) : Rat :=
  let threshold := given.getD (92 / 100)
  if threshold = 0 then 92 / 100 else threshold

/-- `path.read_text(encoding="utf-8")`. -/
def readText (bytes : Bytes) : Option (List Char) :=
  (decodeUtf8 bytes).map fun text => translateNewlines text.toList

/-- What `path.write_text(text, encoding="utf-8")` makes of a file. -/
def writeText (text : List Char) : Bytes := encodeUtf8 (.ofList text)

section

variable (ratio : List Char → List Char → Rat)

def acceptedMatches (replaceAll fuzzy : Bool) (threshold : Rat) (text old : List Char) :
    Except EditError (List Match) :=
  let ms := findWindowMatches text old ratio fuzzy threshold
  if ms = [] then .error .notFound
  else if 1 < ms.length ∧ replaceAll = false then
    .error (.ambiguous ms.length (ms.map Match.kind).dedup)
  else if replaceAll ∧ ms.any (·.kind = .fuzzy) then .error .fuzzyReplaceAll
  else .ok ms

/-! ## One edit -/

inductive Reply
  | lines (startLine endLine : Int) (removed inserted : Nat)
  | string (replacements line : Nat) (kind : MatchKind) (similarity : Rat)
deriving DecidableEq

/-- The lines of a range are replaced. -/
def editLines (req : Edit) (new text : List Char) : Except EditError (List Char × Reply) :=
  let lines := text.splitOn '\n'
  if (lines.length : Int) < req.startLine ∨ req.endLine < req.startLine then
    .error (.invalidLineRange req.startLine req.endLine lines.length)
  else
    let s := (req.startLine - 1).toNat
    let e := min lines.length req.endLine.toNat
    let newLines := new.splitOn '\n'
    .ok (['\n'].intercalate (lines.take s ++ newLines ++ lines.drop e),
      .lines req.startLine req.endLine ((lines.take e).drop s).length newLines.length)

/-- The number of the line a match begins in. -/
def lineOf (text : List Char) (m : Match) : Nat := (text.take m.start).count '\n' + 1

def editString (req : Edit) (old new text : List Char) : Except EditError (List Char × Reply) :=
  let replaceAll := req.replaceAll.getD false
  match acceptedMatches ratio replaceAll (req.fuzzy.getD false)
      (thresholdOf req.fuzzyThreshold) text old with
  | .error e => .error e
  | .ok ms =>
    let first := ms.headD ⟨.exact, 0, 0, [], 1⟩
    .ok (applyReplacements text ms new replaceAll,
      .string (if replaceAll then ms.length else 1) (lineOf text first) first.kind first.score)

/-- `action_edit` on a file with these bytes: the reply and the bytes then. A write that fails
leaves the bytes in `fault`. -/
def actionEdit (fault : Option Bytes) (req : Edit) (bytes : Bytes) :
    Except EditError Reply × Bytes :=
  let old := ((req.oldString.or req.old).or req.oldStr).getD []
  let new := ((req.newString.or req.new).or req.newStr).getD []
  let edited : Except EditError (List Char × Reply) :=
    if 0 < req.startLine ∧ 0 < req.endLine then
      match readText bytes with
      | none => .error .unreadable
      | some text => editLines req new text
    else if old = [] then .error .missingOldString
    else
      match readText bytes with
      | none => .error .unreadable
      | some text => editString ratio req old new text
  match edited, fault with
  | .error e, _ => (.error e, bytes)
  | .ok (text, reply), none => (.ok reply, writeText text)
  | .ok _, some left => (.error .writeFailed, left)

/-! ## Several edits -/

structure BatchRequest where
  edits : List Edit := []
  replaceAll : Bool := false
  fuzzy : Bool := false
  fuzzyThreshold : Option Rat := none

structure Detail where
  index : Nat
  replacements : Nat
  kind : MatchKind
  similarity : Rat
  line : Nat
deriving DecidableEq

structure BatchReply where
  editsApplied : Nat
  totalReplacements : Nat
  details : List Detail
deriving DecidableEq

/-- The texts of the files, by their resolved paths. -/
abbrev Texts := PyDict Path (List Char)

abbrev Resolve := String → Option Path

variable (resolve : Resolve) (t : FileTree) (req : BatchRequest)

/-- Phase 1: the file of an edit is read once. -/
def readEdit (i : Nat) (edit : Edit) (contents : Texts) : Except EditError Texts :=
  if edit.path = "" then .error (.inEdit i .missingPath)
  else
    match resolve edit.path with
    | none => .error (.escapes edit.path)
    | some p =>
      if edit.oldString.getD [] = [] then .error (.inEdit i .missingOldString)
      else if (contents.get? p).isSome then .ok contents
      else
        match t.bytesAt p with
        | none => .error (.inEdit i (.fileNotFound edit.path))
        | some bytes =>
          match readText bytes with
          | none => .error .unreadable
          | some text => .ok (contents.set p text)

def BatchRequest.flagsOf (edit : Edit) : Bool × Bool × Rat :=
  (edit.replaceAll.getD req.replaceAll, edit.fuzzy.getD req.fuzzy,
    thresholdOf (edit.fuzzyThreshold.or req.fuzzyThreshold))

/-- Phase 2: an edit is applied to the text its file has by now. -/
def stageEdit (i : Nat) (edit : Edit) (working : Texts) (details : List Detail) :
    Except EditError (Texts × List Detail) :=
  match resolve edit.path with
  | none => .error (.escapes edit.path)
  | some p =>
    let text := (working.get? p).getD []
    let (replaceAll, fuzzy, threshold) := req.flagsOf edit
    match acceptedMatches ratio replaceAll fuzzy threshold text (edit.oldString.getD []) with
    | .error e => .error (.inEdit i e)
    | .ok ms =>
      let first := ms.headD ⟨.exact, 0, 0, [], 1⟩
      .ok (working.set p (applyReplacements text ms (edit.newString.getD []) replaceAll),
        details ++ [⟨i, if replaceAll then ms.length else 1, first.kind, first.score,
          lineOf text first⟩])

def stageAll (edits : List (Edit × Nat)) (working : Texts) (details : List Detail) :
    Except EditError (Texts × List Detail) :=
  edits.foldlM (fun s e => stageEdit ratio resolve req e.2 e.1 s.1 s.2) (working, details)

/-- Phases 1 and 2, which only read: the texts that will be written. -/
def stageBatch : Except EditError (Texts × List Detail) :=
  if req.edits = [] then .error .missingEdits
  else
    match req.edits.zipIdx.foldlM (fun contents e => readEdit resolve t e.2 e.1 contents) [] with
    | .error e => .error e
    | .ok contents => stageAll ratio resolve req req.edits.zipIdx contents []

/-- Phase 3: the files are written one after the other. -/
def writeAll (faults : Path → Option Bytes) : List (Path × List Char) → FileTree → Bool × FileTree
  | [], t => (true, t)
  | (p, text) :: rest, t =>
    match faults p with
    | none => writeAll faults rest (t.set p (.file (writeText text)))
    | some left => (false, t.set p (.file left))

def actionBatchEdit (faults : Path → Option Bytes) : Except EditError BatchReply × FileTree :=
  match stageBatch ratio resolve t req with
  | .error e => (.error e, t)
  | .ok (working, details) =>
    match writeAll faults working t with
    | (false, t') => (.error .writeFailed, t')
    | (true, t') =>
      (.ok ⟨req.edits.length, (details.map Detail.replacements).sum, details⟩, t')

end

end PawFlow.EditTool
