import PawFlow.Core.FlowFile
import PawFlow.Lib.Bytes

/-!
# Splitting FlowFiles

`SplitContentTask` of `tasks/control/split_content.py`, and the splitting of texts it rests on.
-/

namespace PawFlow.MergeContent

open PawFlow.Lib PawFlow.Core

/-! ## `str.split` -/

/-- The pieces of a text between the occurrences of a separator, from left to right: `piece` is
read already, and `skip` characters of the last separator are still to be passed. -/
def splitFrom (sep : List Char) : Option Nat → (skip : Nat) → (piece : List Char) → List Char →
    List (List Char)
  | _, _, piece, [] => [piece]
  | limit, skip + 1, piece, _ :: cs => splitFrom sep limit skip piece cs
  | limit, 0, piece, c :: cs =>
    if limit ≠ some 0 ∧ sep.isPrefixOf (c :: cs) then
      piece :: splitFrom sep (limit.map (· - 1)) (sep.length - 1) [] cs
    else splitFrom sep limit 0 (piece ++ [c]) cs

/-- `text.split(sep)`, at most `limit` times if one is given. -/
def splitText (sep : List Char) (limit : Option Nat) (text : List Char) : List (List Char) :=
  splitFrom sep limit 0 [] text

theorem splitFrom_ne_nil (sep : List Char) (limit : Option Nat) (skip : Nat)
    (piece text : List Char) : splitFrom sep limit skip piece text ≠ [] := by
  fun_induction splitFrom sep limit skip piece text with
  | case1 => simp
  | case2 _ _ _ _ _ ih => exact ih
  | case3 => simp
  | case4 _ _ _ _ _ ih => exact ih

/-! ## The task -/

/-- What `__init__` reads of the configuration. -/
structure SplitConfig where
  separator : String := "\n"
  keepSeparator : Bool := false
  maxSplits : Int := 0

/-- A fragment of a FlowFile split into `count` parts. -/
def fragment (f : FlowFile) (count : Nat) (clone : String × Int) (part : List Char) (i : Nat) :
    FlowFile :=
  let content := encodeUtf8 (.ofList part)
  ((({ f.clone clone.1 clone.2 with content }.setAttribute "fragment.identifier" f.processId)
    |>.setAttribute "fragment.index" (toString i))
    |>.setAttribute "fragment.count" (toString count))
    |>.setAttribute "fileSize" (toString content.length)

section

variable (cfg : SplitConfig)

def splitParts (text : List Char) : List (List Char) :=
  let sep := cfg.separator.toList
  let limit := if 0 < cfg.maxSplits then some cfg.maxSplits.toNat else none
  let parts := splitText sep limit text
  if cfg.keepSeparator ∧ 1 < parts.length then
    parts.dropLast.map (· ++ sep) ++ [parts.getLastD []]
  else parts

/-- The parts that are emitted, with their positions. -/
def keptParts (parts : List (List Char)) : List (List Char × Nat) :=
  parts.zipIdx.filter fun p => p.1 ≠ [] || cfg.keepSeparator

/-- `SplitContentTask.execute`; `clones` are the ids and times the clones are given. -/
def splitContent (clones : Nat → String × Int) (f : FlowFile) : Except String (List FlowFile) :=
  match decodeUtf8 f.content with
  | none => .error "invalid utf-8"
  | some text =>
    if cfg.separator = "" then .error "empty separator"
    else
      let parts := splitParts cfg text.toList
      let results := (keptParts cfg parts).map fun p =>
        fragment f parts.length (clones p.2) p.1 p.2
      .ok (if results = [] then [f] else results)

end

end PawFlow.MergeContent
