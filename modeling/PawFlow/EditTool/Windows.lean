import PawFlow.Lib.Lines
import Mathlib.Data.List.Sort
import Mathlib.Data.Rat.Defs

/-!
# Places to edit

`_find_window_matches` and `_apply_replacements` of `tools/_fs_edit.py`. How alike two texts are for
a fuzzy edit, `SequenceMatcher.ratio`, is an argument.
-/

namespace PawFlow.EditTool

open PawFlow.Lib

/-- `line.expandtabs(4)`, from a column on. -/
def expandTabs (column : Nat) : Line → Line
  | [] => []
  | '\t' :: cs => List.replicate (4 - column % 4) ' ' ++ expandTabs 0 cs
  | c :: cs => c :: expandTabs (if c = '\n' ∨ c = '\r' then 0 else column + 1) cs

def lineKey (line : Line) : Line := ((expandTabs 0 line).reverse.dropWhile isSpace).reverse

def keyOf (line : Line) : Line := lineKey (rstripNewline line)

inductive MatchKind
  | exact
  | whitespace
  | fuzzy
deriving DecidableEq

structure Match where
  kind : MatchKind
  start : Nat
  stop : Nat
  actual : List Char
  score : Rat
deriving DecidableEq

/-- Where a text occurs in the rest of another, without overlaps: `skip` characters of the last
occurrence are still to be passed. -/
def occurrences (old : List Char) : (skip pos : Nat) → List Char → List Nat
  | _, _, [] => []
  | skip + 1, pos, _ :: cs => occurrences old skip (pos + 1) cs
  | 0, pos, c :: cs =>
    if old.isPrefixOf (c :: cs) then pos :: occurrences old (old.length - 1) (pos + 1) cs
    else occurrences old 0 (pos + 1) cs

section

variable (text old : List Char)

def exactMatches : List Match :=
  (occurrences old 0 0 text).map fun pos => ⟨.exact, pos, pos + old.length, old, 1⟩

def windowStart (lines : List Line) (i : Nat) : Nat := ((lines.take i).map List.length).sum

/-- The lines from one line on, as one piece of the text. -/
def windowAt (kind : MatchKind) (score : Rat) (span i : Nat) : Match :=
  let lines := splitLines text
  let actual := ((lines.drop i).take span).flatten
  ⟨kind, windowStart lines i, windowStart lines i + actual.length, actual, score⟩

def whitespaceMatches : List Match :=
  let oldKey := (splitLines old).map keyOf
  let span := oldKey.length
  (List.range ((splitLines text).length + 1 - span)).filterMap fun i =>
    if (((splitLines text).drop i).take span).map keyOf = oldKey then
      some (windowAt text .whitespace 1 span i)
    else none

/-- The runs of lines that are alike enough. -/
def fuzzyMatches (ratio : List Char → List Char → Rat) (threshold : Rat) : List Match :=
  let span := (splitLines old).length
  let spans := [span, max 1 (span - 1), span + 1].dedup.filter (· ≤ (splitLines text).length)
  let best := spans.flatMap fun span =>
    (List.range ((splitLines text).length + 1 - span)).filterMap fun i =>
      let score := ratio old (windowAt text .fuzzy 0 span i).actual
      if threshold ≤ score then some (windowAt text .fuzzy score span i) else none
  match best.insertionSort fun m m' => m'.score ≤ m.score with
  | [] => []
  | top :: rest => (top :: rest).filter fun m => top.score - m.score < 2 / 100

def findWindowMatches (ratio : List Char → List Char → Rat) (fuzzy : Bool) (threshold : Rat) :
    List Match :=
  if exactMatches text old ≠ [] then exactMatches text old
  else if splitLines old = [] ∨ splitLines text = [] then []
  else if whitespaceMatches text old ≠ [] ∨ fuzzy = false then whitespaceMatches text old
  else fuzzyMatches text old ratio threshold

end

/-! ## Replacing -/

/-- A text from a position on with windows replaced. -/
def splice (text new : List Char) (pos : Nat) : List (Nat × Nat) → List Char
  | [] => text.drop pos
  | (start, stop) :: windows => (text.take start).drop pos ++ new ++ splice text new stop windows

def selected (ms : List Match) (replaceAll : Bool) : List Match :=
  if replaceAll then ms else ms.take 1

def applyReplacements (text : List Char) (ms : List Match) (new : List Char) (replaceAll : Bool) :
    List Char :=
  splice text new 0 (((selected ms replaceAll).insertionSort fun m m' => m.start ≤ m'.start).map
    fun m => (m.start, m.stop))

end PawFlow.EditTool
