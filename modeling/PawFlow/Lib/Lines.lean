import PawFlow.Lib.PyString

/-!
# Lines

`str.splitlines` and the newline handling of Python's text files.
-/

namespace PawFlow.Lib

abbrev Line := List Char

/-- The characters at which `str.splitlines` breaks. -/
def isLineBreak (c : Char) : Bool :=
  let n := c.toNat
  (10 ≤ n && n ≤ 13) || (28 ≤ n && n ≤ 30) || n = 0x85 || n = 0x2028 || n = 0x2029

/-- The lines of a text whose first line so far is `acc`, reversed. -/
def splitLinesFrom (acc : Line) : List Char → List Line
  | [] => if acc.isEmpty then [] else [acc.reverse]
  | '\r' :: '\n' :: rest => (acc.reverse ++ ['\r', '\n']) :: splitLinesFrom [] rest
  | c :: rest =>
    if isLineBreak c then (acc.reverse ++ [c]) :: splitLinesFrom [] rest
    else splitLinesFrom (c :: acc) rest

/-- `text.splitlines(True)`. -/
def splitLines (text : List Char) : List Line := splitLinesFrom [] text

/-- `line.rstrip("\r\n")`. -/
def rstripNewline (line : Line) : Line :=
  (line.reverse.dropWhile fun c => c = '\r' || c = '\n').reverse

/-- The newlines of a text file, as a file opened in text mode reads them. -/
def translateNewlines : List Char → List Char
  | [] => []
  | '\r' :: '\n' :: rest => '\n' :: translateNewlines rest
  | '\r' :: rest => '\n' :: translateNewlines rest
  | c :: rest => c :: translateNewlines rest

end PawFlow.Lib
