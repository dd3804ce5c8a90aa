import TopDown.Lexer
import TopDown.Text.Blank
import TopDown.Text.Width

/-!
# Lines of a source text

A line begins at the beginning of the text or after a line feed. An offset belongs to the last line
that begins at or before it. Offsets count bytes in UTF-8, columns of a line count characters, and
the width of a text counts columns of a terminal, where tabs go on to the next multiple of four.
-/

namespace TopDown.Report

/-- A line of a text. -/
structure SourceLine where
  /-- The number of the line, counted from one. -/
  number : Nat
  /-- The offset where the line begins. -/
  start : Nat
  /-- The characters of the line with its line feed. -/
  chars : List Char

/-- The lines of a text that begins with the given line number and offset; the characters of the
line so far are given last first. -/
def linesFrom (number start : Nat) (line : List Char) : List Char → List SourceLine
  | [] => [⟨number, start, line.reverse⟩]
  | c :: rest =>
    if c = '\n' then
      let chars := (c :: line).reverse
      ⟨number, start, chars⟩ :: linesFrom (number + 1) (start + byteLength chars) [] rest
    else linesFrom number start (c :: line) rest

/-- The lines of a text. There is always at least one. -/
def linesOf (text : String) : List SourceLine := linesFrom 1 0 [] text.toList

/-- The line that an offset belongs to. -/
def lineAt (lines : List SourceLine) (offset : Nat) : SourceLine :=
  ((lines.filter (·.start ≤ offset)).getLast?).getD ⟨1, 0, []⟩

/-- A character of a line with its place. -/
structure Cell where
  /-- The character. -/
  char : Char
  /-- The number of bytes before it in the line. -/
  offset : Nat
  /-- The number of columns that it takes. -/
  width : Nat

/-- The cells of characters after so many bytes and columns of their line. -/
def cellsFrom (offset column : Nat) : List Char → List Cell
  | [] => []
  | c :: rest =>
    let width := if c = '\t' then 4 - column % 4 else charWidth c
    ⟨c, offset, width⟩ :: cellsFrom (offset + c.utf8Size) (column + width) rest

namespace SourceLine

/-- The line without its line feed and what else of its kind is at its end. -/
def shown (l : SourceLine) : List Char :=
  (l.chars.reverse.dropWhile fun c => c = '\n' || c = '\r' || c = '\x00').reverse

/-- The cells of the line as it is shown. -/
def cells (l : SourceLine) : List Cell := cellsFrom 0 0 l.shown

/-- The line as it is shown, with spaces for tabs. -/
def text (l : SourceLine) : String :=
  String.ofList (l.cells.flatMap fun cell =>
    if cell.char = '\t' then List.replicate cell.width ' ' else [cell.char])

/-- The number of bytes of white space that the line begins with. -/
def indent (l : SourceLine) : Nat := byteLength (l.shown.takeWhile isBlank)

/-- The column of an offset of the line, counted from one. -/
def column (l : SourceLine) (offset : Nat) : Nat :=
  ((cellsFrom l.start 0 l.chars).filter fun cell =>
    cell.offset + cell.char.utf8Size ≤ offset).length + 1

/-- The width of the part of the line whose characters begin before the offset. -/
def widthBefore (l : SourceLine) (offset : Nat) : Nat :=
  (l.cells.takeWhile fun cell => l.start + cell.offset < offset).foldl (· + ·.width) 0

end SourceLine

end TopDown.Report
