import TopDown.Report.Diagnostic
import TopDown.Report.Source

/-!
# Rendered diagnostics

A diagnostic is shown with its place in the source text, the lines that its label covers, and marks
under or beside them. A label within one line is underlined with carets. A label over several lines
is drawn as a bracket on the left; of its lines the first four and the last two are shown, and the
others only if there is just one of them.
-/

namespace TopDown.Report

/-- A text repeated. -/
def times (n : Nat) (text : String) : String := String.join (List.replicate n text)

/-- The margin left of the source: line numbers take `digits` places. -/
structure Margin where
  /-- The number of places. -/
  digits : Nat

namespace Margin

/-- The margin of a line that is none of the source. -/
def blank (m : Margin) : String := times m.digits " " ++ " "

/-- The margin of a line of the source. -/
def numbered (m : Margin) (number : Nat) : String :=
  let digits := toString number
  times (m.digits - digits.length) " " ++ digits ++ " "

end Margin

/-- The line of carets under a label within a line. An empty label counts as one byte long. -/
def carets (line : SourceLine) (label : Label) : String :=
  let start := label.start - line.start
  let stop := max (label.stop - line.start) (start + 1)
  let mark (cell : Cell) : String :=
    if cell.offset < stop && start < cell.offset + cell.char.utf8Size then times cell.width "^"
    else if cell.offset < stop then times cell.width " "
    else ""
  let afterLine : Cell := ⟨'\x00', byteLength line.shown, 1⟩
  String.join ((line.cells ++ [afterLine]).map mark)

/-- What is said after the marks of a label. -/
def spoken (label : Label) : String := if label.text.isEmpty then "" else " " ++ label.text

/-- The source of a label within a line. -/
def renderInline (m : Margin) (line : SourceLine) (label : Label) : String :=
  m.numbered line.number ++ "│ " ++ line.text ++ "\n" ++
    m.blank ++ "│ " ++ carets line label ++ spoken label ++ "\n"

/-- A line of the source beside the bracket of a label. -/
def bracketed (m : Margin) (bracket : String) (line : SourceLine) : String :=
  m.numbered line.number ++ "│" ++ bracket ++ " " ++ line.text ++ "\n"

/-- The first line of a label over several lines. The bracket begins at the line if nothing but
white space comes before the label, and at a caret under the line otherwise. -/
def renderTop (m : Margin) (line : SourceLine) (label : Label) : String :=
  if label.start - line.start ≤ line.indent then bracketed m " ╭" line
  else
    bracketed m "  " line ++
      m.blank ++ "│ ╭" ++ times (line.widthBefore (label.start + 1)) "─" ++ "^\n"

/-- The last line of a label over several lines. -/
def renderBottom (m : Margin) (line : SourceLine) (label : Label) : String :=
  bracketed m " │" line ++
    m.blank ++ "│ ╰" ++ times (line.widthBefore label.stop) "─" ++ "^" ++ spoken label ++ "\n"

/-- The lines between the first and the last of a label: the first three and the last one, and a
sign for the others unless there is just one. -/
def renderMiddle (m : Margin) (lines : List SourceLine) : String :=
  let line := bracketed m " │"
  if lines.length ≤ 5 then String.join (lines.map line)
  else
    String.join ((lines.take 3).map line) ++ m.blank ++ "· │\n" ++
      String.join ((lines.drop (lines.length - 1)).map line)

/-- The source of a label, with its place above it. -/
def renderLabel (m : Margin) (path : String) (lines : List SourceLine) (label : Label) : String :=
  let first := lineAt lines label.start
  let last := lineAt lines label.stop
  let place := m.blank ++ s!"┌─ {path}:{first.number}:{first.column label.start}\n"
  if first.number = last.number then
    place ++ m.blank ++ "│\n" ++ renderInline m first label
  else
    let middle := lines.filter fun l => first.number < l.number && l.number < last.number
    place ++ m.blank ++ "│  \n" ++
      renderTop m first label ++ renderMiddle m middle ++ renderBottom m last label

/-- The lines of a note. A line may end with a carriage return and a line feed. -/
def noteLines (note : String) : List String :=
  (linesFrom 1 0 [] note.toList).filterMap fun l =>
    match l.chars.reverse with
    | [] => none
    | '\n' :: '\r' :: rest => some (String.ofList rest.reverse)
    | '\n' :: rest => some (String.ofList rest.reverse)
    | rest => some (String.ofList rest.reverse)

/-- A note. -/
def renderNote (m : Margin) (note : String) : String :=
  String.join ((noteLines note).zipIdx.map fun (line, i) =>
    m.blank ++ (if i = 0 then "= " else "  ") ++ line ++ "\n")

/-- A diagnostic with its source and an empty line after it. -/
def Diagnostic.render (path : String) (lines : List SourceLine) (d : Diagnostic) : String :=
  let last := d.label.elim 0 fun label =>
    max (lineAt lines label.start).number (lineAt lines label.stop).number
  let m : Margin := ⟨if d.label.isSome then (toString last).length else 0⟩
  let source := d.label.elim "" fun label =>
    renderLabel m path lines label ++
      if d.notes.isEmpty then ""
      else if (lineAt lines label.start).number = (lineAt lines label.stop).number then
        m.blank ++ "│\n"
      else m.blank ++ "│  \n"
  d.severity.label ++ ": " ++ d.message ++ "\n" ++ source ++
    String.join (d.notes.map (renderNote m)) ++ "\n"

/-- The report on the errors of a text that was read from the given path. -/
def report {α : Type} (path text : String) (lexErrors : List LexError) (output : ParseOutput α) :
    String :=
  let lines := linesOf text
  String.join ((Diagnostic.ofOutput lexErrors output).map (·.render path lines))

end TopDown.Report
