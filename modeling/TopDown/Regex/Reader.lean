import TopDown.Regex.Basic
import TopDown.Text.Blank
import TopDown.Text.Case
import TopDown.Text.Digit
import TopDown.Text.Word

/-!
# Pieces of the written form

The parts that the written forms of expressions and of bracketed sets share: flags, white space and
comments of the verbose mode, numbers, and escapes.

Every reader takes the characters that lie ahead and gives back what it read with the characters
left over, or nothing if the text is not well formed.
-/

namespace TopDown

namespace Regex

/-- The modes in which an expression is read. -/
structure Flags where
  /-- Letters match without regard to case. -/
  ignoreCase : Bool := false
  /-- The anchors match at the ends of lines too. -/
  multiLine : Bool := false
  /-- The dot matches a line feed too. -/
  dotAll : Bool := false
  /-- Repetitions are lazy as they stand and greedy with a question mark. -/
  swapGreed : Bool := false
  /-- White space and comments between the parts are skipped. -/
  verbose : Bool := false
deriving DecidableEq

namespace Flags

/-- Turns the flag with the given letter on or off. The letters `u` and `R` are known but change
nothing here. -/
def set? (f : Flags) (letter : Char) (on : Bool) : Option Flags :=
  match letter with
  | 'i' => some { f with ignoreCase := on }
  | 'm' => some { f with multiLine := on }
  | 's' => some { f with dotAll := on }
  | 'U' => some { f with swapGreed := on }
  | 'x' => some { f with verbose := on }
  | 'u' | 'R' => some f
  | _ => none

/-- The set, with every form of its characters where case is ignored. -/
def folded (f : Flags) (set : CharSet) : CharSet :=
  if f.ignoreCase then set.foldCase else set

end Flags

/-- Drops white space and comments if the mode is verbose. A comment runs from a number sign to the
end of its line. -/
def skipBlank (f : Flags) (text : List Char) : List Char :=
  if f.verbose then go false text else text
where
  /-- Drops what can be skipped, inside or outside of a comment. -/
  go : Bool → List Char → List Char
    | _, [] => []
    | true, c :: rest => go (c != '\n') rest
    | false, c :: rest =>
      if isBlank c then go false rest else if c == '#' then go true rest else c :: rest

/-- The value of a hexadecimal digit. -/
def hexValue? (c : Char) : Option Nat :=
  if '0' ≤ c ∧ c ≤ '9' then some (c.toNat - 0x30)
  else if 'a' ≤ c ∧ c ≤ 'f' then some (c.toNat - 0x61 + 10)
  else if 'A' ≤ c ∧ c ≤ 'F' then some (c.toNat - 0x41 + 10)
  else none

/-- The character with the given scalar value, if it is one. -/
def scalar? (n : Nat) : Option Char :=
  if h : n.isValidChar then some (Char.ofNatAux n h) else none

/-- Exactly `n` hexadecimal digits, after those with the value `acc`. -/
def readHex (f : Flags) : Nat → Nat → List Char → Option (Nat × List Char)
  | 0, acc, text => some (acc, text)
  | n + 1, acc, text =>
    match skipBlank f text with
    | [] => none
    | c :: rest => (hexValue? c).bind fun d => readHex f n (16 * acc + d) rest

/-- Hexadecimal digits up to a closing brace, after those with the value `acc`; at least one digit
has to come before the brace. -/
def readBracedHex (f : Flags) : (acc : Option Nat) → List Char → Option (Nat × List Char)
  | _, [] => none
  | acc, c :: rest =>
    if f.verbose && isBlank c then readBracedHex f acc rest
    else if c == '}' then acc.map (·, rest)
    else (hexValue? c).bind fun d => readBracedHex f (some (16 * acc.getD 0 + d)) rest

/-- The character given by its scalar value: `n` digits, or digits between braces. -/
def readScalar (f : Flags) (n : Nat) (text : List Char) : Option (Char × List Char) := do
  let (value, rest) ←
    match skipBlank f text with
    | '{' :: rest => readBracedHex f none rest
    | rest => readHex f n 0 rest
  let c ← scalar? value
  return (c, rest)

/-- What an escape or a plain character stands for. -/
inductive Primitive where
  /-- One character. -/
  | literal (c : Char)
  /-- A character of a set. -/
  | set (s : CharSet)
  /-- A condition. -/
  | assertion (a : Assertion)

/-- The conditions that are written with a name between braces. -/
def namedBoundary? (name : String) : Option Assertion :=
  match name with
  | "start" => some .wordStart
  | "end" => some .wordEnd
  | "start-half" => some .wordStartHalf
  | "end-half" => some .wordEndHalf
  | _ => none

/-- Whether the character can stand in the name of a boundary. -/
def isBoundaryNameChar (c : Char) : Bool := c.isAlpha || c == '-'

/-- The name of a boundary up to its closing brace, after the letters read so far, last first. -/
def readBoundaryName (f : Flags) : List Char → List Char → Option (Assertion × List Char)
  | _, [] => none
  | name, c :: rest =>
    if isBoundaryNameChar c then readBoundaryName f (c :: name) rest
    else if f.verbose && isBlank c then readBoundaryName f name rest
    else if c == '}' then (namedBoundary? (String.ofList name.reverse)).map (·, rest)
    else none

/-- A word boundary, whose letter has been read. A brace that no letter follows is the beginning of
a repetition. -/
def readBoundary (f : Flags) (text : List Char) : Option (Assertion × List Char) :=
  match text with
  | '{' :: rest =>
    match skipBlank f rest with
    | [] => none
    | c :: rest' =>
      if isBoundaryNameChar c then readBoundaryName f [] (c :: rest') else some (.wordBoundary, text)
  | _ => some (.wordBoundary, text)

/-- Whether a backslash before the character makes it stand for itself: it does before punctuation
and controls, but the angle brackets are word boundaries. -/
def isEscapable (c : Char) : Bool :=
  c.toNat < 0x80 && !c.isAlphanum && c != '<' && c != '>'

/-- An escape, whose backslash has been read. -/
def readEscape (f : Flags) : List Char → Option (Primitive × List Char)
  | [] => none
  | c :: rest =>
    if isEscapable c then some (.literal c, rest)
    else
      match c with
      | 'a' => some (.literal '\x07', rest)
      | 'f' => some (.literal '\x0C', rest)
      | 't' => some (.literal '\t', rest)
      | 'n' => some (.literal '\n', rest)
      | 'r' => some (.literal '\r', rest)
      | 'v' => some (.literal '\x0B', rest)
      | 'x' => (readScalar f 2 rest).map fun (c, rest) => (.literal c, rest)
      | 'u' => (readScalar f 4 rest).map fun (c, rest) => (.literal c, rest)
      | 'U' => (readScalar f 8 rest).map fun (c, rest) => (.literal c, rest)
      | 'd' => some (.set .digit, rest)
      | 'D' => some (.set (.compl .digit), rest)
      | 's' => some (.set .blank, rest)
      | 'S' => some (.set (.compl .blank), rest)
      | 'w' => some (.set .word, rest)
      | 'W' => some (.set (.compl .word), rest)
      | 'A' => some (.assertion .textStart, rest)
      | 'z' => some (.assertion .textEnd, rest)
      | 'b' => (readBoundary f rest).map fun (a, rest) => (.assertion a, rest)
      | 'B' => some (.assertion .notWordBoundary, rest)
      | '<' => some (.assertion .wordStart, rest)
      | '>' => some (.assertion .wordEnd, rest)
      | _ => none

/-- The digits of a number with white space allowed in the verbose mode, after those with the value
`acc`. -/
def readDigits (f : Flags) : (acc : Option Nat) → List Char → Option Nat × List Char
  | acc, [] => (acc, [])
  | acc, c :: rest =>
    if c.isDigit then readDigits f (some (10 * acc.getD 0 + (c.toNat - 0x30))) rest
    else if f.verbose && acc.isSome && isBlank c then readDigits f acc rest
    else (acc, c :: rest)

/-- A bound of a repetition, between white space, as far as it fits in thirty-two bits. -/
def readBound (f : Flags) (text : List Char) : Option (Nat × List Char) :=
  match readDigits f none (text.dropWhile isBlank) with
  | (some n, rest) => if n < 0x100000000 then some (n, rest.dropWhile isBlank) else none
  | (none, _) => none

/-- The bounds of a counted repetition up to its closing brace, whose opening brace has been
read. -/
def readBounds (f : Flags) (text : List Char) : Option ((Nat × Option Nat) × List Char) := do
  let (least, rest) ← readBound f (skipBlank f text)
  match rest with
  | '}' :: rest => return ((least, some least), rest)
  | ',' :: rest =>
    match skipBlank f rest with
    | '}' :: rest => return ((least, none), rest)
    | rest =>
      match ← readBound f rest with
      | (most, '}' :: rest) => if least ≤ most then return ((least, some most), rest) else none
      | _ => none
  | _ => none

end Regex

end TopDown
