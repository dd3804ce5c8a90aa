import TopDown.Regex.Bracket
import TopDown.Text.Letter

/-!
# Reading regular expressions

The written form of regular expressions. A text is read in one pass: the groups that are open are
kept in a list, the innermost first, and each holds the branches and parts that were read before it.

Flags that stand alone hold to the end of the group they stand in, also in its later branches; those
of a group hold inside it.
-/

namespace TopDown

namespace Regex

/-- The contents of a group as far as they have been read. -/
structure Contents where
  /-- The branches before the one that is being read, last first. -/
  branches : List Regex := []
  /-- The parts of the branch that is being read, last first; a change of flags leaves a part that
  cannot be repeated. -/
  parts : List (Option Regex) := []

namespace Contents

/-- The contents with one more part. -/
def push (c : Contents) (r : Regex) : Contents := { c with parts := some r :: c.parts }

/-- The branch that is being read. -/
def branch (c : Contents) : Regex := sequence (c.parts.reverse.filterMap id)

/-- Begins another branch. -/
def nextBranch (c : Contents) : Contents := ⟨c.branch :: c.branches, []⟩

/-- The expression that the contents make up. -/
def toRegex (c : Contents) : Regex :=
  match c.branches with
  | [] => c.branch
  | before => alternation (c.branch :: before).reverse

/-- Repeats the last part, if it can be repeated. -/
def repeatLast (c : Contents) (least : Nat) (most : Option Nat) (greedy : Bool) :
    Option Contents :=
  match c.parts with
  | some r :: before => some { c with parts := some (repetition r least most greedy) :: before }
  | _ => none

end Contents

/-- A group that is open. -/
structure OpenGroup where
  /-- What was read before the group. -/
  outer : Contents
  /-- The flags that hold again after the group. -/
  flags : Flags
  /-- Whether the group captures what it matches. -/
  capturing : Bool

/-- What an opening parenthesis begins. -/
inductive Opening where
  /-- A change of flags. -/
  | change (flags : Flags)
  /-- A group with flags of its own. -/
  | group (flags : Flags)
  /-- A group that captures, with its name if it has one. -/
  | capture (name : Option String)

/-- The flags up to a colon or a closing parenthesis: the new flags, whether the list had any entry,
and whether a colon ended it. Each letter and the sign of negation may occur once, and the sign not
as the last entry. -/
def readFlags : (seen : List Char) → Flags → List Char → Option ((Flags × Bool × Bool) × List Char)
  | _, _, [] => none
  | seen, f, c :: rest =>
    if c == ':' || c == ')' then
      if seen.head? == some '-' then none else some ((f, !seen.isEmpty, c == ':'), rest)
    else if seen.contains c then none
    else if c == '-' then readFlags (c :: seen) f rest
    else (f.set? c (!seen.contains '-')).bind fun f => readFlags (c :: seen) f rest

/-- Whether the character can stand in the name of a group; the first one has to be a letter or an
underscore. -/
def isNameChar (first : Bool) (c : Char) : Bool :=
  c == '_' || if first then isLetter c else c == '.' || c == '[' || c == ']' || isLetterOrNumber c

/-- The name of a group up to its closing angle bracket. -/
def readName (text : List Char) : Option (String × List Char) :=
  let name := text.takeWhile (· != '>')
  match text.drop name.length with
  | '>' :: rest =>
    match name with
    | [] => none
    | c :: cs => if isNameChar true c && cs.all (isNameChar false) then
        some (String.ofList name, rest) else none
  | _ => none

/-- What follows an opening parenthesis. Conditions on what comes before or after are not part of
the language. -/
def readOpening (f : Flags) (text : List Char) : Option (Opening × List Char) :=
  match skipBlank f text with
  | '?' :: '=' :: _ | '?' :: '!' :: _ | '?' :: '<' :: '=' :: _ | '?' :: '<' :: '!' :: _ => none
  | '?' :: 'P' :: '<' :: rest | '?' :: '<' :: rest =>
    (readName rest).map fun (name, rest) => (.capture (some name), rest)
  | '?' :: rest =>
    match readFlags [] f rest with
    | some ((f, _, true), rest) => some (.group f, rest)
    | some ((f, true, false), rest) => some (.change f, rest)
    | _ => none
  | rest => some (.capture none, rest)

/-- Whether a question mark comes next, which turns a greedy repetition into a lazy one. -/
def readLazy : List Char → Bool × List Char
  | '?' :: rest => (true, rest)
  | text => (false, text)

/-- A repetition sign: the bounds, and whether the repetition is marked as lazy. -/
def readRepetition (f : Flags) : List Char → Option ((Nat × Option Nat) × Bool × List Char)
  | '?' :: rest => some ((0, some 1), readLazy rest)
  | '*' :: rest => some ((0, none), readLazy rest)
  | '+' :: rest => some ((1, none), readLazy rest)
  | '{' :: rest =>
    (readBounds f rest).map fun (bounds, rest) =>
      match readLazy (skipBlank f rest) with
      | (false, _) => (bounds, false, rest)
      | (true, rest) => (bounds, true, rest)
  | _ => none

/-- The expression that a primitive stands for. -/
def ofPrimitive (f : Flags) : Primitive → Regex
  | .literal c => .chars (f.folded (.single c))
  | .set s => .chars s
  | .assertion a => .assertion a

/-- One character, escape or bracketed set. -/
def readAtom (f : Flags) : List Char → Option (Regex × List Char)
  | [] => none
  | '.' :: rest => some (.chars (if f.dotAll then .all else .compl (.single '\n')), rest)
  | '^' :: rest => some (.assertion (if f.multiLine then .lineStart else .textStart), rest)
  | '$' :: rest => some (.assertion (if f.multiLine then .lineEnd else .textEnd), rest)
  | '[' :: rest => (readBracket f rest).map fun (set, rest) => (.chars set, rest)
  | '\\' :: rest => (readEscape f rest).map fun (p, rest) => (ofPrimitive f p, rest)
  | c :: rest => some (ofPrimitive f (.literal c), rest)

/-- Reads on inside the innermost group; the others are still to be closed after it. The names are
those of the groups opened so far. Each turn reads at least one of at most `room` characters. -/
def readFrom : (room : Nat) → Flags → Contents → List OpenGroup → (names : List String) →
    List Char → Option Regex
  | 0, _, _, _, _, _ => none
  | room + 1, f, inner, outer, names, text =>
    match skipBlank f text with
    | [] => if outer.isEmpty then some inner.toRegex else none
    | '(' :: rest =>
      match readOpening f rest with
      | none => none
      | some (.change f', rest) =>
        readFrom room f' { inner with parts := none :: inner.parts } outer names rest
      | some (.group f', rest) => readFrom room f' {} (⟨inner, f, false⟩ :: outer) names rest
      | some (.capture none, rest) => readFrom room f {} (⟨inner, f, true⟩ :: outer) names rest
      | some (.capture (some name), rest) =>
        if names.contains name then none
        else readFrom room f {} (⟨inner, f, true⟩ :: outer) (name :: names) rest
    | ')' :: rest =>
      match outer with
      | [] => none
      | g :: outer =>
        let r := inner.toRegex
        readFrom room g.flags (g.outer.push (if g.capturing then .group r else r)) outer names rest
    | '|' :: rest => readFrom room f inner.nextBranch outer names rest
    | c :: rest =>
      if c == '?' || c == '*' || c == '+' || c == '{' then
        match readRepetition f (c :: rest) with
        | none => none
        | some ((least, most), marked, rest) =>
          match inner.repeatLast least most (marked == f.swapGreed) with
          | none => none
          | some inner => readFrom room f inner outer names rest
      else
        match readAtom f (c :: rest) with
        | none => none
        | some (r, rest) => readFrom room f (inner.push r) outer names rest

/-- The expression that the text is the written form of. -/
def parse? (text : String) : Option Regex :=
  let chars := text.toList
  readFrom (chars.length + 1) {} {} [] [] chars

end Regex

end TopDown
