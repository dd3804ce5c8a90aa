import TopDown.Text.CharSet

/-!
# Regular expressions

The syntax of regular expressions after reading: flags have been applied, so a letter read without
regard to case is already a set of characters, and a dot is the set it stands for.

`Regex.minLength?` is a lower bound on the length of a match. It gives no bound at all for an
expression with a part that cannot match, so a bound of zero means that some match may be empty.
-/

namespace TopDown

/-- A condition on the place of the cursor; it passes no character. -/
inductive Assertion where
  /-- Nothing has been passed. -/
  | textStart
  /-- Nothing lies ahead. -/
  | textEnd
  /-- Nothing has been passed, or a line feed was passed last. -/
  | lineStart
  /-- Nothing lies ahead, or a line feed comes next. -/
  | lineEnd
  /-- Exactly one of the two neighbours is a word character. -/
  | wordBoundary
  /-- Both neighbours are word characters, or neither is. -/
  | notWordBoundary
  /-- A word begins here. -/
  | wordStart
  /-- A word ends here. -/
  | wordEnd
  /-- No word character was passed last. -/
  | wordStartHalf
  /-- No word character comes next. -/
  | wordEndHalf
deriving DecidableEq

/-- A regular expression. -/
inductive Regex where
  /-- Matches the empty text. -/
  | empty
  /-- Matches one character of the set. -/
  | chars (set : CharSet)
  /-- Matches the empty text where the condition holds. -/
  | assertion (a : Assertion)
  /-- Matches the first and then the second. -/
  | seq (first second : Regex)
  /-- Matches the first or, if that leads to no match, the second. -/
  | alt (first second : Regex)
  /-- Matches the body at least `min` and at most `max` times, as often as possible if `greedy`
  and as seldom as possible otherwise. -/
  | repeat (body : Regex) (min : Nat) (max : Option Nat) (greedy : Bool)
  /-- A group of its own, which matches what its body matches. -/
  | group (body : Regex)
deriving DecidableEq

namespace Regex

/-- The expression that matches nothing. -/
def never : Regex := .chars .empty

/-- A lower bound on the length of a match; none if some part can match nothing at all. -/
def minLength? : Regex → Option Nat
  | .empty => some 0
  | .chars set => if set.isEmpty then none else some 1
  | .assertion _ => some 0
  | .seq first second =>
    match first.minLength?, second.minLength? with
    | some m, some n => some (m + n)
    | _, _ => none
  | .alt first second =>
    match first.minLength?, second.minLength? with
    | some m, some n => some (min m n)
    | _, _ => none
  | .repeat body least _ _ => body.minLength?.map (· * least)
  | .group body => body.minLength?

/-- The parts one after the other. Empty parts are dropped. -/
def sequence : List Regex → Regex
  | [] => .empty
  | r :: rest =>
    match r, sequence rest with
    | .empty, tail => tail
    | r, .empty => r
    | r, tail => .seq r tail

/-- Whether the expression is one fixed character. -/
def isLiteral : Regex → Bool
  | .chars set => set.isSingle
  | _ => false

/-- Whether the expression is a set of characters other than one fixed character. -/
def isClass : Regex → Bool
  | .chars set => !set.isSingle
  | _ => false

/-- The set of characters of an expression that is one, or none. -/
def charSet : Regex → CharSet
  | .chars set => set
  | _ => .empty

/-- The branches in order of preference. Branches that are all fixed characters, or all sets of
characters, become one set. -/
def alternation (branches : List Regex) : Regex :=
  if branches.all isLiteral || branches.all isClass then
    .chars (.unionAll (branches.map charSet))
  else
    match branches.reverse with
    | [] => never
    | last :: before => before.foldl (fun tail r => .alt r tail) last

/-- The body repeated. A body that may not be repeated at all leaves the empty expression, and one
that is matched exactly once leaves itself. -/
def repetition (body : Regex) (least : Nat) (most : Option Nat) (greedy : Bool) : Regex :=
  if most = some 0 then .empty
  else if least = 1 && most = some 1 then body
  else .repeat body least most greedy

end Regex

end TopDown
