import TopDown.Cursor
import TopDown.Regex.Basic
import TopDown.Text.Word

/-!
# Matching

A match is searched by trying the ways to match in order of preference: the first branch of an
alternation before the second, one more turn of a greedy repetition before leaving it. The first
way that succeeds is the match, however long it is.

Each construct is given what is to be matched after it, as a function from the place reached to the
end of the whole match. A repetition without an upper bound takes a further turn only if that turn
passes a character, so the search ends.

`Regex.matchHere?` searches at the cursor only, and `Regex.find?` at the first place that has a
match.
-/

namespace TopDown

/-- Whether the character is part of a word. -/
def isWordChar (c : Char) : Bool := CharSet.word.contains c

namespace Assertion

/-- Whether the condition holds at the cursor. -/
def holds (c : Cursor Char) : Assertion → Bool
  | .textStart => c.past.isEmpty
  | .textEnd => c.rest.isEmpty
  | .lineStart => c.previous?.all (· == '\n')
  | .lineEnd => c.next?.all (· == '\n')
  | .wordBoundary => before != after
  | .notWordBoundary => before == after
  | .wordStart => !before && after
  | .wordEnd => before && !after
  | .wordStartHalf => !before
  | .wordEndHalf => !after
where
  /-- Whether a word character was passed last. -/
  before : Bool := c.previous?.any isWordChar
  /-- Whether a word character comes next. -/
  after : Bool := c.next?.any isWordChar

end Assertion

namespace Regex

/-- Where a match ends, if there is one. -/
abbrev Outcome := Option (Cursor Char)

/-- A way to match at a cursor, given what comes after it. -/
abbrev Matcher := Cursor Char → (Cursor Char → Outcome) → Outcome

/-- Takes another turn or leaves a repetition; a greedy one prefers the turn. -/
def prefer (greedy : Bool) (turn leave : Unit → Outcome) : Outcome :=
  if greedy then (turn ()).orElse leave else (leave ()).orElse turn

/-- The body `n` times. -/
def exactly (body : Matcher) : Nat → Matcher
  | 0, c, k => k c
  | n + 1, c, k => body c fun c' => exactly body n c' k

/-- The body at most `n` times. -/
def atMost (body : Matcher) (greedy : Bool) : Nat → Matcher
  | 0, c, k => k c
  | n + 1, c, k => prefer greedy (fun _ => body c fun c' => atMost body greedy n c' k) (fun _ => k c)

/-- The body any number of times, where each turn has to pass a character. -/
def turns (body : Matcher) (greedy : Bool) (c : Cursor Char) (k : Cursor Char → Outcome) : Outcome :=
  prefer greedy
    (fun _ => body c fun c' =>
      if _h : c'.rest.length < c.rest.length then turns body greedy c' k else none)
    (fun _ => k c)
termination_by c.rest.length

/-- The body at least once. Only the first turn may pass no character, and it is then the only
one. -/
def onceOrMore (body : Matcher) (greedy : Bool) : Matcher := fun c k =>
  body c fun c' => if c'.rest.length < c.rest.length then turns body greedy c' k else k c'

/-- The body at least `n` times. -/
def atLeast (body : Matcher) (greedy : Bool) : Nat → Matcher
  | 0, c, k => prefer greedy (fun _ => onceOrMore body greedy c k) (fun _ => k c)
  | n + 1, c, k => exactly body n c fun c' => onceOrMore body greedy c' k

/-- Matches the expression at the cursor and then what comes after it. -/
def run : Regex → Matcher
  | .empty, c, k => k c
  | .chars set, c, k =>
    match c with
    | ⟨past, x :: rest⟩ => if set.contains x then k ⟨x :: past, rest⟩ else none
    | ⟨_, []⟩ => none
  | .assertion a, c, k => if a.holds c then k c else none
  | .seq first second, c, k => first.run c fun c' => second.run c' k
  | .alt first second, c, k => (first.run c k).orElse fun _ => second.run c k
  | .repeat body least none greedy, c, k => atLeast body.run greedy least c k
  | .repeat body least (some most) greedy, c, k =>
    exactly body.run least c fun c' => atMost body.run greedy (most - least) c' k
  | .group body, c, k => body.run c k

/-- The end of the preferred match at the cursor. -/
def matchHere? (r : Regex) (c : Cursor Char) : Option (Cursor Char) := r.run c some

/-- The preferred match at the first place of `text` that has one: the number of characters before
the match and before its end. -/
def find? (r : Regex) (text : List Char) : Option (Nat × Nat) :=
  go text []
where
  /-- Searches from the place where `past` has been passed. -/
  go : List Char → List Char → Option (Nat × Nat)
    | [], past => (r.matchHere? ⟨past, []⟩).map fun c => (past.length, c.position)
    | x :: rest, past =>
      match r.matchHere? ⟨past, x :: rest⟩ with
      | some c => some (past.length, c.position)
      | none => go rest (x :: past)

end Regex

end TopDown
