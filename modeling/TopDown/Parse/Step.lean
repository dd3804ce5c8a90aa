import TopDown.Lexer
import TopDown.Parse.Error

/-!
# Steps and trees

The body of a rule is a list of steps, which are done one after the other. They call for tokens and
rules, decide by lookahead, look at the state of the parse, and may do different things when the
rule is recorded and when it is run. What the steps give makes up a tree.
-/

namespace TopDown

/-- A step of a rule. -/
inductive Step where
  /-- Calls for a token of the class. -/
  | consume (token : TokenId) (idx : Nat)
  /-- Calls for a rule. -/
  | subrule (rule : String) (idx : Nat)
  /-- Does the body if the next token can start it. -/
  | option (idx : Nat) (body : List Step)
  /-- Does the body as long as the next token can start it. -/
  | many (idx : Nat) (body : List Step)
  /-- Does the first alternative that the next token can start, or else the first that can match
  nothing. The label says what is expected here. -/
  | choose (idx : Nat) (label : Option String) (alternatives : List (List Step))
  /-- Looks at the `k`-th token ahead, counted from one, or at the one just passed. -/
  | peek (k : Nat)
  /-- Counts the syntax errors so far. -/
  | errorCount
  /-- Does the body only when the rule is run. -/
  | live (body : List Step)
  /-- Does the body only when the rule is recorded. -/
  | recorded (body : List Step)
  /-- Does the body and lets its error pass. -/
  | attempt (body : List Step)
  /-- Fails. -/
  | fail (error : ParseError)

/-- A rule of a language: its name and the steps of its body. -/
structure RuleDef where
  /-- The name of the rule. -/
  name : String
  /-- What the rule does. -/
  body : List Step

/-- What a step gives. -/
inductive Tree where
  /-- A token. -/
  | token (t : Token)
  /-- A rule with what its steps gave. -/
  | node (rule : String) (parts : List Tree)
  /-- A rule that was given up after a syntax error. -/
  | hole
  /-- An option that was taken. -/
  | taken (parts : List Tree)
  /-- An option that was left out. -/
  | leftOut
  /-- The rounds of a repetition. -/
  | rounds (parts : List (List Tree))
  /-- The alternative of a choice that was taken, counted from zero. -/
  | chosen (index : Nat) (parts : List Tree)
  /-- A token that was looked at. -/
  | peeked (t : Option Token)
  /-- The number of syntax errors so far. -/
  | errorCount (n : Nat)
  /-- An attempt that succeeded. -/
  | attempted (parts : List Tree)
  /-- An attempt that failed. -/
  | abandoned (error : ParseError)

end TopDown
