import TopDown.Parse.Engine

/-!
# Sample languages

A sample is a language with a lexer, a rule to start from and a meaning: the value of a rule
computed from the tokens and the values of the rules that its steps called for, in order. Options,
repetitions and choices only say which those are.
-/

namespace TopDown

/-- What a rule gets from one of its calls. -/
inductive Leaf (α : Type) where
  /-- The token that a step called for. -/
  | token (t : Token)
  /-- The value of the rule that a step called for. -/
  | value (a : α)

/-- The tokens among the leaves, in order. -/
def Leaf.tokens {α : Type} (leaves : List (Leaf α)) : List Token :=
  leaves.filterMap fun | .token t => some t | .value _ => none

/-- The values among the leaves, in order. -/
def Leaf.values {α : Type} (leaves : List (Leaf α)) : List α :=
  leaves.filterMap fun | .value a => some a | .token _ => none

/-- What the rules of a language mean. -/
structure Semantics (α : Type) where
  /-- The value of a rule that was given up. -/
  hole : α
  /-- The value of the named rule with the given leaves. -/
  rule : String → List (Leaf α) → α

namespace Semantics

variable {α : Type}

mutual

/-- The leaves of a tree. -/
def leaves (m : Semantics α) : Tree → List (Leaf α)
  | .token t => [.token t]
  | .node name parts => [.value (m.rule name (m.leavesSeq parts))]
  | .hole => [.value m.hole]
  | .taken parts | .chosen _ parts | .attempted parts => m.leavesSeq parts
  | .rounds parts => m.leavesRounds parts
  | .leftOut | .peeked _ | .errorCount _ | .abandoned _ => []

/-- The leaves of a sequence. -/
def leavesSeq (m : Semantics α) : List Tree → List (Leaf α)
  | [] => []
  | t :: rest => m.leaves t ++ m.leavesSeq rest

/-- The leaves of the rounds of a repetition. -/
def leavesRounds (m : Semantics α) : List (List Tree) → List (Leaf α)
  | [] => []
  | parts :: rest => m.leavesSeq parts ++ m.leavesRounds rest

end

/-- The value of a tree. -/
def eval (m : Semantics α) (t : Tree) : α := (Leaf.values (m.leaves t)).headD m.hole

end Semantics

/-- A language with a meaning. -/
structure Sample (α : Type) where
  /-- The name of the language. -/
  name : String
  /-- The language before it is built. -/
  draft : Draft
  /-- The language. -/
  language : Language
  /-- The rule to start from. -/
  defaultRule : String
  /-- What the rules mean. -/
  meaning : Semantics α

/-- The outcome of lexing and parsing a text. -/
structure SampleOutcome (α : Type) where
  /-- The errors of the lexer. -/
  lexErrors : List LexError
  /-- The outcome of the parse. -/
  output : ParseOutput α
  /-- The records that were left on the way. -/
  log : List LogRecord

namespace Sample

variable {α : Type}

/-- Parses tokens from the given rule. -/
def parse (s : Sample α) (rule : String) (tokens : List Token) : ParseOutput α :=
  (s.language.parse rule tokens).map s.meaning.eval

/-- Lexes and parses a text from the given rule. -/
def runRule (s : Sample α) (rule text : String) : SampleOutcome α :=
  let (tokens, lexErrors) := s.language.vocabulary.tokenize text
  ⟨lexErrors, s.parse rule tokens,
    lexErrors.map (·.logRecord) ++ s.language.parseLog rule tokens⟩

/-- Lexes and parses a text. -/
def run (s : Sample α) (text : String) : SampleOutcome α := s.runRule s.defaultRule text

end Sample

/-- The value of a computation that is known to succeed. -/
def getOk {ε α : Type} : (x : Except ε α) → x.isOk = true → α
  | .ok a, _ => a

end TopDown
