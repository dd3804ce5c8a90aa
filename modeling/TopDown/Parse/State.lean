import TopDown.Cursor
import TopDown.Parse.Language

/-!
# The state of a parse

A parse is at a place between two tokens, and it has a history: the events so far. The syntax errors
of the parse and its log are read off the events.

Which rules are being run is not part of the state, since every step leaves it as it was; it is the
stack that a step is run under.
-/

namespace TopDown

/-- One invocation of a rule. -/
structure Frame where
  /-- The rule. -/
  rule : String
  /-- Where the rule was called for; the start rule was not. -/
  site : Option CallSite
  /-- How many tokens had been passed when the rule was entered. -/
  entry : Nat
deriving DecidableEq

/-- The invocations that are under way. -/
structure Stack where
  /-- The innermost invocation. -/
  top : Frame
  /-- The others, the innermost first. -/
  below : List Frame
deriving DecidableEq

/-- All invocations, the innermost first. -/
def Stack.frames (stack : Stack) : List Frame := stack.top :: stack.below

/-- The rule that is being run. -/
def Stack.rule (stack : Stack) : String := stack.top.rule

/-- Something that happened in a parse. Positions count the tokens passed. -/
inductive Event where
  /-- The rule on top of the stack was entered. -/
  | entered (stack : Stack)
  /-- The rule would have been nested too deep. -/
  | refused (rule : String) (position : Nat)
  /-- The token at the position was what a step called for. -/
  | consumed (position : Nat)
  /-- A step found a syntax error and failed. -/
  | raised (error : SyntaxError) (stack : Stack) (position : Nat)
  /-- The token at the position was dropped and the one after it was what a step called for. -/
  | deleted (error : SyntaxError) (position : Nat)
  /-- A token of the class was made up at the position, for the call with the index. -/
  | inserted (error : SyntaxError) (kind : TokenId) (idx : Nat) (position : Nat)
  /-- The rule on top of the stack was given up, and the parse goes on at the position, before a
  token of the class. -/
  | resumed (error : SyntaxError) (stack : Stack) (kind : TokenId) (position : Nat)
  /-- Tokens were skipped after a repetition, up to the position. -/
  | skipped (error : SyntaxError) (key : DecisionKey) (position : Nat)
deriving DecidableEq

namespace Event

/-- The syntax error that the event got past. -/
def recovered? : Event → Option SyntaxError
  | .deleted e _ | .inserted e .. | .resumed e _ _ _ | .skipped e _ _ => some e
  | .entered _ | .refused .. | .consumed _ | .raised .. => none

/-- The record of the event, if it leaves one. -/
def logRecord? (v : Vocabulary) : Event → Option LogRecord
  | .entered stack =>
    some ⟨.trace, .parsing, s!"enter `{stack.rule}` at token {stack.top.entry}"⟩
  | .refused rule position =>
    some ⟨.debug, .parsing, s!"`{rule}` at token {position} exceeds the nesting limit"⟩
  | .deleted e _ => some ⟨.debug, .recovery, s!"{e.message}: deleting {e.kind.found}"⟩
  | .inserted e kind _ _ => some ⟨.debug, .recovery, s!"{e.message}: inserting {v.name kind}"⟩
  | .resumed e stack kind _ =>
    some ⟨.debug, .recovery, s!"{e.message}: resuming after `{stack.rule}` at {v.name kind}, " ++
      s!"skipped {e.skipped} token(s)"⟩
  | .skipped e key _ =>
    some ⟨.debug, .recovery, s!"{e.message}: skipped {e.skipped} token(s) in " ++
      s!"{key.kind.label} #{key.idx} of `{key.rule}`"⟩
  | .consumed _ | .raised .. => none

end Event

/-- How far a parse has come. -/
structure ParseState where
  /-- The place between two tokens. -/
  cursor : Cursor Token
  /-- What has happened, the latest first. -/
  history : List Event

namespace ParseState

/-- The state before the first token. -/
def start (tokens : List Token) : ParseState := ⟨.ofList tokens, []⟩

/-- The state with one more event. -/
def note (s : ParseState) (e : Event) : ParseState := { s with history := e :: s.history }

/-- How many tokens have been passed. -/
def position (s : ParseState) : Nat := s.cursor.position

/-- What has happened, in order. -/
def events (s : ParseState) : List Event := s.history.reverse

/-- The syntax errors that the parse got past, in order. -/
def errors (s : ParseState) : List SyntaxError := s.events.filterMap Event.recovered?

/-- The class of the next token or of the end of the input. -/
def nextKind (s : ParseState) (v : Vocabulary) : TokenId := s.cursor.next?.elim v.eof (·.kind)

/-- Where the next token begins and ends. At the end of the input that is where the last token
ends. -/
def nextSpan (s : ParseState) : Nat × Nat :=
  match s.cursor.next? with
  | some t => (t.start, t.stop)
  | none => s.cursor.previous?.elim (0, 0) fun t => (t.stop, t.stop)

/-- The next token as messages show it. -/
def describeNext (s : ParseState) : String :=
  s.cursor.next?.elim "end of input" fun t => s!"'{t.text}'"

/-- A syntax error at the next token, found by the rule that is being run. -/
def syntaxError (s : ParseState) (stack : Stack) (kind : SyntaxErrorKind) : SyntaxError :=
  ⟨kind, stack.rule, s.nextSpan.1, s.nextSpan.2, .unrecovered⟩

end ParseState

/-- A part of a parse. -/
abbrev Action := EStateM ParseError ParseState

end TopDown
