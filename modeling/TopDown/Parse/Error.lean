import TopDown.Grammar

/-!
# Parse errors

Syntax errors are about the input and carry what was done about them. Fatal errors end the parse.
-/

namespace TopDown

/-- How the parser got past a syntax error. -/
inductive Recovery where
  /-- The unexpected token was dropped. -/
  | deleted
  /-- The expected token was made up. -/
  | inserted
  /-- So many tokens were skipped, up to one that can follow the failed construct. -/
  | resynced (skipped : Nat)
  /-- It did not. -/
  | unrecovered
deriving DecidableEq

/-- What is wrong with the input. -/
inductive SyntaxErrorKind where
  /-- One class was expected. -/
  | mismatchedToken (expected found : String)
  /-- None of the alternatives can start here. The label, if there is one, says in the words of the
  rule what is expected. -/
  | noViableAlternative (label : Option String) (expected : List String) (found : String)
  /-- The start rule ended before the input did. -/
  | notAllInputParsed (found : String)
deriving DecidableEq

/-- The error in words. -/
def SyntaxErrorKind.message : SyntaxErrorKind → String
  | .mismatchedToken expected found => s!"expected {expected}, found {found}"
  | .noViableAlternative (some label) _ found => s!"expected {label}, found {found}"
  | .noViableAlternative none expected found =>
    "expected one of " ++ ", ".intercalate expected ++ s!", found {found}"
  | .notAllInputParsed found => s!"expected end of input, found {found}"

/-- The token that was found, as messages show it. -/
def SyntaxErrorKind.found : SyntaxErrorKind → String
  | .mismatchedToken _ found | .noViableAlternative _ _ found | .notAllInputParsed found => found

/-- An error in the input. -/
structure SyntaxError where
  /-- What is wrong. -/
  kind : SyntaxErrorKind
  /-- The rule that found out. -/
  rule : String
  /-- The offset where the offending token begins. -/
  start : Nat
  /-- The offset where it ends. -/
  stop : Nat
  /-- What was done about it. -/
  recovery : Recovery
deriving DecidableEq

/-- The error in words. -/
def SyntaxError.message (e : SyntaxError) : String := s!"{e.kind.message} in rule `{e.rule}`"

/-- How many tokens were skipped to get past the error. -/
def SyntaxError.skipped (e : SyntaxError) : Nat :=
  match e.recovery with
  | .resynced n => n
  | _ => 0

/-- What ends a parse. -/
inductive FatalError where
  /-- There is no such rule. -/
  | unknownRule (rule : String)
  /-- A syntax error that no rule could get past. -/
  | unrecoverable (error : SyntaxError)
  /-- A round of a repetition passed no token. -/
  | noProgress (rule : String) (idx : Nat)
  /-- A decision was not there when the rule was recorded. -/
  | unrecordedProduction (rule production : String)
  /-- Rules are nested too deep. -/
  | recursionLimit (rule : String) (limit : Nat)
  /-- A choice without alternatives. -/
  | emptyAlternatives (rule : String) (idx : Nat)
deriving DecidableEq

/-- The error in words. -/
def FatalError.message : FatalError → String
  | .unknownRule rule => s!"no rule named `{rule}`"
  | .unrecoverable error => s!"unrecoverable syntax error: {error.message}"
  | .noProgress rule idx => s!"MANY #{idx} in rule `{rule}` matched without consuming input"
  | .unrecordedProduction rule production =>
    s!"{production} in rule `{rule}` was not seen while recording the rule"
  | .recursionLimit rule limit => s!"rule `{rule}` is nested deeper than the limit of {limit}"
  | .emptyAlternatives rule idx => s!"OR #{idx} in rule `{rule}` has no alternatives"

/-- What a step of a rule can fail with. -/
inductive ParseError where
  /-- The input is wrong. -/
  | syntaxError (e : SyntaxError)
  /-- The parse cannot go on. -/
  | fatal (e : FatalError)
deriving DecidableEq

/-- The error in words. -/
def ParseError.message : ParseError → String
  | .syntaxError e => e.message
  | .fatal e => e.message

end TopDown
