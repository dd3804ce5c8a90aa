import TopDown.Parse.Engine

/-!
# Diagnostics

What is to be told about the errors of a parse: those of the lexer first, then the syntax errors
that the parser got past, and last what ended the parse.
-/

namespace TopDown.Report

/-- How bad it is. -/
inductive Severity where
  /-- The input or its nesting is at fault. -/
  | error
  /-- The rules of the language are at fault. -/
  | bug
deriving DecidableEq

/-- The severity as reports show it. -/
def Severity.label : Severity → String
  | .error => "error"
  | .bug => "bug"

/-- A marked part of the source text. -/
structure Label where
  /-- The offset where the part begins. -/
  start : Nat
  /-- The offset where it ends. -/
  stop : Nat
  /-- What is said about it. -/
  text : String
deriving DecidableEq

/-- Something to be told. -/
structure Diagnostic where
  /-- How bad it is. -/
  severity : Severity
  /-- What it is. -/
  message : String
  /-- The part of the source text that it is about. -/
  label : Option Label
  /-- What else there is to say. -/
  notes : List String
deriving DecidableEq

namespace Diagnostic

/-- The diagnostic of an error of the lexer. -/
def ofLexError (e : LexError) : Diagnostic :=
  ⟨.error, "unrecognized input", some ⟨e.start, e.stop, s!"no token matches `{e.text}`"⟩, []⟩

/-- What was done about a syntax error, in words. -/
def recoveryText : Recovery → String
  | .deleted => "skipped this token"
  | .inserted => "assumed the missing token here"
  | .resynced skipped => s!"skipped {skipped} token(s) to resume"
  | .unrecovered => "not recovered"

/-- The diagnostic of a syntax error. -/
def ofSyntaxError (e : SyntaxError) : Diagnostic :=
  ⟨.error, e.kind.message, some ⟨e.start, e.stop, recoveryText e.recovery⟩,
    [s!"in rule `{e.rule}`"]⟩

/-- The diagnostic of what ended a parse. -/
def ofFatalError : FatalError → Diagnostic
  | .unrecoverable e =>
    ⟨.error, s!"parsing stopped: {e.kind.message}", some ⟨e.start, e.stop, ""⟩,
      [s!"in rule `{e.rule}`"]⟩
  | .recursionLimit rule limit => ⟨.error, (FatalError.recursionLimit rule limit).message, none, []⟩
  | e => ⟨.bug, e.message, none, []⟩

/-- The diagnostics of the errors of a text. -/
def ofOutput {α : Type} (lexErrors : List LexError) (output : ParseOutput α) : List Diagnostic :=
  lexErrors.map ofLexError ++ output.errors.map ofSyntaxError ++
    output.fatal.toList.map ofFatalError

end Diagnostic

end TopDown.Report
