import TopDown.Calc
import TopDown.CommandLine.Options
import TopDown.Json.Language
import TopDown.Report.Render

/-!
# The program

The program parses a text in one of the sample languages, reports what is wrong with it and prints
its value. All decisions are made here. What is left to do outside is to read the input, if the plan
asks for it, and to print the result.
-/

namespace TopDown.CommandLine

/-- What the program leaves when it ends. -/
structure Result where
  /-- The exit status. -/
  status : Nat
  /-- What goes to the standard output. -/
  output : String
  /-- What goes to the standard error output. -/
  errors : String

/-- What the program is going to do. -/
inductive Plan where
  /-- It ends right away. -/
  | done (result : Result)
  /-- It reads the file with the given path, or its standard input, and goes on with the text or with
  the reason why there is none. -/
  | read (path : Option String) (next : Except String String → Result)

/-- How the program is used. -/
def usage (program : String) : String :=
  s!"Usage: {program} [options] [PATH]

Options:
    -g, --grammar NAME  Grammar to parse with. Defaults to json.
                        Supported grammars: json, calc
    -r, --rule RULE     Rule to start from. Defaults to the grammar's entry
                        rule
    -d, --dump          Print the recorded grammar and exit
    -v, --verbose       Log recovery decisions to stderr
    -h, --help          Print this message
"

/-- Which log records are shown. -/
inductive LogFilter where
  /-- None. -/
  | nothing
  /-- Those about decisions. -/
  | decisions
  /-- All. -/
  | everything
deriving DecidableEq

namespace LogFilter

/-- Whether the filter lets a record of the level through. -/
def shows : LogFilter → LogLevel → Bool
  | .nothing, _ => false
  | .decisions, level => level = .debug
  | .everything, _ => true

/-- The filter of the given name, in any case. Levels above those of the records show nothing. -/
def ofName? (name : String) : Option LogFilter :=
  match name.map Char.toLower with
  | "off" | "error" | "warn" | "info" => some .nothing
  | "debug" => some .decisions
  | "trace" => some .everything
  | _ => none

/-- The filter that the environment names, or else the one that the arguments ask for. -/
def choose (environment : Option String) (verbose : Bool) : LogFilter :=
  (environment.bind ofName?).getD (if verbose then .decisions else .nothing)

end LogFilter

/-- The name that log lines show for a topic. -/
def topicName : LogTopic → String
  | .lexing => "grammar::lexer::tokens"
  | .recording => "descent::builder"
  | .prediction => "ll::lookahead"
  | .parsing => "descent::parser"
  | .recovery => "descent::recovery"

/-- The line of a log record. -/
def logLine (r : LogRecord) : String := s!" [{r.level.label}] (1) {topicName r.topic}: {r.text}\n"

/-- The lines of the records that are shown. -/
def renderLog (filter : LogFilter) (records : List LogRecord) : String :=
  String.join ((records.filter fun r => filter.shows r.level).map logLine)

/-- Parses a text and reports on it. -/
def parseText {α : Type} (s : Sample α) (render : α → String) (options : Options)
    (filter : LogFilter) (text : String) : Result :=
  let outcome := s.runRule (options.rule.getD s.defaultRule) text
  let path := options.free.head?.getD "<stdin>"
  let errors := renderLog filter outcome.log ++
    Report.report path text outcome.lexErrors outcome.output
  match outcome.output.value with
  | some value => ⟨0, render value ++ "\n", errors⟩
  | none => ⟨1, "", errors⟩

/-- What to do with a sample language. -/
def planSample {α : Type} (s : Sample α) (render : α → String) (options : Options)
    (filter : LogFilter) : Plan :=
  let building := renderLog filter s.draft.buildLog
  if options.dump then .done ⟨0, s.language.grammar.ebnf s.language.vocabulary, building⟩
  else
    .read options.free.head? fun
      | .error reason => ⟨1, "", building ++ s!"cannot read input: {reason}\n"⟩
      | .ok text =>
        let result := parseText s render options filter text
        { result with errors := building ++ result.errors }

/-- What the program of the given name is going to do. The environment may name the log records to
show. -/
def plan (program : String) (environment : Option String) (arguments : List String) : Plan :=
  match Options.parse arguments with
  | .error e => .done ⟨1, "", e.message ++ "\n"⟩
  | .ok options =>
    let filter := LogFilter.choose environment options.verbose
    if options.help then .done ⟨0, usage program, ""⟩
    else if 1 < options.free.length then .done ⟨1, usage program, ""⟩
    else
      match options.grammar.getD "json" with
      | "json" => planSample Json.sample Json.Value.render options filter
      | "calc" => planSample Calc.sample Decimal.render options filter
      | other => .done ⟨1, "", s!"unknown grammar: {other}\n"⟩

end TopDown.CommandLine
