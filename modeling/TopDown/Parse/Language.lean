import TopDown.Analysis.Table
import TopDown.Ebnf
import TopDown.Parse.Recording

/-!
# Languages

A language is a set of rules over a vocabulary, together with the grammar that their recording gave
and the lookahead table of the grammar. `Draft.build` makes one.
-/

namespace TopDown

/-- How a language parses. -/
structure Config where
  /-- Whether the parser tries to get past syntax errors; otherwise the first one ends the parse. -/
  recovery : Bool := true
  /-- How deep rules may be nested. -/
  maxDepth : Nat := 128
deriving DecidableEq

/-- A language whose rules have not been recorded yet. -/
structure Draft where
  /-- The token classes. -/
  vocabulary : Vocabulary
  /-- The rules in the order of their declaration. -/
  rules : List RuleDef
  /-- Which classes may be made up to get past a syntax error. Categories never are. -/
  mayInsert : TokenId → Bool := fun _ => true
  /-- How the language parses. -/
  config : Config := {}

/-- A language that can parse. -/
structure Language extends Draft where
  /-- The rules as they were recorded. -/
  grammar : Grammar
  /-- What the analysis of the grammar found out. -/
  table : LookaheadTable

/-- What keeps a draft from becoming a language. -/
inductive BuildError where
  /-- Two rules have the same name. -/
  | duplicateRule (rule : String)
  /-- The recording of the rule failed. -/
  | recording (rule : String) (cause : ParseError)
  /-- The recorded grammar is not well formed. -/
  | analysis (e : AnalysisError)
deriving DecidableEq

/-- The error in words. -/
def BuildError.message (v : Vocabulary) : BuildError → String
  | .duplicateRule rule => s!"rule `{rule}` is declared more than once"
  | .recording rule cause => s!"recording rule `{rule}` failed: {cause.message}"
  | .analysis e => e.message v

namespace Draft

/-- Adds the recordings of the rules to a grammar. -/
def recordRules : Grammar → List RuleDef → Except BuildError Grammar
  | g, [] => .ok g
  | g, r :: rest =>
    if g.declares r.name then .error (.duplicateRule r.name)
    else
      match r.record with
      | .error cause => .error (.recording r.name cause)
      | .ok body => recordRules (g.add r.name body) rest

/-- The grammar of the rules. -/
def record (d : Draft) : Except BuildError Grammar := recordRules ∅ d.rules

/-- Records the rules and analyses the grammar. -/
def build (d : Draft) : Except BuildError Language :=
  match d.record with
  | .error e => .error e
  | .ok grammar =>
    match grammar.analyze with
    | .error e => .error (.analysis e)
    | .ok table => .ok { d with grammar, table }

/-- The records that building leaves. -/
def buildLog (d : Draft) : List LogRecord :=
  match d.record with
  | .error _ => []
  | .ok grammar =>
    ⟨.debug, .recording, "recorded grammar:\n" ++ grammar.ebnf d.vocabulary⟩ ::
      grammar.analysisLog d.vocabulary

end Draft

/-- The rule with the given name. -/
def Draft.rule? (d : Draft) (name : String) : Option RuleDef := d.rules.find? (·.name == name)

end TopDown
