import TopDown.Analysis.Follow
import TopDown.Analysis.WellFormed
import TopDown.Log

/-!
# Lookahead tables

The outcome of the analysis of a grammar: the lookahead of every rule, of every branch of every
decision and of what comes after every call site, and what comes right after every repetition.

`Grammar.analyze` gives the table of a well-formed grammar. Alternatives that can start with the
same token are no error, since the first of them is taken; `Grammar.overlaps` reports them.
-/

namespace TopDown

/-- All that the parsing engine knows about what can come next. -/
structure LookaheadTable where
  /-- The lookahead of every rule, in the order of the rules. -/
  rules : List (String × Lookahead)
  /-- The lookahead of every branch of a decision: of the one body, or of each alternative. -/
  decisions : List (DecisionKey × List Lookahead)
  /-- The lookahead after every call site up to the end of its rule. -/
  follows : List (CallSite × Lookahead)
  /-- What comes right after every repetition. -/
  repetitions : List (DecisionKey × AfterRepetition)
deriving DecidableEq

namespace LookaheadTable

/-- The lookahead of the rule. -/
def rule? (t : LookaheadTable) (name : String) : Option Lookahead := t.rules.lookup name

/-- The lookahead of the branches of the decision. -/
def decision? (t : LookaheadTable) (key : DecisionKey) : Option (List Lookahead) :=
  t.decisions.lookup key

/-- The lookahead after the call site. -/
def follow? (t : LookaheadTable) (site : CallSite) : Option Lookahead := t.follows.lookup site

/-- What comes right after the repetition. -/
def afterRepetition? (t : LookaheadTable) (key : DecisionKey) : Option AfterRepetition :=
  t.repetitions.lookup key

end LookaheadTable

namespace FirstSets

/-- The branches of the decision that the production is, if it is one. -/
def branches? (f : FirstSets) (rule : String) : Production → Option (DecisionKey × List Lookahead)
  | .option idx body => some (⟨rule, .option, idx⟩, [f.ofSeq body])
  | .many idx body => some (⟨rule, .many, idx⟩, [f.ofSeq body])
  | .choice idx alternatives => some (⟨rule, .choice, idx⟩, alternatives.map f.ofSeq)
  | _ => none

/-- The branches of the decisions of a rule, at any depth. -/
def decisionsOf (f : FirstSets) (r : Rule) : List (DecisionKey × List Lookahead) :=
  (Production.preorderSeq r.body).filterMap (f.branches? r.name)

end FirstSets

/-- Two alternatives of a choice that can start with the same token. -/
structure Overlap where
  /-- The choice. -/
  key : DecisionKey
  /-- The place of the alternative that is taken. -/
  first : Nat
  /-- The place of the alternative that is not. -/
  second : Nat
  /-- The classes that both can start with. -/
  common : TokenSet

/-- The record of an overlap. Alternatives are counted from one. -/
def Overlap.logRecord (v : Vocabulary) (o : Overlap) : LogRecord :=
  ⟨.debug, .prediction,
    s!"alternatives {o.first + 1} and {o.second + 1} of OR #{o.key.idx} in rule `{o.key.rule}` " ++
      s!"both start with " ++ ", ".intercalate (o.common.names v) ++
      s!"; alternative {o.first + 1} wins"⟩

/-- The overlaps among the branches of a decision, in the order of the pairs. -/
def overlapsOf (key : DecisionKey) (branches : List Lookahead) : List Overlap :=
  branches.zipIdx.flatMap fun (a, i) =>
    branches.zipIdx.filterMap fun (b, j) =>
      let common := a.set.inter b.set
      if i < j && !common.isEmpty then some ⟨key, i, j, common⟩ else none

namespace Grammar

/-- The table of a grammar, well formed or not. -/
def table (g : Grammar) (f : FirstSets) : LookaheadTable where
  rules := g.rules.map fun r => (r.name, f.ofRule r.name)
  decisions := g.rules.flatMap f.decisionsOf
  follows := g.rules.flatMap fun r => (f.walkRule r).follows
  repetitions := g.rules.flatMap fun r => (f.walkRule r).repetitions

/-- The overlaps among the alternatives of the choices of a grammar. -/
def overlaps (g : Grammar) (f : FirstSets) : List Overlap :=
  (g.rules.flatMap f.decisionsOf).flatMap fun (key, branches) =>
    if key.kind = .choice then overlapsOf key branches else []

/-- The first sets of a well-formed grammar, or the first violation. -/
def check (g : Grammar) : Except AnalysisError FirstSets := do
  g.checkReferences
  g.checkOccurrences
  let f := FirstSets.ofGrammar g
  g.checkLeftRecursion f.nullable
  g.checkConsumption f
  g.checkRepetitions f
  return f

/-- The table of a well-formed grammar, or the first violation. -/
def analyze (g : Grammar) : Except AnalysisError LookaheadTable := do
  return g.table (← g.check)

/-- The records that the analysis of the grammar leaves. -/
def analysisLog (v : Vocabulary) (g : Grammar) : List LogRecord :=
  match g.check with
  | .ok f => (g.overlaps f).map (·.logRecord v)
  | .error _ => []

end Grammar

end TopDown
