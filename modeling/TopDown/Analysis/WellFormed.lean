import TopDown.Analysis.First

/-!
# Well-formed grammars

What a grammar has to satisfy before it can be used for prediction: rules refer to declared rules
only, productions of one rule differ in their sites, no rule can come to itself without consuming a
token, every rule can consume one, and the body of an option or a repetition consumes one whenever
it is taken. Each check names the first violation in the order of the rules and, within a rule, in
preorder.
-/

namespace TopDown

/-- What makes a grammar unfit for prediction. -/
inductive AnalysisError where
  /-- The rule refers to a rule that is not declared. -/
  | unknownRule (rule target : String)
  /-- Two productions of the rule have the same site. -/
  | duplicateOccurrence (rule : String) (site : Site)
  /-- The rules of the path come to each other without consuming a token, the first and the last
  being the same. -/
  | leftRecursion (rule : String) (path : List String)
  /-- What the rule derives has no first token. -/
  | neverConsumes (rule : String)
  /-- The body of the construct derives the empty sequence. -/
  | nullableBody (rule : String) (kind : DecisionKind) (idx : Nat)
deriving DecidableEq

/-- The error in words. -/
def AnalysisError.message (v : Vocabulary) : AnalysisError → String
  | .unknownRule rule target => s!"rule `{rule}` refers to undeclared rule `{target}`"
  | .duplicateOccurrence rule site => s!"rule `{rule}` uses {site.describe v} more than once"
  | .leftRecursion rule path => s!"left recursion in rule `{rule}`: " ++ " -> ".intercalate path
  | .neverConsumes rule => s!"rule `{rule}` can never consume a token"
  | .nullableBody rule kind idx =>
    s!"body of {kind.label} #{idx} in rule `{rule}` can match without consuming input"

namespace Grammar

/-- The first reference of the rule to a rule that is not declared. -/
def undeclaredIn? (g : Grammar) (r : Rule) : Option String :=
  (Production.preorderSeq r.body).findSome? fun
    | .nonTerminal target _ => if g.declares target then none else some target
    | _ => none

/-- Every rule that is referred to has to be declared. -/
def checkReferences (g : Grammar) : Except AnalysisError Unit :=
  g.rules.forM fun r =>
    match g.undeclaredIn? r with
    | some target => .error (.unknownRule r.name target)
    | none => .ok ()

/-- The first site that is listed again, where those seen before count. -/
def firstRepeated? : (seen : List Site) → List Site → Option Site
  | _, [] => none
  | seen, site :: rest => if seen.contains site then some site else firstRepeated? (site :: seen) rest

/-- The productions of a rule have to differ in their sites. -/
def checkOccurrences (g : Grammar) : Except AnalysisError Unit :=
  g.rules.forM fun r =>
    match firstRepeated? [] ((Production.preorderSeq r.body).map (·.site)) with
    | some site => .error (.duplicateOccurrence r.name site)
    | none => .ok ()

/-- The rules that can be invoked in the named rule before it consumes a token. -/
def prefixRules (g : Grammar) (nullable : List String) (name : String) : List String :=
  match g.rule? name with
  | none => []
  | some r =>
    (Production.leadingSeq nullable r.body).filterMap fun
      | .rule target => some target
      | .token _ => none

/-- Follows prefix rules depth first until a rule comes to itself; gives the cycle, or else the
rules that are known not to lead to one. The path holds the rules on the way, last first; at most
`room` more rules can join them. -/
def findCycle (successors : String → List String) :
    (room : Nat) → (path : List String) → (done : List String) → String →
      Except (List String) (List String)
  | room, path, done, name =>
    if path.contains name then .error (name :: ((path.takeWhile (· != name)).reverse ++ [name]))
    else if done.contains name then .ok done
    else
      match room with
      | 0 => .ok done
      | room + 1 =>
        match (successors name).foldlM (findCycle successors room (name :: path)) done with
        | .ok done => .ok (name :: done)
        | .error cycle => .error cycle

/-- No rule may come to itself without consuming a token. -/
def checkLeftRecursion (g : Grammar) (nullable : List String) : Except AnalysisError Unit :=
  match (g.rules.map (·.name)).foldlM (findCycle (g.prefixRules nullable) g.size []) [] with
  | .ok _ => .ok ()
  | .error cycle => .error (.leftRecursion (cycle.headD "") cycle)

/-- Every rule has to have a first token. -/
def checkConsumption (g : Grammar) (f : FirstSets) : Except AnalysisError Unit :=
  g.rules.forM fun r =>
    if (f.first r.name).isEmpty then .error (.neverConsumes r.name) else .ok ()

/-- The construct that the production is, if its body derives the empty sequence though it must
not. -/
def nullableBody? (f : FirstSets) : Production → Option (DecisionKind × Nat)
  | .option idx body => if (f.ofSeq body).nullable then some (.option, idx) else none
  | .many idx body => if (f.ofSeq body).nullable then some (.many, idx) else none
  | _ => none

/-- The body of an option or a repetition has to consume a token whenever it is taken. -/
def checkRepetitions (g : Grammar) (f : FirstSets) : Except AnalysisError Unit :=
  g.rules.forM fun r =>
    match (Production.preorderSeq r.body).findSome? (nullableBody? f) with
    | some (kind, idx) => .error (.nullableBody r.name kind idx)
    | none => .ok ()

end Grammar

end TopDown
