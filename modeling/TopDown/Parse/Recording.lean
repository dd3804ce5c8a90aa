import TopDown.Parse.Step

/-!
# Recording

Before a language can parse, the steps of each rule are done once without input, and what they call
for is recorded as the body of the rule's grammar rule. The bodies of options and repetitions are
recorded once, and so is every alternative of a choice.

The sequences that are being recorded are kept in a list, the innermost first. An error ends the
recording of the sequences it passes through without closing them. So where an attempt lets an error
pass, they stay open, and what comes after goes into the innermost of them.
-/

namespace TopDown

/-- The sequences that are being recorded, the innermost first. -/
abbrev OpenSequences := List (List Production)

/-- A part of a recording. -/
abbrev Recording := EStateM ParseError OpenSequences

namespace Recording

/-- Adds a production to the innermost sequence. -/
def push (p : Production) : Recording Unit := fun
  | [] => .ok () []
  | inner :: outer => .ok () ((inner ++ [p]) :: outer)

/-- Begins a sequence inside the others. -/
def enter : Recording Unit := fun sequences => .ok () ([] :: sequences)

/-- Ends the innermost sequence. -/
def leave : Recording (List Production) := fun
  | [] => .ok [] []
  | inner :: outer => .ok inner outer

/-- Records a sequence of its own. -/
def nested (body : Recording Unit) : Recording (List Production) := do
  enter
  body
  leave

/-- Records the body and lets its error pass; what was recorded stays. -/
def attempt (body : Recording Unit) : Recording Unit := fun sequences =>
  match body sequences with
  | .ok _ sequences => .ok () sequences
  | .error _ sequences => .ok () sequences

end Recording

namespace Step

mutual

/-- Records a step of the rule. -/
def record (rule : String) : Step → Recording Unit
  | .consume token idx => Recording.push (.terminal token idx)
  | .subrule target idx => Recording.push (.nonTerminal target idx)
  | .option idx body => do
    let parts ← Recording.nested (recordSeq rule body)
    Recording.push (.option idx parts)
  | .many idx body => do
    let parts ← Recording.nested (recordSeq rule body)
    Recording.push (.many idx parts)
  | .choose idx _ alternatives => do
    let bodies ← recordAlts rule alternatives
    Recording.push (.choice idx bodies)
    if bodies.isEmpty then throw (.fatal (.emptyAlternatives rule idx))
  | .peek _ | .errorCount | .live _ => pure ()
  | .recorded body => recordSeq rule body
  | .attempt body => Recording.attempt (recordSeq rule body)
  | .fail error => throw error

/-- Records steps one after the other. -/
def recordSeq (rule : String) : List Step → Recording Unit
  | [] => pure ()
  | step :: rest => do
    step.record rule
    recordSeq rule rest

/-- Records alternatives, each as a sequence of its own. -/
def recordAlts (rule : String) : List (List Step) → Recording (List (List Production))
  | [] => pure []
  | body :: rest => do
    let parts ← Recording.nested (recordSeq rule body)
    return parts :: (← recordAlts rule rest)

end

end Step

/-- The grammar rule of a rule: the innermost sequence at the end of its recording. -/
def RuleDef.record (r : RuleDef) : Except ParseError (List Production) :=
  match (do Step.recordSeq r.name r.body; Recording.leave) [[]] with
  | .ok body _ => .ok body
  | .error e _ => .error e

end TopDown
