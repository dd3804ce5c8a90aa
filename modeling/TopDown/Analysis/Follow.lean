import TopDown.Analysis.First

/-!
# Follow sets inside a rule

For every call site of a rule: the lookahead of what can come after it up to the end of the rule;
it is nullable if the rule may end there. For every repetition: what comes right after it.

A body is walked from right to left with the lookahead of what comes after it. The walk of a
sequence gives the lookahead of the sequence followed by that.
-/

namespace TopDown

/-- A place in a rule where a class or a rule is called for. -/
structure CallSite where
  /-- The rule that holds the place. -/
  rule : String
  /-- What is called for. -/
  target : Target
  /-- The index of the call. -/
  idx : Nat
deriving DecidableEq

/-- A place in a rule where lookahead decides how to go on. -/
structure DecisionKey where
  /-- The rule that holds the place. -/
  rule : String
  /-- The construct. -/
  kind : DecisionKind
  /-- The index of the construct. -/
  idx : Nat
deriving DecidableEq

/-- What comes right after a repetition inside its rule. -/
inductive AfterRepetition where
  /-- A token of the class, called for with the given index. -/
  | terminal (token : TokenId) (idx : Nat)
  /-- The end of the rule. -/
  | endOfRule
  /-- Anything else. -/
  | other
deriving DecidableEq

/-- What a walk over productions finds out. -/
structure FollowWalk where
  /-- The lookahead of the productions followed by what comes after them. -/
  lookahead : Lookahead
  /-- What the first production is to a repetition right before it. -/
  next : AfterRepetition
  /-- The lookahead after each call site. -/
  follows : List (CallSite × Lookahead)
  /-- What comes after each repetition. -/
  repetitions : List (DecisionKey × AfterRepetition)

/-- What a production is to a repetition right before it. -/
def Production.afterRepetition : Production → AfterRepetition
  | .terminal token idx => .terminal token idx
  | _ => .other

namespace FirstSets

mutual

/-- Walks a production of the rule; `tail` is the lookahead of what comes after it, and `next` is
what comes right after it. -/
def walk (f : FirstSets) (rule : String) (tail : Lookahead) (next : AfterRepetition) :
    Production → FollowWalk
  | .terminal token idx =>
    ⟨.token token, .terminal token idx, [(⟨rule, .token token, idx⟩, tail)], []⟩
  | .nonTerminal target idx =>
    ⟨(f.ofRule target).andThen tail, .other, [(⟨rule, .rule target, idx⟩, tail)], []⟩
  | .option _ body =>
    let w := f.walkSeq rule tail next body
    ⟨w.lookahead.union tail, .other, w.follows, w.repetitions⟩
  | .many idx body =>
    -- after the body comes either the body again or what comes after the repetition
    let again := ⟨(f.ofSeq body).set.union tail.set, tail.nullable⟩
    let w := f.walkSeq rule again .other body
    ⟨again, .other, w.follows, (⟨rule, .many, idx⟩, next) :: w.repetitions⟩
  | .choice _ alternatives =>
    let w := f.walkAlts rule tail next alternatives
    ⟨w.lookahead, .other, w.follows, w.repetitions⟩

/-- Walks a sequence of productions from right to left. -/
def walkSeq (f : FirstSets) (rule : String) (tail : Lookahead) (next : AfterRepetition) :
    List Production → FollowWalk
  | [] => ⟨tail, next, [], []⟩
  | p :: rest =>
    let after := f.walkSeq rule tail next rest
    let w := f.walk rule after.lookahead after.next p
    ⟨w.lookahead, w.next, w.follows ++ after.follows, w.repetitions ++ after.repetitions⟩

/-- Walks alternatives, each with the same things after it. -/
def walkAlts (f : FirstSets) (rule : String) (tail : Lookahead) (next : AfterRepetition) :
    List (List Production) → FollowWalk
  | [] => ⟨.none, .other, [], []⟩
  | body :: rest =>
    let w := f.walkSeq rule tail next body
    let others := f.walkAlts rule tail next rest
    ⟨w.lookahead.union others.lookahead, .other, w.follows ++ others.follows,
      w.repetitions ++ others.repetitions⟩

end

/-- Walks the body of a rule, after which the rule ends. -/
def walkRule (f : FirstSets) (r : Rule) : FollowWalk := f.walkSeq r.name .empty .endOfRule r.body

end FirstSets

end TopDown
