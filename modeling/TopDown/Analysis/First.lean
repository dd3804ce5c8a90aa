import TopDown.Analysis.Lookahead
import TopDown.Grammar

/-!
# First sets

For every rule of a grammar: whether it derives the empty sequence, and the classes of the tokens
that can come first in what it derives.

Nullability is a least fixed point, reached by adding rules whose bodies are nullable as far as is
known. First sets are found depth first: `Production.leading` lists what can come first in a
sequence, tokens and rules, and the sets of the rules among it are found before. A rule that is
reached again while its own set is being computed contributes nothing there, so in a grammar with
left recursion the sets depend on the order of the rules and may be too small.
-/

namespace TopDown

/-- Something that can come first in a sequence. -/
inductive Symbol where
  /-- A token of the class. -/
  | token (t : TokenId)
  /-- What the rule derives. -/
  | rule (name : String)
deriving DecidableEq

namespace Production

mutual

/-- Whether the production derives the empty sequence, given which rules do. -/
def nullable (rules : List String) : Production → Bool
  | .terminal .. => false
  | .nonTerminal rule _ => rules.contains rule
  | .option .. | .many .. => true
  | .choice _ alternatives => nullableAny rules alternatives

/-- Whether all parts of a sequence derive the empty sequence. -/
def nullableSeq (rules : List String) : List Production → Bool
  | [] => true
  | p :: rest => p.nullable rules && nullableSeq rules rest

/-- Whether some alternative derives the empty sequence. -/
def nullableAny (rules : List String) : List (List Production) → Bool
  | [] => false
  | body :: rest => nullableSeq rules body || nullableAny rules rest

end

mutual

/-- What can come first in the production, given which rules are nullable. -/
def leading (rules : List String) : Production → List Symbol
  | .terminal token _ => [.token token]
  | .nonTerminal rule _ => [.rule rule]
  | .option _ body | .many _ body => leadingSeq rules body
  | .choice _ alternatives => leadingAny rules alternatives

/-- What can come first in a sequence: what can come first in a part that only nullable parts
precede. -/
def leadingSeq (rules : List String) : List Production → List Symbol
  | [] => []
  | p :: rest => p.leading rules ++ if p.nullable rules then leadingSeq rules rest else []

/-- What can come first in one of the alternatives. -/
def leadingAny (rules : List String) : List (List Production) → List Symbol
  | [] => []
  | body :: rest => leadingSeq rules body ++ leadingAny rules rest

end

end Production

/-- The first sets of the rules seen so far. -/
abbrev FirstMemo := List (String × TokenSet)

namespace Grammar

/-- The rules whose bodies are nullable, given rules that are. -/
def nullableStep (g : Grammar) (rules : List String) : List String :=
  (g.rules.filter fun r => Production.nullableSeq rules r.body).map (·.name)

/-- The rules that are found nullable within `n` rounds. -/
def nullableWithin (g : Grammar) : (n : Nat) → List String
  | 0 => []
  | n + 1 => g.nullableStep (g.nullableWithin n)

/-- The rules that derive the empty sequence. Each round but the last finds a new one. -/
def nullableRules (g : Grammar) : List String := g.nullableWithin g.size

/-- Adds what the symbol stands for to a first set. -/
def addFirst (visit : String → FirstMemo → FirstMemo) :
    FirstMemo × TokenSet → Symbol → FirstMemo × TokenSet
  | (memo, set), .token t => (memo, set.insert t)
  | (memo, set), .rule name =>
    let memo := visit name memo
    (memo, set.union ((memo.lookup name).getD ∅))

/-- Finds the first set of a rule, unless it is known or its search is under way. The rules on the
path are those whose search is; at most `room` more rules can join them. -/
def visitFirst (g : Grammar) (nullable : List String) :
    (room : Nat) → (path : List String) → String → FirstMemo → FirstMemo
  | 0, _, _, memo => memo
  | room + 1, path, name, memo =>
    if (memo.lookup name).isSome || path.contains name then memo
    else
      match g.rule? name with
      | none => memo
      | some r =>
        let (memo, set) := (Production.leadingSeq nullable r.body).foldl
          (addFirst (g.visitFirst nullable room (name :: path))) (memo, ∅)
        (name, set) :: memo

end Grammar

/-- Nullability and first sets of the rules of a grammar. -/
structure FirstSets where
  /-- The rules that derive the empty sequence. -/
  nullable : List String
  /-- The first set of each rule. -/
  sets : FirstMemo

namespace FirstSets

/-- Nullability and first sets of a grammar. -/
def ofGrammar (g : Grammar) : FirstSets :=
  let nullable := g.nullableRules
  ⟨nullable, g.rules.foldl (fun memo r => g.visitFirst nullable g.size [] r.name memo) []⟩

/-- The first set of a rule; empty for a name that is not declared. -/
def first (f : FirstSets) (name : String) : TokenSet := (f.sets.lookup name).getD ∅

/-- The lookahead of a rule. -/
def ofRule (f : FirstSets) (name : String) : Lookahead := ⟨f.first name, f.nullable.contains name⟩

/-- The first tokens of a symbol. -/
def ofSymbol (f : FirstSets) : Symbol → TokenSet
  | .token t => .single t
  | .rule name => f.first name

/-- The lookahead of a sequence of productions. -/
def ofSeq (f : FirstSets) (body : List Production) : Lookahead :=
  ⟨(Production.leadingSeq f.nullable body).foldl (fun set s => set.union (f.ofSymbol s)) ∅,
    Production.nullableSeq f.nullable body⟩

end FirstSets

end TopDown
