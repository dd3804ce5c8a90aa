import TopDown.Decimal.Text
import TopDown.Sample

/-!
# The calculator language

A sample language: arithmetic with the usual precedence, every operator grouping to the left. An
expression that was given up is zero. Numbers are never made up to get past an error.
-/

namespace TopDown.Calc

/-- The token classes, in the order in which they are tried. -/
def declarations : List Declaration := [
  .category "AdditionOperator",
  (Declaration.token "Plus" "\\+").under 0,
  (Declaration.token "Minus" "-").under 0,
  .category "MultiplicationOperator",
  (Declaration.token "Multi" "\\*").under 3,
  (Declaration.token "Div" "/").under 3,
  .token "LParen" "\\(",
  .token "RParen" "\\)",
  .token "NumberLiteral" "0|[1-9]\\d*",
  (Declaration.token "WhiteSpace" "\\s+").skipped]

/-- The signs between terms. -/
def additionOperator : TokenId := 0
/-- The sign of addition. -/
def plus : TokenId := 1
/-- The sign of subtraction. -/
def minus : TokenId := 2
/-- The signs between factors. -/
def multiplicationOperator : TokenId := 3
/-- The sign of multiplication. -/
def times : TokenId := 4
/-- The sign of division. -/
def divide : TokenId := 5
/-- The opening parenthesis. -/
def leftParenthesis : TokenId := 6
/-- The closing parenthesis. -/
def rightParenthesis : TokenId := 7
/-- A number. -/
def numberLiteral : TokenId := 8

/-- Operands with operators between them. -/
def operatorChain (operator : TokenId) (operand : String) : List Step :=
  [.subrule operand 1, .many 1 [.consume operator 1, .subrule operand 2]]

/-- The rules of the language. -/
def rules : List RuleDef := [
  ⟨"expression", [.subrule "additionExpression" 1]⟩,
  ⟨"additionExpression", operatorChain additionOperator "multiplicationExpression"⟩,
  ⟨"multiplicationExpression", operatorChain multiplicationOperator "atomicExpression"⟩,
  ⟨"atomicExpression", [.choose 1 (some "a number or parenthesis expression") [
    [.subrule "parenthesisExpression" 1],
    [.consume numberLiteral 1]]]⟩,
  ⟨"parenthesisExpression",
    [.consume leftParenthesis 1, .subrule "expression" 1, .consume rightParenthesis 1]⟩]

/-- The result of an operator. A sign between terms that is not that of addition subtracts, and a
sign between factors that is not that of multiplication divides. -/
def apply (operator : TokenId) (x y : Float) : Float :=
  if operator = plus then x + y
  else if operator = times then x * y
  else if operator = minus || operator = additionOperator then x - y
  else x / y

/-- The result of operators and operands in turn, from left to right, after those with the result
`x`. -/
def chainValue (x : Float) : List (Leaf Float) → Float
  | .token op :: .value y :: rest => chainValue (apply op.kind x y) rest
  | _ => x

/-- The value of a rule. -/
def ruleValue (name : String) (leaves : List (Leaf Float)) : Float :=
  if name = "parenthesisExpression" then (Leaf.values leaves).headD 0.0
  else
    match leaves with
    | .value x :: rest => chainValue x rest
    | .token t :: _ => (Decimal.parse? t.text).getD 0.0
    | [] => 0.0

theorem vocabulary_builds : (Vocabulary.build declarations).isOk = true := by decide +kernel

/-- The vocabulary of the language. -/
def vocabulary : Vocabulary := getOk (Vocabulary.build declarations) vocabulary_builds

/-- The language before it is built. -/
def draft : Draft where
  vocabulary := vocabulary
  rules := rules
  mayInsert := fun token => token != numberLiteral

theorem language_builds : draft.build.isOk = true := by decide +kernel

/-- The language. -/
def language : Language := getOk draft.build language_builds

/-- The language with its meaning. -/
def sample : Sample Float where
  name := "calc"
  draft := draft
  language := language
  defaultRule := "expression"
  meaning := ⟨0.0, ruleValue⟩

end TopDown.Calc
