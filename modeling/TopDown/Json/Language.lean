import TopDown.Json.Value
import TopDown.Sample

/-!
# The JSON language

A sample language: JSON with lenient recovery. A member that was given up is left out of its object,
and any other value that was given up is null.
-/

namespace TopDown.Json

/-- The token classes, in the order in which they are tried. -/
def declarations : List Declaration := [
  .token "True" "true",
  .token "False" "false",
  .token "Null" "null",
  .token "LCurly" "\\\x7b",
  .token "RCurly" "\\\x7d",
  .token "LSquare" "\\[",
  .token "RSquare" "\\]",
  .token "Comma" ",",
  .token "Colon" ":",
  .token "StringLiteral" "\"(?:[^\\\\\"]|\\\\(?:[bfnrtv\"\\\\/]|u[0-9a-fA-F]\x7b4\x7d))*\"",
  .token "NumberLiteral" "-?(?:0|[1-9]\\d*)(?:\\.\\d+)?(?:[eE][+-]?\\d+)?",
  (Declaration.token "WhiteSpace" "\\s+").skipped]

/-- The word for truth. -/
def trueToken : TokenId := 0
/-- The word for falsehood. -/
def falseToken : TokenId := 1
/-- The word for null. -/
def nullToken : TokenId := 2
/-- The bracket that opens an object. -/
def leftCurly : TokenId := 3
/-- The bracket that closes an object. -/
def rightCurly : TokenId := 4
/-- The bracket that opens an array. -/
def leftSquare : TokenId := 5
/-- The bracket that closes an array. -/
def rightSquare : TokenId := 6
/-- The separator of members and items. -/
def comma : TokenId := 7
/-- The separator of a key and its value. -/
def colon : TokenId := 8
/-- A text between double quotes. -/
def stringLiteral : TokenId := 9
/-- A number. -/
def numberLiteral : TokenId := 10

/-- Items with commas between them, or none. -/
def commaList (rule : String) : Step :=
  .option 1 [.subrule rule 1, .many 1 [.consume comma 1, .subrule rule 2]]

/-- The rules of the language. -/
def rules : List RuleDef := [
  ⟨"object", [.consume leftCurly 1, commaList "objectItem", .consume rightCurly 1]⟩,
  ⟨"objectItem", [.consume stringLiteral 1, .consume colon 1, .subrule "value" 1]⟩,
  ⟨"array", [.consume leftSquare 1, commaList "value", .consume rightSquare 1]⟩,
  ⟨"value", [.choose 1 (some "a value") [
    [.consume stringLiteral 1],
    [.consume numberLiteral 1],
    [.subrule "object" 1],
    [.subrule "array" 1],
    [.consume trueToken 1],
    [.consume falseToken 1],
    [.consume nullToken 1]]]⟩]

/-- The value of a token that is a value by itself. -/
def tokenValue (t : Token) : Value :=
  if t.kind = stringLiteral then .string (unescape t.text)
  else if t.kind = numberLiteral then .number ((Decimal.parse? t.text).getD 0.0)
  else if t.kind = trueToken then .bool true
  else if t.kind = falseToken then .bool false
  else .null

/-- The value of a rule. -/
def ruleValue (name : String) (leaves : List (Leaf Value)) : Value :=
  let tokens := Leaf.tokens leaves
  let values := Leaf.values leaves
  match name with
  | "object" => .merge values
  | "objectItem" =>
    .object [(unescape (tokens.head?.elim "" (·.text)), values.headD .null)]
  | "array" => .array values
  | _ =>
    match leaves with
    | .token t :: _ => tokenValue t
    | .value v :: _ => v
    | [] => .null

theorem vocabulary_builds : (Vocabulary.build declarations).isOk = true := by decide +kernel

/-- The vocabulary of the language. -/
def vocabulary : Vocabulary := getOk (Vocabulary.build declarations) vocabulary_builds

/-- The language before it is built. -/
def draft : Draft := { vocabulary, rules }

theorem language_builds : draft.build.isOk = true := by decide +kernel

/-- The language. -/
def language : Language := getOk draft.build language_builds

/-- The language with its meaning. -/
def sample : Sample Value where
  name := "json"
  draft := draft
  language := language
  defaultRule := "object"
  meaning := ⟨.null, ruleValue⟩

end TopDown.Json
