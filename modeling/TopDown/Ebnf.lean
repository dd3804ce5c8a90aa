import TopDown.Grammar

/-!
# Extended Backus-Naur form

The text of a grammar: one rule a line, a name, an equals sign and the body. Square brackets hold a
part that may be left out, round brackets with a star a part that may be repeated, and round
brackets with bars alternatives. Indices are not shown.
-/

namespace TopDown

namespace Production

mutual

/-- The text of a production. -/
def ebnf (v : Vocabulary) : Production → String
  | .terminal token _ => v.name token
  | .nonTerminal rule _ => rule
  | .option _ body => "[" ++ ebnfSeq v body ++ "]"
  | .many _ body => "(" ++ ebnfSeq v body ++ ")*"
  | .choice _ alternatives => "(" ++ ebnfAlts v alternatives ++ ")"

/-- The text of a sequence, with spaces between its parts. -/
def ebnfSeq (v : Vocabulary) : List Production → String
  | [] => ""
  | p :: rest => p.ebnf v ++ ebnfRest v rest

/-- The text of the further parts of a sequence. -/
def ebnfRest (v : Vocabulary) : List Production → String
  | [] => ""
  | p :: rest => " " ++ p.ebnf v ++ ebnfRest v rest

/-- The text of alternatives, with bars between them. -/
def ebnfAlts (v : Vocabulary) : List (List Production) → String
  | [] => ""
  | body :: rest => ebnfSeq v body ++ ebnfBars v rest

/-- The text of the further alternatives. -/
def ebnfBars (v : Vocabulary) : List (List Production) → String
  | [] => ""
  | body :: rest => " | " ++ ebnfSeq v body ++ ebnfBars v rest

end

end Production

/-- The line of a rule. -/
def Rule.ebnf (v : Vocabulary) (r : Rule) : String :=
  r.name ++ " =" ++ (if r.body.isEmpty then "" else " " ++ Production.ebnfSeq v r.body) ++ "\n"

/-- The text of a grammar. -/
def Grammar.ebnf (v : Vocabulary) (g : Grammar) : String := String.join (g.rules.map (·.ebnf v))

end TopDown
