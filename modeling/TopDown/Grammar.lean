import TopDown.Vocabulary

/-!
# Grammars

A grammar is an ordered list of rules with distinct names. The body of a rule is a sequence of
productions in extended Backus-Naur form. Every production carries the index that tells it apart
from the other uses of the same class, of the same rule or of the same construct in the rule;
`Production.preorder` lists all productions of a body at any depth.
-/

namespace TopDown

/-- The place of a rule in its grammar. -/
abbrev RuleId := Nat

/-- The constructs that decide by lookahead how to go on. -/
inductive DecisionKind where
  /-- A part that may be left out. -/
  | option
  /-- A part that may be repeated. -/
  | many
  /-- A choice between alternatives. -/
  | choice
deriving DecidableEq

/-- The construct as messages show it. -/
def DecisionKind.label : DecisionKind → String
  | .option => "OPTION"
  | .many => "MANY"
  | .choice => "OR"

/-- What a call site calls for. -/
inductive Target where
  /-- A token of the class. -/
  | token (t : TokenId)
  /-- The rule of the given name. -/
  | rule (name : String)
deriving DecidableEq

/-- A part of the body of a rule. -/
inductive Production where
  /-- A token of the class. -/
  | terminal (token : TokenId) (idx : Nat)
  /-- What the rule of the given name derives. -/
  | nonTerminal (rule : String) (idx : Nat)
  /-- The body or nothing. -/
  | option (idx : Nat) (body : List Production)
  /-- The body any number of times. -/
  | many (idx : Nat) (body : List Production)
  /-- One of the alternatives. -/
  | choice (idx : Nat) (alternatives : List (List Production))

/-- What tells a production apart from the others of its rule. -/
inductive Site where
  /-- A call of a class or a rule. -/
  | call (target : Target) (idx : Nat)
  /-- A decision. -/
  | decision (kind : DecisionKind) (idx : Nat)
deriving DecidableEq

/-- The site as messages show it. -/
def Site.describe (v : Vocabulary) : Site → String
  | .call (.token t) idx => s!"CONSUME #{idx} of `{v.name t}`"
  | .call (.rule name) idx => s!"SUBRULE #{idx} of `{name}`"
  | .decision kind idx => s!"{kind.label} #{idx}"

namespace Production

/-- The site of the production. -/
def site : Production → Site
  | .terminal token idx => .call (.token token) idx
  | .nonTerminal rule idx => .call (.rule rule) idx
  | .option idx _ => .decision .option idx
  | .many idx _ => .decision .many idx
  | .choice idx _ => .decision .choice idx

/-- The decision that the production asks for, if it is one. -/
def decision? : Production → Option (DecisionKind × Nat)
  | .terminal .. | .nonTerminal .. => none
  | .option idx _ => some (.option, idx)
  | .many idx _ => some (.many, idx)
  | .choice idx _ => some (.choice, idx)

mutual

/-- The production and the productions inside it, each before those inside it. -/
def preorder : Production → List Production
  | .terminal token idx => [.terminal token idx]
  | .nonTerminal rule idx => [.nonTerminal rule idx]
  | .option idx body => .option idx body :: preorderSeq body
  | .many idx body => .many idx body :: preorderSeq body
  | .choice idx alternatives => .choice idx alternatives :: preorderAlts alternatives

/-- The productions of a sequence at any depth. -/
def preorderSeq : List Production → List Production
  | [] => []
  | p :: rest => p.preorder ++ preorderSeq rest

/-- The productions of alternatives at any depth. -/
def preorderAlts : List (List Production) → List Production
  | [] => []
  | body :: rest => preorderSeq body ++ preorderAlts rest

end

end Production

/-- A named sequence of productions. -/
structure Rule where
  /-- The name of the rule. -/
  name : String
  /-- What the rule derives. -/
  body : List Production

/-- An ordered list of rules. -/
structure Grammar where
  /-- The rules; each is known by its name or its place. -/
  rules : List Rule
  /-- No two rules have the same name. -/
  distinct : (rules.map (·.name)).Nodup

namespace Grammar

/-- The grammar without rules. -/
def empty : Grammar := ⟨[], by simp⟩

instance : EmptyCollection Grammar := ⟨empty⟩

/-- The number of rules. -/
def size (g : Grammar) : Nat := g.rules.length

/-- The place of the rule with the given name. -/
def ruleId? (g : Grammar) (name : String) : Option RuleId := g.rules.findIdx? (·.name == name)

/-- The rule with the given name. -/
def rule? (g : Grammar) (name : String) : Option Rule := g.rules.find? (·.name == name)

/-- Whether a rule has the given name. -/
def declares (g : Grammar) (name : String) : Bool := (g.rule? name).isSome

/-- The rule at the given place. -/
def ruleAt? (g : Grammar) (id : RuleId) : Option Rule := g.rules[id]?

/-- The name of the rule at the given place as messages show it. -/
def ruleName (g : Grammar) (id : RuleId) : String := (g.ruleAt? id).elim "<unknown>" (·.name)

/-- The rules with the body of the named one replaced. -/
def replaceBody (name : String) (body : List Production) (rules : List Rule) : List Rule :=
  rules.map fun r => if r.name = name then ⟨r.name, body⟩ else r

theorem map_name_replaceBody (name : String) (body : List Production) (rules : List Rule) :
    (replaceBody name body rules).map (·.name) = rules.map (·.name) := by
  simp only [replaceBody, List.map_map]
  refine List.map_congr_left fun r _ => ?_
  by_cases h : r.name = name <;> simp [h]

/-- The grammar with one more rule at the end. If there is a rule of that name, it gets the new body
and keeps its place. -/
def add (g : Grammar) (name : String) (body : List Production) : Grammar :=
  if h : name ∈ g.rules.map (·.name) then
    ⟨replaceBody name body g.rules, by rw [map_name_replaceBody]; exact g.distinct⟩
  else
    ⟨g.rules ++ [⟨name, body⟩], by
      rw [List.map_append, List.nodup_append]
      refine ⟨g.distinct, by simp, ?_⟩
      intro a ha b hb
      simp only [List.map_cons, List.map_nil, List.mem_singleton] at hb
      rintro rfl
      exact h (hb ▸ ha)⟩

/-- The grammar of the rules added in order. -/
def ofList (rules : List (String × List Production)) : Grammar :=
  rules.foldl (fun g (name, body) => g.add name body) ∅

end Grammar

end TopDown
