import TopDown.Proofs.Prediction

/-!
# LL(1) grammars

A grammar is LL(1) from a start rule if one token decides everywhere how to go on. What follows a
place in a derivation is all that is left to read after it (`Grammar.Upcoming`), and the end of the
input comes last. So `Grammar.IsLL1` compares what a body can begin with and what any of these can
begin with, where a token counts for all classes that it is accepted for.
-/

namespace TopDown

namespace Grammar

variable {g : Grammar} {v : Vocabulary} {start : String}

/-- The productions can be all that is left to read in a derivation from the rule. -/
inductive Upcoming (g : Grammar) (start : String) : List Production → Prop where
  | start : Upcoming g start [.nonTerminal start 0]
  | drop {p : Production} {ps : List Production} (h : Upcoming g start (p :: ps)) :
      Upcoming g start ps
  | nonTerminal {name : String} {idx : Nat} {r : Rule} {ps : List Production}
      (hr : g.rule? name = some r) (h : Upcoming g start (.nonTerminal name idx :: ps)) :
      Upcoming g start (r.body ++ ps)
  | option {idx : Nat} {body ps : List Production}
      (h : Upcoming g start (.option idx body :: ps)) : Upcoming g start (body ++ ps)
  | many {idx : Nat} {body ps : List Production} (h : Upcoming g start (.many idx body :: ps)) :
      Upcoming g start (body ++ .many idx body :: ps)
  | choice {idx : Nat} {alternatives : List (List Production)} {body ps : List Production}
      (hmem : body ∈ alternatives) (h : Upcoming g start (.choice idx alternatives :: ps)) :
      Upcoming g start (body ++ ps)

/-- A token of the class, or the end of the input, can come next when the productions are all that
is left to read. -/
def Follows (g : Grammar) (v : Vocabulary) (ps : List Production) (kind : TokenId) : Prop :=
  g.Admits v ps kind ∨ g.Vanishes ps ∧ v.isA kind v.eof = true

/-- One token decides how to go on, wherever a derivation from the rule can come. -/
structure IsLL1 (g : Grammar) (v : Vocabulary) (start : String) : Prop where
  /-- What begins the body of an option cannot follow the option. -/
  option : ∀ idx body ps, g.Upcoming start (.option idx body :: ps) →
    ∀ kind, g.Admits v body kind → ¬g.Follows v ps kind
  /-- What begins the body of a repetition cannot follow the repetition. -/
  many : ∀ idx body ps, g.Upcoming start (.many idx body :: ps) →
    ∀ kind, g.Admits v body kind → ¬g.Follows v ps kind
  /-- No two alternatives of a choice begin with the same token. -/
  distinct : ∀ idx alternatives ps, g.Upcoming start (.choice idx alternatives :: ps) →
    alternatives.Pairwise fun a b => ∀ kind, g.Admits v a kind → ¬g.Admits v b kind
  /-- No two alternatives of a choice vanish. -/
  vanishing : ∀ idx alternatives ps, g.Upcoming start (.choice idx alternatives :: ps) →
    alternatives.Pairwise fun a b => g.Vanishes a → ¬g.Vanishes b
  /-- If an alternative vanishes, what begins any of them cannot follow the choice. -/
  choice : ∀ idx alternatives ps, g.Upcoming start (.choice idx alternatives :: ps) →
    ∀ a ∈ alternatives, g.Vanishes a → ∀ b ∈ alternatives,
      ∀ kind, g.Admits v b kind → ¬g.Follows v ps kind

/-- What comes next when the productions are left to read. -/
theorem Derives.follows {ps : List Production} {s : ParseState}
    (h : g.Derives v ps s.cursor.rest) : g.Follows v ps (s.nextKind v) := by
  cases hrest : s.cursor.rest with
  | nil =>
    refine .inr ⟨h.vanishes hrest, ?_⟩
    rw [ParseState.nextKind_eq, hrest]
    exact Vocabulary.isA_eof_iff.2 rfl
  | cons t rest =>
    refine .inl ?_
    rw [ParseState.nextKind_eq, hrest]
    exact h.admits hrest

/-- What is read next of a sequence that derives a token. -/
theorem Derives.admits_nextKind {ps : List Production} {s : ParseState} {us ws : List Token}
    (h : g.Derives v ps us) (hus : us ≠ []) (hrest : s.cursor.rest = us ++ ws) :
    g.Admits v ps (s.nextKind v) := by
  obtain ⟨t, rest, rfl⟩ := List.exists_cons_of_ne_nil hus
  rw [ParseState.nextKind_eq, hrest]
  exact h.admits rfl

end Grammar

end TopDown
