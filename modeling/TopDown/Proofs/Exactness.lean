import TopDown.Proofs.First
import TopDown.Proofs.Lookahead
import TopDown.Proofs.Samples

/-!
# First sets are exact

Both computations of a grammar are cut off by a number: the rounds that look for nullable rules, and
the length of the paths of the search for first sets. `FirstSets.within_eq` says that the size of
the grammar is never too small, so the numbers only show that the computations end.

`FirstSets.exact_ofGrammar` gathers what they find. For every grammar the nullable rules are those
that derive nothing, and every class in a first set can come first in its rule. If the grammar is
well formed, the sets and the lookahead of every sequence are exact (`Lookahead.Exact`).
-/

namespace TopDown

/-- The lookahead tells exactly what can come first in what the sequence derives, and whether the
sequence derives nothing. -/
structure Lookahead.Exact (g : Grammar) (ps : List Production) (a : Lookahead) : Prop where
  set : ∀ c, c ∈ a.set ↔ g.Starts ps c
  nullable : ∀ v, a.nullable = true ↔ g.Derives v ps []

theorem Lookahead.Exact.eq {g : Grammar} {ps : List Production} {a b : Lookahead}
    (ha : a.Exact g ps) (hb : b.Exact g ps) : a = b :=
  eq_of_mem_iff (fun c => (ha.set c).trans (hb.set c).symm)
    (Bool.eq_iff_iff.2 ((ha.nullable ⟨[]⟩).trans (hb.nullable ⟨[]⟩).symm))

namespace Grammar

variable {g : Grammar}

/-! ## The searches end by themselves -/

theorem nullableWithin_add (g : Grammar) (k : Nat) :
    g.nullableWithin (g.size + k) = g.nullableRules := by
  induction k with
  | zero => rfl
  | succ k ih =>
    show g.nullableStep (g.nullableWithin (g.size + k)) = g.nullableRules
    rw [ih, nullableStep_nullableRules]

/-- A path that holds all rules cannot be made longer, so the room that is left does not matter. -/
theorem visitFirst_of_full {path : List String} (hpath : g.Path path 0) (nullable : List String)
    (room : Nat) (name : String) (memo : FirstMemo) :
    g.visitFirst nullable room path name memo = memo := by
  cases room with
  | zero => rfl
  | succ room =>
    rw [visitFirst]
    by_cases hknown : ((memo.lookup name).isSome || path.contains name) = true
    · rw [if_pos hknown]
    · rw [if_neg hknown]
      cases hr : g.rule? name with
      | none => rfl
      | some r =>
        have hd : g.declares name = true := by rw [declares, hr]; rfl
        have hmem : name ∈ path := hpath.mem hd
        simp [hmem] at hknown

theorem visitFirst_add {room : Nat} {path : List String} (hpath : g.Path path room)
    (nullable : List String) (k : Nat) (name : String) (memo : FirstMemo) :
    g.visitFirst nullable (room + k) path name memo = g.visitFirst nullable room path name memo := by
  induction room generalizing path name memo with
  | zero => rw [visitFirst_of_full hpath, visitFirst_of_full hpath]
  | succ room ih =>
    rw [show room + 1 + k = (room + k) + 1 by omega, visitFirst, visitFirst]
    by_cases hknown : ((memo.lookup name).isSome || path.contains name) = true
    · rw [if_pos hknown, if_pos hknown]
    · rw [if_neg hknown, if_neg hknown]
      cases hr : g.rule? name with
      | none => rfl
      | some r =>
        have hd : g.declares name = true := by rw [declares, hr]; rfl
        have hn : ¬name ∈ path := by
          intro hmem
          simp [hmem] at hknown
        have hsame : g.visitFirst nullable (room + k) (name :: path) =
            g.visitFirst nullable room (name :: path) := by
          funext inner memo'
          exact ih (hpath.cons hd hn) inner memo'
        rw [hsame]

end Grammar

namespace FirstSets

variable {g : Grammar}

/-- Nullability and first sets of a grammar when everything is cut off at `n`: the rounds for
nullable rules, and the rules on a path of the search for first sets. -/
def within (g : Grammar) (n : Nat) : FirstSets :=
  ⟨g.nullableWithin n,
    g.rules.foldl (fun memo r => g.visitFirst (g.nullableWithin n) n [] r.name memo) []⟩

/-- Nothing is cut off that would make a difference. -/
theorem within_eq {n : Nat} (h : g.size ≤ n) : within g n = .ofGrammar g := by
  obtain ⟨k, rfl⟩ := Nat.exists_eq_add_of_le h
  have hvisit : (fun (memo : FirstMemo) (r : Rule) =>
      g.visitFirst g.nullableRules (g.size + k) [] r.name memo) =
      fun memo r => g.visitFirst g.nullableRules g.size [] r.name memo := by
    funext memo r
    exact g.visitFirst_add Grammar.path_nil g.nullableRules k r.name memo
  rw [within, g.nullableWithin_add k, hvisit]
  rfl

/-! ## What the sets are -/

theorem exact_ofSeq (h : g.checkLeftRecursion g.nullableRules = .ok ()) (ps : List Production) :
    ((FirstSets.ofGrammar g).ofSeq ps).Exact g ps where
  set _ := Grammar.mem_ofSeq h
  nullable _ := Grammar.nullable_ofSeq.trans Grammar.vanishes_iff

theorem exact_ofRule (h : g.checkLeftRecursion g.nullableRules = .ok ()) (name : String) (idx : Nat) :
    ((FirstSets.ofGrammar g).ofRule name).Exact g [.nonTerminal name idx] := by
  rw [← ofSeq_nonTerminal]
  exact exact_ofSeq h [.nonTerminal name idx]

/-- The name of a rule has the same lookahead as the body of the rule. -/
theorem exact_body {r : Rule} {a : Lookahead} {idx : Nat} (hr : g.rule? r.name = some r)
    (ha : a.Exact g [.nonTerminal r.name idx]) : a.Exact g r.body where
  set c := by
    rw [ha.set c, Grammar.starts_nonTerminal_iff, hr]
    simp
  nullable v := by
    rw [ha.nullable v, ← Grammar.vanishes_iff, ← Grammar.vanishes_iff,
      Grammar.vanishes_nonTerminal_iff, hr]
    simp

/-- For every grammar, the computation of first sets is not cut off, a rule is found nullable exactly
if it derives nothing, and every class in the first set of a rule can come first in it. If the
grammar is well formed, whatever the order of its rules, then first sets are complete, the lookahead
of a rule is that of its body, and the lookahead of every sequence is exact. -/
theorem exact_ofGrammar (g : Grammar) :
    (∀ n, g.size ≤ n → within g n = .ofGrammar g) ∧
    (∀ name idx v, name ∈ (ofGrammar g).nullable ↔ g.Derives v [.nonTerminal name idx] []) ∧
    (∀ name idx, ∀ c ∈ (ofGrammar g).first name, g.Starts [.nonTerminal name idx] c) ∧
    ∀ table, g.analyze = .ok table →
      (∀ name idx c, c ∈ (ofGrammar g).first name ↔ g.Starts [.nonTerminal name idx] c) ∧
      (∀ r ∈ g.rules, (ofGrammar g).ofRule r.name = (ofGrammar g).ofSeq r.body) ∧
      ∀ ps, ((ofGrammar g).ofSeq ps).Exact g ps := by
  refine ⟨fun n => within_eq, ?_, fun name idx c hc => Grammar.starts_of_mem_first hc, ?_⟩
  · intro name idx v
    rw [← Grammar.vanishes_iff]
    exact Grammar.mem_nullableRules
  · intro table htable
    have hcheck : g.check = .ok (.ofGrammar g) := by
      rw [Grammar.analyze] at htable
      cases hc : g.check with
      | error e =>
        rw [hc] at htable
        cases htable
      | ok f => rw [(Language.checked_eq_ok hc).1]
    obtain ⟨-, -, -, hleft, -, -⟩ := Language.checked_eq_ok hcheck
    refine ⟨fun name idx c => (exact_ofRule hleft name idx).set c, ?_, exact_ofSeq hleft⟩
    intro r hr
    have hbody := exact_body (Grammar.rule?_of_mem hr) (exact_ofRule hleft r.name 0)
    exact hbody.eq (exact_ofSeq hleft r.body)

/-- In the calculator language an expression can begin with a number, and the lookahead of a sequence
that is no body of a rule is exact too. -/
theorem exact_ofGrammar_calc :
    Calc.language.grammar.size ≤ 7 ∧ within Calc.language.grammar 7 = .ofGrammar Calc.language.grammar ∧
    Calc.numberLiteral ∈ (ofGrammar Calc.language.grammar).first "expression" ∧
    Calc.language.grammar.Starts [.nonTerminal "expression" 1] Calc.numberLiteral ∧
    Calc.language.grammar.analyze = .ok Calc.language.table ∧
    (⟨"expression", [.nonTerminal "additionExpression" 1]⟩ : Rule) ∈ Calc.language.grammar.rules ∧
    (ofGrammar Calc.language.grammar).ofRule "expression" =
      (ofGrammar Calc.language.grammar).ofSeq [.nonTerminal "additionExpression" 1] ∧
    Lookahead.Exact Calc.language.grammar [.option 1 [.terminal Calc.plus 1], .nonTerminal "expression" 1]
      ((ofGrammar Calc.language.grammar).ofSeq
        [.option 1 [.terminal Calc.plus 1], .nonTerminal "expression" 1]) := by
  obtain ⟨hdraft, ho⟩ := Language.outlined_of_build Calc.build_draft Calc.plain_draft
  have hsize : Calc.language.grammar.size ≤ 7 := by decide +kernel
  have hmem : Calc.numberLiteral ∈ (ofGrammar Calc.language.grammar).first "expression" :=
    TokenSet.contains_iff.1 (by decide +kernel)
  have hrule : (⟨"expression", [.nonTerminal "additionExpression" 1]⟩ : Rule) ∈
      Calc.language.grammar.rules := by
    rw [ho.rules, hdraft]
    exact List.mem_map_of_mem (List.mem_cons_self ..)
  obtain ⟨hwithin, -, hsound, hexact⟩ := exact_ofGrammar Calc.language.grammar
  obtain ⟨-, hbody, hseq⟩ := hexact _ ho.analyze
  exact ⟨hsize, hwithin 7 hsize, hmem, hsound _ 1 _ hmem, ho.analyze, hrule, hbody _ hrule, hseq _⟩

end FirstSets

end TopDown
