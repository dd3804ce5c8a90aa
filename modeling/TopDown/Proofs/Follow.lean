import TopDown.Proofs.Chart
import TopDown.Proofs.Exactness

/-!
# Follow sets are exact

The walk of a sequence gives the lookahead of the sequence followed by whatever has the lookahead
`tail`: `Lookahead.Extends` says so of a lookahead, and `Grammar.extends_walkSeq` of the walk, from
the exactness of first sets. What the walk takes for the thing right after a repetition agrees with
`tail`: `Lookahead.Heralds`.
-/

namespace TopDown

namespace Lookahead

/-- The lookahead is that of the productions followed by what has the lookahead `tail`. -/
structure Extends (g : Grammar) (ps : List Production) (tail a : Lookahead) : Prop where
  set : ∀ c, c ∈ a.set ↔ g.Starts ps c ∨ g.Vanishes ps ∧ c ∈ tail.set
  nullable : a.nullable = true ↔ g.Vanishes ps ∧ tail.nullable = true

variable {g : Grammar} {ps : List Production} {tail a : Lookahead}

/-- What has an exact lookahead comes before the tail. -/
theorem Exact.extends (h : a.Exact g ps) (tail : Lookahead) :
    Extends g ps tail (a.andThen tail) := by
  have hnullable : a.nullable = true ↔ g.Vanishes ps :=
    (h.nullable ⟨[]⟩).trans Grammar.vanishes_iff.symm
  constructor
  · intro c
    rw [mem_set_andThen, h.set c, hnullable]
  · rw [nullable_andThen, Bool.and_eq_true, hnullable]

/-- What the walk takes for the thing right after a repetition begins what has the lookahead. -/
def Heralds : AfterRepetition → Lookahead → Prop
  | .terminal token _, a => a = .token token
  | .endOfRule, a => a = .empty
  | .other, _ => True

end Lookahead

namespace Grammar

variable {g : Grammar}

/-- The walk of a sequence extends the tail over the sequence. -/
theorem extends_walkSeq (h : g.checkLeftRecursion g.nullableRules = .ok ()) (rule : String)
    (tail : Lookahead) (next : AfterRepetition) (ps : List Production) :
    Lookahead.Extends g ps tail ((FirstSets.ofGrammar g).walkSeq rule tail next ps).lookahead := by
  rw [FirstSets.lookahead_walkSeq]
  exact (FirstSets.exact_ofSeq h ps).extends tail

/-- After a repetition comes another round or the tail. -/
theorem extends_many (h : g.checkLeftRecursion g.nullableRules = .ok ()) (idx : Nat)
    (body : List Production) (tail : Lookahead) : Lookahead.Extends g [.many idx body] tail
      ⟨((FirstSets.ofGrammar g).ofSeq body).set.union tail.set, tail.nullable⟩ := by
  have hextends := (FirstSets.exact_ofSeq h [.many idx body]).extends tail
  rwa [FirstSets.ofSeq_many, Lookahead.andThen, if_pos rfl] at hextends

/-- What comes right after a repetition agrees with the lookahead of what comes after it. -/
theorem heralds_walkSeq {f : FirstSets} {rule : String} {tail : Lookahead} {next : AfterRepetition}
    (h : Lookahead.Heralds next tail) (ps : List Production) :
    Lookahead.Heralds (f.walkSeq rule tail next ps).next
      (f.walkSeq rule tail next ps).lookahead := by
  cases ps with
  | nil => exact h
  | cons p rest =>
    cases p with
    | terminal token idx => rfl
    | nonTerminal | option | many | choice => trivial

end Grammar

end TopDown
