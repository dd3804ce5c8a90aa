import Mathlib.Data.List.Induction
import Mathlib.Data.List.Sort
import TopDown.Analysis.Follow

/-!
# The lookahead of a sequence

`FirstSets.ofSeq` lists what can come first in a sequence, as the search for first sets does. The
same lookahead is found by going along the sequence: `FirstSets.ofSeq_eq_foldl` puts the lookahead of
each production behind that of the productions before it. For a single production there is an
equation for every kind; an option or a repetition comes to its body or to nothing, and a choice to
any of its alternatives (`FirstSets.ofSeq_choice`).

The walk that finds follow sets goes the other way, from the end of a rule to its beginning, and comes
to the same lookahead: `FirstSets.lookahead_walkSeq`. All of this holds for any first sets, whether
they are right or not.
-/

namespace TopDown

theorem TokenSet.eq_of_mem_iff {s t : TokenSet} (h : ∀ c, c ∈ s ↔ c ∈ t) : s = t := by
  obtain ⟨ids, hids⟩ := s
  obtain ⟨ids', hids'⟩ := t
  have heq : ids = ids' := hids.eq_of_mem_iff hids' (fun c => h c)
  subst heq
  rfl

namespace Lookahead

variable {a b tail : Lookahead} {c : TokenId}

theorem eq_of_mem_iff (hset : ∀ c, c ∈ a.set ↔ c ∈ b.set) (hnullable : a.nullable = b.nullable) :
    a = b := by
  obtain ⟨set, nullable⟩ := a
  obtain ⟨set', nullable'⟩ := b
  have hset : set = set' := TokenSet.eq_of_mem_iff hset
  have hnullable : nullable = nullable' := hnullable
  rw [hset, hnullable]

/-! ## One piece after another, and one or the other -/

@[simp] theorem mem_set_andThen :
    c ∈ (a.andThen b).set ↔ c ∈ a.set ∨ a.nullable = true ∧ c ∈ b.set := by
  rw [andThen]
  split
  · rename_i hnullable
    simp [hnullable]
  · rename_i hnullable
    simp [hnullable]

@[simp] theorem nullable_andThen : (a.andThen b).nullable = (a.nullable && b.nullable) := by
  rw [andThen]
  cases hnullable : a.nullable <;> simp [hnullable]

@[simp] theorem mem_set_union : c ∈ (a.union b).set ↔ c ∈ a.set ∨ c ∈ b.set := TokenSet.mem_union

@[simp] theorem nullable_union : (a.union b).nullable = (a.nullable || b.nullable) := rfl

theorem andThen_of_not_nullable (h : a.nullable = false) : a.andThen b = a := by
  rw [andThen, h, if_neg Bool.false_ne_true]

theorem empty_andThen : empty.andThen a = a :=
  eq_of_mem_iff (fun c => by simp [empty]) (by simp [empty])

theorem none_andThen : none.andThen a = none := andThen_of_not_nullable rfl

theorem andThen_assoc : (a.andThen b).andThen tail = a.andThen (b.andThen tail) :=
  eq_of_mem_iff (fun c => by simp [and_or_left, or_assoc, and_assoc]) (by simp [Bool.and_assoc])

theorem union_assoc : (a.union b).union tail = a.union (b.union tail) :=
  eq_of_mem_iff (fun c => by simp [or_assoc]) (by simp [Bool.or_assoc])

theorem union_none : a.union none = a :=
  eq_of_mem_iff (fun c => by simp [none]) (by simp [none])

theorem none_union : none.union a = a :=
  eq_of_mem_iff (fun c => by simp [none]) (by simp [none])

/-- What comes after a choice comes after each of its alternatives. -/
theorem union_andThen : (a.union b).andThen tail = (a.andThen tail).union (b.andThen tail) := by
  refine eq_of_mem_iff (fun c => ?_) ?_
  · simp only [mem_set_andThen, mem_set_union, nullable_union, Bool.or_eq_true]
    tauto
  · simp only [nullable_andThen, nullable_union, Bool.and_or_distrib_right]

end Lookahead

namespace Production

variable {rules : List String} {ps qs : List Production}

theorem nullableSeq_append :
    nullableSeq rules (ps ++ qs) = (nullableSeq rules ps && nullableSeq rules qs) := by
  induction ps with
  | nil => rfl
  | cons p ps ih => rw [List.cons_append, nullableSeq, nullableSeq, ih, Bool.and_assoc]

theorem mem_leadingSeq_append {s : Symbol} : s ∈ leadingSeq rules (ps ++ qs) ↔
    s ∈ leadingSeq rules ps ∨ nullableSeq rules ps = true ∧ s ∈ leadingSeq rules qs := by
  induction ps with
  | nil => simp [leadingSeq, nullableSeq]
  | cons p ps ih =>
    rw [List.cons_append, leadingSeq, leadingSeq, nullableSeq, List.mem_append, List.mem_append]
    cases p.nullable rules with
    | false => simp
    | true => simp [ih, or_assoc]

end Production

namespace FirstSets

variable {f : FirstSets} {ps qs body : List Production} {c : TokenId} {idx : Nat}

/-! ## Along a sequence -/

theorem mem_foldl_union {f : Symbol → TokenSet} {symbols : List Symbol} {set : TokenSet}
    {c : TokenId} : c ∈ symbols.foldl (fun set s => set.union (f s)) set ↔
      c ∈ set ∨ ∃ s ∈ symbols, c ∈ f s := by
  induction symbols generalizing set with
  | nil => simp
  | cons s symbols ih =>
    rw [List.foldl_cons, ih, TokenSet.mem_union, or_assoc]
    simp

theorem mem_ofSeq_iff : c ∈ (f.ofSeq ps).set ↔
    ∃ s ∈ Production.leadingSeq f.nullable ps, c ∈ f.ofSymbol s := by
  rw [ofSeq, mem_foldl_union]
  simp only [TokenSet.not_mem_empty, false_or]

theorem ofSeq_nil : f.ofSeq [] = .empty := rfl

theorem ofSeq_append : f.ofSeq (ps ++ qs) = (f.ofSeq ps).andThen (f.ofSeq qs) := by
  refine Lookahead.eq_of_mem_iff (fun c => ?_) ?_
  · rw [Lookahead.mem_set_andThen, mem_ofSeq_iff, mem_ofSeq_iff, mem_ofSeq_iff]
    simp only [Production.mem_leadingSeq_append, or_and_right, exists_or, and_assoc,
      exists_and_left]
    rfl
  · rw [Lookahead.nullable_andThen]
    exact Production.nullableSeq_append

theorem ofSeq_cons {p : Production} : f.ofSeq (p :: ps) = (f.ofSeq [p]).andThen (f.ofSeq ps) := by
  rw [← ofSeq_append, List.singleton_append]

theorem ofSeq_terminal {token : TokenId} : f.ofSeq [.terminal token idx] = .token token := by
  refine Lookahead.eq_of_mem_iff (fun c => ?_) rfl
  rw [mem_ofSeq_iff]
  simp [Production.leadingSeq, Production.leading, ofSymbol, Lookahead.token]

theorem ofSeq_nonTerminal {name : String} : f.ofSeq [.nonTerminal name idx] = f.ofRule name := by
  refine Lookahead.eq_of_mem_iff (fun c => ?_) (Bool.and_true _)
  rw [mem_ofSeq_iff]
  simp [Production.leadingSeq, Production.leading, ofSymbol, ofRule]

theorem ofSeq_option : f.ofSeq [.option idx body] = ⟨(f.ofSeq body).set, true⟩ := by
  refine Lookahead.eq_of_mem_iff (fun c => ?_) rfl
  rw [mem_ofSeq_iff, mem_ofSeq_iff]
  simp [Production.leadingSeq, Production.leading]

theorem ofSeq_many : f.ofSeq [.many idx body] = ⟨(f.ofSeq body).set, true⟩ := by
  refine Lookahead.eq_of_mem_iff (fun c => ?_) rfl
  rw [mem_ofSeq_iff, mem_ofSeq_iff]
  simp [Production.leadingSeq, Production.leading]

theorem ofSeq_choice_nil : f.ofSeq [.choice idx []] = .none := rfl

theorem ofSeq_choice_cons {alternatives : List (List Production)} :
    f.ofSeq [.choice idx (body :: alternatives)] =
      (f.ofSeq body).union (f.ofSeq [.choice idx alternatives]) := by
  refine Lookahead.eq_of_mem_iff (fun c => ?_) ?_
  · rw [Lookahead.mem_set_union, mem_ofSeq_iff, mem_ofSeq_iff, mem_ofSeq_iff]
    simp [Production.leadingSeq, Production.leading, Production.leadingAny, or_and_right, exists_or]
  · simp [ofSeq, Production.nullableSeq, Production.nullable, Production.nullableAny]

/-- The lookahead of a sequence is found from its beginning to its end. -/
theorem ofSeq_eq_foldl :
    f.ofSeq ps = ps.foldl (fun a p => a.andThen (f.ofSeq [p])) .empty := by
  induction ps using List.reverseRecOn with
  | nil => rfl
  | append_singleton ps p ih => rw [ofSeq_append, List.foldl_concat, ih]

/-- What comes after a part that cannot be empty makes no difference. -/
theorem ofSeq_append_of_not_nullable (h : (f.ofSeq ps).nullable = false) :
    f.ofSeq (ps ++ qs) = f.ofSeq ps := by
  rw [ofSeq_append, Lookahead.andThen_of_not_nullable h]

/-- The lookahead of a choice is gathered from its alternatives. -/
theorem ofSeq_choice {alternatives : List (List Production)} : f.ofSeq [.choice idx alternatives] =
    alternatives.foldl (fun a body => a.union (f.ofSeq body)) .none := by
  have hfrom : ∀ a : Lookahead, a.union (f.ofSeq [.choice idx alternatives]) =
      alternatives.foldl (fun a body => a.union (f.ofSeq body)) a := by
    induction alternatives with
    | nil => exact fun a => Lookahead.union_none
    | cons body alternatives ih =>
      intro a
      rw [ofSeq_choice_cons, ← Lookahead.union_assoc, ih, List.foldl_cons]
  rw [← hfrom, Lookahead.none_union]

/-! ## From the end of the rule -/

mutual

theorem lookahead_walk (f : FirstSets) (rule : String) (tail : Lookahead) (next : AfterRepetition) :
    ∀ p : Production, (f.walk rule tail next p).lookahead = (f.ofSeq [p]).andThen tail
  | .terminal token idx => by
    rw [ofSeq_terminal, Lookahead.andThen_of_not_nullable rfl, walk]
  | .nonTerminal name idx => by rw [ofSeq_nonTerminal, walk]
  | .option idx body => by
    -- what may be left out is followed by the tail anyway
    have hbody := lookahead_walkSeq f rule tail next body
    rw [ofSeq_option, walk]
    refine Lookahead.eq_of_mem_iff (fun c => ?_) ?_
    · simp only [hbody, Lookahead.mem_set_union, Lookahead.mem_set_andThen, true_and]
      tauto
    · simp only [hbody, Lookahead.nullable_union, Lookahead.nullable_andThen, Bool.true_and]
      cases tail.nullable <;> simp
  | .many idx body => by rw [ofSeq_many, Lookahead.andThen, if_pos rfl, walk]
  | .choice idx alternatives => by
    rw [walk]
    exact lookahead_walkAlts f rule tail next idx alternatives

/-- The walk of a sequence finds the lookahead of the sequence followed by the tail. -/
theorem lookahead_walkSeq (f : FirstSets) (rule : String) (tail : Lookahead)
    (next : AfterRepetition) : ∀ ps : List Production,
      (f.walkSeq rule tail next ps).lookahead = (f.ofSeq ps).andThen tail
  | [] => by rw [ofSeq_nil, Lookahead.empty_andThen, walkSeq]
  | p :: rest => by
    have hp := lookahead_walk f rule (f.walkSeq rule tail next rest).lookahead
      (f.walkSeq rule tail next rest).next p
    rw [walkSeq, hp, lookahead_walkSeq f rule tail next rest, ← Lookahead.andThen_assoc,
      ← ofSeq_cons]

theorem lookahead_walkAlts (f : FirstSets) (rule : String) (tail : Lookahead)
    (next : AfterRepetition) (idx : Nat) : ∀ alternatives : List (List Production),
      (f.walkAlts rule tail next alternatives).lookahead =
        (f.ofSeq [.choice idx alternatives]).andThen tail
  | [] => by rw [ofSeq_choice_nil, Lookahead.none_andThen, walkAlts]
  | body :: rest => by
    have hbody := lookahead_walkSeq f rule tail next body
    have hrest := lookahead_walkAlts f rule tail next idx rest
    rw [walkAlts, hbody, hrest, ofSeq_choice_cons, Lookahead.union_andThen]

end

end FirstSets

end TopDown
