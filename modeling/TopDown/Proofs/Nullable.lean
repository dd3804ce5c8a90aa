import Mathlib.Data.List.Nodup
import TopDown.Analysis.First
import TopDown.Proofs.Derivation
import TopDown.Proofs.Recording

/-!
# Nullable rules

The rules that the fixed point finds are exactly those that derive nothing: `Grammar.mem_nullableRules`,
and `Grammar.nullableSeq_iff` for sequences. The rounds only ever find more rules, and a round that
finds no new one is the last that matters, so there are enough rounds.
-/

namespace TopDown

namespace Grammar

variable {g : Grammar}

/-! ## Finding a rule by its name -/

theorem rule?_eq_some {name : String} {r : Rule} (h : g.rule? name = some r) :
    r ∈ g.rules ∧ r.name = name := by
  have hname := List.find?_some h
  exact ⟨List.mem_of_find?_eq_some h, by simpa using hname⟩

/-- Every rule is found under its name, since no other rule has it. -/
theorem rule?_of_mem {r : Rule} (h : r ∈ g.rules) : g.rule? r.name = some r := by
  have hd : g.declares r.name = true := declares_iff.2 (List.mem_map_of_mem h)
  obtain ⟨r', hr'⟩ := Option.isSome_iff_exists.1 hd
  obtain ⟨hmem, hname⟩ := rule?_eq_some hr'
  rw [hr', List.inj_on_of_nodup_map g.distinct hmem h hname]

/-! ## What is found vanishes -/

section Sound

variable {rules : List String}

mutual

theorem vanishes_of_nullable (hrules : ∀ name ∈ rules, g.Vanishes [.nonTerminal name 0]) :
    ∀ {p : Production}, p.nullable rules = true → g.Vanishes [p]
  | .terminal .., h => by simp [Production.nullable] at h
  | .nonTerminal name idx, h => by
    rw [Production.nullable, List.contains_iff_mem] at h
    cases hrules name h with
    | nonTerminal hr body rest => exact .nonTerminal hr body rest
  | .option .., _ => .option .nil
  | .many .., _ => .many .nil
  | .choice _ alternatives, h => by
    rw [Production.nullable] at h
    obtain ⟨body, hmem, hbody⟩ := vanishes_of_nullableAny hrules h
    exact .choice hmem hbody .nil

theorem vanishes_of_nullableSeq (hrules : ∀ name ∈ rules, g.Vanishes [.nonTerminal name 0]) :
    ∀ {ps : List Production}, Production.nullableSeq rules ps = true → g.Vanishes ps
  | [], _ => .nil
  | p :: rest, h => by
    rw [Production.nullableSeq, Bool.and_eq_true] at h
    exact Vanishes.cons_iff.2 ⟨vanishes_of_nullable hrules h.1, vanishes_of_nullableSeq hrules h.2⟩

theorem vanishes_of_nullableAny (hrules : ∀ name ∈ rules, g.Vanishes [.nonTerminal name 0]) :
    ∀ {alternatives : List (List Production)}, Production.nullableAny rules alternatives = true →
      ∃ body ∈ alternatives, g.Vanishes body
  | [], h => by simp [Production.nullableAny] at h
  | body :: rest, h => by
    rw [Production.nullableAny, Bool.or_eq_true] at h
    rcases h with h | h
    · exact ⟨body, List.mem_cons_self .., vanishes_of_nullableSeq hrules h⟩
    · obtain ⟨body', hmem, hbody⟩ := vanishes_of_nullableAny hrules h
      exact ⟨body', List.mem_cons_of_mem _ hmem, hbody⟩

end

end Sound

theorem mem_nullableStep {rules : List String} {name : String} :
    name ∈ g.nullableStep rules ↔
      ∃ r, g.rule? name = some r ∧ Production.nullableSeq rules r.body = true := by
  rw [nullableStep, List.mem_map]
  constructor
  · rintro ⟨r, hr, rfl⟩
    rw [List.mem_filter] at hr
    exact ⟨r, rule?_of_mem hr.1, hr.2⟩
  · rintro ⟨r, hr, hbody⟩
    obtain ⟨hmem, hname⟩ := rule?_eq_some hr
    exact ⟨r, List.mem_filter.2 ⟨hmem, hbody⟩, hname⟩

theorem vanishes_of_mem_nullableWithin {n : Nat} {name : String}
    (h : name ∈ g.nullableWithin n) : g.Vanishes [.nonTerminal name 0] := by
  induction n generalizing name with
  | zero => cases h
  | succ n ih =>
    rw [nullableWithin] at h
    obtain ⟨r, hr, hbody⟩ := mem_nullableStep.1 h
    exact .nonTerminal hr (vanishes_of_nullableSeq (fun _ => ih) hbody) .nil

/-! ## The rounds reach a fixed point -/

section Mono

variable {rules rules' : List String}

mutual

theorem nullable_mono (hsub : rules ⊆ rules') :
    ∀ {p : Production}, p.nullable rules = true → p.nullable rules' = true
  | .terminal .., h => by simp [Production.nullable] at h
  | .nonTerminal name idx, h => by
    rw [Production.nullable, List.contains_iff_mem] at h ⊢
    exact hsub h
  | .option .., _ => rfl
  | .many .., _ => rfl
  | .choice _ alternatives, h => by
    rw [Production.nullable] at h ⊢
    exact nullableAny_mono hsub h

theorem nullableSeq_mono (hsub : rules ⊆ rules') :
    ∀ {ps : List Production}, Production.nullableSeq rules ps = true →
      Production.nullableSeq rules' ps = true
  | [], _ => rfl
  | p :: rest, h => by
    rw [Production.nullableSeq, Bool.and_eq_true] at h ⊢
    exact ⟨nullable_mono hsub h.1, nullableSeq_mono hsub h.2⟩

theorem nullableAny_mono (hsub : rules ⊆ rules') :
    ∀ {alternatives : List (List Production)}, Production.nullableAny rules alternatives = true →
      Production.nullableAny rules' alternatives = true
  | [], h => by simp [Production.nullableAny] at h
  | body :: rest, h => by
    rw [Production.nullableAny, Bool.or_eq_true] at h ⊢
    rcases h with h | h
    · exact .inl (nullableSeq_mono hsub h)
    · exact .inr (nullableAny_mono hsub h)

end

/-- The more rules are known to be nullable, the more are found. -/
theorem nullableStep_sublist (hsub : rules ⊆ rules') :
    (g.nullableStep rules).Sublist (g.nullableStep rules') := by
  refine List.Sublist.map _ (List.monotone_filter_right _ ?_)
  intro r h
  exact nullableSeq_mono hsub h

end Mono

theorem nullableWithin_sublist (n : Nat) :
    (g.nullableWithin n).Sublist (g.nullableWithin (n + 1)) := by
  induction n with
  | zero => exact List.nil_sublist _
  | succ n ih => exact nullableStep_sublist ih.subset

theorem length_nullableWithin_le (n : Nat) : (g.nullableWithin n).length ≤ g.size := by
  cases n with
  | zero => exact Nat.zero_le _
  | succ n =>
    rw [nullableWithin, nullableStep, List.length_map]
    exact List.length_filter_le ..

/-- A round finds nothing new, or there are at least as many nullable rules as rounds. -/
theorem nullableWithin_stable_or (n : Nat) :
    g.nullableWithin (n + 1) = g.nullableWithin n ∨ n < (g.nullableWithin (n + 1)).length := by
  induction n with
  | zero =>
    by_cases h : g.nullableWithin 1 = []
    · exact .inl h
    · exact .inr (List.length_pos_of_ne_nil h)
  | succ n ih =>
    rcases ih with heq | hlt
    · refine .inl ?_
      show g.nullableStep (g.nullableWithin (n + 1)) = g.nullableStep (g.nullableWithin n)
      rw [heq]
    · by_cases hle : (g.nullableWithin (n + 1 + 1)).length ≤ (g.nullableWithin (n + 1)).length
      · exact .inl ((g.nullableWithin_sublist (n + 1)).eq_of_length_le hle).symm
      · exact .inr (by omega)

/-- The nullable rules are a fixed point of the rounds. -/
theorem nullableStep_nullableRules : g.nullableStep g.nullableRules = g.nullableRules := by
  rcases g.nullableWithin_stable_or g.size with h | h
  · exact h
  · have := g.length_nullableWithin_le (g.size + 1)
    omega

/-! ## What vanishes is found -/

theorem nullableAny_of_mem {rules : List String} {alternatives : List (List Production)}
    {body : List Production} (hmem : body ∈ alternatives)
    (h : Production.nullableSeq rules body = true) :
    Production.nullableAny rules alternatives = true := by
  induction alternatives with
  | nil => cases hmem
  | cons first rest ih =>
    rw [Production.nullableAny, Bool.or_eq_true]
    rcases List.mem_cons.1 hmem with rfl | hmem
    · exact .inl h
    · exact .inr (ih hmem)

theorem Vanishes.nullableSeq {ps : List Production} (h : g.Vanishes ps) :
    Production.nullableSeq g.nullableRules ps = true := by
  induction h with
  | nil => rfl
  | nonTerminal hr _ _ ihb ih =>
    rw [Production.nullableSeq, Bool.and_eq_true, Production.nullable, List.contains_iff_mem,
      ← nullableStep_nullableRules]
    refine ⟨mem_nullableStep.2 ⟨_, hr, ihb⟩, ?_⟩
    rw [nullableStep_nullableRules]
    exact ih
  | option _ ih | many _ ih =>
    rw [Production.nullableSeq, Production.nullable, Bool.true_and]
    exact ih
  | choice hmem _ _ ihb ih =>
    rw [Production.nullableSeq, Bool.and_eq_true, Production.nullable]
    exact ⟨nullableAny_of_mem hmem ihb, ih⟩

/-- A sequence is found nullable exactly if it vanishes. -/
theorem nullableSeq_iff {ps : List Production} :
    Production.nullableSeq g.nullableRules ps = true ↔ g.Vanishes ps :=
  ⟨vanishes_of_nullableSeq fun _ => vanishes_of_mem_nullableWithin, Vanishes.nullableSeq⟩

theorem nullable_iff {p : Production} : p.nullable g.nullableRules = true ↔ g.Vanishes [p] := by
  rw [← nullableSeq_iff, Production.nullableSeq, Production.nullableSeq, Bool.and_true]

/-- A rule is found nullable exactly if it vanishes. -/
theorem mem_nullableRules {name : String} {idx : Nat} :
    name ∈ g.nullableRules ↔ g.Vanishes [.nonTerminal name idx] := by
  rw [← nullable_iff, Production.nullable, List.contains_iff_mem]

end Grammar

end TopDown
