import TopDown.Proofs.Chart
import TopDown.Proofs.Moves

/-!
# Prediction

What the engine finds in the table for the steps of a plain rule, in terms of the grammar: a body is
predicted exactly if it admits the next token (`Language.Outlined.predicts_iff`), and a choice takes
an alternative that admits it, or else one that vanishes. `Language.Prepared` says that steps are
plain and charted; its lemmas lead from a step to the steps inside it, and from the way that a run
takes to what the productions admit.
-/

namespace TopDown

theorem TokenSet.admits_iff {s : TokenSet} {v : Vocabulary} {kind : TokenId} :
    s.admits v kind = true ↔ ∃ c ∈ s, v.isA kind c = true := by
  simp only [TokenSet.admits, List.any_eq_true, TokenSet.contains_iff, Vocabulary.isA,
    List.contains_iff_mem]
  constructor
  · rintro ⟨c, ha, hc⟩
    exact ⟨c, hc, ha⟩
  · rintro ⟨c, hc, ha⟩
    exact ⟨c, ha, hc⟩

/-- The end of the input is accepted as nothing else. -/
theorem Vocabulary.isA_eof_iff {v : Vocabulary} {c : TokenId} :
    v.isA v.eof c = true ↔ c = v.eof := by
  simp [Vocabulary.isA, Vocabulary.ancestors]

namespace Language

variable {l : Language} {stack : Stack} {s : ParseState}

/-! ## Decisions -/

theorem Outlined.admits_ofSeq (ho : l.Outlined) {ps : List Production} {kind : TokenId} :
    (l.first.ofSeq ps).set.admits l.vocabulary kind = true ↔
      l.grammar.Admits l.vocabulary ps kind := by
  simp only [TokenSet.admits_iff, ho.mem_ofSeq, Grammar.Admits]

/-- A body is predicted exactly if it admits the next token. -/
theorem Outlined.predicts_iff (ho : l.Outlined) {ps : List Production} :
    l.predicts [l.first.ofSeq ps] s = true ↔
      l.grammar.Admits l.vocabulary ps (s.nextKind l.vocabulary) := by
  simp [predicts, admitsAny, ho.admits_ofSeq]

theorem Outlined.not_admits_of_predicts (ho : l.Outlined) {ps : List Production}
    (h : l.predicts [l.first.ofSeq ps] s = false) :
    ¬l.grammar.Admits l.vocabulary ps (s.nextKind l.vocabulary) := by
  intro ha
  rw [ho.predicts_iff.2 ha] at h
  cases h

section Choice

variable {alternatives : List (List Production)} {kind : TokenId}

/-- A choice takes an alternative that admits the token, or else one that vanishes. -/
theorem Outlined.chosenBranch?_eq_some (ho : l.Outlined) {i : Nat}
    (h : l.chosenBranch? (alternatives.map l.first.ofSeq) kind = some i) :
    ∃ body, alternatives[i]? = some body ∧ (l.grammar.Admits l.vocabulary body kind ∨
      l.grammar.Vanishes body ∧ ∀ other ∈ alternatives, ¬l.grammar.Admits l.vocabulary other kind) := by
  rw [chosenBranch?] at h
  split at h
  · rename_i j hj
    obtain rfl := Option.some.inj h
    obtain ⟨hlt, ha, -⟩ := List.findIdx?_eq_some_iff_getElem.1 hj
    rw [List.length_map] at hlt
    rw [List.getElem_map, ho.admits_ofSeq] at ha
    exact ⟨_, List.getElem?_eq_getElem hlt, .inl ha⟩
  · rename_i hnone
    obtain ⟨hlt, hn, -⟩ := List.findIdx?_eq_some_iff_getElem.1 h
    rw [List.length_map] at hlt
    rw [List.getElem_map, nullable_ofSeq] at hn
    refine ⟨_, List.getElem?_eq_getElem hlt, .inr ⟨hn, ?_⟩⟩
    intro other hmem ha
    have hfalse := List.findIdx?_eq_none_iff.1 hnone _ (List.mem_map_of_mem hmem)
    rw [ho.admits_ofSeq.2 ha] at hfalse
    cases hfalse

/-- A choice without an alternative to take admits no token and does not vanish. -/
theorem Outlined.chosenBranch?_eq_none (ho : l.Outlined)
    (h : l.chosenBranch? (alternatives.map l.first.ofSeq) kind = none) {body : List Production}
    (hmem : body ∈ alternatives) :
    ¬l.grammar.Admits l.vocabulary body kind ∧ ¬l.grammar.Vanishes body := by
  rw [chosenBranch?] at h
  split at h
  · cases h
  · rename_i hnone
    refine ⟨fun ha => ?_, fun hv => ?_⟩
    · have hfalse := List.findIdx?_eq_none_iff.1 hnone _ (List.mem_map_of_mem hmem)
      rw [ho.admits_ofSeq.2 ha] at hfalse
      cases hfalse
    · have hfalse := List.findIdx?_eq_none_iff.1 h _ (List.mem_map_of_mem hmem)
      rw [nullable_ofSeq.2 hv] at hfalse
      cases hfalse

/-- A choice of steps of which none can be taken admits no token and does not vanish. -/
theorem Outlined.unviable (ho : l.Outlined) {bodies : List (List Step)}
    (h : ∀ i, l.chosenBranch? ((bodies.map Step.outlineSeq).map l.first.ofSeq) kind = some i →
      bodies[i]? = none) :
    ∀ body ∈ bodies.map Step.outlineSeq,
      ¬l.grammar.Admits l.vocabulary body kind ∧ ¬l.grammar.Vanishes body := by
  -- the places of the branches are those of the alternatives
  have hnone : l.chosenBranch? ((bodies.map Step.outlineSeq).map l.first.ofSeq) kind = none := by
    cases hi : l.chosenBranch? ((bodies.map Step.outlineSeq).map l.first.ofSeq) kind with
    | none => rfl
    | some i =>
      obtain ⟨body, hbody, -⟩ := ho.chosenBranch?_eq_some hi
      rw [List.getElem?_map, h i hi] at hbody
      cases hbody
  intro body hmem
  exact ho.chosenBranch?_eq_none hnone hmem

end Choice

/-! ## Plain steps -/

/-- The steps are plain, and the table has the right entries for the productions they stand for. -/
structure Prepared (l : Language) (rule : String) (tail : Lookahead) (next : AfterRepetition)
    (steps : List Step) : Prop where
  plain : Step.plainSeq steps = true
  charted : l.Charted rule tail next (Step.outlineSeq steps)

variable {tail : Lookahead} {next : AfterRepetition} {idx : Nat} {name : String}

/-- The rules of a plain language are prepared. -/
theorem Outlined.prepared (ho : l.Outlined) (hp : l.Plain) {r : RuleDef}
    (h : l.rule? name = some r) : l.Prepared name .empty .endOfRule r.body := by
  refine ⟨hp r (mem_rules_of_rule? h), ?_⟩
  exact ho.charted (r := r.outline) (by rw [ho.rule?, h]; rfl)

theorem Prepared.cons {rule : String} {step : Step} {rest : List Step}
    (h : l.Prepared rule tail next (step :: rest)) :
    l.Prepared rule (l.first.walkSeq rule tail next (Step.outlineSeq rest)).lookahead
        (l.first.walkSeq rule tail next (Step.outlineSeq rest)).next [step] ∧
      l.Prepared rule tail next rest := by
  have hplain := h.plain
  have hcharted := h.charted
  rw [Step.plainSeq, Bool.and_eq_true] at hplain
  rw [Step.outlineSeq] at hcharted
  refine ⟨⟨by simpa using hplain.1, ?_⟩, hplain.2, hcharted.append.2⟩
  rw [Step.outlineSeq_singleton]
  exact hcharted.append.1

/-- The productions that plain steps stand for occur in their rule. -/
theorem Prepared.occurs {rule : String} {steps : List Step}
    (h : l.Prepared rule tail next steps) {p : Production} (hmem : p ∈ Step.outlineSeq steps) :
    l.grammar.Occurs rule p := by
  refine h.charted.occurs p ?_
  obtain ⟨ps, qs, heq⟩ := List.append_of_mem hmem
  rw [heq, Production.preorderSeq_append, Production.preorderSeq]
  refine List.mem_append_right _ (List.mem_append_left _ ?_)
  cases p <;> simp [Production.preorder]

theorem branches_of_decision? {kind : DecisionKind} {branches : List Lookahead}
    (h : l.table.decision? ⟨stack.rule, kind, idx⟩ = some branches) :
    l.branches stack kind idx = .ok branches := by
  rw [Language.branches, h]

theorem Prepared.option (ho : l.Outlined) {body : List Step}
    (h : l.Prepared stack.rule tail next [.option idx body]) :
    l.branches stack .option idx = .ok [l.first.ofSeq (Step.outlineSeq body)] ∧
      l.Prepared stack.rule tail next body := by
  have hplain := h.plain
  have hcharted := h.charted
  rw [Step.plainSeq_singleton, Step.plain] at hplain
  rw [Step.outlineSeq_singleton, Step.outline] at hcharted
  refine ⟨branches_of_decision? ?_, hplain, hcharted.option⟩
  exact ho.decision? (h.occurs (List.mem_singleton.2 rfl)) rfl

/-- A round of a repetition is followed by another one or by what follows the repetition. -/
theorem Prepared.round {rule : String} {body : List Step}
    (h : l.Prepared rule tail next [.many idx body]) :
    l.Prepared rule ⟨(l.first.ofSeq (Step.outlineSeq body)).set.union tail.set, tail.nullable⟩
      .other body := by
  have hplain := h.plain
  have hcharted := h.charted
  rw [Step.plainSeq_singleton, Step.plain] at hplain
  rw [Step.outlineSeq_singleton, Step.outline] at hcharted
  exact ⟨hplain, hcharted.many.2⟩

theorem Prepared.many (ho : l.Outlined) {body : List Step}
    (h : l.Prepared stack.rule tail next [.many idx body]) :
    l.branches stack .many idx = .ok [l.first.ofSeq (Step.outlineSeq body)] ∧
      l.table.afterRepetition? ⟨stack.rule, .many, idx⟩ = some next := by
  have hcharted := h.charted
  rw [Step.outlineSeq_singleton, Step.outline] at hcharted
  refine ⟨branches_of_decision? ?_, hcharted.many.1⟩
  exact ho.decision? (h.occurs (List.mem_singleton.2 rfl)) rfl

theorem Prepared.choose (ho : l.Outlined) {label : Option String} {alternatives : List (List Step)}
    (h : l.Prepared stack.rule tail next [.choose idx label alternatives]) :
    l.branches stack .choice idx =
        .ok ((alternatives.map Step.outlineSeq).map l.first.ofSeq) ∧
      ∀ steps ∈ alternatives, l.Prepared stack.rule tail next steps := by
  have hplain := h.plain
  have hcharted := h.charted
  have hoccurs := h.occurs (List.mem_singleton.2 rfl)
  rw [Step.plainSeq_singleton, Step.plain] at hplain
  rw [Step.outlineSeq_choose] at hcharted
  rw [Step.outlineAlts_eq] at hoccurs
  refine ⟨branches_of_decision? (ho.decision? hoccurs rfl), fun steps hmem => ?_⟩
  exact ⟨Step.plainSeq_of_mem hplain hmem, hcharted.choice (List.mem_map_of_mem hmem)⟩

/-- What follows a call for a token is what follows the step. -/
theorem Prepared.follow_consume {rule : String} {token : TokenId}
    (h : l.Prepared rule tail next [.consume token idx]) :
    l.table.follow? ⟨rule, .token token, idx⟩ = some tail :=
  h.charted.follow (⟨rule, .token token, idx⟩, tail)
    (by simp [Step.outlineSeq, Step.outline, FirstSets.walkSeq, FirstSets.walk])

/-- What follows a call for a rule is what follows the step. -/
theorem Prepared.follow_subrule {rule : String}
    (h : l.Prepared rule tail next [.subrule name idx]) :
    l.table.follow? ⟨rule, .rule name, idx⟩ = some tail :=
  h.charted.follow (⟨rule, .rule name, idx⟩, tail)
    (by simp [Step.outlineSeq, Step.outline, FirstSets.walkSeq, FirstSets.walk])

/-- A rule that is called for is there. -/
theorem Prepared.subrule (ho : l.Outlined) {rule : String}
    (h : l.Prepared rule tail next [.subrule name idx]) : ∃ r, l.rule? name = some r := by
  have hd := ho.declares (h.occurs (List.mem_singleton.2 rfl))
  rw [Grammar.declares, ho.rule?, Option.isSome_map] at hd
  exact Option.isSome_iff_exists.1 hd

/-! ## The way that is taken -/

section Ways

variable {branches : List Lookahead} {body : List Step}

/-- An option that is left out does not admit the next token. -/
theorem Prepared.not_admits_option (ho : l.Outlined)
    (h : l.Prepared stack.rule tail next [.option idx body])
    (hb : l.branches stack .option idx = .ok branches) (hpred : l.predicts branches s = false) :
    ¬l.grammar.Admits l.vocabulary [.option idx (Step.outlineSeq body)]
      (s.nextKind l.vocabulary) := by
  cases (h.option ho).1.symm.trans hb
  exact fun ha => ho.not_admits_of_predicts hpred (Grammar.admits_option_iff.1 ha)

/-- The body of an option that is taken admits the next token. -/
theorem Prepared.admits_taken (ho : l.Outlined)
    (h : l.Prepared stack.rule tail next [.option idx body])
    (hb : l.branches stack .option idx = .ok branches) (hpred : l.predicts branches s = true) :
    l.grammar.Admits l.vocabulary (Step.outlineSeq body) (s.nextKind l.vocabulary) := by
  cases (h.option ho).1.symm.trans hb
  exact ho.predicts_iff.1 hpred

/-- A repetition that stops does not admit the next token. -/
theorem Prepared.not_admits_many (ho : l.Outlined)
    (h : l.Prepared stack.rule tail next [.many idx body])
    (hb : l.branches stack .many idx = .ok branches) (hpred : l.predicts branches s = false) :
    ¬l.grammar.Admits l.vocabulary [.many idx (Step.outlineSeq body)]
      (s.nextKind l.vocabulary) := by
  cases (h.many ho).1.symm.trans hb
  exact fun ha => ho.not_admits_of_predicts hpred (Grammar.admits_many_iff.1 ha)

/-- The body of a repetition that goes on admits the next token. -/
theorem Prepared.admits_round (ho : l.Outlined)
    (h : l.Prepared stack.rule tail next [.many idx body])
    (hb : l.branches stack .many idx = .ok branches) (hpred : l.predicts branches s = true) :
    l.grammar.Admits l.vocabulary (Step.outlineSeq body) (s.nextKind l.vocabulary) := by
  cases (h.many ho).1.symm.trans hb
  exact ho.predicts_iff.1 hpred

variable {label : Option String} {alternatives : List (List Step)} {kind : TokenId}

/-- A choice of which no alternative is taken admits no token and does not vanish. -/
theorem Prepared.unviable (ho : l.Outlined)
    (h : l.Prepared stack.rule tail next [.choose idx label alternatives])
    (hb : l.branches stack .choice idx = .ok branches)
    (hc : ∀ i, l.chosenBranch? branches kind = some i → alternatives[i]? = none) :
    ¬l.grammar.Admits l.vocabulary [.choice idx (alternatives.map Step.outlineSeq)] kind ∧
      ¬l.grammar.Vanishes [.choice idx (alternatives.map Step.outlineSeq)] := by
  cases (h.choose ho).1.symm.trans hb
  have hnone := ho.unviable hc
  constructor
  · intro ha
    obtain ⟨body, hmem, ha⟩ := Grammar.admits_choice_iff.1 ha
    exact (hnone body hmem).1 ha
  · intro hv
    obtain ⟨body, hmem, hv⟩ := Grammar.vanishes_choice_iff.1 hv
    exact (hnone body hmem).2 hv

/-- The alternative that is taken admits what the choice admits, and if it does not admit the token
it vanishes. -/
theorem Prepared.chosen (ho : l.Outlined)
    (h : l.Prepared stack.rule tail next [.choose idx label alternatives])
    (hb : l.branches stack .choice idx = .ok branches) {i : Nat}
    (hc : l.chosenBranch? branches kind = some i) (hi : alternatives[i]? = some body) :
    (l.grammar.Admits l.vocabulary [.choice idx (alternatives.map Step.outlineSeq)] kind →
      l.grammar.Admits l.vocabulary (Step.outlineSeq body) kind) ∧
    (l.grammar.Admits l.vocabulary (Step.outlineSeq body) kind ∨
      l.grammar.Vanishes (Step.outlineSeq body)) := by
  cases (h.choose ho).1.symm.trans hb
  obtain ⟨ps, hps, hcase⟩ := ho.chosenBranch?_eq_some hc
  rw [List.getElem?_map, hi, Option.map_some] at hps
  obtain rfl := Option.some.inj hps
  rcases hcase with ha | ⟨hv, hnone⟩
  · exact ⟨fun _ => ha, .inl ha⟩
  · refine ⟨fun ha => ?_, .inr hv⟩
    obtain ⟨other, hmem, ha⟩ := Grammar.admits_choice_iff.1 ha
    exact absurd ha (hnone other hmem)

end Ways

/-! ## What comes after a repetition -/

/-- The class that has to come after a repetition, given what the table has for it. -/
inductive Ends (l : Language) (stack : Stack) : AfterRepetition → TokenId → Prop where
  | terminal {expected : TokenId} {idx : Nat} : Ends l stack (.terminal expected idx) expected
  | endOfRule (h : stack.below = []) : Ends l stack .endOfRule l.vocabulary.eof

theorem ends_of_repetitionEnd? {key : DecisionKey} {next : AfterRepetition} {expected : TokenId}
    {idx : Option Nat} (hnext : l.table.afterRepetition? key = some next)
    (h : l.repetitionEnd? stack key = some (expected, idx)) : l.Ends stack next expected := by
  rw [repetitionEnd?, hnext] at h
  match next with
  | .terminal token i =>
    cases h
    exact .terminal
  | .endOfRule =>
    simp only at h
    split at h
    · rename_i hempty
      cases h
      exact .endOfRule (List.isEmpty_iff.1 hempty)
    · cases h
  | .other => cases h

/-- What comes right after a repetition is the next step, or what comes after the steps if there is
none. -/
theorem next_walkSeq_outlineSeq {rule : String} {tail : Lookahead} {next : AfterRepetition}
    {steps : List Step} (hplain : Step.plainSeq steps = true) {expected : TokenId}
    (h : l.Ends stack (l.first.walkSeq rule tail next (Step.outlineSeq steps)).next expected) :
    (steps = [] ∧ l.Ends stack next expected) ∨
      ∃ idx rest, steps = .consume expected idx :: rest := by
  cases steps with
  | nil => exact .inl ⟨rfl, h⟩
  | cons step rest =>
    rw [Step.plainSeq, Bool.and_eq_true] at hplain
    obtain ⟨p, hp⟩ := Step.exists_standsFor hplain.1
    cases hp with
    | consume =>
      cases h
      exact .inr ⟨_, rest, rfl⟩
    | subrule | option | many | choose => cases h

end Language

end TopDown
