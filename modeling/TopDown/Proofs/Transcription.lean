import TopDown.Proofs.Interruption
import TopDown.Proofs.Order

/-!
# The recorded grammar is the grammar as written

Where no step of a body fails, attempts something or chooses between no alternatives, nothing can
interrupt its recording, and it comes to the outline of the body, at any depth and whatever is open
around it: `RuleDef.Smooth.recordSeq_eq_ok`. The rules of a grammar stand in the order of their
declaration, so a name, a place and the steps that are run always belong together:
`Language.transcribes`.
-/

namespace TopDown

/-! ## Recordings that are not interrupted -/

namespace Step

mutual

/-- Whether every choice that is recorded has an alternative. -/
def furnished : Step → Bool
  | .consume .. | .subrule .. | .peek _ | .errorCount | .live _ | .fail _ => true
  | .option _ body | .many _ body | .recorded body | .attempt body => furnishedSeq body
  | .choose _ _ alternatives => !alternatives.isEmpty && furnishedAlts alternatives

/-- Whether every choice that is recorded of the steps has an alternative. -/
def furnishedSeq : List Step → Bool
  | [] => true
  | step :: rest => step.furnished && furnishedSeq rest

/-- Whether every choice that is recorded of the alternatives has an alternative itself. -/
def furnishedAlts : List (List Step) → Bool
  | [] => true
  | body :: rest => furnishedSeq body && furnishedAlts rest

end

mutual

/-- All of a step is recorded that cannot be interrupted. -/
theorem kept_eq_outline : ∀ {step : Step}, step.straight = true → step.furnished = true →
    step.breaks = false ∧ step.leftOpen = 0 ∧ step.kept = step.outline
  | .consume token idx, _, _ | .subrule target idx, _, _ => by
    rw [breaks, leftOpen, kept, outline]
    exact ⟨rfl, rfl, rfl⟩
  | .option idx body, hs, hf | .many idx body, hs, hf => by
    rw [straight] at hs
    rw [furnished] at hf
    obtain ⟨hb, hn, hk⟩ := keptSeq_eq_outlineSeq hs hf
    rw [breaks, leftOpen, kept, outline, hb, hn, hk]
    exact ⟨rfl, rfl, rfl⟩
  | .choose idx label alternatives, hs, hf => by
    rw [straight] at hs
    rw [furnished, Bool.and_eq_true, Bool.not_eq_true'] at hf
    obtain ⟨hb, hn, hk⟩ := keptAlts_eq_outlineAlts hs hf.2
    rw [breaks, leftOpen, kept, outline, hf.1, hb, hn, hk]
    exact ⟨rfl, rfl, rfl⟩
  | .peek _, _, _ | .errorCount, _, _ | .live _, _, _ => by
    rw [breaks, leftOpen, kept, outline]
    exact ⟨rfl, rfl, rfl⟩
  | .recorded body, hs, hf => by
    rw [straight] at hs
    rw [furnished] at hf
    rw [breaks, leftOpen, kept, outline]
    exact keptSeq_eq_outlineSeq hs hf
  | .attempt _, hs, _ | .fail _, hs, _ => by simp [straight] at hs

theorem keptSeq_eq_outlineSeq : ∀ {steps : List Step}, straightSeq steps = true →
    furnishedSeq steps = true →
      breaksSeq steps = false ∧ leftOpenSeq steps = 0 ∧ keptSeq steps = outlineSeq steps
  | [], _, _ => by
    rw [breaksSeq, leftOpenSeq, keptSeq, outlineSeq]
    exact ⟨rfl, rfl, rfl⟩
  | step :: rest, hs, hf => by
    rw [straightSeq, Bool.and_eq_true] at hs
    rw [furnishedSeq, Bool.and_eq_true] at hf
    obtain ⟨hb, hn, hk⟩ := kept_eq_outline hs.1 hf.1
    obtain ⟨hb', hn', hk'⟩ := keptSeq_eq_outlineSeq hs.2 hf.2
    rw [breaksSeq, leftOpenSeq, keptSeq, outlineSeq, hb, hn, hk, hb', hn', hk']
    exact ⟨rfl, rfl, rfl⟩

theorem keptAlts_eq_outlineAlts : ∀ {alternatives : List (List Step)},
    straightAlts alternatives = true → furnishedAlts alternatives = true →
      breaksAlts alternatives = false ∧ leftOpenAlts alternatives = 0 ∧
        keptAlts alternatives = outlineAlts alternatives
  | [], _, _ => by
    rw [breaksAlts, leftOpenAlts, keptAlts, outlineAlts]
    exact ⟨rfl, rfl, rfl⟩
  | body :: rest, hs, hf => by
    rw [straightAlts, Bool.and_eq_true] at hs
    rw [furnishedAlts, Bool.and_eq_true] at hf
    obtain ⟨hb, hn, hk⟩ := keptSeq_eq_outlineSeq hs.1 hf.1
    obtain ⟨hb', hn', hk'⟩ := keptAlts_eq_outlineAlts hs.2 hf.2
    rw [breaksAlts, leftOpenAlts, keptAlts, outlineAlts, hb, hn, hk, hb', hn', hk']
    exact ⟨rfl, rfl, rfl⟩

end

end Step

/-! ## Rules that are transcribed -/

namespace RuleDef

/-- Nothing interrupts the recording of the rule: no step of it fails or attempts something, and
every choice has an alternative. What is only run may do anything. -/
structure Smooth (r : RuleDef) : Prop where
  straight : Step.straightSeq r.body = true
  furnished : Step.furnishedSeq r.body = true

instance (r : RuleDef) : Decidable r.Smooth :=
  decidable_of_iff (Step.straightSeq r.body = true ∧ Step.furnishedSeq r.body = true)
    ⟨fun h => ⟨h.1, h.2⟩, fun h => ⟨h.straight, h.furnished⟩⟩

theorem Smooth.recordSeq_eq_ok {r : RuleDef} (h : r.Smooth) (inner : List Production)
    (outer : OpenSequences) : Step.recordSeq r.name r.body (inner :: outer) =
      .ok () ((inner ++ r.outline.body) :: outer) := by
  obtain ⟨hb, hn, hk⟩ := Step.keptSeq_eq_outlineSeq h.straight h.furnished
  rw [Step.recordSeq_eq_ok r.name hb hn, hk]
  rfl

theorem Smooth.record_eq_ok {r : RuleDef} (h : r.Smooth) : r.record = .ok r.outline.body := by
  obtain ⟨hb, hn, hk⟩ := Step.keptSeq_eq_outlineSeq h.straight h.furnished
  rw [record_of_leftOpen hb hn, hk]
  rfl

theorem Smooth.recorded {r : RuleDef} (h : r.Smooth) : r.Recorded r.outline :=
  ⟨rfl, h.record_eq_ok⟩

end RuleDef

namespace Draft

/-- Smooth rules with distinct names can be recorded. -/
theorem exists_record {d : Draft} (hs : ∀ r ∈ d.rules, r.Smooth)
    (hn : (d.rules.map (·.name)).Nodup) :
    ∃ g, d.record = .ok g ∧ g.rules = d.rules.map RuleDef.outline := by
  have hnames : ((d.rules.map RuleDef.outline).map (·.name)).Nodup := by
    rw [List.map_map]
    exact hn
  refine ⟨⟨d.rules.map RuleDef.outline, hnames⟩, recordRules_eq_ok_iff.2 ⟨_, ?_, rfl⟩, rfl⟩
  rw [List.forall₂_map_right_iff, List.forall₂_same]
  exact fun r hr => (hs r hr).recorded

theorem getElem?_recorded {rules : List RuleDef} {recorded : List Rule}
    (h : List.Forall₂ RuleDef.Recorded rules recorded) {id : RuleId} {r : RuleDef}
    (hr : rules[id]? = some r) : ∃ rule, recorded[id]? = some rule ∧ r.Recorded rule := by
  induction h generalizing id with
  | nil => cases hr
  | cons hfirst _ ih =>
    cases id with
    | zero =>
      cases hr
      exact ⟨_, rfl, hfirst⟩
    | succ id => exact ih hr

end Draft

namespace Language

/-- The rule is the one at the given place of the grammar, and the one that is run. -/
structure Places (l : Language) (id : RuleId) (r : RuleDef) : Prop where
  /-- The place is called by the name of the rule. -/
  ruleName : l.grammar.ruleName id = r.name
  /-- The name leads to the place. -/
  ruleId? : l.grammar.ruleId? r.name = some id
  /-- The name leads to the steps of the rule. -/
  rule? : l.rule? r.name = some r
  /-- The grammar has there what the recording of the rule gives. -/
  recorded : ∃ rule, l.grammar.ruleAt? id = some rule ∧ r.Recorded rule
  /-- A smooth rule is there as it is written. -/
  transcribed : r.Smooth → l.grammar.ruleAt? id = some r.outline

theorem places_of_record {l : Language} (hg : l.toDraft.record = .ok l.grammar) {id : RuleId}
    {r : RuleDef} (hr : l.rules[id]? = some r) : l.Places id r := by
  obtain ⟨recorded, hrec, hrules⟩ := Draft.recordRules_eq_ok_iff.1 hg
  obtain ⟨rule, hget, hname, hbody⟩ := Draft.getElem?_recorded hrec hr
  have hat : l.grammar.ruleAt? id = some rule := by
    rw [Grammar.ruleAt?, hrules]
    exact hget
  constructor
  · rw [Grammar.ruleName, hat]
    exact hname
  · obtain ⟨hlt, heq⟩ := List.getElem?_eq_some_iff.1 hat
    refine List.findIdx?_eq_some_iff_getElem.2 ⟨hlt, by simp [heq, hname], fun j hj => ?_⟩
    -- names are distinct, so no rule before it has this one
    have hne := List.pairwise_iff_getElem.1 l.grammar.distinct j id (by simp; omega) (by simpa) hj
    simpa [heq, hname] using hne
  · exact (find?_eq_some_iff_of_nodup (Draft.nodup_names_of_record hg)).2
      ⟨List.mem_of_getElem? hr, rfl⟩
  · exact ⟨rule, hat, hname, hbody⟩
  · intro hs
    rw [hs.record_eq_ok] at hbody
    cases rule
    cases hname
    cases hbody
    exact hat

/-- Recording is faithful. The steps of a smooth rule come to its outline, wherever they are
recorded, and so does the rule. Smooth rules with distinct names come to their outlines in order.
And in a language that was built, the name, the recording and the steps of a rule have one place. -/
theorem transcribes (d : Draft) :
    (∀ r : RuleDef, r.Smooth →
      (∀ inner outer, Step.recordSeq r.name r.body (inner :: outer) =
        .ok () ((inner ++ r.outline.body) :: outer)) ∧
      r.record = .ok r.outline.body) ∧
    ((∀ r ∈ d.rules, r.Smooth) → (d.rules.map (·.name)).Nodup →
      ∃ g, d.record = .ok g ∧ g.rules = d.rules.map RuleDef.outline) ∧
    ∀ l, d.build = .ok l → l.toDraft = d ∧ l.grammar.rules.length = d.rules.length ∧
      ∀ id r, d.rules[id]? = some r → l.Places id r := by
  refine ⟨fun r hr => ⟨hr.recordSeq_eq_ok, hr.record_eq_ok⟩,
    Draft.exists_record, fun l hb => ?_⟩
  rw [Draft.build] at hb
  cases hg : d.record with
  | error e =>
    rw [hg] at hb
    cases hb
  | ok g =>
    cases ht : g.analyze with
    | error e =>
      simp only [hg, ht] at hb
      cases hb
    | ok t =>
      simp only [hg, ht, Except.ok.injEq] at hb
      subst hb
      obtain ⟨recorded, hrec, hrules⟩ := Draft.recordRules_eq_ok_iff.1 hg
      refine ⟨rfl, ?_, fun id r hr => places_of_record hg hr⟩
      rw [hrec.length_eq]
      exact congrArg List.length hrules

/-- Sums of numbers with signs. What is only run, what is only recorded and what only looks stand at
any depth. -/
def signedSums : Draft where
  vocabulary := Calc.vocabulary
  rules := [
    ⟨"sum", [.subrule "number" 1, .many 1 [
      .recorded [.choose 1 none [[.consume Calc.plus 1], [.errorCount, .consume Calc.minus 1]]],
      .live [.attempt [.fail (.fatal (.unknownRule "sum"))]],
      .subrule "number" 2]]⟩,
    ⟨"number", [.peek 1,
      .option 1 [.live [.choose 1 none []], .recorded [.consume Calc.minus 1]],
      .consume Calc.numberLiteral 1]⟩]

theorem signedSums_builds : signedSums.build.isOk = true := rfl

/-- The sums are recorded as they are written. -/
theorem transcribes_signedSums : ∃ l, signedSums.build = .ok l ∧
    (∀ r ∈ signedSums.rules, r.Smooth) ∧
    l.grammar.ruleAt? 0 = some ⟨"sum", [.nonTerminal "number" 1, .many 1 [
      .choice 1 [[.terminal Calc.plus 1], [.terminal Calc.minus 1]], .nonTerminal "number" 2]]⟩ ∧
    l.grammar.ruleAt? 1 = some ⟨"number", [
      .option 1 [.terminal Calc.minus 1], .terminal Calc.numberLiteral 1]⟩ := by
  have hs : ∀ r ∈ signedSums.rules, r.Smooth := by decide
  obtain ⟨-, -, hl⟩ := transcribes signedSums
  obtain ⟨-, -, hplaces⟩ := hl (getOk signedSums.build signedSums_builds) (eq_ok_getOk _)
  exact ⟨_, eq_ok_getOk _, hs, (hplaces 0 _ rfl).transcribed (hs _ (.head _)),
    (hplaces 1 _ rfl).transcribed (hs _ (.tail _ (.head _)))⟩

end Language

end TopDown
