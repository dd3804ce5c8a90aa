import TopDown.Parse.Language

/-!
# What recording gives

Recording a rule translates its steps into productions one by one: `Step.outline` is that
translation. Steps whose recording cannot be interrupted are straight, and steps that neither look
at the state of a parse nor handle errors themselves are plain. Every plain step is straight.

A language that was built from plain rules has the outlines of its rules as its grammar, and the
table of that grammar: `Language.outlined_of_build`.
-/

namespace TopDown

namespace Step

mutual

/-- Whether the step only calls for tokens and rules, chains, repeats and chooses, and lets every
error pass. -/
def plain : Step → Bool
  | .consume .. | .subrule .. => true
  | .option _ body | .many _ body => plainSeq body
  | .choose _ _ alternatives => plainAlts alternatives
  | .peek _ | .errorCount | .live _ | .recorded _ | .attempt _ | .fail _ => false

/-- Whether all steps are plain. -/
def plainSeq : List Step → Bool
  | [] => true
  | step :: rest => step.plain && plainSeq rest

/-- Whether the steps of all alternatives are plain. -/
def plainAlts : List (List Step) → Bool
  | [] => true
  | body :: rest => plainSeq body && plainAlts rest

end

mutual

/-- Whether the recording of the step can be interrupted by a choice without alternatives only. -/
def straight : Step → Bool
  | .consume .. | .subrule .. | .peek _ | .errorCount | .live _ => true
  | .option _ body | .many _ body | .recorded body => straightSeq body
  | .choose _ _ alternatives => straightAlts alternatives
  | .attempt _ | .fail _ => false

/-- Whether all steps are straight. -/
def straightSeq : List Step → Bool
  | [] => true
  | step :: rest => step.straight && straightSeq rest

/-- Whether the steps of all alternatives are straight. -/
def straightAlts : List (List Step) → Bool
  | [] => true
  | body :: rest => straightSeq body && straightAlts rest

end

mutual

/-- The productions that the step stands for. -/
def outline : Step → List Production
  | .consume token idx => [.terminal token idx]
  | .subrule rule idx => [.nonTerminal rule idx]
  | .option idx body => [.option idx (outlineSeq body)]
  | .many idx body => [.many idx (outlineSeq body)]
  | .choose idx _ alternatives => [.choice idx (outlineAlts alternatives)]
  | .recorded body | .attempt body => outlineSeq body
  | .peek _ | .errorCount | .live _ | .fail _ => []

/-- The productions that the steps stand for, in order. -/
def outlineSeq : List Step → List Production
  | [] => []
  | step :: rest => step.outline ++ outlineSeq rest

/-- The productions that the steps of each alternative stand for. -/
def outlineAlts : List (List Step) → List (List Production)
  | [] => []
  | body :: rest => outlineSeq body :: outlineAlts rest

end

@[simp] theorem outlineSeq_singleton (step : Step) : outlineSeq [step] = step.outline := by
  simp [outlineSeq]

@[simp] theorem plainSeq_singleton (step : Step) : plainSeq [step] = step.plain := by
  simp [plainSeq]

theorem outlineAlts_eq (alternatives : List (List Step)) :
    outlineAlts alternatives = alternatives.map outlineSeq := by
  induction alternatives with
  | nil => rfl
  | cons body rest ih => rw [outlineAlts, ih, List.map_cons]

theorem outlineSeq_choose (idx : Nat) (label : Option String) (alternatives : List (List Step)) :
    outlineSeq [.choose idx label alternatives] = [.choice idx (alternatives.map outlineSeq)] := by
  rw [outlineSeq_singleton, outline, outlineAlts_eq]

theorem plainSeq_of_mem {alternatives : List (List Step)} {body : List Step}
    (h : plainAlts alternatives = true) (hmem : body ∈ alternatives) : plainSeq body = true := by
  induction alternatives with
  | nil => cases hmem
  | cons first rest ih =>
    simp only [plainAlts, Bool.and_eq_true] at h
    rcases List.mem_cons.1 hmem with rfl | hmem
    · exact h.1
    · exact ih h.2 hmem

/-- The plain step is recorded as the production. -/
inductive StandsFor : Step → Production → Prop where
  | consume {token : TokenId} {idx : Nat} : StandsFor (.consume token idx) (.terminal token idx)
  | subrule {name : String} {idx : Nat} : StandsFor (.subrule name idx) (.nonTerminal name idx)
  | option {idx : Nat} {body : List Step} :
      StandsFor (.option idx body) (.option idx (outlineSeq body))
  | many {idx : Nat} {body : List Step} : StandsFor (.many idx body) (.many idx (outlineSeq body))
  | choose {idx : Nat} {label : Option String} {alternatives : List (List Step)} :
      StandsFor (.choose idx label alternatives) (.choice idx (alternatives.map outlineSeq))

theorem StandsFor.outline_eq {step : Step} {p : Production} (h : StandsFor step p) :
    step.outline = [p] := by
  cases h with
  | choose => rw [outline, outlineAlts_eq]
  | consume | subrule | option | many => rfl

/-- Every plain step stands for one production. -/
theorem exists_standsFor {step : Step} (h : step.plain = true) : ∃ p, StandsFor step p := by
  cases step with
  | consume => exact ⟨_, .consume⟩
  | subrule => exact ⟨_, .subrule⟩
  | option => exact ⟨_, .option⟩
  | many => exact ⟨_, .many⟩
  | choose => exact ⟨_, .choose⟩
  | peek | errorCount | live | recorded | attempt | fail => simp [plain] at h

theorem eq_nil_of_outlineSeq {steps : List Step} (hplain : plainSeq steps = true)
    (h : outlineSeq steps = []) : steps = [] := by
  cases steps with
  | nil => rfl
  | cons step rest =>
    rw [plainSeq, Bool.and_eq_true] at hplain
    obtain ⟨p, hp⟩ := exists_standsFor hplain.1
    rw [outlineSeq, hp.outline_eq] at h
    cases h

theorem eq_cons_of_outlineSeq {steps : List Step} {p : Production} {ps : List Production}
    (hplain : plainSeq steps = true) (h : outlineSeq steps = p :: ps) :
    ∃ step rest, steps = step :: rest ∧ StandsFor step p ∧ outlineSeq rest = ps := by
  cases steps with
  | nil => cases h
  | cons step rest =>
    rw [plainSeq, Bool.and_eq_true] at hplain
    obtain ⟨q, hq⟩ := exists_standsFor hplain.1
    rw [outlineSeq, hq.outline_eq] at h
    obtain ⟨rfl, rfl⟩ := List.cons.inj h
    exact ⟨step, rest, rfl, hq, rfl⟩

theorem eq_singleton_of_outlineSeq {steps : List Step} {p : Production}
    (hplain : plainSeq steps = true) (h : outlineSeq steps = [p]) :
    ∃ step, steps = [step] ∧ StandsFor step p := by
  obtain ⟨step, rest, rfl, hstep, hrest⟩ := eq_cons_of_outlineSeq hplain h
  rw [plainSeq, Bool.and_eq_true] at hplain
  obtain rfl := eq_nil_of_outlineSeq hplain.2 hrest
  exact ⟨step, rfl, hstep⟩

mutual

theorem straight_of_plain : ∀ {step : Step}, step.plain = true → step.straight = true
  | .consume .., _ | .subrule .., _ => rfl
  | .option _ body, h | .many _ body, h => by
    rw [plain] at h
    rw [straight]
    exact straightSeq_of_plainSeq h
  | .choose _ _ alternatives, h => by
    rw [plain] at h
    rw [straight]
    exact straightAlts_of_plainAlts h
  | .peek _, h | .errorCount, h | .live _, h | .recorded _, h | .attempt _, h | .fail _, h => by
    simp [plain] at h

theorem straightSeq_of_plainSeq :
    ∀ {steps : List Step}, plainSeq steps = true → straightSeq steps = true
  | [], _ => rfl
  | step :: rest, h => by
    simp only [plainSeq, Bool.and_eq_true] at h
    simp only [straightSeq, Bool.and_eq_true]
    exact ⟨straight_of_plain h.1, straightSeq_of_plainSeq h.2⟩

theorem straightAlts_of_plainAlts :
    ∀ {alternatives : List (List Step)}, plainAlts alternatives = true →
      straightAlts alternatives = true
  | [], _ => rfl
  | body :: rest, h => by
    simp only [plainAlts, Bool.and_eq_true] at h
    simp only [straightAlts, Bool.and_eq_true]
    exact ⟨straightSeq_of_plainSeq h.1, straightAlts_of_plainAlts h.2⟩

end

end Step

namespace Recording

/-- The recording adds the productions to the innermost open sequence, unless it is interrupted. -/
def Adds (x : Recording Unit) (ps : List Production) : Prop :=
  ∀ inner outer, x (inner :: outer) = .ok () ((inner ++ ps) :: outer) ∨
    ∃ e sequences, x (inner :: outer) = .error e sequences

/-- The recording gives the value and leaves the open sequences as they were, unless it is
interrupted. -/
def Gives {α : Type} (x : Recording α) (a : α) : Prop :=
  ∀ sequences, x sequences = .ok a sequences ∨ ∃ e sequences', x sequences = .error e sequences'

theorem bind_apply {α β : Type} (x : Recording α) (f : α → Recording β)
    (sequences : OpenSequences) :
    (x >>= f) sequences =
      match x sequences with
      | .ok a sequences => f a sequences
      | .error e sequences => .error e sequences := by
  show EStateM.bind x f sequences = _
  rw [EStateM.bind]
  cases x sequences <;> rfl

theorem adds_pure : Adds (pure ()) [] := fun inner outer => by
  rw [List.append_nil]
  exact .inl rfl

theorem adds_push (p : Production) : Adds (push p) [p] := fun _ _ => .inl rfl

theorem gives_pure {α : Type} (a : α) : Gives (pure a) a := fun _ => .inl rfl

theorem Adds.append {x y : Recording Unit} {ps qs : List Production} (hx : Adds x ps)
    (hy : Adds y qs) : Adds (do x; y) (ps ++ qs) := by
  intro inner outer
  rw [bind_apply]
  rcases hx inner outer with h | ⟨e, sequences, h⟩
  · rw [h, ← List.append_assoc]
    exact hy (inner ++ ps) outer
  · rw [h]
    exact .inr ⟨e, sequences, rfl⟩

theorem Gives.bind {α β : Type} {x : Recording α} {a : α} {f : α → Recording β} {b : β}
    (hx : Gives x a) (hf : Gives (f a) b) : Gives (x >>= f) b := by
  intro sequences
  rw [bind_apply]
  rcases hx sequences with h | ⟨e, sequences', h⟩
  · rw [h]
    exact hf sequences
  · rw [h]
    exact .inr ⟨e, sequences', rfl⟩

theorem Gives.adds {α : Type} {x : Recording α} {a : α} {f : α → Recording Unit}
    {ps : List Production} (hx : Gives x a) (hf : Adds (f a) ps) : Adds (x >>= f) ps := by
  intro inner outer
  rw [bind_apply]
  rcases hx (inner :: outer) with h | ⟨e, sequences, h⟩
  · rw [h]
    exact hf inner outer
  · rw [h]
    exact .inr ⟨e, sequences, rfl⟩

theorem Adds.nested {x : Recording Unit} {ps : List Production} (hx : Adds x ps) :
    Gives (nested x) ps := by
  intro sequences
  show (do x; leave : Recording _) ([] :: sequences) = _ ∨ ∃ e sequences',
    (do x; leave : Recording _) ([] :: sequences) = _
  rw [bind_apply]
  rcases hx [] sequences with h | ⟨e, sequences', h⟩
  · rw [h]
    exact .inl rfl
  · rw [h]
    exact .inr ⟨e, sequences', rfl⟩

end Recording

namespace Step

open Recording

mutual

theorem adds_record (rule : String) :
    ∀ {step : Step}, step.straight = true → Adds (step.record rule) step.outline
  | .consume token idx, _ => by
    rw [record, outline]
    exact adds_push _
  | .subrule target idx, _ => by
    rw [record, outline]
    exact adds_push _
  | .option idx body, h => by
    rw [straight] at h
    rw [record, outline]
    exact (adds_recordSeq rule h).nested.adds (adds_push _)
  | .many idx body, h => by
    rw [straight] at h
    rw [record, outline]
    exact (adds_recordSeq rule h).nested.adds (adds_push _)
  | .choose idx label alternatives, h => by
    rw [straight] at h
    rw [record, outline]
    refine (gives_recordAlts rule h).adds ?_
    intro inner outer
    by_cases hempty : (outlineAlts alternatives).isEmpty = true
    · rw [if_pos hempty]
      exact .inr ⟨_, _, rfl⟩
    · rw [if_neg hempty]
      exact .inl rfl
  | .peek _, _ | .errorCount, _ | .live _, _ => by
    rw [record, outline]
    exact adds_pure
  | .recorded body, h => by
    rw [straight] at h
    rw [record, outline]
    exact adds_recordSeq rule h
  | .attempt _, h | .fail _, h => by simp [straight] at h

theorem adds_recordSeq (rule : String) :
    ∀ {steps : List Step}, straightSeq steps = true → Adds (recordSeq rule steps) (outlineSeq steps)
  | [], _ => by
    rw [recordSeq, outlineSeq]
    exact adds_pure
  | step :: rest, h => by
    simp only [straightSeq, Bool.and_eq_true] at h
    rw [recordSeq, outlineSeq]
    exact (adds_record rule h.1).append (adds_recordSeq rule h.2)

theorem gives_recordAlts (rule : String) :
    ∀ {alternatives : List (List Step)}, straightAlts alternatives = true →
      Gives (recordAlts rule alternatives) (outlineAlts alternatives)
  | [], _ => by
    rw [recordAlts, outlineAlts]
    exact gives_pure _
  | body :: rest, h => by
    simp only [straightAlts, Bool.and_eq_true] at h
    rw [recordAlts, outlineAlts]
    exact (adds_recordSeq rule h.1).nested.bind
      ((gives_recordAlts rule h.2).bind (gives_pure _))

end

end Step

/-- The grammar rule that the rule stands for. -/
def RuleDef.outline (r : RuleDef) : Rule := ⟨r.name, Step.outlineSeq r.body⟩

theorem RuleDef.record_eq_ok {r : RuleDef} {body : List Production}
    (hs : Step.straightSeq r.body = true) (h : r.record = .ok body) :
    body = Step.outlineSeq r.body := by
  rw [RuleDef.record] at h
  rcases Step.adds_recordSeq r.name hs [] [] with hr | ⟨e, sequences, hr⟩
  · have hrun : (do Step.recordSeq r.name r.body; Recording.leave : Recording _) [[]] =
        .ok (Step.outlineSeq r.body) [] := by
      rw [Recording.bind_apply, hr]
      rfl
    rw [hrun] at h
    exact (Except.ok.inj h).symm
  · have hrun : (do Step.recordSeq r.name r.body; Recording.leave : Recording _) [[]] =
        .error e sequences := by
      rw [Recording.bind_apply, hr]
    rw [hrun] at h
    cases h

theorem Grammar.declares_iff {g : Grammar} {name : String} :
    g.declares name = true ↔ name ∈ g.rules.map (·.name) := by
  simp [declares, rule?, List.find?_isSome]

theorem Grammar.rules_add {g : Grammar} {name : String} {body : List Production}
    (h : g.declares name = false) : (g.add name body).rules = g.rules ++ [⟨name, body⟩] := by
  have hn : ¬name ∈ g.rules.map (·.name) := by
    rw [← declares_iff, h]
    exact Bool.false_ne_true
  rw [add, dif_neg hn]

namespace Draft

/-- Whether all rules are plain. -/
def Plain (d : Draft) : Prop := ∀ r ∈ d.rules, Step.plainSeq r.body = true

instance (d : Draft) : Decidable d.Plain := inferInstanceAs (Decidable (∀ r ∈ d.rules, _))

theorem rules_recordRules {rules : List RuleDef}
    (hs : ∀ r ∈ rules, Step.straightSeq r.body = true) {g g' : Grammar}
    (h : recordRules g rules = .ok g') : g'.rules = g.rules ++ rules.map RuleDef.outline := by
  induction rules generalizing g with
  | nil =>
    rw [recordRules] at h
    cases h
    simp
  | cons r rest ih =>
    rw [recordRules] at h
    split at h
    · cases h
    · rename_i hd
      split at h
      · cases h
      · rename_i body hbody
        have hr := RuleDef.record_eq_ok (hs r (List.mem_cons_self ..)) hbody
        rw [ih (fun r' hr' => hs r' (List.mem_cons_of_mem _ hr')) h,
          Grammar.rules_add (by simpa using hd), hr, List.append_assoc]
        rfl

end Draft

namespace Language

/-- Whether all rules are plain. -/
def Plain (l : Language) : Prop := l.toDraft.Plain

/-- The language was built from rules that stand for the rules of its grammar, and its table is the
table of the grammar. -/
structure Outlined (l : Language) : Prop where
  /-- The rules of the grammar are the outlines of the rules. -/
  rules : l.grammar.rules = l.rules.map RuleDef.outline
  /-- The grammar is well formed. -/
  checked : l.grammar.check = .ok (.ofGrammar l.grammar)
  /-- The table is that of the grammar. -/
  table : l.table = l.grammar.table (.ofGrammar l.grammar)

theorem checked_eq_ok {g : Grammar} {f : FirstSets} (h : g.check = .ok f) :
    f = .ofGrammar g ∧ g.checkReferences = .ok () ∧ g.checkOccurrences = .ok () ∧
      g.checkLeftRecursion g.nullableRules = .ok () ∧
      g.checkConsumption (.ofGrammar g) = .ok () ∧ g.checkRepetitions (.ofGrammar g) = .ok () := by
  rw [Grammar.check] at h
  revert h
  cases g.checkReferences with
  | error e => rintro ⟨⟩
  | ok _ =>
    cases g.checkOccurrences with
    | error e => rintro ⟨⟩
    | ok _ =>
      show (do g.checkLeftRecursion g.nullableRules; _ : Except AnalysisError FirstSets) = .ok f → _
      cases g.checkLeftRecursion g.nullableRules with
      | error e => rintro ⟨⟩
      | ok _ =>
        show (do g.checkConsumption (.ofGrammar g); _ : Except AnalysisError FirstSets) = .ok f → _
        cases g.checkConsumption (.ofGrammar g) with
        | error e => rintro ⟨⟩
        | ok _ =>
          show (do g.checkRepetitions (.ofGrammar g); _ : Except AnalysisError FirstSets) = .ok f →
            _
          cases g.checkRepetitions (.ofGrammar g) with
          | error e => rintro ⟨⟩
          | ok _ =>
            rintro ⟨⟩
            exact ⟨rfl, rfl, rfl, rfl, rfl, rfl⟩

/-- What building a plain draft gives. -/
theorem outlined_of_build {d : Draft} {l : Language} (hb : d.build = .ok l) (hp : d.Plain) :
    l.toDraft = d ∧ l.Outlined := by
  rw [Draft.build] at hb
  split at hb
  · cases hb
  · rename_i g hg
    have hrules := Draft.rules_recordRules (fun r hr => Step.straightSeq_of_plainSeq (hp r hr)) hg
    rw [Grammar.analyze] at hb
    cases hcheck : g.check with
    | error e =>
      rw [hcheck] at hb
      cases hb
    | ok f =>
      rw [hcheck] at hb
      cases hb
      obtain ⟨rfl, -⟩ := checked_eq_ok hcheck
      exact ⟨rfl, hrules, hcheck, rfl⟩

theorem Outlined.rule? {l : Language} (ho : l.Outlined) (name : String) :
    l.grammar.rule? name = (l.rule? name).map RuleDef.outline := by
  rw [Grammar.rule?, ho.rules, List.find?_map]
  rfl

/-- The grammar has the outlines of the rules that the language was built from. -/
theorem rule?_of_build {d : Draft} {l : Language} (hb : d.build = .ok l) (hp : d.Plain)
    (name : String) :
    l.grammar.rule? name = (d.rules.find? (·.name == name)).map RuleDef.outline := by
  obtain ⟨rfl, ho⟩ := outlined_of_build hb hp
  exact ho.rule? name

theorem Outlined.analyze {l : Language} (ho : l.Outlined) : l.grammar.analyze = .ok l.table := by
  rw [Grammar.analyze, ho.checked, ho.table]
  rfl

end Language

end TopDown
