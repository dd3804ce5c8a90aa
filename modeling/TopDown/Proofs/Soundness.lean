import TopDown.Proofs.Derivation
import TopDown.Proofs.Moves
import TopDown.Proofs.Recording
import TopDown.Proofs.Samples

/-!
# Soundness of parsing

A parse without errors reads its tokens: the tree it gives is a derivation of the tokens from the
start rule. The point is that every way past an error leaves the error behind, and that errors are
never forgotten. So a run that ends without errors has only matched tokens, and the trees of its
steps are the derivation.
-/

namespace TopDown

namespace Language

variable {l : Language} {room : Nat} {stack : Stack} {steps : List Step} {s : ParseState}

/-- A call for a token that leaves no error has matched the next token. -/
theorem Consumption.of_errors_eq_nil {expected : TokenId} {idx : Nat} {t : Token} {s' : ParseState}
    (h : Consumption l stack expected idx s (.ok t s')) (hs : s'.errors = []) :
    s.cursor.rest = t :: s'.cursor.rest ∧ l.vocabulary.isA t.kind expected = true := by
  cases h with
  | matched hc ha =>
    rw [hc]
    exact ⟨rfl, ha⟩
  | deleted =>
    rw [ParseState.errors_cons rfl] at hs
    simp at hs
  | inserted =>
    rw [ParseState.note, ParseState.errors_cons rfl] at hs
    simp at hs

/-- A rule that is left without an error was not given up. -/
theorem leave_of_errors_eq_nil {result : Result (List Tree)} {t : Tree} {s' : ParseState}
    (h : l.leave stack result = .ok t s') (hs : s'.errors = []) :
    ∃ parts, result = .ok parts s' ∧ t = .node stack.rule parts := by
  match result with
  | .ok parts s =>
    simp only [leave, EStateM.Result.ok.injEq] at h
    obtain ⟨rfl, rfl⟩ := h
    exact ⟨parts, rfl, rfl⟩
  | .error (.fatal e) s => simp [leave] at h
  | .error (.syntaxError e) s =>
    simp only [leave] at h
    split at h
    · cases h
    · obtain hr | ⟨target, kind, _, _, _, _, hr⟩ := resync_cases l stack e s
      · rw [hr] at h
        cases h
      · rw [hr] at h
        cases h
        rw [ParseState.errors_cons rfl] at hs
        simp at hs

/-- One more round in front of a repetition. -/
theorem derivation_addRound {g : Grammar} {v : Vocabulary} {idx : Nat} {body ps : List Production}
    {parts trees : List Tree} {us ws : List Token} (h : g.Derivation v body parts us)
    (h' : g.Derivation v ps trees ws) (hps : ps = [.many idx body]) :
    g.Derivation v [.many idx body] (addRound parts trees) (us ++ ws) := by
  obtain ⟨rounds, rfl⟩ := h'.of_many hps
  subst hps
  exact .round h h'

/-- The trees of plain steps that are done without an error are a derivation of the tokens that were
passed from the outline of the steps. -/
theorem Runs.derivation {r : Result (List Tree)} (ho : l.Outlined) (hp : l.Plain)
    (h : Runs l room stack steps s r) (hsteps : Step.plainSeq steps = true) {trees : List Tree}
    {s' : ParseState} (hr : r = .ok trees s') (hs : s'.errors = []) :
    ∃ us, s.cursor.rest = us ++ s'.cursor.rest ∧
      l.grammar.Derivation l.vocabulary (Step.outlineSeq steps) trees us := by
  induction h generalizing trees s' with
  | nil =>
    cases hr
    exact ⟨[], rfl, .nil⟩
  | cons _ htail ihhead ihtail =>
    simp only [Step.plainSeq, Bool.and_eq_true] at hsteps
    obtain ⟨trees', rfl, rfl⟩ := Result.map_eq_ok_iff.1 hr
    have hmid := htail.leads.errors_eq_nil hs
    obtain ⟨us, hus, hd⟩ := ihhead (by simpa using hsteps.1) rfl hmid
    obtain ⟨ws, hws, hd'⟩ := ihtail hsteps.2 rfl hs
    refine ⟨us ++ ws, by rw [hus, hws, List.append_assoc], ?_⟩
    rw [Step.outlineSeq]
    exact Grammar.Derivation.append (by simpa using hd) hd'
  | consume =>
    obtain ⟨t, ht, rfl⟩ := Result.map_eq_ok_iff.1 hr
    obtain ⟨hrest, ha⟩ := Consumption.of_errors_eq_nil (ht ▸ consumption ..) hs
    exact ⟨[t], hrest, .terminal ha⟩
  | @entered _ _ _ idx r _ inner _ h hinner _ ih =>
    obtain ⟨tree, htree, rfl⟩ := Result.map_eq_ok_iff.1 hr
    obtain ⟨parts, rfl, rfl⟩ := leave_of_errors_eq_nil htree hs
    obtain ⟨us, hus, hd⟩ := ih (hp r (mem_rules_of_rule? h)) rfl hs
    have hrule : inner.rule = r.name := by rw [hinner, Stack.rule_push]
    refine ⟨us, hus, ?_⟩
    rw [hrule, name_of_rule? h]
    exact .nonTerminal (by rw [ho.rule?, h]; rfl) hd
  | leftOut =>
    cases hr
    exact ⟨[], rfl, .leftOut⟩
  | taken _ _ _ ih =>
    obtain ⟨parts, rfl, rfl⟩ := Result.map_eq_ok_iff.1 hr
    obtain ⟨us, hus, hd⟩ := ih (by simpa [Step.plain] using hsteps) rfl hs
    exact ⟨us, hus, .taken hd⟩
  | stopped =>
    cases hr
    exact ⟨[], rfl, .stopped⟩
  | skipped _ _ hrec =>
    cases hr
    exact absurd hs (errors_recoverInRepetition_ne_nil hrec)
  | resumed _ _ hrec hagain _ =>
    subst hr
    exact absurd (hagain.leads.errors_eq_nil hs) (errors_recoverInRepetition_ne_nil hrec)
  | round _ _ _ _ hagain ihbody ihagain =>
    obtain ⟨more, rfl, rfl⟩ := Result.map_eq_ok_iff.1 hr
    have hmid := hagain.leads.errors_eq_nil hs
    obtain ⟨us, hus, hd⟩ := ihbody (by simpa [Step.plain] using hsteps) rfl hmid
    obtain ⟨ws, hws, hd'⟩ := ihagain hsteps rfl hs
    refine ⟨us ++ ws, by rw [hus, hws, List.append_assoc], ?_⟩
    exact derivation_addRound hd hd' rfl
  | chosen _ _ hi _ ih =>
    obtain ⟨parts, rfl, rfl⟩ := Result.map_eq_ok_iff.1 hr
    simp only [Step.plainSeq_singleton, Step.plain] at hsteps
    obtain ⟨us, hus, hd⟩ := ih (Step.plainSeq_of_mem hsteps (List.mem_of_getElem? hi)) rfl hs
    refine ⟨us, hus, ?_⟩
    refine .chosen ?_ hd
    rw [Step.outlineAlts_eq, List.getElem?_map, hi, Option.map_some]
  | fails | undeclared | refused | noOption | noMany | stalled | roundFails | noChoice | unviable =>
    cases hr
  | peek | errorCount | live | recorded | attempted | abandoned | fail =>
    simp [Step.plain] at hsteps

/-- What a parse without errors comes to. -/
theorem finish_of_isOk {start : String} {result : Result Tree}
    (h : (finish start result).isOk = true) :
    ∃ t s', result = .ok t s' ∧ s'.errors = [] ∧ s'.cursor.rest = [] ∧
      finish start result = ⟨some t, [], none⟩ := by
  match result with
  | .error (.syntaxError e) s => simp [finish, ParseOutput.isOk] at h
  | .error (.fatal e) s => simp [finish, ParseOutput.isOk] at h
  | .ok t s =>
    simp only [finish] at h ⊢
    cases hn : s.cursor.next? with
    | some extra => simp [hn, ParseOutput.isOk] at h
    | none =>
      simp only [hn, ParseOutput.isOk, Bool.and_eq_true, List.isEmpty_iff] at h
      refine ⟨t, s, rfl, h.1, List.head?_eq_none_iff.1 hn, ?_⟩
      rw [h.1]

/-- A parse without errors gives a derivation of its tokens, and no step on the way got past an
error. -/
theorem Outlined.exists_derivation_of_isOk (ho : l.Outlined) (hp : l.Plain) {start : String}
    {ts : List Token} (hok : (l.parse start ts).isOk = true) :
    ∃ t, (l.parse start ts).value = some t ∧
      l.grammar.Derivation l.vocabulary [.nonTerminal start 0] [t] ts ∧
      ∀ e ∈ (l.run start ts).events, e.recovered? = none := by
  cases hr : l.rule? start with
  | none => simp [parse_undeclared hr, ParseOutput.isOk] at hok
  | some r =>
    cases hd : l.config.maxDepth with
    | zero => simp [parse_refused hr hd, ParseOutput.isOk] at hok
    | succ room =>
      obtain ⟨result, hrun⟩ := exists_run l room (startStack r) r.body (startState r ts)
      have hparse := parse_entered hr hd hrun
      rw [hparse] at hok
      obtain ⟨t, s', hres, herrors, hrest, hout⟩ := finish_of_isOk hok
      obtain ⟨parts, rfl, rfl⟩ := Result.map_eq_ok_iff.1 hres
      obtain ⟨us, hus, hder⟩ := hrun.derivation ho hp (hp r (mem_rules_of_rule? hr)) rfl herrors
      obtain rfl : ts = us := by simpa [hrest, startState, ParseState.start, Cursor.ofList] using hus
      refine ⟨.node r.name parts, by rw [hparse, hout], ?_, ?_⟩
      · rw [name_of_rule? hr]
        exact .nonTerminal (by rw [ho.rule?, hr]; rfl) hder
      · rw [run_entered hr hd hrun]
        exact List.filterMap_eq_nil_iff.1 herrors

/-- If a plain language parses tokens without an error, then the tokens are in the language of the
start rule, the tree is a derivation of them, its leaves are the tokens in order, and the parser
has not got past an error on the way, so none of them is made up. -/
theorem derivation_of_isOk {d : Draft} {l : Language} (hb : d.build = .ok l) (hp : d.Plain)
    {start : String} {ts : List Token} (hok : (l.parse start ts).isOk = true) :
    l.grammar.Derives l.vocabulary [.nonTerminal start 0] ts ∧
    ∃ t, (l.parse start ts).value = some t ∧
      l.grammar.Derivation l.vocabulary [.nonTerminal start 0] [t] ts ∧ t.tokens = ts ∧
      ∀ e ∈ (l.run start ts).events, e.recovered? = none := by
  obtain ⟨rfl, ho⟩ := outlined_of_build hb hp
  obtain ⟨t, hvalue, hder, hevents⟩ := ho.exists_derivation_of_isOk hp hok
  refine ⟨hder.derives, t, hvalue, hder, ?_, hevents⟩
  simpa [Tree.tokensSeq] using hder.tokens

/-- The calculator language parses `2*(3-4)`. -/
theorem derivation_of_isOk_calc :
    Calc.draft.build = .ok Calc.language ∧ Calc.draft.Plain ∧
    (Calc.language.parse "expression" (Calc.vocabulary.tokenize "2*(3-4)").1).isOk = true ∧
    Calc.language.grammar.Derives Calc.language.vocabulary [.nonTerminal "expression" 0]
      (Calc.vocabulary.tokenize "2*(3-4)").1 := by
  have hok : (Calc.language.parse "expression"
      (Calc.vocabulary.tokenize "2*(3-4)").1).isOk = true := by decide +kernel
  exact ⟨Calc.build_draft, Calc.plain_draft, hok,
    (derivation_of_isOk Calc.build_draft Calc.plain_draft hok).1⟩

end Language

end TopDown
