import TopDown.Proofs.Prediction
import TopDown.Proofs.Samples

/-!
# Progress

What is predicted passes a token. So no round of a repetition stands still, and with everything a
rule calls for recorded, the nesting limit is all that can end a parse apart from a syntax error.
`Language.Advances` says what a run of steps has to do for this, given what the steps derive, and
`Language.Runs.advances` that every run of plain steps does it, with all the ways past an error.
-/

namespace TopDown

namespace Language

variable {l : Language}

/-- Rules were nested too deep. -/
def Limited {α : Type} (l : Language) (r : Result α) : Prop :=
  ∃ rule s, r = .error (.fatal (.recursionLimit rule l.config.maxDepth)) s

/-- The result is reached after at least one token was passed. -/
def Passed {α : Type} (s : ParseState) (r : Result α) : Prop :=
  r.state.cursor.rest.length < s.cursor.rest.length

/-- No token was passed, and there was no error. -/
def Stayed {α : Type} (s : ParseState) : Result α → Prop
  | .ok _ s' => s'.cursor = s.cursor
  | .error .. => False

/-- The result is no fatal error but that of rules nested too deep. -/
def Sound {α : Type} (l : Language) : Result α → Prop
  | .error (.fatal e) _ => ∃ rule, e = .recursionLimit rule l.config.maxDepth
  | _ => True

/-- What the steps for the productions come to. If they admit the next token they pass one, and if
they derive nothing they pass a token or do nothing. -/
structure Advances {α : Type} (l : Language) (ps : List Production) (s : ParseState)
    (r : Result α) : Prop where
  admitted : l.grammar.Admits l.vocabulary ps (s.nextKind l.vocabulary) → l.Limited r ∨ Passed s r
  vanishing : l.grammar.Vanishes ps → l.Limited r ∨ Passed s r ∨ Stayed s r
  fatal : l.Sound r

section Lemmas

variable {α β : Type} {s s' : ParseState} {ps qs : List Production} {r : Result α}

theorem not_limited_ok {a : α} : ¬l.Limited (.ok a s') := by
  rintro ⟨rule, s, h⟩
  cases h

theorem Limited.map (f : α → β) (h : l.Limited r) : l.Limited (r.map f) := by
  obtain ⟨rule, s, rfl⟩ := h
  exact ⟨rule, s, rfl⟩

theorem Passed.map (f : α → β) (h : Passed s r) : Passed s (r.map f) := by
  rw [Passed, Result.state_map]
  exact h

theorem Stayed.map (f : α → β) (h : Stayed s r) : Stayed s (r.map f) := by
  cases r with
  | ok a s' => exact h
  | error e s' => exact h

theorem Sound.map (f : α → β) (h : l.Sound r) : l.Sound (r.map f) := by
  cases r with
  | ok a s' => trivial
  | error e s' => cases e <;> exact h

theorem sound_raise (stack : Stack) (e : SyntaxError) : l.Sound (raise stack e s : Result α) :=
  trivial

theorem Advances.map (f : α → β) (h : l.Advances ps s r) : l.Advances ps s (r.map f) where
  admitted ha := (h.admitted ha).imp (·.map f) (·.map f)
  vanishing hv := (h.vanishing hv).imp (·.map f) (·.imp (·.map f) (·.map f))
  fatal := h.fatal.map f

/-- Whatever passes a token advances. -/
theorem Passed.advances (h : Passed s r) (hf : l.Sound r) : l.Advances ps s r :=
  ⟨fun _ => .inr h, fun _ => .inr (.inl h), hf⟩

/-- What does nothing advances if the next token is not admitted. -/
theorem advances_stay {a : α}
    (hn : ¬l.grammar.Admits l.vocabulary ps (s.nextKind l.vocabulary)) :
    l.Advances ps s (.ok a s) :=
  ⟨fun ha => absurd ha hn, fun _ => .inr (.inr rfl), trivial⟩

/-- What is noted on the way does not matter. -/
theorem Advances.of_note {e : Event} (h : l.Advances ps (s.note e) r) : l.Advances ps s r :=
  ⟨h.admitted, h.vanishing, h.fatal⟩

/-- What is done for productions is done for others too, if these admit the next token where the
others do, and admit it or vanish where the others vanish. -/
theorem Advances.of_imp (h : l.Advances ps s r)
    (ha : l.grammar.Admits l.vocabulary qs (s.nextKind l.vocabulary) →
      l.grammar.Admits l.vocabulary ps (s.nextKind l.vocabulary))
    (hv : l.grammar.Vanishes qs →
      l.grammar.Admits l.vocabulary ps (s.nextKind l.vocabulary) ∨ l.grammar.Vanishes ps) :
    l.Advances qs s r where
  admitted hq := h.admitted (ha hq)
  vanishing hq := by
    rcases hv hq with ha | hv
    · exact (h.admitted ha).imp_right .inl
    · exact h.vanishing hv
  fatal := h.fatal

/-- What is done for productions that admit the next token advances whatever they belong to. -/
theorem Advances.of_admits (h : l.Advances ps s r)
    (ha : l.grammar.Admits l.vocabulary ps (s.nextKind l.vocabulary)) : l.Advances qs s r :=
  h.of_imp (fun _ => ha) fun _ => .inl ha

theorem nextKind_congr (h : s'.cursor = s.cursor) (v : Vocabulary) : s'.nextKind v = s.nextKind v := by
  rw [ParseState.nextKind, ParseState.nextKind, h]

/-- Steps are done one after the other: the others see the next token if the first do nothing. -/
theorem Advances.append {a : α} {r : Result β} (hps : l.Advances ps s (.ok a s'))
    (hqs : l.Advances qs s' r) (hleads : s'.Leads r.state) : l.Advances (ps ++ qs) s r := by
  have hpassed : Passed s (.ok a s' : Result α) → Passed s r := fun h =>
    Nat.lt_of_le_of_lt hleads.rest_length_le h
  refine ⟨fun ha => ?_, fun hv => ?_, hqs.fatal⟩
  · rcases Grammar.Admits.append_iff.1 ha with ha | ⟨hv, ha⟩
    · exact .inr (hpassed ((hps.admitted ha).resolve_left not_limited_ok))
    · rcases (hps.vanishing hv).resolve_left not_limited_ok with h | h
      · exact .inr (hpassed h)
      · rw [← nextKind_congr h] at ha
        refine (hqs.admitted ha).imp_right fun hr => ?_
        rw [Passed, ← show s'.cursor = s.cursor from h]
        exact hr
  · obtain ⟨hvp, hvq⟩ := Grammar.Vanishes.append_iff.1 hv
    rcases (hps.vanishing hvp).resolve_left not_limited_ok with h | h
    · exact .inr (.inl (hpassed h))
    · have hcursor : s'.cursor = s.cursor := h
      rcases hqs.vanishing hvq with hr | hr | hr
      · exact .inl hr
      · refine .inr (.inl ?_)
        rw [Passed, ← hcursor]
        exact hr
      · refine .inr (.inr ?_)
        cases r with
        | ok b s'' => exact hr.trans hcursor
        | error e s'' => exact hr

/-- An error of the first steps is the error of all. -/
theorem Advances.error {e : ParseError} (h : l.Advances ps s (.error e s' : Result α)) :
    l.Advances (ps ++ qs) s (.error e s' : Result α) := by
  refine ⟨fun ha => ?_, fun hv => h.vanishing (Grammar.Vanishes.append_iff.1 hv).1, h.fatal⟩
  rcases Grammar.Admits.append_iff.1 ha with ha | ⟨hv, -⟩
  · exact h.admitted ha
  · exact (h.vanishing hv).imp_right fun hr => hr.resolve_right id

end Lemmas

/-! ## The steps -/

section Steps

variable {stack : Stack} {s s' : ParseState} {idx : Nat}

/-- A token that is called for and admitted is passed. -/
theorem advances_consume {token : TokenId} (heof : token ≠ l.vocabulary.eof) :
    l.Advances [.terminal token idx] s (l.consume stack token idx s) := by
  have hc := consumption l stack token idx s
  refine ⟨?_, fun hv => absurd hv Grammar.not_vanishes_terminal, ?_⟩
  · intro ha
    have ha := Grammar.admits_terminal_iff.1 ha
    refine .inr ?_
    obtain ⟨⟨past, _ | ⟨t, rest⟩⟩, history⟩ := s
    · exact absurd (Vocabulary.isA_eof_iff.1 ha) heof
    · rw [consume_eq_ok rfl ha]
      exact Nat.lt_succ_self _
  · generalize l.consume stack token idx s = r at hc ⊢
    cases hc <;> trivial

/-- What a rule does is what its body does, unless it is given up. -/
theorem Advances.leave {ps : List Production} {r : Result (List Tree)} (h : l.Advances ps s r)
    (stack : Stack) : l.Advances ps s (l.leave stack r) := by
  have hlimited : l.Limited r → l.Limited (l.leave stack r) := by
    rintro ⟨rule, s', rfl⟩
    exact ⟨rule, s', rfl⟩
  have hpassed : Passed s r → Passed s (l.leave stack r) := fun hr =>
    Nat.lt_of_le_of_lt (leads_leave r).rest_length_le hr
  have hstayed : Stayed s r → Stayed s (l.leave stack r) := by
    intro hr
    cases r with
    | ok parts s' => exact hr
    | error e s' => exact hr.elim
  refine ⟨fun ha => (h.admitted ha).imp hlimited hpassed,
    fun hv => (h.vanishing hv).imp hlimited (·.imp hpassed hstayed), ?_⟩
  match r with
  | .ok parts s' => trivial
  | .error (.fatal e) s' => exact h.fatal
  | .error (.syntaxError e) s' =>
    simp only [Language.leave]
    split
    · trivial
    · obtain hr | ⟨target, kind, _, _, _, _, hr⟩ := resync_cases l stack e s' <;>
      · rw [hr]
        trivial

/-- The name of a rule admits and derives what the body of the rule does. -/
theorem Advances.nonTerminal {name : String} {rule : Rule} {result : Result Tree}
    (hrule : l.grammar.rule? name = some rule) (h : l.Advances rule.body s result) :
    l.Advances [.nonTerminal name idx] s result := by
  refine h.of_imp ?_ ?_
  · intro ha
    obtain ⟨rule', hrule', ha⟩ := Grammar.admits_nonTerminal_iff.1 ha
    cases hrule.symm.trans hrule'
    exact ha
  · intro hv
    obtain ⟨rule', hrule', hv⟩ := Grammar.vanishes_nonTerminal_iff.1 hv
    cases hrule.symm.trans hrule'
    exact .inr hv

end Steps

/-- Every run of plain steps advances. -/
theorem Runs.advances (ho : l.Outlined) (hp : l.Plain) (heof : l.grammar.Avoids l.vocabulary.eof)
    {room : Nat} {stack : Stack} {steps : List Step} {s : ParseState} {r : Result (List Tree)}
    (h : Runs l room stack steps s r) {tail : Lookahead} {next : AfterRepetition}
    (hsteps : l.Prepared stack.rule tail next steps) :
    l.Advances (Step.outlineSeq steps) s r := by
  -- skipping and whole rounds pass a token anyway; all else is a matter of what was predicted
  induction h generalizing tail next with
  | nil => exact advances_stay fun ⟨_, hc, _⟩ => Grammar.not_starts_nil hc
  | cons _ htail ihhead ihtail =>
    obtain ⟨hstep, hrest⟩ := hsteps.cons
    have hhead := ihhead hstep
    rw [Step.outlineSeq_singleton] at hhead
    rw [Step.outlineSeq]
    exact (hhead.append (ihtail hrest) htail.leads).map _
  | fails _ ih =>
    have hhead := ih hsteps.cons.1
    rw [Step.outlineSeq_singleton] at hhead
    rw [Step.outlineSeq]
    exact hhead.error
  | consume =>
    refine (advances_consume ?_).map _
    rintro rfl
    exact heof.not_occurs (hsteps.occurs (List.mem_singleton.2 rfl))
  | undeclared h =>
    obtain ⟨r, hr⟩ := hsteps.subrule ho
    rw [h] at hr
    cases hr
  | refused =>
    exact ⟨fun _ => .inl ⟨_, _, rfl⟩, fun _ => .inl ⟨_, _, rfl⟩, _, rfl⟩
  | @entered room stack name idx r s inner result h hinner hbody ih =>
    have hrule : inner.rule = name := by rw [hinner, Stack.rule_push, name_of_rule? h]
    have hbody := (ih (hrule ▸ ho.prepared hp h)).leave inner
    have hr : l.grammar.rule? name = some r.outline := by rw [ho.rule?, h]; rfl
    exact (hbody.of_note.nonTerminal hr).map _
  | noOption h =>
    rw [(hsteps.option ho).1] at h
    cases h
  | leftOut h hpred => exact advances_stay (hsteps.not_admits_option ho h hpred)
  | taken h hpred _ ih =>
    exact ((ih (hsteps.option ho).2).of_admits (hsteps.admits_taken ho h hpred)).map _
  | noMany h =>
    rw [(hsteps.many ho).1] at h
    cases h
  | stopped h hpred => exact advances_stay (hsteps.not_admits_many ho h hpred)
  | skipped _ _ hr => exact Passed.advances (rest_length_recoverInRepetition hr) trivial
  | resumed _ _ hr hagain ih =>
    refine Passed.advances ?_ (ih hsteps).fatal
    exact Nat.lt_of_le_of_lt hagain.leads.rest_length_le (rest_length_recoverInRepetition hr)
  | round h hpred _ progress hagain ihbody ihagain =>
    refine (Passed.advances ?_ (ihagain hsteps).fatal).map _
    exact Nat.lt_of_le_of_lt hagain.leads.rest_length_le progress
  | stalled h hpred _ stall ih =>
    -- a round is predicted, so it passes a token
    have hpassed := (ih hsteps.round).admitted (hsteps.admits_round ho h hpred)
    exact absurd (hpassed.resolve_left not_limited_ok) stall
  | roundFails h hpred _ ih =>
    exact (ih hsteps.round).of_admits (hsteps.admits_round ho h hpred)
  | noChoice h =>
    rw [(hsteps.choose ho).1] at h
    cases h
  | unviable h hc =>
    rw [Step.outlineSeq_choose]
    obtain ⟨hn, hnv⟩ := hsteps.unviable ho h hc
    exact ⟨fun ha => absurd ha hn, fun hv => absurd hv hnv, sound_raise ..⟩
  | chosen h hc hi _ ih =>
    have hbody := ih ((hsteps.choose ho).2 _ (List.mem_of_getElem? hi))
    rw [Step.outlineSeq_choose]
    obtain ⟨hadmits, hcase⟩ := hsteps.chosen ho h hc hi
    exact (hbody.of_imp hadmits fun _ => hcase).map _
  | peek | errorCount | live | recorded | attempted | abandoned | fail =>
    exact absurd hsteps.plain (by simp [Step.plain])

/-- A parse from a declared rule of a plain language that calls nowhere for the end of the input is
ended by a syntax error that no rule could get past or by the nesting limit, if anything ends it. -/
theorem unrecoverable_or_recursionLimit {d : Draft} {l : Language} (hb : d.build = .ok l)
    (hp : d.Plain) (heof : l.grammar.Avoids l.vocabulary.eof) {start : String}
    (hs : start ∈ d.rules.map (·.name)) {ts : List Token} {e : FatalError}
    (he : (l.parse start ts).fatal = some e) :
    (∃ error, e = .unrecoverable error) ∨ ∃ rule, e = .recursionLimit rule l.config.maxDepth := by
  obtain ⟨rfl, ho⟩ := outlined_of_build hb hp
  obtain ⟨r, hr⟩ : ∃ r, l.rule? start = some r := by
    obtain ⟨r, hmem, rfl⟩ := List.mem_map.1 hs
    exact Option.isSome_iff_exists.1 (List.find?_isSome.2 ⟨r, hmem, by simp⟩)
  cases hd : l.config.maxDepth with
  | zero =>
    rw [parse_refused hr hd, hd] at he
    cases he
    exact .inr ⟨r.name, rfl⟩
  | succ room =>
    obtain ⟨result, hrun⟩ := exists_run l room (startStack r) r.body (startState r ts)
    have hname : (startStack r).rule = start := name_of_rule? hr
    have hsound := (hrun.advances ho hp heof (hname ▸ ho.prepared hp hr)).fatal
    rw [parse_entered hr hd hrun] at he
    match result with
    | .ok parts s =>
      rw [Result.map_ok, finish] at he
      split at he <;> cases he
    | .error (.syntaxError error) s =>
      cases he
      exact .inl ⟨_, rfl⟩
    | .error (.fatal e') s =>
      cases he
      obtain ⟨rule, rfl⟩ := hsound
      exact .inr ⟨rule, by rw [hd]⟩

/-- The calculator language cannot get past a number that is missing at the end. -/
theorem unrecoverable_or_recursionLimit_calc :
    Calc.draft.build = .ok Calc.language ∧ Calc.draft.Plain ∧
    Calc.language.grammar.Avoids Calc.language.vocabulary.eof ∧
    "expression" ∈ Calc.draft.rules.map (·.name) ∧
    ∃ e, (Calc.language.parse "expression" (Calc.vocabulary.tokenize "2*").1).fatal = some e ∧
      ((∃ error, e = .unrecoverable error) ∨
        ∃ rule, e = .recursionLimit rule Calc.language.config.maxDepth) := by
  have heof : Calc.language.grammar.Avoids Calc.language.vocabulary.eof := by decide +kernel
  have hs : "expression" ∈ Calc.draft.rules.map (·.name) := by decide +kernel
  have hsome : (Calc.language.parse "expression"
      (Calc.vocabulary.tokenize "2*").1).fatal.isSome = true := by decide +kernel
  obtain ⟨e, he⟩ := Option.isSome_iff_exists.1 hsome
  exact ⟨Calc.build_draft, Calc.plain_draft, heof, hs, e, he,
    unrecoverable_or_recursionLimit Calc.build_draft Calc.plain_draft heof hs he⟩

end Language

end TopDown
