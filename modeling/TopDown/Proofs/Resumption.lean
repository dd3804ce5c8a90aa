import TopDown.Proofs.Follow
import TopDown.Proofs.Progress

/-!
# After an error was got past

A token is made up before a token that can follow it inside the rule, or a rule is given up before a
token that can follow its call: the event is anchored (`Language.Anchored`). Then the parse is back
in step with its input: nothing happens but the entering of rules until that token is consumed,
unless rules are nested too deep (`Language.Prompt`). `Language.consumed_of_anchored` says so of
every parse of a plain language that calls nowhere for the end of the input.

There are two halves to this. Steps that admit the next token consume it before anything else
happens (`Language.Runs.heeds`), also if they come after steps that derive nothing. And what follows
an anchored event admits the token, from the rest of the innermost sequence outwards, as long as
nothing has consumed it (`Language.Runs.answers`).
-/

namespace TopDown

/-- The class of the token at the position, or of the end of the input. -/
def Vocabulary.kindAt (v : Vocabulary) (tokens : List Token) (position : Nat) : TokenId :=
  tokens[position]?.elim v.eof (·.kind)

theorem ParseState.nextKind_of_toList {s : ParseState} {tokens : List Token}
    (h : s.cursor.toList = tokens) (v : Vocabulary) :
    v.kindAt tokens s.position = s.nextKind v := by
  rw [Vocabulary.kindAt, ← h, ParseState.position, Cursor.getElem?_position]
  rfl

namespace Language

variable {l : Language}

/-- Whether the token at the position can follow the call site inside its rule. -/
def admitsAfter (l : Language) (tokens : List Token) (site : CallSite) (position : Nat) : Bool :=
  (l.table.follow? site).any fun follow =>
    follow.set.admits l.vocabulary (l.vocabulary.kindAt tokens position)

/-- The event got past an error at the position, before a token that can follow inside the rule: the
token that was made up, or the call for the rule that was given up. -/
inductive Anchored (l : Language) (tokens : List Token) : Event → Nat → Prop where
  | inserted {error : SyntaxError} {kind : TokenId} {idx position : Nat}
      (h : l.admitsAfter tokens ⟨error.rule, .token kind, idx⟩ position = true) :
      Anchored l tokens (.inserted error kind idx position) position
  | resumed {error : SyntaxError} {stack : Stack} {kind : TokenId} {position : Nat}
      {site : CallSite} (hs : stack.top.site = some site)
      (h : l.admitsAfter tokens site position = true) :
      Anchored l tokens (.resumed error stack kind position) position

/-- After the history, rules were entered and nothing else happened until the token at the position
was consumed or a rule was nested too deep. -/
inductive Prompt {α : Type} (l : Language) (history : List Event) (position : Nat) :
    Result α → Prop where
  | consumed {calls : List Stack} {r : Result α}
      (h : .consumed position :: (calls.map .entered ++ history) <:+ r.state.history) :
      Prompt l history position r
  | refused {calls : List Stack} {rule : String} {s : ParseState}
      (h : s.history = .refused rule position :: (calls.map .entered ++ history)) :
      Prompt l history position (.error (.fatal (.recursionLimit rule l.config.maxDepth)) s)

/-- Rules were entered and nothing else happened. -/
def Waits {α : Type} (s : ParseState) : Result α → Prop
  | .ok _ s' => s'.cursor = s.cursor ∧ ∃ calls : List Stack,
      s'.history = calls.map .entered ++ s.history
  | .error .. => False

/-- If some class has to come after a repetition, a token of class `kind` is accepted for it. -/
def Suits (l : Language) (stack : Stack) (next : AfterRepetition) (kind : TokenId) : Prop :=
  ∀ expected, l.Ends stack next expected → l.vocabulary.isA kind expected = true

section Lemmas

variable {α β : Type} {history : List Event} {position : Nat} {r : Result α} {s s' : ParseState}

theorem Prompt.map (f : α → β) (h : l.Prompt history position r) :
    l.Prompt history position (r.map f) := by
  cases h with
  | consumed h =>
    rw [← Result.state_map f r] at h
    exact .consumed h
  | refused h => exact .refused h

/-- What happens after the token was consumed does not matter. -/
theorem Prompt.leads {a : α} {r : Result β} (h : l.Prompt history position (.ok a s' : Result α))
    (hl : s'.Leads r.state) : l.Prompt history position r := by
  cases h with
  | consumed h => exact .consumed (h.trans hl.history)

/-- Rules that were entered before do not matter. -/
theorem Prompt.of_entered {calls : List Stack}
    (h : l.Prompt (calls.map .entered ++ history) position r) : l.Prompt history position r := by
  have happend (more : List Stack) : more.map Event.entered ++ (calls.map .entered ++ history) =
      (more ++ calls).map Event.entered ++ history := by
    rw [List.map_append, List.append_assoc]
  cases h with
  | consumed h =>
    rw [happend] at h
    exact .consumed h
  | refused h =>
    rw [happend] at h
    exact .refused h

theorem Prompt.leave {r : Result (List Tree)} (h : l.Prompt history position r) (stack : Stack) :
    l.Prompt history position (l.leave stack r) := by
  cases h with
  | consumed h => exact .consumed (h.trans (leads_leave r).history)
  | refused h => exact .refused h

theorem Waits.map (f : α → β) (h : Waits s r) : Waits s (r.map f) := by
  cases r with
  | ok a s' => exact h
  | error e s' => exact h

theorem waits_refl (a : α) : Waits s (.ok a s : Result α) := ⟨rfl, [], rfl⟩

theorem Waits.nextKind_eq {a : α} (h : Waits s (.ok a s' : Result α)) (v : Vocabulary) :
    s'.nextKind v = s.nextKind v :=
  nextKind_congr h.1 v

/-- What is prompt after waiting is prompt. -/
theorem Waits.prompt {a : α} {r : Result β} (h : Waits s (.ok a s' : Result α))
    (hr : l.Prompt s'.history s'.position r) : l.Prompt s.history s.position r := by
  obtain ⟨hcursor, calls, hhistory⟩ := h
  rw [hhistory, ParseState.position, hcursor] at hr
  exact hr.of_entered

theorem Waits.trans {a : α} {r : Result β} (h : Waits s (.ok a s' : Result α)) (hr : Waits s' r) :
    Waits s r := by
  obtain ⟨hcursor, calls, hhistory⟩ := h
  cases r with
  | error e s'' => exact hr
  | ok b s'' =>
    obtain ⟨hcursor', calls', hhistory'⟩ := hr
    refine ⟨hcursor'.trans hcursor, calls' ++ calls, ?_⟩
    rw [hhistory', hhistory, List.map_append, List.append_assoc]

/-- What follows a place and what comes right after a repetition there go together. -/
theorem suits_of_heralds {stack : Stack} {next : AfterRepetition} {tail : Lookahead}
    {kind : TokenId} (h : tail.Heralds next) (ha : tail.set.admits l.vocabulary kind = true) :
    l.Suits stack next kind := by
  intro expected hends
  obtain ⟨c, hc, hkind⟩ := TokenSet.admits_iff.1 ha
  cases hends with
  | terminal =>
    obtain rfl : tail = .token expected := h
    obtain rfl := TokenSet.mem_single.1 hc
    exact hkind
  | endOfRule =>
    obtain rfl : tail = .empty := h
    exact absurd hc TokenSet.not_mem_empty

end Lemmas

/-! ## Steps that admit the next token -/

/-- What the steps for the productions come to if `next` comes after them. If they admit the next
token, they consume it before anything else happens; if they derive nothing, they do so or nothing
happens. -/
structure Heeds {α : Type} (l : Language) (stack : Stack) (next : AfterRepetition)
    (ps : List Production) (s : ParseState) (r : Result α) : Prop where
  admitted : l.grammar.Admits l.vocabulary ps (s.nextKind l.vocabulary) →
    l.Prompt s.history s.position r
  vanishing : l.grammar.Vanishes ps → l.Suits stack next (s.nextKind l.vocabulary) →
    l.Prompt s.history s.position r ∨ Waits s r

section Heeds

variable {α β : Type} {stack : Stack} {next : AfterRepetition} {ps qs : List Production}
  {s s' : ParseState} {r : Result α}

theorem Heeds.map (f : α → β) (h : l.Heeds stack next ps s r) :
    l.Heeds stack next ps s (r.map f) where
  admitted ha := (h.admitted ha).map f
  vanishing hv hs := (h.vanishing hv hs).imp (·.map f) (·.map f)

/-- What does nothing heeds the next token if it is not admitted. -/
theorem heeds_stay {a : α} (hn : ¬l.grammar.Admits l.vocabulary ps (s.nextKind l.vocabulary)) :
    l.Heeds stack next ps s (.ok a s) where
  admitted ha := absurd ha hn
  vanishing _ _ := .inr (waits_refl a)

/-- What is done for productions that admit the next token heeds it whatever they belong to. -/
theorem Heeds.of_admits {next' : AfterRepetition} (h : l.Heeds stack next ps s r)
    (ha : l.grammar.Admits l.vocabulary ps (s.nextKind l.vocabulary)) :
    l.Heeds stack next' qs s r where
  admitted _ := h.admitted ha
  vanishing _ _ := .inl (h.admitted ha)

/-- What is done for productions is done for others too, if these admit the next token where the
others do, and admit it or vanish where the others vanish. -/
theorem Heeds.of_imp (h : l.Heeds stack next ps s r)
    (ha : l.grammar.Admits l.vocabulary qs (s.nextKind l.vocabulary) →
      l.grammar.Admits l.vocabulary ps (s.nextKind l.vocabulary))
    (hv : l.grammar.Vanishes qs →
      l.grammar.Admits l.vocabulary ps (s.nextKind l.vocabulary) ∨ l.grammar.Vanishes ps) :
    l.Heeds stack next qs s r where
  admitted hq := h.admitted (ha hq)
  vanishing hq hs := by
    rcases hv hq with ha | hv
    · exact .inl (h.admitted ha)
    · exact h.vanishing hv hs

/-- What has to come right after the first productions is the class, if the others admit it, or if
they derive nothing and it is what has to come after them. -/
structure Passes (l : Language) (stack : Stack) (next' next : AfterRepetition)
    (qs : List Production) : Prop where
  admitted : ∀ kind, l.grammar.Admits l.vocabulary qs kind → l.Suits stack next' kind
  vanishing : ∀ kind, l.grammar.Vanishes qs → l.Suits stack next kind → l.Suits stack next' kind

/-- A class that has to come after a repetition is what the rest calls for, or comes after it. -/
theorem suits_outlineSeq {rule : String} {tail : Lookahead} {rest : List Step}
    (hplain : Step.plainSeq rest = true) :
    l.Passes stack (l.first.walkSeq rule tail next (Step.outlineSeq rest)).next next
      (Step.outlineSeq rest) := by
  constructor
  · intro kind ha expected hends
    rcases next_walkSeq_outlineSeq hplain hends with ⟨rfl, -⟩ | ⟨idx, more, rfl⟩
    · obtain ⟨c, hc, -⟩ := ha
      exact absurd hc Grammar.not_starts_nil
    · have hsplit : l.grammar.Admits l.vocabulary
          ([.terminal expected idx] ++ Step.outlineSeq more) kind := ha
      rcases Grammar.Admits.append_iff.1 hsplit with ha | ⟨hv, -⟩
      · exact Grammar.admits_terminal_iff.1 ha
      · exact absurd hv Grammar.not_vanishes_terminal
  · intro kind hv hs expected hends
    rcases next_walkSeq_outlineSeq hplain hends with ⟨-, hends⟩ | ⟨idx, more, rfl⟩
    · exact hs expected hends
    · exact absurd (Grammar.Vanishes.cons_iff.1 hv).1 Grammar.not_vanishes_terminal

/-- A repetition skips no tokens if what has to come after it is there. -/
theorem not_suits_of_recoverInRepetition {key : DecisionKey} {branches : List Lookahead}
    {resumes : Bool} (hnext : l.table.afterRepetition? key = some next)
    (h : l.recoverInRepetition stack key branches s = some (s', resumes)) :
    ¬l.Suits stack next (s.nextKind l.vocabulary) := by
  intro hs
  obtain ⟨expected, idx, target, hend, -, hcan, -⟩ := recoverInRepetition_eq_some h
  rw [canEndRepetition, hs expected (ends_of_repetitionEnd? hnext hend)] at hcan
  cases hcan

/-- Steps are done one after the other. After those that wait, the others are where the first
began. -/
theorem Heeds.append {next' : AfterRepetition} {a : α} {r : Result β}
    (hps : l.Heeds stack next' ps s (.ok a s')) (hqp : l.Passes stack next' next qs)
    (hqs : l.Heeds stack next qs s' r) (hl : s'.Leads r.state) :
    l.Heeds stack next (ps ++ qs) s r := by
  constructor
  · intro ha
    rcases Grammar.Admits.append_iff.1 ha with ha | ⟨hv, ha⟩
    · exact (hps.admitted ha).leads hl
    · rcases hps.vanishing hv (hqp.admitted _ ha) with hp | hw
      · exact hp.leads hl
      · rw [← hw.nextKind_eq] at ha
        exact hw.prompt (hqs.admitted ha)
  · intro hv hs
    obtain ⟨hvp, hvq⟩ := Grammar.Vanishes.append_iff.1 hv
    rcases hps.vanishing hvp (hqp.vanishing _ hvq hs) with hp | hw
    · exact .inl (hp.leads hl)
    · rw [← hw.nextKind_eq] at hs
      exact (hqs.vanishing hvq hs).imp hw.prompt hw.trans

/-- An error of the first steps is the error of all. -/
theorem Heeds.error {next' : AfterRepetition} {e : ParseError}
    (h : l.Heeds stack next' ps s (.error e s' : Result α)) (hqp : l.Passes stack next' next qs) :
    l.Heeds stack next (ps ++ qs) s (.error e s' : Result α) := by
  constructor
  · intro ha
    rcases Grammar.Admits.append_iff.1 ha with ha | ⟨hv, ha⟩
    · exact h.admitted ha
    · exact (h.vanishing hv (hqp.admitted _ ha)).resolve_right id
  · intro hv hs
    obtain ⟨hvp, hvq⟩ := Grammar.Vanishes.append_iff.1 hv
    exact h.vanishing hvp (hqp.vanishing _ hvq hs)

/-- A token that is called for and admitted is consumed. -/
theorem heeds_consume {token : TokenId} {idx : Nat} (heof : token ≠ l.vocabulary.eof) :
    l.Heeds stack next [.terminal token idx] s (l.consume stack token idx s) where
  vanishing hv := absurd hv Grammar.not_vanishes_terminal
  admitted := by
    intro ha
    have ha := Grammar.admits_terminal_iff.1 ha
    obtain ⟨⟨past, _ | ⟨t, rest⟩⟩, history⟩ := s
    · exact absurd (Vocabulary.isA_eof_iff.1 ha) heof
    · rw [consume_eq_ok rfl ha]
      have hsuffix : .consumed past.length :: (([] : List Stack).map Event.entered ++ history) <:+
          .consumed past.length :: history := List.suffix_refl _
      exact .consumed hsuffix

/-- What a rule does is what its body does, since no repetition at the end of the body looks beyond
the rule, unless the rule is the start rule. -/
theorem Heeds.nonTerminal {name : String} {idx : Nat} {rule : Rule} {inner : Stack}
    {result : Result (List Tree)} (hrule : l.grammar.rule? name = some rule)
    (hbelow : inner.below ≠ [])
    (h : l.Heeds inner .endOfRule rule.body (s.note (.entered inner)) result) :
    l.Heeds stack next [.nonTerminal name idx] s (l.leave inner result) := by
  have hprompt : l.Prompt (s.note (.entered inner)).history s.position result →
      l.Prompt s.history s.position (l.leave inner result) := by
    intro hp
    have hcons : l.Prompt ([inner].map Event.entered ++ s.history) s.position result := hp
    exact hcons.of_entered.leave inner
  constructor
  · intro ha
    obtain ⟨rule', hrule', ha⟩ := Grammar.admits_nonTerminal_iff.1 ha
    cases hrule.symm.trans hrule'
    exact hprompt (h.admitted ha)
  · intro hv _
    obtain ⟨rule', hrule', hv⟩ := Grammar.vanishes_nonTerminal_iff.1 hv
    cases hrule.symm.trans hrule'
    have hsuits : l.Suits inner .endOfRule (s.nextKind l.vocabulary) := by
      intro expected hends
      cases hends with
      | endOfRule hempty => exact absurd hempty hbelow
    rcases h.vanishing hv hsuits with hp | hw
    · exact .inl (hprompt hp)
    · right
      cases result with
      | error e s' => exact hw.elim
      | ok parts s' =>
        obtain ⟨hcursor, calls, hhistory⟩ := hw
        refine ⟨hcursor, calls ++ [inner], ?_⟩
        rw [hhistory, List.map_append, List.append_assoc]
        rfl

end Heeds

/-- Every run of plain steps heeds the next token. -/
theorem Runs.heeds (ho : l.Outlined) (hp : l.Plain) (heof : l.grammar.Avoids l.vocabulary.eof)
    {room : Nat} {stack : Stack} {steps : List Step} {s : ParseState} {r : Result (List Tree)}
    (h : Runs l room stack steps s r) {tail : Lookahead} {next : AfterRepetition}
    (hsteps : l.Prepared stack.rule tail next steps) :
    l.Heeds stack next (Step.outlineSeq steps) s r := by
  induction h generalizing tail next with
  | nil => exact heeds_stay fun ⟨_, hc, _⟩ => Grammar.not_starts_nil hc
  | @cons room stack step rest s s' parts r _ htail ihhead ihtail =>
    obtain ⟨hstep, hrest⟩ := hsteps.cons
    have hhead := ihhead hstep
    rw [Step.outlineSeq_singleton] at hhead
    rw [Step.outlineSeq]
    exact (hhead.append (suits_outlineSeq hrest.plain) (ihtail hrest) htail.leads).map _
  | @fails room stack step rest s s' e _ ih =>
    obtain ⟨hstep, hrest⟩ := hsteps.cons
    have hhead := ih hstep
    rw [Step.outlineSeq_singleton] at hhead
    rw [Step.outlineSeq]
    exact hhead.error (suits_outlineSeq hrest.plain)
  | consume =>
    refine (heeds_consume ?_).map _
    rintro rfl
    exact heof.not_occurs (hsteps.occurs (List.mem_singleton.2 rfl))
  | undeclared h =>
    obtain ⟨r, hr⟩ := hsteps.subrule ho
    rw [h] at hr
    cases hr
  | @refused stack name idx r s h =>
    have hrefused : l.Prompt s.history s.position
        (.error (.fatal (.recursionLimit r.name l.config.maxDepth))
          (s.note (.refused r.name s.position)) : Result (List Tree)) := by
      have hhistory : (s.note (.refused r.name s.position)).history =
          .refused r.name s.position :: (([] : List Stack).map Event.entered ++ s.history) := rfl
      exact .refused hhistory
    exact ⟨fun _ => hrefused, fun _ _ => .inl hrefused⟩
  | @entered room stack name idx r s inner result h hinner hbody ih =>
    have hrule : inner.rule = name := by rw [hinner, Stack.rule_push, name_of_rule? h]
    have hbelow : inner.below ≠ [] := by
      rw [hinner]
      exact List.cons_ne_nil _ _
    have hr : l.grammar.rule? name = some r.outline := by rw [ho.rule?, h]; rfl
    exact ((ih (hrule ▸ ho.prepared hp h)).nonTerminal hr hbelow).map _
  | noOption h =>
    rw [(hsteps.option ho).1] at h
    cases h
  | leftOut h hpred => exact heeds_stay (hsteps.not_admits_option ho h hpred)
  | taken h hpred _ ih =>
    exact ((ih (hsteps.option ho).2).of_admits (hsteps.admits_taken ho h hpred)).map _
  | noMany h =>
    rw [(hsteps.many ho).1] at h
    cases h
  | stopped h hpred => exact heeds_stay (hsteps.not_admits_many ho h hpred)
  | skipped h hpred hr | resumed h hpred hr =>
    have hn := hsteps.not_admits_many ho h hpred
    have hsuits := not_suits_of_recoverInRepetition (hsteps.many ho).2 hr
    exact ⟨fun ha => absurd ha hn, fun _ hs => absurd hs hsuits⟩
  | round h hpred _ _ hagain ihbody _ =>
    have hround := (ihbody hsteps.round).admitted (hsteps.admits_round ho h hpred)
    have hprompt := hround.leads hagain.leads
    exact Heeds.map _ ⟨fun _ => hprompt, fun _ _ => .inl hprompt⟩
  | @stalled room stack idx steps s s' branches parts h hpred _ _ ih =>
    have hprompt := (ih hsteps.round).admitted (hsteps.admits_round ho h hpred)
    have hstalled : l.Prompt s.history s.position
        (.error (.fatal (.noProgress stack.rule idx)) s' : Result (List Tree)) :=
      hprompt.leads (.refl s')
    exact ⟨fun _ => hstalled, fun _ _ => .inl hstalled⟩
  | roundFails h hpred _ ih =>
    exact (ih hsteps.round).of_admits (hsteps.admits_round ho h hpred)
  | noChoice h =>
    rw [(hsteps.choose ho).1] at h
    cases h
  | unviable h hc =>
    rw [Step.outlineSeq_choose]
    obtain ⟨hn, hnv⟩ := hsteps.unviable ho h hc
    exact ⟨fun ha => absurd ha hn, fun hv => absurd hv hnv⟩
  | chosen h hc hi _ ih =>
    have hbody := ih ((hsteps.choose ho).2 _ (List.mem_of_getElem? hi))
    rw [Step.outlineSeq_choose]
    obtain ⟨hadmits, hcase⟩ := hsteps.chosen ho h hc hi
    exact (hbody.of_imp hadmits fun _ => hcase).map _
  | peek | errorCount | live | recorded | attempted | abandoned | fail =>
    exact absurd hsteps.plain (by simp [Step.plain])

/-! ## What follows an anchored event admits the token -/

/-- What comes of an event that got past an error at the position. Either the parse was prompt, or
only rules were entered since, and `tail` admits the token. -/
inductive Answered {α : Type} (l : Language) (tail : Lookahead) (history : List Event)
    (position : Nat) : Result α → Prop where
  | prompt {r : Result α} (h : l.Prompt history position r) : Answered l tail history position r
  | pending {a : α} {s : ParseState} {calls : List Stack}
      (hh : s.history = calls.map .entered ++ history) (hp : s.position = position)
      (ha : tail.set.admits l.vocabulary (s.nextKind l.vocabulary) = true) :
      Answered l tail history position (.ok a s)

/-- The anchored events between the state and the result are answered. -/
def Answers {α : Type} (l : Language) (tokens : List Token) (tail : Lookahead) (s : ParseState)
    (r : Result α) : Prop :=
  ∀ e before position, l.Anchored tokens e position → e :: before <:+ r.state.history →
    ¬e :: before <:+ s.history → l.Answered tail (e :: before) position r

section Answers

variable {α β : Type} {tokens : List Token} {tail tail' : Lookahead} {history : List Event}
  {position : Nat} {stack : Stack} {next : AfterRepetition} {ps : List Production}
  {s s' : ParseState} {r : Result α} {x : Event}

theorem Answered.map (f : α → β) (h : l.Answered tail history position r) :
    l.Answered tail history position (r.map f) := by
  cases h with
  | prompt h => exact .prompt (h.map f)
  | pending hh hp ha => exact .pending hh hp ha

theorem Answers.map (f : α → β) (h : l.Answers tokens tail s r) :
    l.Answers tokens tail s (r.map f) := by
  intro e before position ha hsuffix hnew
  rw [Result.state_map] at hsuffix
  exact (h e before position ha hsuffix hnew).map f

/-- Right after the event nothing has happened yet. -/
theorem answered_self {a : α} {site : CallSite} (s : ParseState)
    (hlist : s.cursor.toList = tokens) (hh : s.history = history)
    (hf : l.table.follow? site = some tail) (ha : l.admitsAfter tokens site s.position = true) :
    l.Answered tail history s.position (.ok a s : Result α) := by
  have hentered : s.history = ([] : List Stack).map Event.entered ++ history := hh
  rw [admitsAfter, hf, Option.any_some, ParseState.nextKind_of_toList hlist] at ha
  exact .pending hentered rfl ha

/-- At the end of a rule nothing is left that could admit the token. -/
theorem Answered.prompt_of_empty (h : l.Answered .empty history position r) :
    l.Prompt history position r := by
  cases h with
  | prompt h => exact h
  | pending _ _ ha =>
    obtain ⟨c, hc, -⟩ := TokenSet.admits_iff.1 ha
    exact absurd hc TokenSet.not_mem_empty

/-- The steps that come next answer what the steps before them could not. -/
theorem Answered.heeded {a : α} {r : Result β} (h : l.Answered tail' history position (.ok a s'))
    (hr : l.Heeds stack next ps s' r) (hl : s'.Leads r.state)
    (ht : Lookahead.Extends l.grammar ps tail tail') (hn : tail.Heralds next) :
    l.Answered tail history position r := by
  cases h with
  | prompt h => exact .prompt (h.leads hl)
  | @pending _ _ calls hh hp ha =>
    have hprompt : l.Prompt s'.history s'.position r → l.Prompt history position r := by
      intro h
      rw [hh, hp] at h
      exact h.of_entered
    obtain ⟨c, hc, hkind⟩ := TokenSet.admits_iff.1 ha
    rcases (ht.set c).1 hc with hstarts | ⟨hv, hc⟩
    · exact .prompt (hprompt (hr.admitted ⟨c, hstarts, hkind⟩))
    · have htail : tail.set.admits l.vocabulary (s'.nextKind l.vocabulary) = true :=
        TokenSet.admits_iff.2 ⟨c, hc, hkind⟩
      rcases hr.vanishing hv (suits_of_heralds hn htail) with h | hw
      · exact .prompt (hprompt h)
      · cases r with
        | error e s'' => exact hw.elim
        | ok b s'' =>
          rw [← hw.nextKind_eq] at htail
          obtain ⟨hcursor, calls', hhistory⟩ := hw
          have hentered : s''.history = (calls' ++ calls).map .entered ++ history := by
            rw [hhistory, hh, List.map_append, List.append_assoc]
          have hposition : s''.position = position := by
            rw [← hp, ParseState.position, hcursor]
            rfl
          exact .pending hentered hposition htail

/-- What happens after a result and what happened before it. -/
theorem Answers.append {a : α} {r : Result β} (h : l.Answers tokens tail' s (.ok a s'))
    (h' : l.Answers tokens tail s' r) (hr : l.Heeds stack next ps s' r) (hl : s'.Leads r.state)
    (ht : Lookahead.Extends l.grammar ps tail tail') (hn : tail.Heralds next) :
    l.Answers tokens tail s r := by
  intro e before position ha hsuffix hnew
  by_cases hmid : e :: before <:+ s'.history
  · exact (h e before position ha hmid hnew).heeded hr hl ht hn
  · exact h' e before position ha hsuffix hmid

/-- An error leaves nothing to what comes next. -/
theorem Answers.error {e : ParseError} (h : l.Answers tokens tail' s (.error e s' : Result α)) :
    l.Answers tokens tail s (.error e s' : Result α) := by
  intro x before position ha hsuffix hnew
  cases h x before position ha hsuffix hnew with
  | prompt hp => exact .prompt hp

theorem answers_of_history_eq (h : r.state.history = s.history) : l.Answers tokens tail s r := by
  intro e before position _ hsuffix hnew
  rw [h] at hsuffix
  exact absurd hsuffix hnew

/-- One more event happened, and it is answered if it is anchored. -/
theorem answers_of_history_cons (h : r.state.history = x :: s.history)
    (hx : ∀ position, l.Anchored tokens x position →
      l.Answered tail (x :: s.history) position r) : l.Answers tokens tail s r := by
  intro e before position ha hsuffix hnew
  rw [h, List.suffix_cons_iff] at hsuffix
  rcases hsuffix with heq | hsuffix
  · obtain ⟨rfl, rfl⟩ := List.cons.inj heq
    exact hx position ha
  · exact absurd hsuffix hnew

/-- An event that is not anchored does not need an answer. -/
theorem Answers.of_history_cons (h : l.Answers tokens tail s' r)
    (hs : s'.history = x :: s.history) (hx : ∀ position, ¬l.Anchored tokens x position) :
    l.Answers tokens tail s r := by
  intro e before position ha hsuffix hnew
  refine h e before position ha hsuffix fun hs' => ?_
  rw [hs, List.suffix_cons_iff] at hs'
  rcases hs' with heq | hs'
  · obtain ⟨rfl, rfl⟩ := List.cons.inj heq
    exact hx position ha
  · exact hnew hs'

/-- What follows the token that was made up is what follows the call for it. -/
theorem answers_consume {expected : TokenId} {idx : Nat} (hlist : s.cursor.toList = tokens)
    (hf : l.table.follow? ⟨stack.rule, .token expected, idx⟩ = some tail) :
    l.Answers tokens tail s (l.consume stack expected idx s) := by
  have hc := consumption l stack expected idx s
  generalize l.consume stack expected idx s = r at hc ⊢
  cases hc with
  | matched | deleted | raised => exact answers_of_history_cons rfl (by rintro _ ⟨⟩)
  | inserted =>
    refine answers_of_history_cons rfl fun position ha => ?_
    cases ha with
    | inserted ha => exact answered_self (s.note _) hlist rfl hf ha

/-- What follows a rule that was given up is what follows the call for it. -/
theorem answers_resync {inner : Stack} {site : CallSite} {error : SyntaxError}
    (hlist : s.cursor.toList = tokens) (hsite : inner.top.site = some site)
    (hf : l.table.follow? site = some tail) :
    l.Answers tokens tail s (l.resync inner error s) := by
  rcases resync_cases l inner error s with hr | ⟨target, kind, rfl, -, -, -, hr⟩
  · rw [hr]
    exact answers_of_history_eq rfl
  · have hlist' : (l.resyncPoint inner s.cursor).toList = tokens :=
      (Cursor.toList_seek _ _).trans hlist
    rw [hr]
    refine answers_of_history_cons rfl fun position ha => ?_
    cases ha with
    | resumed hsite' ha =>
      obtain rfl := Option.some.inj (hsite.symm.trans hsite')
      exact answered_self ⟨l.resyncPoint inner s.cursor, _⟩ hlist' rfl hf ha

theorem Answers.leave {inner : Stack} {site : CallSite} {result : Result (List Tree)}
    (h : l.Answers tokens .empty s result) (hlist : result.state.cursor.toList = tokens)
    (hsite : inner.top.site = some site) (hf : l.table.follow? site = some tail) :
    l.Answers tokens tail s (l.leave inner result) := by
  intro e before position ha hsuffix hnew
  by_cases hmid : e :: before <:+ result.state.history
  · exact .prompt ((h e before position ha hmid hnew).prompt_of_empty.leave inner)
  · match result with
    | .ok parts s' => exact absurd hsuffix hmid
    | .error (.fatal error) s' => exact absurd hsuffix hmid
    | .error (.syntaxError error) s' =>
      simp only [Language.leave] at hsuffix ⊢
      split at hsuffix
      · exact absurd hsuffix hmid
      · rename_i hbelow
        rw [if_neg hbelow]
        exact answers_resync hlist hsite hf e before position ha hsuffix hmid

end Answers

/-- Every run of plain steps answers its anchored events. -/
theorem Runs.answers (ho : l.Outlined) (hp : l.Plain) (heof : l.grammar.Avoids l.vocabulary.eof)
    {room : Nat} {stack : Stack} {steps : List Step} {s : ParseState} {r : Result (List Tree)}
    (h : Runs l room stack steps s r) {tail : Lookahead} {next : AfterRepetition}
    (hsteps : l.Prepared stack.rule tail next steps) (hn : tail.Heralds next)
    {tokens : List Token} (hlist : s.cursor.toList = tokens) : l.Answers tokens tail s r := by
  obtain ⟨-, -, -, hleft, -, -⟩ := checked_eq_ok ho.checked
  induction h generalizing tail next with
  | nil => exact answers_of_history_eq rfl
  | @cons room stack step rest s s' parts r hhead htail ihhead ihtail =>
    obtain ⟨hstep, hrest⟩ := hsteps.cons
    have hlist' : s'.cursor.toList = tokens := hhead.leads.cursor.toList_eq.trans hlist
    have hextends := Grammar.extends_walkSeq hleft stack.rule tail next (Step.outlineSeq rest)
    have hanswers := ihhead hstep (Grammar.heralds_walkSeq hn _) hlist
    have hmore := ihtail hrest hn hlist'
    exact (hanswers.append hmore (htail.heeds ho hp heof hrest) htail.leads hextends hn).map _
  | fails _ ih => exact (ih hsteps.cons.1 (Grammar.heralds_walkSeq hn _) hlist).error
  | consume => exact (answers_consume hlist hsteps.follow_consume).map _
  | undeclared => exact answers_of_history_eq rfl
  | refused => exact answers_of_history_cons rfl (by rintro _ ⟨⟩)
  | @entered room stack name idx r s inner result h hinner hbody ih =>
    have hrule : inner.rule = name := by rw [hinner, Stack.rule_push, name_of_rule? h]
    have hsite : inner.top.site = some ⟨stack.rule, .rule name, idx⟩ := by
      rw [hinner]
      rfl
    have hlist' : result.state.cursor.toList = tokens :=
      hbody.leads.cursor.toList_eq.trans hlist
    have hend : Lookahead.empty.Heralds .endOfRule := rfl
    have hanswers := ih (hrule ▸ ho.prepared hp h) hend hlist
    have hleave := hanswers.leave hlist' hsite hsteps.follow_subrule
    exact (hleave.of_history_cons rfl (by rintro _ ⟨⟩)).map _
  | noOption | leftOut | noMany | stopped | noChoice => exact answers_of_history_eq rfl
  | taken _ _ _ ih => exact (ih (hsteps.option ho).2 hn hlist).map _
  | skipped _ _ hr =>
    obtain ⟨expected, idx, target, -, -, -, -, rfl, -⟩ := recoverInRepetition_eq_some hr
    exact answers_of_history_cons rfl (by rintro _ ⟨⟩)
  | resumed _ _ hr hagain ih =>
    have hlist' := (leads_recoverInRepetition hr).cursor.toList_eq.trans hlist
    obtain ⟨expected, idx, target, -, -, -, -, rfl, -⟩ := recoverInRepetition_eq_some hr
    exact (ih hsteps hn hlist').of_history_cons rfl (by rintro _ ⟨⟩)
  | @round room stack idx steps s s' branches parts r _ _ hbody _ hagain ihbody ihagain =>
    have hlist' : s'.cursor.toList = tokens := hbody.leads.cursor.toList_eq.trans hlist
    have hextends := Grammar.extends_many hleft idx (Step.outlineSeq steps) tail
    have hanswers := ihbody hsteps.round trivial hlist
    have hheeds := hagain.heeds ho hp heof hsteps
    rw [Step.outlineSeq_singleton, Step.outline] at hheeds
    have hmore := ihagain hsteps hn hlist'
    exact (hanswers.append hmore hheeds hagain.leads hextends hn).map _
  | stalled h hpred hbody stall =>
    -- a round is predicted, so it passes a token
    have hadvances := hbody.advances ho hp heof hsteps.round
    have hpassed := hadvances.admitted (hsteps.admits_round ho h hpred)
    exact absurd (hpassed.resolve_left not_limited_ok) stall
  | roundFails _ _ _ ih => exact (ih hsteps.round trivial hlist).error
  | unviable => exact answers_of_history_cons rfl (by rintro _ ⟨⟩)
  | chosen h _ hi _ ih =>
    obtain ⟨-, hprep⟩ := hsteps.choose ho
    exact (ih (hprep _ (List.mem_of_getElem? hi)) hn hlist).map _
  | peek | errorCount | live | recorded | attempted | abandoned | fail =>
    exact absurd hsteps.plain (by simp [Step.plain])

/-! ## Whole parses -/

/-- The events after the one that got past an error, in order. -/
theorem Prompt.exists_calls {r : Result Tree} {before after : List Event} {e : Event}
    {position : Nat} (h : l.Prompt (e :: before.reverse) position r) (hr : r.state.events = before ++ e :: after) :
    ∃ calls : List Stack,
      (∃ more, after = calls.map .entered ++ .consumed position :: more) ∨
      ∃ rule s, after = calls.map .entered ++ [.refused rule position] ∧
        r = .error (.fatal (.recursionLimit rule l.config.maxDepth)) s := by
  cases h with
  | @consumed calls _ h =>
    obtain ⟨more, hmore⟩ := h
    rw [ParseState.events, ← hmore] at hr
    refine ⟨calls.reverse, .inl ⟨more.reverse, ?_⟩⟩
    simpa using hr.symm
  | @refused calls rule s h =>
    rw [Result.state_error, ParseState.events, h] at hr
    refine ⟨calls.reverse, .inr ⟨rule, s, ?_, rfl⟩⟩
    simpa using hr.symm

/-- After a parse of a plain language that calls nowhere for the end of the input has made up a
token before one that can follow it inside the rule, or given up a rule before a token that can
follow its call, rules are entered and nothing else happens until that token is consumed, unless the
parse ends there because rules are nested too deep. -/
theorem consumed_of_anchored {d : Draft} {l : Language} (hb : d.build = .ok l) (hp : d.Plain)
    (heof : l.grammar.Avoids l.vocabulary.eof) {start : String} {tokens : List Token}
    {before after : List Event} {e : Event} {position : Nat}
    (he : (l.run start tokens).events = before ++ e :: after)
    (ha : l.Anchored tokens e position) :
    ∃ calls : List Stack,
      (∃ more, after = calls.map .entered ++ .consumed position :: more) ∨
      ∃ rule, after = calls.map .entered ++ [.refused rule position] ∧
        (l.parse start tokens).fatal = some (.recursionLimit rule l.config.maxDepth) := by
  obtain ⟨rfl, ho⟩ := outlined_of_build hb hp
  have hne : (l.run start tokens).events ≠ [] := by simp [he]
  obtain ⟨r, hr⟩ : ∃ r, l.rule? start = some r := by
    cases hr : l.rule? start with
    | none => exact absurd (events_undeclared hr) hne
    | some r => exact ⟨r, rfl⟩
  cases hd : l.config.maxDepth with
  | zero =>
    rw [events_refused hr hd] at he
    rcases List.append_eq_singleton_iff.1 he.symm with ⟨-, heq⟩ | ⟨-, heq⟩
    · cases heq
      cases ha
    · cases heq
  | succ room =>
    obtain ⟨result, hrun⟩ := exists_run l room (startStack r) r.body (startState r tokens)
    have hname : (startStack r).rule = start := name_of_rule? hr
    have hlist : (startState r tokens).cursor.toList = tokens := Cursor.toList_ofList tokens
    have hend : Lookahead.empty.Heralds .endOfRule := rfl
    have hanswers := hrun.answers ho hp heof (hname ▸ ho.prepared hp hr) hend hlist
    have hevents : result.state.events = before ++ e :: after := by
      rw [← he, run_entered hr hd hrun]
    have hsuffix : e :: before.reverse <:+ result.state.history := by
      refine ⟨after.reverse, ?_⟩
      rw [← List.reverse_inj, ← ParseState.events, hevents]
      simp
    have hnew : ¬e :: before.reverse <:+ (ParseState.start tokens).history := by
      rintro ⟨t, ht⟩
      cases t <;> cases ht
    have hanswered := hanswers.of_history_cons rfl (by rintro _ ⟨⟩) _ _ _ ha hsuffix hnew
    obtain ⟨calls, ⟨more, hafter⟩ | ⟨rule, s, hafter, hresult⟩⟩ :=
      (hanswered.prompt_of_empty.map (.node r.name)).exists_calls (by rw [Result.state_map, hevents])
    · exact ⟨calls, .inl ⟨more, hafter⟩⟩
    · refine ⟨calls, .inr ⟨rule, hafter, ?_⟩⟩
      rw [parse_entered hr hd hrun, hresult, hd]
      rfl

/-- A colon that is missing in an object is made up, and then the value after it is read. -/
theorem consumed_of_anchored_json :
    Json.draft.build = .ok Json.language ∧ Json.draft.Plain ∧
    Json.language.grammar.Avoids Json.language.vocabulary.eof ∧
    ∃ before e after,
      (Json.language.run "value" (Json.vocabulary.tokenize "\x7b\"a\" 1\x7d").1).events =
        before ++ e :: after ∧
      Json.language.Anchored (Json.vocabulary.tokenize "\x7b\"a\" 1\x7d").1 e 2 ∧
      ∃ calls : List Stack,
        (∃ more, after = calls.map .entered ++ .consumed 2 :: more) ∨
        ∃ rule, after = calls.map .entered ++ [.refused rule 2] ∧
          (Json.language.parse "value" (Json.vocabulary.tokenize "\x7b\"a\" 1\x7d").1).fatal =
            some (.recursionLimit rule Json.language.config.maxDepth) := by
  have heof : Json.language.grammar.Avoids Json.language.vocabulary.eof := by decide +kernel
  have hmem : .inserted ⟨.mismatchedToken "Colon" "'1'", "objectItem", 5, 6, .inserted⟩ 8 1 2 ∈
      (Json.language.run "value" (Json.vocabulary.tokenize "\x7b\"a\" 1\x7d").1).events := by
    decide +kernel
  have hadmits : Json.language.admitsAfter (Json.vocabulary.tokenize "\x7b\"a\" 1\x7d").1
      ⟨"objectItem", .token 8, 1⟩ 2 = true := by decide +kernel
  obtain ⟨before, after, he⟩ := List.append_of_mem hmem
  have ha : Json.language.Anchored (Json.vocabulary.tokenize "\x7b\"a\" 1\x7d").1
      (.inserted ⟨.mismatchedToken "Colon" "'1'", "objectItem", 5, 6, .inserted⟩ 8 1 2) 2 :=
    .inserted hadmits
  exact ⟨Json.build_draft, Json.plain_draft, heof, before, _, after, he, ha,
    consumed_of_anchored Json.build_draft Json.plain_draft heof he ha⟩

end Language

end TopDown
