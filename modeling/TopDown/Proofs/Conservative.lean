import TopDown.Proofs.Prediction
import TopDown.Proofs.Samples

/-!
# Recovery is conservative

A parse with recovery is compared with the parse of the same tokens without. Both do the same until
the first syntax error, and the first error is the same. Skipping after a repetition is the one way
past an error that acts before the error is raised: there the parse without recovery goes on, and
fails when it calls for what ends the repetition. `Language.Agrees` has a case for each of this.
-/

namespace TopDown

/-- The same error, up to what was done about it. -/
def SyntaxError.SameAs (e e' : SyntaxError) : Prop :=
  e.kind = e'.kind ∧ e.rule = e'.rule ∧ e.start = e'.start ∧ e.stop = e'.stop

/-- The draft with recovery turned on or off. -/
def Draft.withRecovery (d : Draft) (recovery : Bool) : Draft :=
  { d with config := { d.config with recovery := recovery } }

/-- The language with recovery turned on or off. -/
def Language.withRecovery (l : Language) (recovery : Bool) : Language :=
  { l with config := { l.config with recovery := recovery } }

/-- Building does not depend on the configuration. -/
theorem Draft.build_withRecovery {d : Draft} {l : Language} (h : d.build = .ok l)
    (recovery : Bool) : (d.withRecovery recovery).build = .ok (l.withRecovery recovery) := by
  rw [Draft.build] at h
  split at h
  · cases h
  · rename_i grammar hg
    split at h
    · cases h
    · rename_i table ht
      cases h
      have hrecord : (d.withRecovery recovery).record = .ok grammar := hg
      rw [Draft.build, hrecord]
      simp only [ht]
      rfl

/-- The first syntax error that the parse reports, if it reports one. -/
def ParseOutput.firstError? {α : Type} (o : ParseOutput α) : Option SyntaxError :=
  match o.errors, o.fatal with
  | e :: _, _ => some e
  | [], some (.unrecoverable e) => some e
  | [], _ => none

/-- The first syntax error that was got past is the given one. -/
def Result.Reports {α : Type} (r : Result α) (e : SyntaxError) : Prop :=
  ∃ e', r.state.errors.head? = some e' ∧ e'.SameAs e

namespace Result

variable {α β : Type} {r : Result α} {e : SyntaxError}

theorem Reports.leads {r' : Result β} (h : r.Reports e) (hl : r.state.Leads r'.state) :
    r'.Reports e := by
  obtain ⟨e', he, hsame⟩ := h
  exact ⟨e', hl.head?_errors he, hsame⟩

theorem Reports.map (f : α → β) (h : r.Reports e) : (r.map f).Reports e := by
  rw [Reports, state_map]
  exact h

end Result

namespace Language

variable {l : Language} {room : Nat} {stack : Stack} {s s' : ParseState}

/-! ## Comparing two results -/

/-- What steps come to without recovery, and with it. The steps are followed by `next`. -/
inductive Agrees (l : Language) (stack : Stack) (next : AfterRepetition) :
    Result (List Tree) → Result (List Tree) → Prop where
  /-- There was no error, or nothing could be done about it. -/
  | same {r : Result (List Tree)} : Agrees l stack next r r
  /-- The error was got past. -/
  | diverged {e : SyntaxError} {s' : ParseState} {r' : Result (List Tree)} (h : r'.Reports e) :
      Agrees l stack next (.error (.syntaxError e) s') r'
  /-- Tokens were skipped after a repetition, and what has to come after it is not there. -/
  | pending {parts : List Tree} {s' : ParseState} {r' : Result (List Tree)} {expected : TokenId}
      (hend : l.Ends stack next expected)
      (hm : l.vocabulary.isA (s'.nextKind l.vocabulary) expected = false)
      (h : r'.Reports (l.mismatch stack expected s')) :
      Agrees l stack next (.ok parts s') r'

theorem Agrees.map {next : AfterRepetition} {r r' : Result (List Tree)}
    (f : List Tree → List Tree) (h : l.Agrees stack next r r') :
    l.Agrees stack next (r.map f) (r'.map f) := by
  cases h with
  | same => exact .same
  | diverged h => exact .diverged (h.map f)
  | pending hend hm h => exact .pending hend hm (h.map f)

/-! ## Runs go on after an error -/

theorem Runs.exists_cons {step : Step} (rest : List Step) {r : Result (List Tree)}
    (h : Runs l room stack [step] s r) :
    ∃ r', Runs l room stack (step :: rest) s r' ∧ r.state.Leads r'.state := by
  cases r with
  | error e s' => exact ⟨_, .fails h, .refl _⟩
  | ok parts s' =>
    obtain ⟨r', htail⟩ := exists_run l room stack rest s'
    refine ⟨_, .cons h htail, ?_⟩
    rw [Result.state_map]
    exact htail.leads

theorem Runs.exists_round {idx : Nat} {steps : List Step} {branches : List Lookahead}
    {r : Result (List Tree)} (hb : l.branches stack .many idx = .ok branches)
    (hp : l.predicts branches s = true) (h : Runs l room stack steps s r) :
    ∃ r', Runs l room stack [.many idx steps] s r' ∧ r.state.Leads r'.state := by
  cases r with
  | error e s' => exact ⟨_, .roundFails hb hp h, .refl _⟩
  | ok parts s' =>
    by_cases progress : s'.cursor.rest.length < s.cursor.rest.length
    · obtain ⟨r', hagain⟩ := exists_run l room stack [.many idx steps] s'
      refine ⟨_, .round hb hp h progress hagain, ?_⟩
      rw [Result.state_map]
      exact hagain.leads
    · exact ⟨_, .stalled hb hp h progress, .refl _⟩

/-! ## The primitives with and without recovery -/

/-- The first error is the only one so far. -/
theorem reports_of_errors_eq_nil {α : Type} {c : Cursor Token} {event : Event} {a : α}
    {e e' : SyntaxError} (hs : s.errors = []) (he : event.recovered? = some e')
    (hsame : e'.SameAs e) : Result.Reports (.ok a ⟨c, event :: s.history⟩ : Result α) e := by
  refine ⟨e', ?_, hsame⟩
  rw [Result.state_ok, ParseState.errors_cons he, ParseState.errors_cursor, hs]
  rfl

/-- Without recovery a call for a token that is not there fails. -/
theorem consume_eq_raise (hoff : l.config.recovery = false) {expected : TokenId} {idx : Nat}
    (hm : ∀ t, s.cursor.next? = some t → l.vocabulary.isA t.kind expected = false) :
    l.consume stack expected idx s = raise stack (l.mismatch stack expected s) s := by
  have hc := consumption l stack expected idx s
  generalize l.consume stack expected idx s = r at hc ⊢
  cases hc with
  | matched hcursor ha =>
    have hfalse := hm _ (by rw [hcursor]; rfl)
    rw [ha] at hfalse
    cases hfalse
  | deleted hr | inserted hr =>
    rw [hoff] at hr
    cases hr
  | raised => rfl

/-- A call for a token does the same with recovery, or it gets past the error that it fails with
without. -/
theorem consume_withRecovery (hoff : l.config.recovery = false) (hs : s.errors = [])
    (stack : Stack) (expected : TokenId) (idx : Nat) :
    (l.withRecovery true).consume stack expected idx s = l.consume stack expected idx s ∨
      l.consume stack expected idx s = raise stack (l.mismatch stack expected s) s ∧
      Result.Reports ((l.withRecovery true).consume stack expected idx s)
        (l.mismatch stack expected s) := by
  have hc := consumption (l.withRecovery true) stack expected idx s
  generalize (l.withRecovery true).consume stack expected idx s = r at hc ⊢
  cases hc with
  | matched hcursor ha => exact .inl (consume_eq_ok (l := l) hcursor ha).symm
  | deleted _ hcursor hm ha =>
    refine .inr ⟨consume_eq_raise hoff ?_, reports_of_errors_eq_nil hs rfl ⟨rfl, rfl, rfl, rfl⟩⟩
    intro t ht
    rw [hcursor] at ht
    obtain rfl := Option.some.inj ht
    exact hm
  | inserted _ hm =>
    exact .inr ⟨consume_eq_raise hoff hm, reports_of_errors_eq_nil hs rfl ⟨rfl, rfl, rfl, rfl⟩⟩
  | raised hm => exact .inl (consume_eq_raise hoff hm).symm

/-- Without recovery a rule passes every error on. -/
theorem leave_error (hoff : l.config.recovery = false) (e : SyntaxError) :
    l.leave stack (.error (.syntaxError e) s) = .error (.syntaxError e) s := by
  simp [leave, resync, hoff]

/-- A rule is left the same way with recovery, or it is given up after the error that it passes on
without. -/
theorem leave_withRecovery (hoff : l.config.recovery = false) (stack : Stack)
    {r : Result (List Tree)} (hs : r.state.errors = []) :
    (l.withRecovery true).leave stack r = l.leave stack r ∨
      ∃ e s', r = .error (.syntaxError e) s' ∧
        Result.Reports ((l.withRecovery true).leave stack r) e := by
  match r with
  | .ok parts s' => exact .inl rfl
  | .error (.fatal e) s' => exact .inl rfl
  | .error (.syntaxError e) s' =>
    rw [leave_error hoff]
    simp only [leave]
    split
    · exact .inl rfl
    · obtain hr | ⟨target, kind, -, -, -, -, hr⟩ := resync_cases (l.withRecovery true) stack e s'
      · exact .inl hr
      · refine .inr ⟨e, s', rfl, ?_⟩
        rw [hr]
        exact reports_of_errors_eq_nil hs rfl ⟨rfl, rfl, rfl, rfl⟩

/-- Without recovery nothing is skipped after a repetition. -/
theorem recoverInRepetition_eq_none (hoff : l.config.recovery = false) {key : DecisionKey}
    {branches : List Lookahead} : l.recoverInRepetition stack key branches s = none := by
  cases h : l.recoverInRepetition stack key branches s with
  | none => rfl
  | some target =>
    obtain ⟨_, _, _, _, hon, _⟩ := recoverInRepetition_eq_some h
    rw [hoff] at hon
    cases hon

/-- Tokens are skipped after a repetition only if what has to come after it is not there. -/
theorem recoverInRepetition_withRecovery (hs : s.errors = []) {key : DecisionKey}
    {next : AfterRepetition} {branches : List Lookahead} {resumes : Bool}
    (hnext : l.table.afterRepetition? key = some next)
    (h : (l.withRecovery true).recoverInRepetition stack key branches s = some (s', resumes)) :
    ∃ expected, l.Ends stack next expected ∧
      l.vocabulary.isA (s.nextKind l.vocabulary) expected = false ∧
      Result.Reports (.ok () s') (l.mismatch stack expected s) := by
  obtain ⟨expected, idx, target, hend, -, hcan, -, rfl, -⟩ := recoverInRepetition_eq_some h
  refine ⟨expected, ends_of_repetitionEnd? hnext hend, ?_, ?_⟩
  · rw [canEndRepetition, Bool.or_eq_false_iff] at hcan
    exact hcan.1
  · exact reports_of_errors_eq_nil hs rfl ⟨rfl, rfl, rfl, rfl⟩

/-! ## Runs with and without recovery -/

theorem errors_consume (hoff : l.config.recovery = false) (expected : TokenId) (idx : Nat) :
    (Result.state (l.consume stack expected idx s)).errors = s.errors := by
  have hc := consumption l stack expected idx s
  generalize l.consume stack expected idx s = r at hc ⊢
  cases hc with
  | matched => exact ParseState.errors_note (s := s) (e := .consumed s.position) rfl
  | deleted hr | inserted hr =>
    rw [hoff] at hr
    cases hr
  | raised => exact ParseState.errors_note rfl

theorem state_leave (hoff : l.config.recovery = false) (r : Result (List Tree)) :
    Result.state (l.leave stack r) = r.state := by
  match r with
  | .ok parts s' => rfl
  | .error (.fatal e) s' => rfl
  | .error (.syntaxError e) s' =>
    simp only [leave, resync, hoff]
    split <;> rfl

/-- Without recovery no error is got past. -/
theorem Runs.errors_eq (hoff : l.config.recovery = false) {steps : List Step}
    {r : Result (List Tree)} (h : Runs l room stack steps s r) : r.state.errors = s.errors := by
  induction h with
  | nil | undeclared | noOption | leftOut | noMany | stopped | noChoice | peek | errorCount
  | recorded | fail => rfl
  | cons _ _ ihhead ihtail =>
    rw [Result.state_map, ihtail]
    exact ihhead
  | fails _ ih | stalled _ _ _ _ ih | roundFails _ _ _ ih | live _ ih | attempted _ ih
  | abandoned _ ih => exact ih
  | consume =>
    rw [Result.state_map]
    exact errors_consume hoff ..
  | refused | unviable => exact ParseState.errors_note rfl
  | entered _ _ _ ih =>
    rw [Result.state_map, state_leave hoff, ih]
    exact ParseState.errors_note rfl
  | taken _ _ _ ih | chosen _ _ _ _ ih =>
    rw [Result.state_map]
    exact ih
  | skipped _ _ hr | resumed _ _ hr =>
    rw [recoverInRepetition_eq_none hoff] at hr
    cases hr
  | round _ _ _ _ _ ihbody ihagain =>
    rw [Result.state_map, ihagain]
    exact ihbody

/-- Without recovery steps fail if the first calls for a token that is not there. -/
theorem Runs.eq_raise (hoff : l.config.recovery = false) {expected : TokenId} {idx : Nat}
    {rest : List Step} {r : Result (List Tree)}
    (h : Runs l room stack (.consume expected idx :: rest) s r)
    (hm : l.vocabulary.isA (s.nextKind l.vocabulary) expected = false) :
    r = raise stack (l.mismatch stack expected s) s := by
  have hconsume : Runs l room stack [.consume expected idx] s
      (Result.map (fun t => [.token t]) (l.consume stack expected idx s)) := .consume
  have hthere : ∀ t, s.cursor.next? = some t → l.vocabulary.isA t.kind expected = false := by
    intro t ht
    rw [ParseState.nextKind, ht] at hm
    exact hm
  rw [consume_eq_raise hoff hthere] at hconsume
  exact h.eq.symm.trans (Runs.fails hconsume).eq

/-- With recovery steps come to what they come to without it, or an error was got past that is the
first. -/
theorem Runs.agrees (ho : l.Outlined) (hp : l.Plain) (hoff : l.config.recovery = false)
    {steps : List Step} {r : Result (List Tree)} (h : Runs l room stack steps s r)
    {tail : Lookahead} {next : AfterRepetition} (hsteps : l.Prepared stack.rule tail next steps)
    (hs : s.errors = []) :
    ∃ r', Runs (l.withRecovery true) room stack steps s r' ∧ l.Agrees stack next r r' := by
  -- nothing was got past so far, so both runs are in the same state
  induction h generalizing tail next with
  | nil => exact ⟨_, .nil, .same⟩
  | @cons room stack step rest s s' parts r hhead htail ihhead ihtail =>
    obtain ⟨hstep, hrest⟩ := hsteps.cons
    have hs' : s'.errors = [] := by rw [← hs, ← hhead.errors_eq hoff, Result.state_ok]
    obtain ⟨r₁, hr₁, hagree⟩ := ihhead hstep hs
    cases hagree with
    | same =>
      obtain ⟨r₂, hr₂, hagree⟩ := ihtail hrest hs'
      exact ⟨_, .cons hr₁ hr₂, hagree.map _⟩
    | pending hend hm hreports =>
      obtain ⟨r', hr', hleads⟩ := hr₁.exists_cons rest
      refine ⟨r', hr', ?_⟩
      rcases next_walkSeq_outlineSeq hrest.plain hend with ⟨rfl, hend⟩ | ⟨idx, rest', rfl⟩
      · obtain rfl := htail.eq.symm.trans Runs.nil.eq
        exact .pending hend hm (hreports.leads hleads)
      · rw [htail.eq_raise hoff hm]
        exact .diverged (hreports.leads hleads)
  | @fails room stack step rest s s' e hhead ih =>
    obtain ⟨r₁, hr₁, hagree⟩ := ih hsteps.cons.1 hs
    cases hagree with
    | same => exact ⟨_, .fails hr₁, .same⟩
    | diverged hreports =>
      obtain ⟨r', hr', hleads⟩ := hr₁.exists_cons rest
      exact ⟨r', hr', .diverged (hreports.leads hleads)⟩
  | @consume room stack expected idx s =>
    refine ⟨_, .consume, ?_⟩
    rcases consume_withRecovery hoff hs stack expected idx with h | ⟨h, hreports⟩
    · rw [h]
      exact .same
    · rw [h]
      exact .diverged (hreports.map _)
  | undeclared h => exact ⟨_, .undeclared h, .same⟩
  | refused h => exact ⟨_, .refused h, .same⟩
  | @entered room stack name idx r s inner result h hinner hbody ih =>
    have hrule : inner.rule = name := by rw [hinner, Stack.rule_push, name_of_rule? h]
    have hs' : (s.note (.entered inner)).errors = [] := by rw [ParseState.errors_note rfl, hs]
    have hresult : result.state.errors = [] := by rw [hbody.errors_eq hoff, hs']
    obtain ⟨result', hbody', hagree⟩ := ih (hrule ▸ ho.prepared hp h) hs'
    refine ⟨_, .entered h hinner hbody', ?_⟩
    cases hagree with
    | same =>
      rcases leave_withRecovery hoff inner hresult with heq | ⟨e, s', rfl, hreports⟩
      · rw [heq]
        exact .same
      · rw [leave_error hoff]
        exact .diverged (hreports.map _)
    | diverged hreports =>
      rw [leave_error hoff]
      exact .diverged ((hreports.leads (leads_leave _)).map _)
    | pending hend =>
      -- the start rule is the only one that is left at the end of the input
      rw [hinner] at hend
      cases hend with
      | endOfRule hbelow => cases hbelow
  | noOption h => exact ⟨_, .noOption h, .same⟩
  | leftOut h hpred => exact ⟨_, .leftOut h hpred, .same⟩
  | taken h hpred _ ih =>
    obtain ⟨r', hr', hagree⟩ := ih (hsteps.option ho).2 hs
    refine ⟨_, .taken h hpred hr', hagree.map _⟩
  | noMany h => exact ⟨_, .noMany h, .same⟩
  | @stopped room stack idx body s branches h hpred hr =>
    cases hrec : (l.withRecovery true).recoverInRepetition stack ⟨stack.rule, .many, idx⟩ branches s with
    | none => exact ⟨_, .stopped h hpred hrec, .same⟩
    | some target =>
      obtain ⟨s', resumes⟩ := target
      obtain ⟨expected, hend, hm, hreports⟩ :=
        recoverInRepetition_withRecovery hs (hsteps.many ho).2 hrec
      cases resumes with
      | false => exact ⟨_, .skipped h hpred hrec, .pending hend hm hreports⟩
      | true =>
        obtain ⟨r', hagain⟩ := exists_run (l.withRecovery true) room stack [.many idx body] s'
        exact ⟨_, .resumed h hpred hrec hagain, .pending hend hm (hreports.leads hagain.leads)⟩
  | skipped _ _ hr | resumed _ _ hr =>
    rw [recoverInRepetition_eq_none hoff] at hr
    cases hr
  | @round room stack idx steps s s' branches parts r h hpred hbody progress hagain ihbody ihagain =>
    have hs' : s'.errors = [] := by rw [← hs, ← hbody.errors_eq hoff, Result.state_ok]
    obtain ⟨r₁, hr₁, hagree⟩ := ihbody hsteps.round hs
    cases hagree with
    | same =>
      obtain ⟨r₂, hr₂, hagree⟩ := ihagain hsteps hs'
      exact ⟨_, .round h hpred hr₁ progress hr₂, hagree.map _⟩
    | pending hend => cases hend
  | stalled h hpred hbody stall ih =>
    obtain ⟨r₁, hr₁, hagree⟩ := ih hsteps.round hs
    cases hagree with
    | same => exact ⟨_, .stalled h hpred hr₁ stall, .same⟩
    | pending hend => cases hend
  | roundFails h hpred hbody ih =>
    obtain ⟨r₁, hr₁, hagree⟩ := ih hsteps.round hs
    cases hagree with
    | same => exact ⟨_, .roundFails h hpred hr₁, .same⟩
    | diverged hreports =>
      obtain ⟨r', hr', hleads⟩ := Runs.exists_round (l := l.withRecovery true) h hpred hr₁
      exact ⟨r', hr', .diverged (hreports.leads hleads)⟩
  | noChoice h => exact ⟨_, .noChoice h, .same⟩
  | unviable h hc => exact ⟨_, .unviable h hc, .same⟩
  | chosen h hc hi _ ih =>
    obtain ⟨r', hr', hagree⟩ := ih ((hsteps.choose ho).2 _ (List.mem_of_getElem? hi)) hs
    exact ⟨_, .chosen h hc hi hr', hagree.map _⟩
  | peek | errorCount | live | recorded | attempted | abandoned | fail =>
    exact absurd hsteps.plain (by simp [Step.plain])

/-! ## Whole parses -/

theorem head?_errors_finish {start : String} {r : Result Tree} {e : SyntaxError}
    (h : r.state.errors.head? = some e) : (finish start r).errors.head? = some e := by
  match r with
  | .error (.syntaxError _) s => exact h
  | .error (.fatal _) s => exact h
  | .ok t s =>
    rw [finish]
    split
    · rw [List.head?_append, show s.errors.head? = some e from h]
      rfl
    · exact h

/-- What the outcome of a parse with recovery has to do with that of the parse without. -/
structure Conserves (o o' : ParseOutput Tree) : Prop where
  /-- Either both parses are without errors or none is. -/
  isOk : o.isOk = true ↔ o'.isOk = true
  /-- Parses without errors give the same tree. -/
  value : o.isOk = true → o'.value = o.value
  /-- The error that ends the parse without recovery is the first that the other reports. -/
  unrecoverable : ∀ e, o.fatal = some (.unrecoverable e) →
    ∃ e', o'.firstError? = some e' ∧ e'.SameAs e
  /-- Any other fatal error that ends it without a syntax error ends the other too. -/
  fatal : o.errors = [] → ∀ e, o.fatal = some e → (∀ error, e ≠ .unrecoverable error) →
    o'.fatal = some e ∧ o'.errors = []

/-- The same outcome, if a fatal error is the only one. -/
theorem conserves_self {o : ParseOutput Tree} (h : ∀ e, o.fatal = some e → o.errors = []) :
    Conserves o o := by
  refine ⟨.rfl, fun _ => rfl, fun e he => ⟨e, ?_, rfl, rfl, rfl, rfl⟩, fun hnil e he _ => ⟨he, hnil⟩⟩
  rw [ParseOutput.firstError?, h _ he, he]

/-- A parse that is not without errors, and one that got past an error. -/
theorem conserves_of_head? {o o' : ParseOutput Tree} {e' : SyntaxError} (ho : o.isOk = false)
    (h : o'.errors.head? = some e')
    (hf : ∀ e, o.fatal = some e → ∃ error, e = .unrecoverable error ∧ e'.SameAs error) :
    Conserves o o' := by
  obtain ⟨errors, hcons⟩ := List.head?_eq_some_iff.1 h
  have ho' : o'.isOk = false := by simp [ParseOutput.isOk, hcons]
  refine ⟨by rw [ho, ho'], by rw [ho]; nofun, ?_, ?_⟩
  · intro e he
    obtain ⟨error, heq, hsame⟩ := hf _ he
    cases heq
    refine ⟨e', ?_, hsame⟩
    rw [ParseOutput.firstError?, hcons]
  · intro _ e he hne
    obtain ⟨error, heq, -⟩ := hf e he
    exact absurd heq (hne error)

/-- The outcomes agree if what the steps of the start rule come to agrees. -/
theorem Agrees.conserves {rule : RuleDef} {start : String} {r r' : Result (List Tree)}
    (h : l.Agrees (startStack rule) .endOfRule r r') (hs : r.state.errors = []) :
    Conserves (finish start (r.map (.node rule.name)))
      (finish start (r'.map (.node rule.name))) := by
  cases h with
  | same =>
    refine conserves_self ?_
    intro e he
    match r with
    | .error (.syntaxError _) s => exact hs
    | .error (.fatal _) s => exact hs
    | .ok t s =>
      rw [Result.map_ok, finish] at he
      split at he <;> cases he
  | @diverged e s' _ hreports =>
    obtain ⟨e', he', hsame⟩ := hreports
    refine conserves_of_head? ?_ (head?_errors_finish (by rwa [Result.state_map])) ?_
    · simp [finish, ParseOutput.isOk]
    · rintro _ ⟨⟩
      exact ⟨_, rfl, hsame⟩
  | @pending parts s' _ _ hend hm hreports =>
    obtain ⟨e', he', -⟩ := hreports
    cases hend with
    | endOfRule =>
      -- the end of the input is not there, so there is a token left
      obtain ⟨extra, hextra⟩ : ∃ extra, s'.cursor.next? = some extra := by
        cases hn : s'.cursor.next? with
        | some extra => exact ⟨extra, rfl⟩
        | none =>
          rw [ParseState.nextKind, hn] at hm
          have hfalse : l.vocabulary.isA l.vocabulary.eof l.vocabulary.eof = false := hm
          rw [Vocabulary.isA_eof_iff.2 rfl] at hfalse
          cases hfalse
      refine conserves_of_head? ?_ (head?_errors_finish (by rwa [Result.state_map])) ?_
      · simp [finish, hextra, ParseOutput.isOk]
      · simp [finish, hextra]

/-- Recovery is conservative: parses with and without it are without errors together and then give
the same tree, they agree on the first syntax error, and on a fatal error that no syntax error came
before. -/
theorem conserves_of_build {d : Draft} {off on : Language}
    (hoff : (d.withRecovery false).build = .ok off) (hon : (d.withRecovery true).build = .ok on)
    (hp : d.Plain) (start : String) (ts : List Token) :
    Conserves (off.parse start ts) (on.parse start ts) := by
  obtain ⟨hdraft, ho⟩ := outlined_of_build hoff hp
  have hplain : off.Plain := by
    rw [Plain, hdraft]
    exact hp
  have hrecovery : off.config.recovery = false := by rw [hdraft]; rfl
  obtain rfl : off.withRecovery true = on :=
    Except.ok.inj ((Draft.build_withRecovery hoff true).symm.trans hon)
  cases hr : off.rule? start with
  | none =>
    rw [parse_undeclared hr, parse_undeclared (l := off.withRecovery true) hr]
    exact conserves_self fun _ _ => rfl
  | some r =>
    cases hd : off.config.maxDepth with
    | zero =>
      rw [parse_refused hr hd, parse_refused (l := off.withRecovery true) hr hd]
      exact conserves_self fun _ _ => rfl
    | succ room =>
      obtain ⟨result, hrun⟩ := exists_run off room (startStack r) r.body (startState r ts)
      have hname : (startStack r).rule = start := name_of_rule? hr
      have hs : (startState r ts).errors = [] := ParseState.errors_note rfl
      obtain ⟨result', hrun', hagree⟩ :=
        hrun.agrees ho hplain hrecovery (hname ▸ ho.prepared hplain hr) hs
      rw [parse_entered hr hd hrun, parse_entered (l := off.withRecovery true) hr hd hrun']
      exact hagree.conserves (by rw [hrun.errors_eq hrecovery, hs])

/-- The parenthesis that `(1+2` lacks is made up with recovery, and the parse ends there without. -/
theorem conserves_of_build_calc :
    (Calc.draft.withRecovery false).build = .ok (Calc.language.withRecovery false) ∧
    (Calc.draft.withRecovery true).build = .ok (Calc.language.withRecovery true) ∧
    Calc.draft.Plain ∧
    Conserves
      ((Calc.language.withRecovery false).parse "expression" (Calc.vocabulary.tokenize "(1+2").1)
      ((Calc.language.withRecovery true).parse "expression" (Calc.vocabulary.tokenize "(1+2").1) :=
  ⟨Draft.build_withRecovery Calc.build_draft _, Draft.build_withRecovery Calc.build_draft _,
    Calc.plain_draft, conserves_of_build (Draft.build_withRecovery Calc.build_draft _)
      (Draft.build_withRecovery Calc.build_draft _) Calc.plain_draft _ _⟩

end Language

end TopDown
