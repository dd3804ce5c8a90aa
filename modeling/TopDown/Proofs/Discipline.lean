import TopDown.Proofs.Machine

/-!
# Every parse ends, and its stack is in order

What one thing done by the machine preserves is `Moment.Disciplined`: the stack is not too deep and
says truly who called whom, the cursor walks the tokens, and the rounds of a repetition are no more
than the tokens passed since it was called for. So it holds at every moment of every parse, whatever
the rules do with errors.
-/

namespace TopDown

/-- Each invocation was called for by the one right below it, and the first by none. -/
inductive Linked : List Frame → Prop where
  | nil : Linked []
  | start {frame : Frame} (h : frame.site = none) : Linked [frame]
  | call {frame caller : Frame} {below : List Frame} {idx : Nat}
      (h : frame.site = some ⟨caller.rule, .rule frame.rule, idx⟩)
      (rest : Linked (caller :: below)) :
      Linked (frame :: caller :: below)

/-- No more rounds have been done than tokens passed since the repetition was called for. -/
def Loop.Bounded (loop : Loop) (c : Cursor Token) : Prop :=
  loop.call + loop.done.length ≤ c.position

/-- A round that passed a token makes one more. -/
theorem Loop.Bounded.add {loop : Loop} {start c : Cursor Token} (h : loop.Bounded start)
    (hc : start.Before c) (hlt : c.rest.length < start.rest.length) (parts : List Tree) :
    { loop with done := loop.done ++ [parts] : Loop }.Bounded c := by
  have hsame := congrArg List.length hc.toList_eq
  rw [Cursor.length_toList, Cursor.length_toList] at hsame
  have hdone : loop.call + loop.done.length ≤ start.position := h
  show loop.call + (loop.done ++ [parts]).length ≤ c.position
  rw [List.length_append, List.length_singleton]
  omega

/-- What holds of the stack, of what is still to be done and of the state, at every moment of a
parse of the tokens. -/
structure Kept (l : Language) (tokens : List Token) (frames : List Frame) (pending : List Pending)
    (s : ParseState) : Prop where
  tokens : s.cursor.toList = tokens
  depth : frames.length ≤ l.config.maxDepth
  linked : Linked frames
  rounds : ∀ loop start, .round loop start ∈ pending → loop.Bounded start ∧ start.Before s.cursor

namespace Kept

variable {l : Language} {tokens : List Token} {frames : List Frame} {frame : Frame}
  {pending : List Pending} {p : Pending} {s s' : ParseState}

/-- Going forward changes nothing of it. -/
theorem leads (h : Kept l tokens frames pending s) (hs : s.Leads s') :
    Kept l tokens frames pending s' where
  tokens := hs.cursor.toList_eq.trans h.tokens
  depth := h.depth
  linked := h.linked
  rounds loop start hmem := by
    obtain ⟨hbounded, hbefore⟩ := h.rounds loop start hmem
    exact ⟨hbounded, hbefore.trans hs.cursor⟩

theorem push (h : Kept l tokens frames pending s)
    (hround : ∀ loop start, p = .round loop start → loop.Bounded start ∧ start.Before s.cursor) :
    Kept l tokens frames (p :: pending) s where
  tokens := h.tokens
  depth := h.depth
  linked := h.linked
  rounds loop start hmem := by
    rcases List.mem_cons.1 hmem with hsame | hmem
    · exact hround loop start hsame.symm
    · exact h.rounds loop start hmem

theorem pop (h : Kept l tokens frames (p :: pending) s) : Kept l tokens frames pending s where
  tokens := h.tokens
  depth := h.depth
  linked := h.linked
  rounds loop start hmem := h.rounds loop start (List.mem_cons_of_mem _ hmem)

theorem enter (h : Kept l tokens frames pending s) (hd : frames.length < l.config.maxDepth)
    (hlinked : Linked (frame :: frames)) :
    Kept l tokens (frame :: frames) (.leave :: pending) s := by
  have hpushed : Kept l tokens (frame :: frames) pending s := ⟨h.tokens, hd, hlinked, h.rounds⟩
  exact hpushed.push nofun

theorem leave (h : Kept l tokens (frame :: frames) (.leave :: pending) s) :
    Kept l tokens frames pending s := by
  have hpopped := h.pop
  have hlinked : Linked frames := by
    cases hpopped.linked with
    | start => exact .nil
    | call _ rest => exact rest
  exact ⟨hpopped.tokens, Nat.le_of_succ_le hpopped.depth, hlinked, hpopped.rounds⟩

theorem position_le (h : Kept l tokens frames pending s) : s.position ≤ tokens.length := by
  have hlength := s.cursor.length_toList
  rw [h.tokens] at hlength
  show s.cursor.position ≤ _
  omega

end Kept

/-- Whatever is done is done by an invocation, and a repetition has not done too many rounds. -/
def Focus.Fits (frames : List Frame) (s : ParseState) : Focus → Prop
  | .steps _ | .step _ => frames ≠ []
  | .loop repetition => frames ≠ [] ∧ repetition.Bounded s.cursor
  | .back _ => True

/-- The moment is one of a parse of the tokens that is in order. -/
structure Moment.Disciplined (l : Language) (tokens : List Token) (m : Moment) : Prop where
  kept : Kept l tokens m.frames m.pending m.state
  fits : m.focus.Fits m.frames m.state

namespace Language

variable {l : Language} {tokens : List Token} {stack : Stack} {frames : List Frame}
  {pending : List Pending} {s : ParseState} {r : Result (List Tree)} {m m' : Moment}

theorem disciplined_returning (h : Kept l tokens frames pending s) (hs : s.Leads r.state) :
    (Moment.returning frames pending r).Disciplined l tokens := by
  cases r with
  | ok parts s' => exact ⟨h.leads hs, trivial⟩
  | error e s' => exact ⟨h.leads hs, trivial⟩

/-- What is in order stays in order. -/
theorem Change.disciplined (h : l.Change stack m m') (hm : m.Disciplined l tokens) :
    m'.Disciplined l tokens := by
  obtain ⟨hkept, hfits⟩ := hm
  have hframes : stack.frames ≠ [] := List.cons_ne_nil _ _
  cases h with
  | returned _ hs => exact disciplined_returning hkept hs
  | @begun focus focus' p pending s hf hf' hp =>
    refine ⟨hkept.push ?_, ?_⟩
    · rintro loop start rfl
      exact hp.elim
    · cases focus' with
      | steps | step => exact hframes
      | loop | back => exact hf'.elim
  | live => exact ⟨hkept, hframes⟩
  | looped => exact ⟨hkept, hframes, Nat.le_refl _⟩
  | @entered name idx d inner pending s hr hd hinner =>
    subst hinner
    have hsite : (stack.push d.name ⟨stack.rule, .rule name, idx⟩ s.position).top.site =
        some ⟨stack.top.rule, .rule d.name, idx⟩ := by
      rw [name_of_rule? hr]
      rfl
    have hentered := hkept.enter hd (.call hsite hkept.linked)
    exact ⟨hentered.leads (s.leads_note _), List.cons_ne_nil _ _⟩
  | @round loop pending s =>
    refine ⟨hkept.push ?_, hframes⟩
    rintro _ _ ⟨⟩
    exact ⟨hfits.2, .refl _⟩
  | skipped hs =>
    exact ⟨hkept.leads hs, hframes, Nat.le_trans hfits.2 hs.cursor.position_le⟩
  | passed => exact ⟨hkept.pop, trivial⟩
  | rest => exact ⟨hkept.pop.push (by rintro _ _ ⟨⟩), hframes⟩
  | @again loop start parts pending s hlt =>
    -- the bound held where the round began, and the token it passed pays for it
    obtain ⟨hbounded, hbefore⟩ := hkept.rounds loop start (List.mem_cons_self ..)
    exact ⟨hkept.pop, hframes, Loop.Bounded.add hbounded hbefore hlt parts⟩
  | left hs => exact disciplined_returning hkept.leave hs

theorem disciplined_firstMoment (l : Language) (start : String) (tokens : List Token) :
    (l.firstMoment start tokens).Disciplined l tokens := by
  have hkept : Kept l tokens [] [] (.start tokens) := by
    refine ⟨Cursor.toList_ofList tokens, Nat.zero_le _, .nil, ?_⟩
    intro loop place hmem
    cases hmem
  rw [firstMoment]
  cases l.rule? start with
  | none => exact disciplined_returning hkept (.refl _)
  | some d =>
    dsimp only
    rw [enter]
    by_cases hd : ([] : List Frame).length < l.config.maxDepth
    · rw [if_pos hd]
      exact ⟨(hkept.enter hd (.start rfl)).leads (ParseState.leads_note _ _), List.cons_ne_nil _ _⟩
    · rw [if_neg hd]
      exact disciplined_returning hkept (ParseState.leads_note _ _)

theorem Reaches.disciplined {start : String} (h : l.Reaches start tokens m) :
    m.Disciplined l tokens := by
  induction h with
  | refl => exact disciplined_firstMoment l start tokens
  | tail _ hnext ih =>
    obtain ⟨stack, hchange⟩ := change_of_advance hnext
    exact hchange.disciplined ih

/-- A step that is called for comes back. -/
theorem comes_of_disciplined (h : m.Disciplined l tokens) {step : Step}
    (hstep : m.focus = .step step) : ∃ r : Result (List Tree),
      l.Within m.pending m (.returning m.frames m.pending r) ∧ m.state.Leads r.state := by
  obtain ⟨frames, focus, pending, s⟩ := m
  obtain ⟨hkept, hfits⟩ := h
  cases hstep
  cases frames with
  | nil => exact absurd rfl hfits
  | cons top below =>
    obtain ⟨r, hr, hleads⟩ := l.exists_comes ⟨top, below⟩ hkept.depth step s
    exact ⟨r, hr pending, hleads⟩

/-! ## The rounds of one call -/

/-- Between the call of a repetition, made when so many tokens had been passed and `pending` was to
be done after it, and its return: it decides whether to do a round, or does one, or has just come
back. -/
inductive InLoop (call : Nat) (pending : List Pending) : Moment → Prop where
  | deciding {frames : List Frame} {loop : Loop} {s : ParseState} (h : loop.call = call) :
      InLoop call pending ⟨frames, .loop loop, pending, s⟩
  | round {m : Moment} {loop : Loop} {place : Cursor Token}
      (hm : .round loop place :: pending <:+ m.pending) (h : loop.call = call) :
      InLoop call pending m
  | returned {frames : List Frame} {outcome : Except ParseError (List Tree)} {s : ParseState} :
      InLoop call pending ⟨frames, .back outcome, pending, s⟩

theorem inLoop_returning {call : Nat} (r : Result (List Tree)) :
    InLoop call pending (.returning frames pending r) := by
  cases r with
  | ok parts s => exact .returned
  | error e s => exact .returned

theorem inLoop_of_suffix {call : Nat} {above : List Pending} {loop : Loop} {place : Cursor Token}
    (h : .round loop place :: pending <:+ above) (hcall : loop.call = call)
    (r : Result (List Tree)) : InLoop call pending (.returning frames above r) := by
  rw [← Moment.pending_returning frames above r] at h
  exact .round h hcall

/-- A repetition that has not come back goes on as one. -/
theorem Change.inLoop {call : Nat} (h : l.Change stack m m') (hm : InLoop call pending m)
    (hin : m.Inside pending) : InLoop call pending m' := by
  cases hm with
  | returned => exact absurd rfl (hin.away rfl _)
  | deciding hcall =>
    cases h with
    | returned => exact inLoop_returning _
    | begun hf => exact hf.elim
    | round => exact .round (List.suffix_refl _) hcall
    | skipped => exact .deciding hcall
  | @round _ loop place hm hcall =>
    -- what is done inside the round stays above it, until the round itself comes back
    cases h with
    | returned => exact inLoop_of_suffix hm hcall _
    | begun | entered | round => exact .round (hm.trans (List.suffix_cons _ _)) hcall
    | live | looped | skipped => exact .round hm hcall
    | passed =>
      rcases List.suffix_cons_iff.1 hm with hsame | hm
      · cases hsame
        exact .returned
      · exact .round hm hcall
    | rest =>
      rcases List.suffix_cons_iff.1 hm with hsame | hm
      · cases hsame
      · exact .round (hm.trans (List.suffix_cons _ _)) hcall
    | again =>
      rcases List.suffix_cons_iff.1 hm with hsame | hm
      · cases hsame
        exact .deciding hcall
      · exact .round hm hcall
    | left =>
      rcases List.suffix_cons_iff.1 hm with hsame | hm
      · cases hsame
      · exact inLoop_of_suffix hm hcall _

theorem inLoop_perform {idx : Nat} {body : List Step} :
    InLoop s.position pending (l.perform stack pending s (.many idx body)) := by
  rw [perform]
  cases l.branches stack .many idx with
  | error e => exact .returned
  | ok branches => exact .deciding rfl

/-- What happens after the call of a repetition up to its return happens in the repetition. -/
theorem Within.inLoop {idx : Nat} {body : List Step} (hcall : m.focus = .step (.many idx body))
    (h : l.Within m.pending m m') : m' = m ∨ InLoop m.state.position m.pending m' := by
  induction h with
  | refl => exact .inl rfl
  | tail _ hgoes ih =>
    right
    rcases ih with hsame | hloop
    · have hnext := hgoes.next
      rw [hsame] at hnext
      obtain ⟨frames, focus, pending, s⟩ := m
      cases hcall
      cases frames with
      | nil => cases hnext
      | cons top below =>
        cases hnext
        exact inLoop_perform
    · obtain ⟨stack, hchange⟩ := change_of_advance hgoes.next
      exact hchange.inLoop hloop hgoes.inside

/-- Any round that is under way at the level of the call is one of the repetition. -/
theorem InLoop.call_eq {call : Nat} (h : InLoop call pending m) {loop : Loop} {place : Cursor Token}
    (hround : .round loop place :: pending <:+ m.pending) : loop.call = call := by
  have hshort : ¬.round loop place :: pending <:+ pending := by
    intro hs
    have hle := hs.length_le
    rw [List.length_cons] at hle
    omega
  cases h with
  | deciding | returned => exact absurd hround hshort
  | round hm hcall =>
    have hsame := (List.suffix_of_suffix_length_le hround hm (Nat.le_refl _)).eq_of_length rfl
    cases hsame
    exact hcall

/-- The rounds of a call that are done each passed a token, and one more may be under way. -/
theorem Reaches.rounds_le {start : String} (hm : l.Reaches start tokens m) {idx : Nat}
    {body : List Step} (hcall : m.focus = .step (.many idx body)) (hwithin : l.Within m.pending m m')
    {loop : Loop} {place : Cursor Token} (hround : .round loop place :: m.pending <:+ m'.pending) :
    loop.done.length + 1 ≤ tokens.length - m.state.position + 1 := by
  have hm' : l.Reaches start tokens m' := hm.trans hwithin.next
  have hkept := hm'.disciplined.kept
  obtain ⟨hbounded, hbefore⟩ := hkept.rounds loop place (hround.subset (List.mem_cons_self ..))
  have hle : m'.state.cursor.position ≤ tokens.length := hkept.position_le
  have hplace := hbefore.position_le
  have hfrom : loop.call = m.state.position := by
    rcases Within.inLoop hcall hwithin with rfl | hloop
    · -- at the call itself no round of it is under way
      have hshort := hround.length_le
      rw [List.length_cons] at hshort
      omega
    · exact hloop.call_eq hround
  rw [Loop.Bounded, hfrom] at hbounded
  omega

/-- Every parse ends, and at every moment of it the stack and the cursor are in order: the cursor is
at most at the end, the stack is not too deep and every call site names the rule below and the rule
itself. A step that is called for comes back, with a value or an error, with the stack as it was and
the cursor not before where it was. A repetition does at most one round more than there were tokens
ahead when it was called for, since the round that is under way comes after those that are done. -/
theorem parse_disciplined (l : Language) (start : String) (tokens : List Token) :
    (∃ result : Result Tree, l.parse start tokens = finish start result ∧
      l.advance (.returning [] [] (result.map ([·]))) = none ∧
      ∀ m, l.Reaches start tokens m →
        Relation.ReflTransGen l.Next m (.returning [] [] (result.map ([·])))) ∧
    ∀ m, l.Reaches start tokens m →
      m.state.position ≤ tokens.length ∧
      m.frames.length ≤ l.config.maxDepth ∧
      Linked m.frames ∧
      (∀ step, m.focus = .step step → ∃ r : Result (List Tree),
        l.Within m.pending m (.returning m.frames m.pending r) ∧
        m.state.position ≤ r.state.position) ∧
      ∀ idx body, m.focus = .step (.many idx body) → ∀ m', l.Within m.pending m m' →
        ∀ loop place, .round loop place :: m.pending <:+ m'.pending →
          loop.done.length + 1 ≤ tokens.length - m.state.position + 1 := by
  constructor
  · obtain ⟨result, hend, -, hparse⟩ := exists_reaches_end l start tokens
    have hstop := l.advance_returning [] (result.map ([·]))
    exact ⟨result, hparse, hstop, fun m hm => hm.ends hend hstop⟩
  · intro m hm
    have hd := hm.disciplined
    refine ⟨hd.kept.position_le, hd.kept.depth, hd.kept.linked, ?_, ?_⟩
    · intro step hstep
      obtain ⟨r, hr, hleads⟩ := comes_of_disciplined hd hstep
      exact ⟨r, hr, hleads.cursor.position_le⟩
    · intro idx body hcall m' hwithin loop place hround
      exact hm.rounds_le hcall hwithin hround

end Language

end TopDown
