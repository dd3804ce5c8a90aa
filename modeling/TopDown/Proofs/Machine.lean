import TopDown.Proofs.Moves

/-!
# The engine as a machine

The engine is a recursive function: its stack is a parameter, and that a parse ends is a matter of
its definition. Here the same is done in small steps with an explicit stack of invocations, which
rules push and pop, and an explicit list of what is still to be done. `Language.advance` does one
step and looks at the depth of the stack alone to refuse a rule, so nothing bounds the number of
steps beforehand.

The machine does what the engine does. What is begun at some moment comes back with the result of
the engine, and all that happens in between is on top of what was to be done: that is
`Language.comes_runSeq` for steps and `Language.exists_reaches_end` for whole parses.
-/

namespace TopDown

/-- A repetition that has been called for. -/
structure Loop where
  /-- The index of the repetition. -/
  idx : Nat
  /-- The lookahead of the body. -/
  branches : List Lookahead
  /-- What is repeated. -/
  body : List Step
  /-- How many tokens had been passed at the call. -/
  call : Nat
  /-- What the rounds so far have given. -/
  done : List (List Tree)

/-- What is still to be done after something has come back. -/
inductive Pending where
  /-- The other steps of a sequence. -/
  | rest (steps : List Step)
  /-- What the first steps of a sequence gave goes in front. -/
  | prepend (parts : List Tree)
  /-- An option was taken. -/
  | taken
  /-- An alternative was taken. -/
  | chosen (i : Nat)
  /-- The repetition goes on after a round that began at the place. -/
  | round (loop : Loop) (start : Cursor Token)
  /-- An error is let pass. -/
  | attempt
  /-- The invocation on top of the stack ends. -/
  | leave

/-- What is being done. -/
inductive Focus where
  /-- Steps are to be done one after the other. -/
  | steps (steps : List Step)
  /-- A step is called for. -/
  | step (step : Step)
  /-- A repetition decides whether to do a round. -/
  | loop (loop : Loop)
  /-- Something comes back. -/
  | back (outcome : Except ParseError (List Tree))

/-- A moment of a parse. -/
structure Moment where
  /-- The invocations that are under way, the innermost first. -/
  frames : List Frame
  /-- What is being done. -/
  focus : Focus
  /-- What is to be done after that, the nearest first. -/
  pending : List Pending
  /-- How far the parse has come. -/
  state : ParseState

/-- The moment when the result comes back. -/
def Moment.returning (frames : List Frame) (pending : List Pending) :
    Result (List Tree) → Moment
  | .ok parts s => ⟨frames, .back (.ok parts), pending, s⟩
  | .error e s => ⟨frames, .back (.error e), pending, s⟩

namespace Moment

variable (frames : List Frame) (pending : List Pending) (r : Result (List Tree))

@[simp] theorem frames_returning : (returning frames pending r).frames = frames := by
  cases r <;> rfl

@[simp] theorem pending_returning : (returning frames pending r).pending = pending := by
  cases r <;> rfl

@[simp] theorem state_returning : (returning frames pending r).state = r.state := by
  cases r <;> rfl

end Moment

/-- The value or error in the state. -/
def Result.of {α : Type} (s : ParseState) : Except ParseError α → Result α
  | .ok a => .ok a s
  | .error e => .error e s

namespace Language

/-- Puts an invocation of the rule on the stack, or refuses it if the stack is full. -/
def enter (l : Language) (r : RuleDef) (site : Option CallSite) (frames : List Frame)
    (pending : List Pending) (s : ParseState) : Moment :=
  if frames.length < l.config.maxDepth then
    let stack : Stack := ⟨⟨r.name, site, s.position⟩, frames⟩
    ⟨stack.frames, .steps r.body, .leave :: pending, s.note (.entered stack)⟩
  else
    .returning frames pending (.error (.fatal (.recursionLimit r.name l.config.maxDepth))
      (s.note (.refused r.name s.position)))

/-- Begins a step. -/
def perform (l : Language) (stack : Stack) (pending : List Pending) (s : ParseState) :
    Step → Moment
  | .consume token idx =>
    .returning stack.frames pending
      (Result.map (fun t => [.token t]) (l.consume stack token idx s))
  | .subrule name idx =>
    match l.rule? name with
    | none => .returning stack.frames pending (.error (.fatal (.unknownRule name)) s)
    | some r => l.enter r (some ⟨stack.rule, .rule name, idx⟩) stack.frames pending s
  | .option idx body =>
    match l.branches stack .option idx with
    | .error e => .returning stack.frames pending (.error e s)
    | .ok branches =>
      if l.predicts branches s then ⟨stack.frames, .steps body, .taken :: pending, s⟩
      else .returning stack.frames pending (.ok [.leftOut] s)
  | .many idx body =>
    match l.branches stack .many idx with
    | .error e => .returning stack.frames pending (.error e s)
    | .ok branches => ⟨stack.frames, .loop ⟨idx, branches, body, s.position, []⟩, pending, s⟩
  | .choose idx label alternatives =>
    match l.branches stack .choice idx with
    | .error e => .returning stack.frames pending (.error e s)
    | .ok branches =>
      let taken := do
        let i ← l.chosenBranch? branches (s.nextKind l.vocabulary)
        return (i, ← alternatives[i]?)
      match taken with
      | some (i, body) => ⟨stack.frames, .steps body, .chosen i :: pending, s⟩
      | none =>
        .returning stack.frames pending
          (raise stack (l.noViableAlternative stack label branches s) s)
  | .peek k => .returning stack.frames pending (.ok [.peeked (s.cursor.peek? k)] s)
  | .errorCount => .returning stack.frames pending (.ok [.errorCount s.errors.length] s)
  | .live body => ⟨stack.frames, .steps body, pending, s⟩
  | .recorded _ => .returning stack.frames pending (.ok [] s)
  | .attempt body => ⟨stack.frames, .steps body, .attempt :: pending, s⟩
  | .fail e => .returning stack.frames pending (.error e s)

/-- Begins a round of a repetition, or ends the repetition. -/
def turn (l : Language) (stack : Stack) (pending : List Pending) (s : ParseState) (loop : Loop) :
    Moment :=
  if l.predicts loop.branches s then
    ⟨stack.frames, .steps loop.body, .round loop s.cursor :: pending, s⟩
  else
    match l.recoverInRepetition stack ⟨stack.rule, .many, loop.idx⟩ loop.branches s with
    | none => .returning stack.frames pending (.ok [.rounds loop.done] s)
    | some (s', false) => .returning stack.frames pending (.ok [.rounds loop.done] s')
    | some (s', true) => ⟨stack.frames, .loop loop, pending, s'⟩

/-- Goes on with something after a result has come back. -/
def resume (l : Language) (stack : Stack) (pending : List Pending) :
    Pending → Result (List Tree) → Moment
  | .rest steps, .ok parts s => ⟨stack.frames, .steps steps, .prepend parts :: pending, s⟩
  | .rest _, .error e s => .returning stack.frames pending (.error e s)
  | .prepend parts, r => .returning stack.frames pending (r.map (parts ++ ·))
  | .taken, r => .returning stack.frames pending (r.map fun parts => [.taken parts])
  | .chosen i, r => .returning stack.frames pending (r.map fun parts => [.chosen i parts])
  | .round loop start, .ok parts s =>
    if s.cursor.rest.length < start.rest.length then
      ⟨stack.frames, .loop { loop with done := loop.done ++ [parts] }, pending, s⟩
    else
      .returning stack.frames pending (.error (.fatal (.noProgress stack.rule loop.idx)) s)
  | .round _ _, .error e s => .returning stack.frames pending (.error e s)
  | .attempt, .ok parts s => .returning stack.frames pending (.ok [.attempted parts] s)
  | .attempt, .error e s => .returning stack.frames pending (.ok [.abandoned e] s)
  | .leave, r => .returning stack.below pending (Result.map ([·]) (l.leave stack r))

/-- Does one thing, unless all is done. -/
def advance (l : Language) : Moment → Option Moment
  | ⟨top :: below, .steps [], pending, s⟩ => some ⟨top :: below, .back (.ok []), pending, s⟩
  | ⟨top :: below, .steps (step :: rest), pending, s⟩ =>
    some ⟨top :: below, .step step, .rest rest :: pending, s⟩
  | ⟨top :: below, .step step, pending, s⟩ => some (l.perform ⟨top, below⟩ pending s step)
  | ⟨top :: below, .loop loop, pending, s⟩ => some (l.turn ⟨top, below⟩ pending s loop)
  | ⟨top :: below, .back outcome, p :: pending, s⟩ =>
    some (l.resume ⟨top, below⟩ pending p (.of s outcome))
  | _ => none

/-- The first moment of a parse. -/
def firstMoment (l : Language) (start : String) (tokens : List Token) : Moment :=
  match l.rule? start with
  | none => .returning [] [] (.error (.fatal (.unknownRule start)) (.start tokens))
  | some r => l.enter r none [] [] (.start tokens)

end Language

/-! ## What one thing can be -/

/-- Steps are done or called for. -/
def Focus.IsCall : Focus → Prop
  | .steps _ | .step _ => True
  | .loop _ | .back _ => False

/-- It is neither the end of an invocation nor that of a round. -/
def Pending.IsPlain : Pending → Prop
  | .leave | .round .. => False
  | .rest _ | .prepend _ | .taken | .chosen _ | .attempt => True

namespace Language

variable {l : Language} {stack : Stack} {pending : List Pending} {s s' : ParseState}
  {r : Result (List Tree)} {m m' : Moment}

/-- What one thing done by the machine under the stack can be. -/
inductive Change (l : Language) (stack : Stack) : Moment → Moment → Prop where
  /-- What was begun comes back at once. -/
  | returned {focus : Focus} {pending : List Pending} {s : ParseState} {r : Result (List Tree)}
      (hf : ∀ outcome, focus ≠ .back outcome) (hs : s.Leads r.state) :
      Change l stack ⟨stack.frames, focus, pending, s⟩ (.returning stack.frames pending r)
  /-- A part of what was begun is begun, and something is to be done after it. -/
  | begun {focus focus' : Focus} {p : Pending} {pending : List Pending} {s : ParseState}
      (hf : focus.IsCall) (hf' : focus'.IsCall) (hp : p.IsPlain) :
      Change l stack ⟨stack.frames, focus, pending, s⟩ ⟨stack.frames, focus', p :: pending, s⟩
  /-- The body of a step is done in its place. -/
  | live {body : List Step} {pending : List Pending} {s : ParseState} :
      Change l stack ⟨stack.frames, .step (.live body), pending, s⟩
        ⟨stack.frames, .steps body, pending, s⟩
  /-- A repetition is begun. -/
  | looped {idx : Nat} {branches : List Lookahead} {body : List Step} {pending : List Pending}
      {s : ParseState} : Change l stack ⟨stack.frames, .step (.many idx body), pending, s⟩
        ⟨stack.frames, .loop ⟨idx, branches, body, s.position, []⟩, pending, s⟩
  /-- A rule is entered. -/
  | entered {name : String} {idx : Nat} {d : RuleDef} {inner : Stack} {pending : List Pending}
      {s : ParseState} (hr : l.rule? name = some d) (hd : stack.frames.length < l.config.maxDepth)
      (hinner : inner = stack.push d.name ⟨stack.rule, .rule name, idx⟩ s.position) :
      Change l stack ⟨stack.frames, .step (.subrule name idx), pending, s⟩
        ⟨inner.frames, .steps d.body, .leave :: pending, s.note (.entered inner)⟩
  /-- A round of a repetition is begun. -/
  | round {loop : Loop} {pending : List Pending} {s : ParseState} :
      Change l stack ⟨stack.frames, .loop loop, pending, s⟩
        ⟨stack.frames, .steps loop.body, .round loop s.cursor :: pending, s⟩
  /-- Tokens are skipped before the next round. -/
  | skipped {loop : Loop} {pending : List Pending} {s s' : ParseState} (hs : s.Leads s') :
      Change l stack ⟨stack.frames, .loop loop, pending, s⟩ ⟨stack.frames, .loop loop, pending, s'⟩
  /-- What comes back is passed on. -/
  | passed {p : Pending} {outcome outcome' : Except ParseError (List Tree)}
      {pending : List Pending} {s : ParseState} (hp : p ≠ .leave) :
      Change l stack ⟨stack.frames, .back outcome, p :: pending, s⟩
        ⟨stack.frames, .back outcome', pending, s⟩
  /-- The other steps of a sequence are done. -/
  | rest {steps : List Step} {parts : List Tree} {pending : List Pending} {s : ParseState} :
      Change l stack ⟨stack.frames, .back (.ok parts), .rest steps :: pending, s⟩
        ⟨stack.frames, .steps steps, .prepend parts :: pending, s⟩
  /-- A round is done, and it passed a token. -/
  | again {loop : Loop} {start : Cursor Token} {parts : List Tree} {pending : List Pending}
      {s : ParseState} (hlt : s.cursor.rest.length < start.rest.length) :
      Change l stack ⟨stack.frames, .back (.ok parts), .round loop start :: pending, s⟩
        ⟨stack.frames, .loop { loop with done := loop.done ++ [parts] }, pending, s⟩
  /-- The invocation on top of the stack ends. -/
  | left {outcome : Except ParseError (List Tree)} {pending : List Pending} {s : ParseState}
      {r : Result (List Tree)} (hs : s.Leads r.state) :
      Change l stack ⟨stack.frames, .back outcome, .leave :: pending, s⟩
        (.returning stack.below pending r)

theorem change_perform (step : Step) :
    l.Change stack ⟨stack.frames, .step step, pending, s⟩ (l.perform stack pending s step) := by
  have hat {r : Result (List Tree)} (hs : s.Leads r.state) :
      l.Change stack ⟨stack.frames, .step step, pending, s⟩ (.returning stack.frames pending r) :=
    .returned nofun hs
  have hbody (body : List Step) {p : Pending} (hp : p.IsPlain) :
      l.Change stack ⟨stack.frames, .step step, pending, s⟩
        ⟨stack.frames, .steps body, p :: pending, s⟩ :=
    .begun trivial trivial hp
  cases step with
  | consume token idx =>
    refine hat ?_
    rw [Result.state_map]
    exact (consumption l stack token idx s).moves.leads
  | subrule name idx =>
    rw [perform]
    cases hr : l.rule? name with
    | none => exact hat (.refl s)
    | some d =>
      dsimp only
      rw [enter]
      by_cases hd : stack.frames.length < l.config.maxDepth
      · rw [if_pos hd]
        exact .entered hr hd rfl
      · rw [if_neg hd]
        exact hat (s.leads_note _)
  | option idx body =>
    rw [perform]
    cases l.branches stack .option idx with
    | error e => exact hat (.refl s)
    | ok branches =>
      dsimp only
      by_cases hp : l.predicts branches s = true
      · rw [if_pos hp]
        exact hbody body trivial
      · rw [if_neg hp]
        exact hat (.refl s)
  | many idx body =>
    rw [perform]
    cases l.branches stack .many idx with
    | error e => exact hat (.refl s)
    | ok branches => exact .looped
  | choose idx label alternatives =>
    rw [perform]
    cases l.branches stack .choice idx with
    | error e => exact hat (.refl s)
    | ok branches =>
      dsimp only
      split
      · exact hbody _ trivial
      · exact hat (s.leads_note _)
  | peek | errorCount | recorded | fail =>
    rw [perform]
    exact hat (.refl s)
  | live body => exact .live
  | attempt body => exact hbody body trivial

theorem change_turn (loop : Loop) :
    l.Change stack ⟨stack.frames, .loop loop, pending, s⟩ (l.turn stack pending s loop) := by
  rw [turn]
  by_cases hp : l.predicts loop.branches s = true
  · rw [if_pos hp]
    exact .round
  · rw [if_neg hp]
    cases hr : l.recoverInRepetition stack ⟨stack.rule, .many, loop.idx⟩ loop.branches s with
    | none => exact .returned nofun (.refl s)
    | some target =>
      obtain ⟨s', resumes⟩ := target
      have hs := leads_recoverInRepetition hr
      cases resumes with
      | false => exact .returned nofun hs
      | true => exact .skipped hs

/-- The end of an invocation takes it off the stack. -/
theorem resume_leave (stack : Stack) (pending : List Pending) (r : Result (List Tree)) :
    l.resume stack pending .leave r =
      .returning stack.below pending (Result.map ([·]) (l.leave stack r)) := by
  cases r <;> rfl

theorem change_resume (outcome : Except ParseError (List Tree)) (p : Pending) :
    l.Change stack ⟨stack.frames, .back outcome, p :: pending, s⟩
      (l.resume stack pending p (.of s outcome)) := by
  cases p with
  | leave =>
    rw [resume_leave]
    refine .left ?_
    rw [Result.state_map]
    have hs : (Result.of s outcome).state.Leads (Result.state (l.leave stack (.of s outcome))) :=
      leads_leave _
    cases outcome with
    | ok parts => exact hs
    | error e => exact hs
  | prepend | taken | chosen | attempt => cases outcome <;> exact .passed nofun
  | rest steps =>
    cases outcome with
    | ok parts => exact .rest
    | error e => exact .passed nofun
  | round loop start =>
    cases outcome with
    | error e => exact .passed nofun
    | ok parts =>
      show l.Change stack _ (l.resume stack pending (.round loop start) (.ok parts s))
      rw [resume]
      by_cases hlt : s.cursor.rest.length < start.rest.length
      · rw [if_pos hlt]
        exact .again hlt
      · rw [if_neg hlt]
        exact .passed nofun

/-- Whatever the machine does is one of the changes. -/
theorem change_of_advance (h : l.advance m = some m') : ∃ stack, l.Change stack m m' := by
  obtain ⟨frames, focus, pending, s⟩ := m
  cases frames with
  | nil => cases focus <;> cases h
  | cons top below =>
    refine ⟨⟨top, below⟩, ?_⟩
    cases focus with
    | steps steps =>
      cases steps with
      | nil =>
        cases h
        exact .returned (r := .ok [] s) nofun (.refl s)
      | cons step rest =>
        cases h
        exact .begun trivial trivial trivial
    | step step =>
      cases h
      exact change_perform step
    | loop repetition =>
      cases h
      exact change_turn repetition
    | back outcome =>
      cases pending with
      | nil => cases h
      | cons p pending =>
        cases h
        exact change_resume outcome p

/-- The parse goes forward. -/
theorem Change.leads (h : l.Change stack m m') : m.state.Leads m'.state := by
  cases h with
  | returned _ hs | left hs =>
    rw [Moment.state_returning]
    exact hs
  | begun | live | looped | round | passed | rest | again => exact .refl _
  | entered => exact ParseState.leads_note _ _
  | skipped hs => exact hs

end Language

/-! ## Between a call and its return -/

/-- Something was called for when `pending` was to be done after it, and has not come back yet. -/
structure Moment.Inside (pending : List Pending) (m : Moment) : Prop where
  suffix : pending <:+ m.pending
  away : m.pending = pending → ∀ outcome, m.focus ≠ .back outcome

namespace Language

variable {l : Language} {stack : Stack} {pending : List Pending} {s : ParseState}
  {r : Result (List Tree)} {m m' : Moment}

/-- One thing is done, and what was called for had not come back before. -/
structure Goes (l : Language) (pending : List Pending) (m m' : Moment) : Prop where
  inside : m.Inside pending
  next : l.advance m = some m'

/-- One thing after the other is done until what was called for may come back. -/
abbrev Within (l : Language) (pending : List Pending) : Moment → Moment → Prop :=
  Relation.ReflTransGen (l.Goes pending)

/-- What is done on top of something is done inside it. -/
theorem Goes.below {p : Pending} (h : l.Goes (p :: pending) m m') : l.Goes pending m m' where
  inside := by
    obtain ⟨above, habove⟩ := h.inside.suffix
    refine ⟨⟨above ++ [p], by rw [List.append_assoc, ← habove]; rfl⟩, ?_⟩
    intro hsame
    have hlength := congrArg List.length habove
    rw [hsame, List.length_append, List.length_cons] at hlength
    omega
  next := h.next

theorem Within.below {p : Pending} (h : l.Within (p :: pending) m m') : l.Within pending m m' :=
  h.lift id fun _ _ => Goes.below

/-- Whatever is to be done after it, what is begun under the stack comes back with the result. -/
def Comes (l : Language) (stack : Stack) (focus : Focus) (s : ParseState) (r : Result (List Tree)) :
    Prop :=
  ∀ pending, l.Within pending ⟨stack.frames, focus, pending, s⟩
    (.returning stack.frames pending r)

/-- Where something is begun, nothing has come back. -/
theorem goes_of_begin {focus : Focus} (hf : ∀ outcome, focus ≠ .back outcome)
    (h : l.advance ⟨stack.frames, focus, pending, s⟩ = some m) :
    l.Goes pending ⟨stack.frames, focus, pending, s⟩ m :=
  ⟨⟨List.suffix_refl _, fun _ => hf⟩, h⟩

theorem goes_of_step {step : Step} (h : l.perform stack pending s step = m) :
    l.Goes pending ⟨stack.frames, .step step, pending, s⟩ m :=
  goes_of_begin nofun (congrArg some h)

theorem goes_of_return {p : Pending} : l.Goes pending (.returning stack.frames (p :: pending) r)
    (l.resume stack pending p r) := by
  have hne : p :: pending ≠ pending := List.cons_ne_self p pending
  cases r with
  | ok parts s => exact ⟨⟨List.suffix_cons p pending, fun hsame => absurd hsame hne⟩, rfl⟩
  | error e s => exact ⟨⟨List.suffix_cons p pending, fun hsame => absurd hsame hne⟩, rfl⟩

theorem Comes.resume {focus : Focus} (h : l.Comes stack focus s r) (p : Pending)
    (pending : List Pending) : l.Within pending ⟨stack.frames, focus, p :: pending, s⟩
      (l.resume stack pending p r) :=
  Relation.ReflTransGen.tail (Within.below (h (p :: pending))) goes_of_return

/-- A step that comes back at once. -/
theorem comes_of_perform {step : Step}
    (h : ∀ pending, l.perform stack pending s step = .returning stack.frames pending r) :
    l.Comes stack (.step step) s r := by
  intro pending
  exact .single (goes_of_step (h pending))

/-- A step that comes back after its body has. -/
theorem comes_of_body {step : Step} {body : List Step} {p : Pending} {r' : Result (List Tree)}
    (h : ∀ pending, l.perform stack pending s step =
      ⟨stack.frames, .steps body, p :: pending, s⟩)
    (hbody : l.Comes stack (.steps body) s r)
    (hr : ∀ pending, l.resume stack pending p r = .returning stack.frames pending r') :
    l.Comes stack (.step step) s r' := by
  intro pending
  have hlater := hbody.resume p pending
  rw [hr pending] at hlater
  exact .head (goes_of_step (h pending)) hlater

/-! ## The machine does what the engine does -/

section Repetition

variable {body : List Step}

/-- The rounds that are left come back behind those that are done. -/
theorem comes_loop {run : Action (List Tree)}
    (hbody : ∀ s, l.Comes stack (.steps body) s (run s)) (idx : Nat) (branches : List Lookahead)
    (call : Nat) (done : List (List Tree)) (s : ParseState) :
    l.Comes stack (.loop ⟨idx, branches, body, call, done⟩) s
      (Result.map (fun more => [.rounds (done ++ more)]) (l.rounds stack idx branches run s)) := by
  -- a round has to pass a token before there is another, so the induction is on the tokens ahead
  induction hn : s.cursor.rest.length using Nat.strongRecOn generalizing s done with
  | ind n again =>
    subst hn
    intro pending
    refine .head (goes_of_begin nofun rfl) ?_
    rw [rounds_eq]
    by_cases hp : l.predicts branches s = true
    · have hround := (hbody s).resume
        (.round ⟨idx, branches, body, call, done⟩ s.cursor) pending
      rw [turn, if_pos hp, if_pos hp]
      refine hround.trans ?_
      cases run s with
      | error e s' => exact .refl
      | ok parts s' =>
        by_cases hlt : s'.cursor.rest.length < s.cursor.rest.length
        · have hmore := again _ hlt (done ++ [parts]) s' rfl pending
          simp only [List.append_assoc, List.singleton_append] at hmore
          simp only [resume, if_pos hlt, Result.map_map]
          exact hmore
        · simp only [resume, if_neg hlt]
          exact .refl
    · rw [turn, if_neg hp, if_neg hp]
      cases hr : l.recoverInRepetition stack ⟨stack.rule, .many, idx⟩ branches s with
      | none =>
        simp only [Result.map_ok, List.append_nil]
        exact .refl
      | some target =>
        obtain ⟨s', resumes⟩ := target
        cases resumes with
        | false =>
          simp only [Result.map_ok, List.append_nil]
          exact .refl
        | true => exact again _ (rest_length_recoverInRepetition hr) done s' rfl pending

end Repetition

section Choice

variable {idx i : Nat} {label : Option String} {alternatives : List (List Step)}
  {branches : List Lookahead} {steps : List Step}

theorem perform_chosen (h : l.branches stack .choice idx = .ok branches)
    (hc : l.chosenBranch? branches (s.nextKind l.vocabulary) = some i)
    (hi : alternatives[i]? = some steps) (pending : List Pending) :
    l.perform stack pending s (.choose idx label alternatives) =
      ⟨stack.frames, .steps steps, .chosen i :: pending, s⟩ := by
  simp [perform, h, hc, hi]

theorem perform_unviable (h : l.branches stack .choice idx = .ok branches)
    (hc : ∀ i, l.chosenBranch? branches (s.nextKind l.vocabulary) = some i →
      alternatives[i]? = none) (pending : List Pending) :
    l.perform stack pending s (.choose idx label alternatives) =
      .returning stack.frames pending
        (Result.map (fun a => [a])
          (raise stack (l.noViableAlternative stack label branches s) s)) := by
  cases hi : l.chosenBranch? branches (s.nextKind l.vocabulary) with
  | none =>
    simp [perform, h, hi]
    rfl
  | some i =>
    simp [perform, h, hi, hc i hi]
    rfl

end Choice

/-- The machine comes back with what the engine gives, for every call of a rule. -/
def CallsCome (l : Language) (room : Nat) (stack : Stack) : Prop :=
  ∀ name idx s, l.Comes stack (.step (.subrule name idx)) s
    (l.runStep (l.caller room) stack (.subrule name idx) s)

variable {room : Nat}

mutual

theorem comes_runStep (calls : l.CallsCome room stack) : ∀ (step : Step) (s : ParseState),
    l.Comes stack (.step step) s (l.runStep (l.caller room) stack step s)
  | .consume token idx, s => by
    rw [runStep, bind_pure_apply]
    exact comes_of_perform fun pending => rfl
  | .subrule name idx, s => calls name idx s
  | .option idx body, s => by
    rw [runStep, bind_pure_apply]
    cases h : l.branches stack .option idx with
    | error e =>
      simp only [option, h]
      exact comes_of_perform fun pending => by simp only [perform, h, Result.map_error]
    | ok branches =>
      rw [option_eq h]
      by_cases hp : l.predicts branches s = true
      · rw [if_pos hp, Result.map_map]
        have hperform : ∀ pending, l.perform stack pending s (.option idx body) =
            ⟨stack.frames, .steps body, .taken :: pending, s⟩ := by
          simp only [perform, h, if_pos hp, implies_true]
        exact comes_of_body hperform (comes_runSeq calls body s) fun pending => rfl
      · rw [if_neg hp]
        exact comes_of_perform fun pending => by simp only [perform, h, if_neg hp, Result.map_ok]
  | .many idx body, s => by
    rw [runStep, bind_pure_apply]
    cases h : l.branches stack .many idx with
    | error e =>
      simp only [many, h]
      exact comes_of_perform fun pending => by simp only [perform, h, Result.map_error]
    | ok branches =>
      rw [many_eq h, Result.map_map]
      intro pending
      have hperform : l.perform stack pending s (.many idx body) =
          ⟨stack.frames, .loop ⟨idx, branches, body, s.position, []⟩, pending, s⟩ := by
        simp only [perform, h]
      refine .head (goes_of_step hperform) ?_
      exact comes_loop (comes_runSeq calls body) idx branches s.position [] s pending
  | .choose idx label alternatives, s => by
    rw [runStep, bind_pure_apply]
    cases h : l.branches stack .choice idx with
    | error e =>
      simp only [choose, h]
      exact comes_of_perform fun pending => by simp only [perform, h, Result.map_error]
    | ok branches =>
      by_cases hc : ∀ i, l.chosenBranch? branches (s.nextKind l.vocabulary) = some i →
          alternatives[i]? = none
      · rw [choose_eq_raise _ h hc]
        exact comes_of_perform (perform_unviable h hc)
      · simp only [Classical.not_forall] at hc
        obtain ⟨i, hi, halt⟩ := hc
        obtain ⟨steps, hsteps⟩ := Option.ne_none_iff_exists'.1 halt
        rw [choose_eq_chosen _ h hi hsteps, Result.map_map]
        exact comes_of_body (perform_chosen h hi hsteps)
          (comes_alternatives calls alternatives i steps hsteps s) fun pending => rfl
  | .peek k, s => by
    rw [runStep]
    exact comes_of_perform fun pending => rfl
  | .errorCount, s => by
    rw [runStep]
    exact comes_of_perform fun pending => rfl
  | .live body, s => by
    rw [runStep]
    intro pending
    exact .head (goes_of_step rfl) (comes_runSeq calls body s pending)
  | .recorded body, s => by
    rw [runStep]
    exact comes_of_perform fun pending => rfl
  | .attempt body, s => by
    rw [runStep, bind_pure_apply, attempt]
    refine comes_of_body (fun pending => rfl) (comes_runSeq calls body s) fun pending => ?_
    cases l.runSeq (l.caller room) stack body s <;> rfl
  | .fail e, s => by
    rw [runStep]
    exact comes_of_perform fun pending => rfl

theorem comes_runSeq (calls : l.CallsCome room stack) : ∀ (steps : List Step) (s : ParseState),
    l.Comes stack (.steps steps) s (l.runSeq (l.caller room) stack steps s)
  | [], s => by
    rw [runSeq_nil]
    exact fun pending => .single (goes_of_begin nofun rfl)
  | step :: rest, s => by
    rw [runSeq_cons]
    intro pending
    refine .head (goes_of_begin nofun rfl) ?_
    refine ((comes_runStep calls step s).resume (.rest rest) pending).trans ?_
    cases l.runStep (l.caller room) stack step s with
    | error e s' => exact .refl
    | ok parts s' => exact (comes_runSeq calls rest s').resume (.prepend parts) pending

theorem comes_alternatives (calls : l.CallsCome room stack) :
    ∀ (alternatives : List (List Step)) (i : Nat) (steps : List Step),
      alternatives[i]? = some steps → ∀ s : ParseState,
        l.Comes stack (.steps steps) s (l.runSeq (l.caller room) stack steps s)
  | [], i, steps, h, s => by simp at h
  | body :: rest, 0, steps, h, s => by
    obtain rfl : body = steps := by simpa using h
    exact comes_runSeq calls body s
  | body :: rest, i + 1, steps, h, s => comes_alternatives calls rest i steps (by simpa using h) s

end

/-- The room that is left in the engine is what the stack of the machine lacks. -/
theorem callsCome (room : Nat) (stack : Stack)
    (hroom : room + stack.frames.length = l.config.maxDepth) : l.CallsCome room stack := by
  induction room generalizing stack with
  | zero =>
    intro name idx s
    rw [runStep, bind_pure_apply, subrule]
    refine comes_of_perform fun pending => ?_
    cases h : l.rule? name with
    | none =>
      simp only [perform, h]
      rfl
    | some r =>
      have hfull : ¬stack.frames.length < l.config.maxDepth := by omega
      simp only [perform, h, enter, if_neg hfull]
      rfl
  | succ room ih =>
    intro name idx s
    rw [runStep, bind_pure_apply, subrule]
    cases h : l.rule? name with
    | none =>
      refine comes_of_perform fun pending => ?_
      simp only [perform, h]
      rfl
    | some r =>
      have hspace : stack.frames.length < l.config.maxDepth := by omega
      let inner : Stack := stack.push r.name ⟨stack.rule, .rule name, idx⟩ s.position
      have hinner : room + inner.frames.length = l.config.maxDepth := by
        show room + (stack.frames.length + 1) = _
        omega
      have hbody := comes_runSeq (ih inner hinner) r.body (s.note (.entered inner))
      intro pending
      have hperform : l.perform stack pending s (.subrule name idx) =
          ⟨inner.frames, .steps r.body, .leave :: pending, s.note (.entered inner)⟩ := by
        simp only [perform, h, enter, if_pos hspace]
        rfl
      have hleave := hbody.resume .leave pending
      rw [resume_leave] at hleave
      show l.Within pending _
        (.returning _ _ (Result.map _ (l.invoke (room + 1) r stack.frames _ s)))
      rw [invoke_succ]
      exact .head (goes_of_step hperform) hleave

/-- A step that is called for comes back, with the stack as it was and no token put back. -/
theorem exists_comes (l : Language) (stack : Stack)
    (hdepth : stack.frames.length ≤ l.config.maxDepth) (step : Step) (s : ParseState) :
    ∃ r, l.Comes stack (.step step) s r ∧ s.Leads r.state := by
  have hroom : l.config.maxDepth - stack.frames.length + stack.frames.length =
      l.config.maxDepth := Nat.sub_add_cancel hdepth
  have hrun := runs_self (l := l) (l.config.maxDepth - stack.frames.length) stack [step] s
  rw [runSeq_singleton] at hrun
  exact ⟨_, comes_runStep (callsCome _ stack hroom) step s, hrun.leads⟩

/-! ## Whole parses -/

/-- One thing is done. -/
abbrev Next (l : Language) (m m' : Moment) : Prop := l.advance m = some m'

/-- The parse comes to the moment. -/
abbrev Reaches (l : Language) (start : String) (tokens : List Token) : Moment → Prop :=
  Relation.ReflTransGen l.Next (l.firstMoment start tokens)

theorem Within.next (h : l.Within pending m m') : Relation.ReflTransGen l.Next m m' :=
  h.lift id fun _ _ => Goes.next

theorem leads_of_next (h : Relation.ReflTransGen l.Next m m') : m.state.Leads m'.state := by
  induction h with
  | refl => exact .refl _
  | tail _ hnext ih =>
    obtain ⟨stack, hchange⟩ := change_of_advance hnext
    exact ih.trans hchange.leads

variable {start : String} {tokens : List Token}

theorem advance_returning (l : Language) (frames : List Frame) (r : Result (List Tree)) :
    l.advance (.returning frames [] r) = none := by
  cases r <;> cases frames <;> rfl

/-- The machine comes to an end with the result of the engine. -/
theorem exists_reaches_end (l : Language) (start : String) (tokens : List Token) :
    ∃ result : Result Tree, l.Reaches start tokens (.returning [] [] (result.map ([·]))) ∧
      result.state = l.lastState start tokens ∧ l.parse start tokens = finish start result := by
  cases h : l.rule? start with
  | none =>
    refine ⟨.error (.fatal (.unknownRule start)) (.start tokens), ?_, ?_, ?_⟩
    · rw [Reaches, firstMoment, h]
      exact .refl
    · rw [lastState_undeclared h]
      rfl
    · rw [parse_undeclared h]
      rfl
  | some r =>
    refine ⟨l.invoke l.config.maxDepth r [] none (.start tokens), ?_, ?_, parse_eq_finish h⟩
    · rw [Reaches, firstMoment, h]
      cases hd : l.config.maxDepth with
      | zero =>
        simp only [enter, hd, invoke_zero]
        exact .refl
      | succ room =>
        have hbody :=
          comes_runSeq (callsCome room (startStack r) hd.symm) r.body (startState r tokens)
        have hleave := hbody.resume .leave []
        rw [resume_leave] at hleave
        have hspace : ([] : List Frame).length < l.config.maxDepth := by
          rw [hd]
          exact Nat.succ_pos room
        simp only [enter, if_pos hspace]
        rw [invoke_succ]
        exact Within.next hleave
    · rw [lastState_eq h]

/-- Whatever the parse comes to, it goes on from there to its end. -/
theorem Reaches.ends {last : Moment} (h : l.Reaches start tokens m)
    (hlast : l.Reaches start tokens last) (hend : l.advance last = none) :
    Relation.ReflTransGen l.Next m last := by
  have hunique : Relator.RightUnique l.Next := fun _ _ _ h h' => Option.some.inj (h.symm.trans h')
  rcases Relation.ReflTransGen.total_of_right_unique hunique h hlast with hlater | hearlier
  · exact hlater
  · -- nothing comes after the end but the end itself
    rcases Relation.ReflTransGen.cases_head hearlier with rfl | ⟨next, hnext, -⟩
    · exact .refl
    · exact absurd (hend.symm.trans hnext) nofun

/-- All that has happened up to some moment is in the history of the parse. -/
theorem Reaches.history_suffix (h : l.Reaches start tokens m) :
    m.state.history <:+ (l.lastState start tokens).history := by
  obtain ⟨result, hend, hlast, -⟩ := exists_reaches_end l start tokens
  have hleads := leads_of_next (h.ends hend (l.advance_returning _ _))
  rw [Moment.state_returning, Result.state_map, hlast] at hleads
  exact hleads.history

end Language

end TopDown
