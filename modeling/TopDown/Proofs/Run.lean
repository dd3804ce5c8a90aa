import TopDown.Parse.Engine

/-!
# Runs

The engine runs rules by nested recursion: over the room that is left for invocations, over the
steps of a rule, and over the rounds of a repetition. `Language.Runs` says the same in rules, one
for each thing that can happen to the first of the steps, and `Language.runs_iff` says that the
rules and the engine agree. So what holds of every parse is proved by one induction over a run.
-/

namespace TopDown

/-- What a part of a parse comes to: a value or an error, and the state that is left. -/
abbrev Result (α : Type) := EStateM.Result ParseError ParseState α

namespace Result

variable {α β γ : Type}

/-- The state that is left. -/
def state : Result α → ParseState
  | .ok _ s | .error _ s => s

/-- The value, if there is no error. -/
def value? : Result α → Option α
  | .ok a _ => some a
  | .error .. => none

/-- The result with another value. -/
def map (f : α → β) : Result α → Result β
  | .ok a s => .ok (f a) s
  | .error e s => .error e s

@[simp] theorem state_ok (a : α) (s : ParseState) : state (.ok a s) = s := rfl

@[simp] theorem state_error (e : ParseError) (s : ParseState) :
    state (.error e s : Result α) = s := rfl

@[simp] theorem map_ok (f : α → β) (a : α) (s : ParseState) : map f (.ok a s) = .ok (f a) s := rfl

@[simp] theorem map_error (f : α → β) (e : ParseError) (s : ParseState) :
    map f (.error e s) = .error e s := rfl

@[simp] theorem state_map (f : α → β) (r : Result α) : state (map f r) = state r := by
  cases r <;> rfl

theorem map_map (f : α → β) (g : β → γ) (r : Result α) :
    map g (map f r) = map (fun a => g (f a)) r := by
  cases r <;> rfl

theorem map_eq_ok_iff {f : α → β} {r : Result α} {b : β} {s : ParseState} :
    map f r = .ok b s ↔ ∃ a, r = .ok a s ∧ f a = b := by
  cases r with
  | ok a s' => simp only [map_ok, EStateM.Result.ok.injEq]; grind
  | error e s' => simp

end Result

/-- The stack with one more invocation on it. -/
def Stack.push (stack : Stack) (rule : String) (site : CallSite) (entry : Nat) : Stack :=
  ⟨⟨rule, some site, entry⟩, stack.frames⟩

@[simp] theorem Stack.rule_push (stack : Stack) (rule : String) (site : CallSite) (entry : Nat) :
    (stack.push rule site entry).rule = rule := rfl

/-- The trees of a repetition with one more round in front. -/
def addRound (parts : List Tree) : List Tree → List Tree
  | [.rounds more] => [.rounds (parts :: more)]
  | trees => trees

namespace Language

/-- How steps call for other rules when `room` more invocations can be nested. -/
def caller (l : Language) (room : Nat) (r : RuleDef) (stack : Stack) (site : CallSite) :
    Action Tree :=
  l.invoke room r stack.frames (some site)

/-- Ends the invocation on top of the stack, whose steps came to the given result. -/
def leave (l : Language) (stack : Stack) : Result (List Tree) → Result Tree
  | .ok parts s => .ok (.node stack.rule parts) s
  | .error (.syntaxError e) s =>
    if stack.below.isEmpty then .error (.syntaxError e) s else l.resync stack e s
  | .error (.fatal e) s => .error (.fatal e) s

/-- Steps that are done under a stack in a state, with `room` for more invocations, come to a
result. -/
inductive Runs (l : Language) : Nat → Stack → List Step → ParseState → Result (List Tree) → Prop where
  /-- Nothing is left to do. -/
  | nil {room : Nat} {stack : Stack} {s : ParseState} : Runs l room stack [] s (.ok [] s)
  /-- The first step is done, and so are the others. -/
  | cons {room : Nat} {stack : Stack} {step : Step} {rest : List Step} {s s' : ParseState}
      {parts : List Tree} {r : Result (List Tree)} (head : Runs l room stack [step] s (.ok parts s'))
      (tail : Runs l room stack rest s' r) :
      Runs l room stack (step :: rest) s (r.map (parts ++ ·))
  /-- The first step fails. -/
  | fails {room : Nat} {stack : Stack} {step : Step} {rest : List Step} {s s' : ParseState}
      {e : ParseError} (head : Runs l room stack [step] s (.error e s')) :
      Runs l room stack (step :: rest) s (.error e s')
  /-- A token is called for. -/
  | consume {room : Nat} {stack : Stack} {token : TokenId} {idx : Nat} {s : ParseState} :
      Runs l room stack [.consume token idx] s
        (Result.map (fun t => [.token t]) (l.consume stack token idx s))
  /-- There is no such rule. -/
  | undeclared {room : Nat} {stack : Stack} {name : String} {idx : Nat} {s : ParseState}
      (h : l.rule? name = none) :
      Runs l room stack [.subrule name idx] s (.error (.fatal (.unknownRule name)) s)
  /-- There is no room for the rule. -/
  | refused {stack : Stack} {name : String} {idx : Nat} {r : RuleDef} {s : ParseState}
      (h : l.rule? name = some r) :
      Runs l 0 stack [.subrule name idx] s
        (.error (.fatal (.recursionLimit r.name l.config.maxDepth))
          (s.note (.refused r.name s.position)))
  /-- The rule is run. -/
  | entered {room : Nat} {stack : Stack} {name : String} {idx : Nat} {r : RuleDef} {s : ParseState}
      {inner : Stack} {result : Result (List Tree)} (h : l.rule? name = some r)
      (hinner : inner = stack.push r.name ⟨stack.rule, .rule name, idx⟩ s.position)
      (body : Runs l room inner r.body (s.note (.entered inner)) result) :
      Runs l (room + 1) stack [.subrule name idx] s ((l.leave inner result).map ([·]))
  /-- The option was not recorded. -/
  | noOption {room : Nat} {stack : Stack} {idx : Nat} {body : List Step} {s : ParseState}
      {e : ParseError} (h : l.branches stack .option idx = .error e) :
      Runs l room stack [.option idx body] s (.error e s)
  /-- The option is left out. -/
  | leftOut {room : Nat} {stack : Stack} {idx : Nat} {body : List Step} {s : ParseState}
      {branches : List Lookahead} (h : l.branches stack .option idx = .ok branches)
      (hp : l.predicts branches s = false) :
      Runs l room stack [.option idx body] s (.ok [.leftOut] s)
  /-- The option is taken. -/
  | taken {room : Nat} {stack : Stack} {idx : Nat} {steps : List Step} {s : ParseState}
      {branches : List Lookahead} {r : Result (List Tree)}
      (h : l.branches stack .option idx = .ok branches) (hp : l.predicts branches s = true)
      (body : Runs l room stack steps s r) :
      Runs l room stack [.option idx steps] s (r.map fun parts => [.taken parts])
  /-- The repetition was not recorded. -/
  | noMany {room : Nat} {stack : Stack} {idx : Nat} {body : List Step} {s : ParseState}
      {e : ParseError} (h : l.branches stack .many idx = .error e) :
      Runs l room stack [.many idx body] s (.error e s)
  /-- The repetition ends. -/
  | stopped {room : Nat} {stack : Stack} {idx : Nat} {body : List Step} {s : ParseState}
      {branches : List Lookahead} (h : l.branches stack .many idx = .ok branches)
      (hp : l.predicts branches s = false)
      (hr : l.recoverInRepetition stack ⟨stack.rule, .many, idx⟩ branches s = none) :
      Runs l room stack [.many idx body] s (.ok [.rounds []] s)
  /-- Tokens are skipped after the last round. -/
  | skipped {room : Nat} {stack : Stack} {idx : Nat} {body : List Step} {s s' : ParseState}
      {branches : List Lookahead} (h : l.branches stack .many idx = .ok branches)
      (hp : l.predicts branches s = false)
      (hr : l.recoverInRepetition stack ⟨stack.rule, .many, idx⟩ branches s = some (s', false)) :
      Runs l room stack [.many idx body] s (.ok [.rounds []] s')
  /-- Tokens are skipped before the next round. -/
  | resumed {room : Nat} {stack : Stack} {idx : Nat} {body : List Step} {s s' : ParseState}
      {branches : List Lookahead} {r : Result (List Tree)}
      (h : l.branches stack .many idx = .ok branches) (hp : l.predicts branches s = false)
      (hr : l.recoverInRepetition stack ⟨stack.rule, .many, idx⟩ branches s = some (s', true))
      (again : Runs l room stack [.many idx body] s' r) : Runs l room stack [.many idx body] s r
  /-- A round of the repetition is done. -/
  | round {room : Nat} {stack : Stack} {idx : Nat} {steps : List Step} {s s' : ParseState}
      {branches : List Lookahead} {parts : List Tree} {r : Result (List Tree)}
      (h : l.branches stack .many idx = .ok branches) (hp : l.predicts branches s = true)
      (body : Runs l room stack steps s (.ok parts s'))
      (progress : s'.cursor.rest.length < s.cursor.rest.length)
      (again : Runs l room stack [.many idx steps] s' r) :
      Runs l room stack [.many idx steps] s (r.map (addRound parts))
  /-- A round passes no token. -/
  | stalled {room : Nat} {stack : Stack} {idx : Nat} {steps : List Step} {s s' : ParseState}
      {branches : List Lookahead} {parts : List Tree}
      (h : l.branches stack .many idx = .ok branches) (hp : l.predicts branches s = true)
      (body : Runs l room stack steps s (.ok parts s'))
      (stall : ¬s'.cursor.rest.length < s.cursor.rest.length) :
      Runs l room stack [.many idx steps] s (.error (.fatal (.noProgress stack.rule idx)) s')
  /-- A round fails. -/
  | roundFails {room : Nat} {stack : Stack} {idx : Nat} {steps : List Step} {s s' : ParseState}
      {branches : List Lookahead} {e : ParseError}
      (h : l.branches stack .many idx = .ok branches) (hp : l.predicts branches s = true)
      (body : Runs l room stack steps s (.error e s')) :
      Runs l room stack [.many idx steps] s (.error e s')
  /-- The choice was not recorded. -/
  | noChoice {room : Nat} {stack : Stack} {idx : Nat} {label : Option String}
      {alternatives : List (List Step)} {s : ParseState} {e : ParseError}
      (h : l.branches stack .choice idx = .error e) :
      Runs l room stack [.choose idx label alternatives] s (.error e s)
  /-- No alternative can be taken. -/
  | unviable {room : Nat} {stack : Stack} {idx : Nat} {label : Option String}
      {alternatives : List (List Step)} {s : ParseState} {branches : List Lookahead}
      (h : l.branches stack .choice idx = .ok branches)
      (hc : ∀ i, l.chosenBranch? branches (s.nextKind l.vocabulary) = some i →
        alternatives[i]? = none) :
      Runs l room stack [.choose idx label alternatives] s
        (raise stack (l.noViableAlternative stack label branches s) s)
  /-- An alternative is taken. -/
  | chosen {room : Nat} {stack : Stack} {idx : Nat} {label : Option String}
      {alternatives : List (List Step)} {s : ParseState} {branches : List Lookahead} {i : Nat}
      {steps : List Step} {r : Result (List Tree)}
      (h : l.branches stack .choice idx = .ok branches)
      (hc : l.chosenBranch? branches (s.nextKind l.vocabulary) = some i)
      (hi : alternatives[i]? = some steps) (body : Runs l room stack steps s r) :
      Runs l room stack [.choose idx label alternatives] s (r.map fun parts => [.chosen i parts])
  /-- A token is looked at. -/
  | peek {room : Nat} {stack : Stack} {k : Nat} {s : ParseState} :
      Runs l room stack [.peek k] s (.ok [.peeked (s.cursor.peek? k)] s)
  /-- The errors are counted. -/
  | errorCount {room : Nat} {stack : Stack} {s : ParseState} :
      Runs l room stack [.errorCount] s (.ok [.errorCount s.errors.length] s)
  /-- Steps for running only are done. -/
  | live {room : Nat} {stack : Stack} {steps : List Step} {s : ParseState} {r : Result (List Tree)}
      (body : Runs l room stack steps s r) : Runs l room stack [.live steps] s r
  /-- Steps for recording only are passed over. -/
  | recorded {room : Nat} {stack : Stack} {steps : List Step} {s : ParseState} :
      Runs l room stack [.recorded steps] s (.ok [] s)
  /-- An attempt succeeds. -/
  | attempted {room : Nat} {stack : Stack} {steps : List Step} {s s' : ParseState}
      {parts : List Tree} (body : Runs l room stack steps s (.ok parts s')) :
      Runs l room stack [.attempt steps] s (.ok [.attempted parts] s')
  /-- An attempt fails. -/
  | abandoned {room : Nat} {stack : Stack} {steps : List Step} {s s' : ParseState} {e : ParseError}
      (body : Runs l room stack steps s (.error e s')) :
      Runs l room stack [.attempt steps] s (.ok [.abandoned e] s')
  /-- A step fails by itself. -/
  | fail {room : Nat} {stack : Stack} {e : ParseError} {s : ParseState} :
      Runs l room stack [.fail e] s (.error e s)


/-! ## The engine in equations -/

variable {l : Language} {room : Nat} {stack : Stack}

theorem invoke_zero (r : RuleDef) (below : List Frame) (site : Option CallSite) (s : ParseState) :
    l.invoke 0 r below site s = .error (.fatal (.recursionLimit r.name l.config.maxDepth))
      (s.note (.refused r.name s.position)) := rfl

theorem invoke_succ (r : RuleDef) (below : List Frame) (site : Option CallSite) (s : ParseState) :
    l.invoke (room + 1) r below site s = l.leave ⟨⟨r.name, site, s.position⟩, below⟩
      (l.runSeq (l.caller room) ⟨⟨r.name, site, s.position⟩, below⟩ r.body
        (s.note (.entered ⟨⟨r.name, site, s.position⟩, below⟩))) := by
  rw [invoke]
  rfl

/-- A computation whose value is only put into another form. -/
theorem bind_pure_apply {α β : Type} (x : Action α) (f : α → β) (s : ParseState) :
    (do return f (← x) : Action β) s = Result.map f (x s) := by
  show EStateM.bind x _ s = _
  simp only [EStateM.bind]
  cases x s <;> rfl

section Primitives

variable {idx : Nat} {s : ParseState} {branches : List Lookahead} {body : Action (List Tree)}

theorem option_eq (h : l.branches stack .option idx = .ok branches) :
    l.option stack idx body s =
      if l.predicts branches s then Result.map .taken (body s) else .ok .leftOut s := by
  simp only [option, h]
  cases body s <;> rfl

theorem many_eq (h : l.branches stack .many idx = .ok branches) :
    l.many stack idx body s = Result.map .rounds (l.rounds stack idx branches body s) := by
  simp only [many, h]
  cases l.rounds stack idx branches body s <;> rfl

theorem rounds_eq :
    l.rounds stack idx branches body s =
      if l.predicts branches s then
        match body s with
        | .error e s' => .error e s'
        | .ok parts s' =>
          if s'.cursor.rest.length < s.cursor.rest.length then
            Result.map (parts :: ·) (l.rounds stack idx branches body s')
          else .error (.fatal (.noProgress stack.rule idx)) s'
      else
        match l.recoverInRepetition stack ⟨stack.rule, .many, idx⟩ branches s with
        | none => .ok [] s
        | some (s', false) => .ok [] s'
        | some (s', true) => l.rounds stack idx branches body s' := by
  rw [rounds]
  split
  · cases body s with
    | error e s' => rfl
    | ok parts s' =>
      simp only [dite_eq_ite]
      split
      · cases l.rounds stack idx branches body s' <;> rfl
      · rfl
  · rcases l.recoverInRepetition stack ⟨stack.rule, .many, idx⟩ branches s with _ | ⟨s', _ | _⟩ <;>
      rfl

variable {label : Option String} {alternatives : List (List Step)}
variable (call : RuleDef → Stack → CallSite → Action Tree)

theorem runNth?_eq (i : Nat) :
    l.runNth? call stack alternatives i = (alternatives[i]?).map (l.runSeq call stack) := by
  induction alternatives generalizing i with
  | nil => simp [runNth?]
  | cons body rest ih =>
    cases i with
    | zero => simp [runNth?]
    | succ n => simp [runNth?, ih]

theorem choose_eq_chosen {i : Nat} {steps : List Step}
    (h : l.branches stack .choice idx = .ok branches)
    (hc : l.chosenBranch? branches (s.nextKind l.vocabulary) = some i)
    (hi : alternatives[i]? = some steps) :
    l.choose stack idx label (l.runNth? call stack alternatives) s =
      Result.map (.chosen i) (l.runSeq call stack steps s) := by
  have hn : l.runNth? call stack alternatives i = some (l.runSeq call stack steps) := by
    rw [runNth?_eq, hi, Option.map_some]
  simp only [choose, h, hc, Option.bind_eq_bind, Option.bind_some, hn, Option.pure_def]
  cases l.runSeq call stack steps s <;> rfl

theorem choose_eq_raise (h : l.branches stack .choice idx = .ok branches)
    (hc : ∀ i, l.chosenBranch? branches (s.nextKind l.vocabulary) = some i →
      alternatives[i]? = none) :
    l.choose stack idx label (l.runNth? call stack alternatives) s =
      raise stack (l.noViableAlternative stack label branches s) s := by
  simp only [choose, h]
  cases hi : l.chosenBranch? branches (s.nextKind l.vocabulary) with
  | none => rfl
  | some i =>
    have hn : l.runNth? call stack alternatives i = none := by
      rw [runNth?_eq, hc i hi, Option.map_none]
    simp only [Option.bind_eq_bind, Option.bind_some, hn, Option.bind_none]

theorem runSeq_nil : l.runSeq call stack [] s = .ok [] s := by
  rw [runSeq]
  rfl

theorem runSeq_cons (step : Step) (rest : List Step) :
    l.runSeq call stack (step :: rest) s =
      match l.runStep call stack step s with
      | .ok parts s' => Result.map (parts ++ ·) (l.runSeq call stack rest s')
      | .error e s' => .error e s' := by
  rw [runSeq]
  show EStateM.bind _ _ s = _
  simp only [EStateM.bind]
  cases l.runStep call stack step s with
  | error e s' => rfl
  | ok parts s' =>
    show EStateM.bind _ _ s' = _
    simp only [EStateM.bind]
    cases l.runSeq call stack rest s' <;> rfl

theorem runSeq_singleton (step : Step) :
    l.runSeq call stack [step] s = l.runStep call stack step s := by
  rw [runSeq_cons]
  cases l.runStep call stack step s with
  | error e s' => rfl
  | ok parts s' => simp [runSeq_nil]

end Primitives

/-! ## Every computation of the engine is a run -/

theorem runs_rounds {steps : List Step} {idx : Nat} {branches : List Lookahead}
    (h : l.branches stack .many idx = .ok branches)
    (ih : ∀ s, Runs l room stack steps s (l.runSeq (l.caller room) stack steps s)) (s : ParseState) :
    Runs l room stack [.many idx steps] s (Result.map (fun parts => [.rounds parts])
      (l.rounds stack idx branches (l.runSeq (l.caller room) stack steps) s)) := by
  induction hn : s.cursor.rest.length using Nat.strongRecOn generalizing s with
  | _ n again =>
    subst hn
    rw [rounds_eq]
    by_cases hp : l.predicts branches s = true
    · rw [if_pos hp]
      have hbody := ih s
      revert hbody
      cases l.runSeq (l.caller room) stack steps s with
      | error e s' => exact fun hbody => .roundFails h hp hbody
      | ok parts s' =>
        intro hbody
        by_cases hlt : s'.cursor.rest.length < s.cursor.rest.length
        · have hmore := Runs.round h hp hbody hlt (again _ hlt s' rfl)
          simpa only [if_pos hlt, Result.map_map, addRound] using hmore
        · simp only [if_neg hlt, Result.map_error]
          exact .stalled h hp hbody hlt
    · rw [if_neg hp]
      rw [Bool.not_eq_true] at hp
      cases hr : l.recoverInRepetition stack ⟨stack.rule, .many, idx⟩ branches s with
      | none => exact .stopped h hp hr
      | some target =>
        obtain ⟨s', resumes⟩ := target
        cases resumes with
        | false => exact .skipped h hp hr
        | true => exact .resumed h hp hr (again _ (rest_length_recoverInRepetition hr) s' rfl)

/-- The calls of rules are runs. -/
def CallsRun (l : Language) (room : Nat) (stack : Stack) : Prop :=
  ∀ name idx s, Runs l room stack [.subrule name idx] s
    (l.runStep (l.caller room) stack (.subrule name idx) s)

mutual

theorem runs_runStep (calls : CallsRun l room stack) : ∀ (step : Step) (s : ParseState),
    Runs l room stack [step] s (l.runStep (l.caller room) stack step s)
  | .consume token idx, s => by
    rw [runStep, bind_pure_apply]
    exact .consume
  | .subrule name idx, s => calls name idx s
  | .option idx body, s => by
    rw [runStep, bind_pure_apply]
    cases h : l.branches stack .option idx with
    | error e =>
      simp only [option, h]
      exact .noOption h
    | ok branches =>
      rw [option_eq h]
      by_cases hp : l.predicts branches s = true
      · rw [if_pos hp, Result.map_map]
        exact .taken h hp (runs_runSeq calls body s)
      · rw [if_neg hp]
        exact .leftOut h (by simpa using hp)
  | .many idx body, s => by
    rw [runStep, bind_pure_apply]
    cases h : l.branches stack .many idx with
    | error e =>
      simp only [many, h]
      exact .noMany h
    | ok branches =>
      rw [many_eq h, Result.map_map]
      exact runs_rounds h (runs_runSeq calls body) s
  | .choose idx label alternatives, s => by
    rw [runStep, bind_pure_apply]
    cases h : l.branches stack .choice idx with
    | error e =>
      simp only [choose, h]
      exact .noChoice h
    | ok branches =>
      by_cases hc : ∀ i, l.chosenBranch? branches (s.nextKind l.vocabulary) = some i →
          alternatives[i]? = none
      · rw [choose_eq_raise _ h hc]
        exact .unviable h hc
      · simp only [Classical.not_forall] at hc
        obtain ⟨i, hi, halt⟩ := hc
        obtain ⟨steps, hsteps⟩ := Option.ne_none_iff_exists'.1 halt
        rw [choose_eq_chosen _ h hi hsteps, Result.map_map]
        exact .chosen h hi hsteps (runs_alternatives calls alternatives i steps hsteps s)
  | .peek k, s => by
    rw [runStep]
    exact .peek
  | .errorCount, s => by
    rw [runStep]
    exact .errorCount
  | .live body, s => by
    rw [runStep]
    exact .live (runs_runSeq calls body s)
  | .recorded body, s => by
    rw [runStep]
    exact .recorded
  | .attempt body, s => by
    rw [runStep, bind_pure_apply, attempt]
    have hbody := runs_runSeq calls body s
    revert hbody
    cases l.runSeq (l.caller room) stack body s with
    | ok parts s' => exact .attempted
    | error e s' => exact .abandoned
  | .fail e, s => by
    rw [runStep]
    exact .fail

theorem runs_runSeq (calls : CallsRun l room stack) : ∀ (steps : List Step) (s : ParseState),
    Runs l room stack steps s (l.runSeq (l.caller room) stack steps s)
  | [], s => by
    rw [runSeq_nil]
    exact .nil
  | step :: rest, s => by
    rw [runSeq_cons]
    have head := runs_runStep calls step s
    revert head
    cases l.runStep (l.caller room) stack step s with
    | error e s' => exact .fails
    | ok parts s' => exact fun head => .cons head (runs_runSeq calls rest s')

theorem runs_alternatives (calls : CallsRun l room stack) :
    ∀ (alternatives : List (List Step)) (i : Nat) (steps : List Step),
      alternatives[i]? = some steps → ∀ s : ParseState,
        Runs l room stack steps s (l.runSeq (l.caller room) stack steps s)
  | [], i, steps, h, s => by simp at h
  | body :: rest, 0, steps, h, s => by
    obtain rfl : body = steps := by simpa using h
    exact runs_runSeq calls body s
  | body :: rest, i + 1, steps, h, s => runs_alternatives calls rest i steps (by simpa using h) s

end

/-- What the engine computes is a run. -/
theorem runs_self (room : Nat) (stack : Stack) (steps : List Step) (s : ParseState) :
    Runs l room stack steps s (l.runSeq (l.caller room) stack steps s) := by
  induction room generalizing stack steps s with
  | zero =>
    refine runs_runSeq (fun name idx s => ?_) steps s
    rw [runStep, bind_pure_apply, subrule]
    cases h : l.rule? name with
    | none => exact .undeclared h
    | some r => exact .refused h
  | succ room ih =>
    refine runs_runSeq (fun name idx s => ?_) steps s
    rw [runStep, bind_pure_apply, subrule]
    cases h : l.rule? name with
    | none => exact .undeclared h
    | some r =>
      show Runs l (room + 1) stack [.subrule name idx] s
        (Result.map _ (l.invoke (room + 1) r stack.frames _ s))
      rw [invoke_succ]
      exact .entered h rfl (ih ..)

/-! ## Every run is a computation of the engine -/

/-- A run comes to what the engine computes. -/
theorem Runs.eq {steps : List Step} {s : ParseState} {r : Result (List Tree)}
    (h : Runs l room stack steps s r) : l.runSeq (l.caller room) stack steps s = r := by
  induction h with
  | nil => rw [runSeq_nil]
  | cons _ _ hhead htail =>
    rw [runSeq_singleton] at hhead
    rw [runSeq_cons, hhead]
    simp only [htail]
  | fails _ hhead =>
    rw [runSeq_singleton] at hhead
    rw [runSeq_cons, hhead]
  | consume => rw [runSeq_singleton, runStep, bind_pure_apply]
  | undeclared h =>
    rw [runSeq_singleton, runStep, bind_pure_apply, subrule, h]
    rfl
  | refused h =>
    rw [runSeq_singleton, runStep, bind_pure_apply, subrule, h]
    rfl
  | entered h hinner _ ih =>
    rw [runSeq_singleton, runStep, bind_pure_apply, subrule, h]
    show Result.map _ (l.invoke _ _ _ _ _) = _
    subst hinner
    rw [invoke_succ, ← ih]
    rfl
  | noOption h => rw [runSeq_singleton, runStep, bind_pure_apply, option]; simp only [h, Result.map_error]
  | leftOut h hp =>
    rw [runSeq_singleton, runStep, bind_pure_apply, option_eq h, hp]
    rfl
  | taken h hp _ ih =>
    rw [runSeq_singleton, runStep, bind_pure_apply, option_eq h, if_pos hp, ih, Result.map_map]
  | noMany h => rw [runSeq_singleton, runStep, bind_pure_apply, many]; simp only [h, Result.map_error]
  | stopped h hp hr =>
    rw [runSeq_singleton, runStep, bind_pure_apply, many_eq h, rounds_eq, hp, hr]
    rfl
  | skipped h hp hr =>
    rw [runSeq_singleton, runStep, bind_pure_apply, many_eq h, rounds_eq, hp, hr]
    rfl
  | resumed h hp hr _ ih =>
    rw [runSeq_singleton, runStep, bind_pure_apply, many_eq h] at ih
    rw [runSeq_singleton, runStep, bind_pure_apply, many_eq h, rounds_eq, hp, hr]
    exact ih
  | round h hp _ progress _ hbody hagain =>
    rw [runSeq_singleton, runStep, bind_pure_apply, many_eq h, Result.map_map] at hagain
    rw [runSeq_singleton, runStep, bind_pure_apply, many_eq h, rounds_eq, if_pos hp, hbody]
    simp only [if_pos progress]
    rw [← hagain]
    simp only [Result.map_map, addRound]
  | stalled h hp _ stall hbody =>
    rw [runSeq_singleton, runStep, bind_pure_apply, many_eq h, rounds_eq, if_pos hp, hbody]
    simp only [if_neg stall, Result.map_error]
  | roundFails h hp _ hbody =>
    rw [runSeq_singleton, runStep, bind_pure_apply, many_eq h, rounds_eq, if_pos hp, hbody]
    rfl
  | noChoice h => rw [runSeq_singleton, runStep, bind_pure_apply, choose]; simp only [h, Result.map_error]
  | unviable h hc =>
    rw [runSeq_singleton, runStep, bind_pure_apply, choose_eq_raise _ h hc]
    rfl
  | chosen h hc hi _ ih =>
    rw [runSeq_singleton, runStep, bind_pure_apply, choose_eq_chosen _ h hc hi, ih, Result.map_map]
  | peek =>
    rw [runSeq_singleton, runStep]
    rfl
  | errorCount =>
    rw [runSeq_singleton, runStep]
    rfl
  | live _ ih => rw [runSeq_singleton, runStep, ih]
  | recorded =>
    rw [runSeq_singleton, runStep]
    rfl
  | attempted _ ih =>
    rw [runSeq_singleton, runStep, bind_pure_apply, attempt, ih]
    rfl
  | abandoned _ ih =>
    rw [runSeq_singleton, runStep, bind_pure_apply, attempt, ih]
    rfl
  | fail =>
    rw [runSeq_singleton, runStep]
    rfl

/-- The rules and the engine agree. -/
theorem runs_iff {steps : List Step} {s : ParseState} {r : Result (List Tree)} :
    Runs l room stack steps s r ↔ l.runSeq (l.caller room) stack steps s = r :=
  ⟨Runs.eq, fun h => h ▸ runs_self room stack steps s⟩

/-- All steps come to something. -/
theorem exists_run (l : Language) (room : Nat) (stack : Stack) (steps : List Step)
    (s : ParseState) : ∃ r, Runs l room stack steps s r :=
  ⟨_, runs_self room stack steps s⟩

/-! ## Whole parses -/

theorem mem_rules_of_rule? {name : String} {r : RuleDef} (h : l.rule? name = some r) :
    r ∈ l.rules :=
  List.mem_of_find?_eq_some h

theorem name_of_rule? {name : String} {r : RuleDef} (h : l.rule? name = some r) :
    r.name = name := by
  have hn := List.find?_some h
  simpa using hn

/-- The stack of a parse that starts from the rule. -/
def startStack (r : RuleDef) : Stack := ⟨⟨r.name, none, 0⟩, []⟩

/-- The state in which the steps of the start rule begin. -/
def startState (r : RuleDef) (tokens : List Token) : ParseState :=
  (ParseState.start tokens).note (.entered (startStack r))

theorem leave_startStack (r : RuleDef) (result : Result (List Tree)) :
    l.leave (startStack r) result = Result.map (.node r.name) result := by
  match result with
  | .ok parts s => rfl
  | .error (.syntaxError e) s => rfl
  | .error (.fatal e) s => rfl

section Parse

variable {start : String} {tokens : List Token} {r : RuleDef}

theorem parse_undeclared (h : l.rule? start = none) :
    l.parse start tokens = ⟨none, [], some (.unknownRule start)⟩ := by
  rw [parse, run, h]

theorem parse_refused (h : l.rule? start = some r) (hd : l.config.maxDepth = 0) :
    l.parse start tokens = ⟨none, [], some (.recursionLimit r.name l.config.maxDepth)⟩ := by
  rw [parse, run, h]
  simp only [hd, invoke_zero]
  rfl

theorem events_undeclared (h : l.rule? start = none) : (l.run start tokens).events = [] := by
  rw [run, h]

theorem events_refused (h : l.rule? start = some r) (hd : l.config.maxDepth = 0) :
    (l.run start tokens).events = [.refused r.name 0] := by
  rw [run, h]
  simp only [hd, invoke_zero]
  rfl

theorem invoke_entered {result : Result (List Tree)}
    (hr : Runs l room (startStack r) r.body (startState r tokens) result) :
    l.invoke (room + 1) r [] none (.start tokens) = Result.map (.node r.name) result := by
  rw [invoke_succ, ← leave_startStack (l := l), ← hr.eq]
  rfl

theorem run_entered {result : Result (List Tree)} (h : l.rule? start = some r)
    (hd : l.config.maxDepth = room + 1)
    (hr : Runs l room (startStack r) r.body (startState r tokens) result) :
    l.run start tokens = ⟨finish start (Result.map (.node r.name) result), result.state.events⟩ := by
  rw [run, h]
  simp only [hd, invoke_entered hr]
  cases result <;> rfl

theorem parse_entered {result : Result (List Tree)} (h : l.rule? start = some r)
    (hd : l.config.maxDepth = room + 1)
    (hr : Runs l room (startStack r) r.body (startState r tokens) result) :
    l.parse start tokens = finish start (Result.map (.node r.name) result) := by
  rw [parse, run_entered h hd hr]

end Parse

end Language

end TopDown
