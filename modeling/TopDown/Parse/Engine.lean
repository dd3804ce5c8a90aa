import TopDown.Parse.Recovery

/-!
# The parsing engine

Rules are run on tokens by recursive descent. Every decision is made by the lookahead table: an
option or a repetition goes on if the next token can start its body, and a choice takes the first
alternative that the next token can start, or else the first that can match nothing.

The depth of the nesting of rules is bounded by the configuration, and the rounds of a repetition by
the tokens ahead, since a round that passes no token ends the parse. So every parse ends.
-/

namespace TopDown

/-- The outcome of a parse. There is a value unless a fatal error ended the parse. -/
structure ParseOutput (α : Type) where
  /-- What the start rule gave. -/
  value : Option α
  /-- The syntax errors that the parser got past, and a last one if it did not use all tokens. -/
  errors : List SyntaxError
  /-- What ended the parse. -/
  fatal : Option FatalError

namespace ParseOutput

variable {α β : Type}

/-- Whether there was no error of any kind. -/
def isOk (o : ParseOutput α) : Bool := o.errors.isEmpty && o.fatal.isNone

/-- The outcome with another value. -/
def map (f : α → β) (o : ParseOutput α) : ParseOutput β := { o with value := o.value.map f }

end ParseOutput

namespace Language

/-- Calls for a token of the class. -/
def consume (l : Language) (stack : Stack) (expected : TokenId) (idx : Nat) : Action Token :=
  fun s =>
    match s.cursor with
    | ⟨past, t :: rest⟩ =>
      if l.vocabulary.isA t.kind expected then
        .ok t ⟨⟨t :: past, rest⟩, .consumed s.position :: s.history⟩
      else l.recoverInRule stack expected idx s
    | ⟨_, []⟩ => l.recoverInRule stack expected idx s

/-- The branches of a decision of the rule that is being run. -/
def branches (l : Language) (stack : Stack) (kind : DecisionKind) (idx : Nat) :
    Except ParseError (List Lookahead) :=
  match l.table.decision? ⟨stack.rule, kind, idx⟩ with
  | some branches => .ok branches
  | none => .error (.fatal (.unrecordedProduction stack.rule s!"{kind.label} #{idx}"))

/-- Whether the next token can start one of the branches. -/
def predicts (l : Language) (branches : List Lookahead) (s : ParseState) : Bool :=
  l.admitsAny branches (s.nextKind l.vocabulary)

/-- Does the body if the next token can start it. -/
def option (l : Language) (stack : Stack) (idx : Nat) (body : Action (List Tree)) : Action Tree :=
  fun s =>
    match l.branches stack .option idx with
    | .error e => .error e s
    | .ok branches =>
      if l.predicts branches s then
        match body s with
        | .ok parts s => .ok (.taken parts) s
        | .error e s => .error e s
      else .ok .leftOut s

/-- Does the body as long as the next token can start it, or it can after skipping tokens. A round
has to pass a token. -/
def rounds (l : Language) (stack : Stack) (idx : Nat) (branches : List Lookahead)
    (body : Action (List Tree)) : Action (List (List Tree)) := fun s =>
  if l.predicts branches s then
    match body s with
    | .error e s' => .error e s'
    | .ok parts s' =>
      if _h : s'.cursor.rest.length < s.cursor.rest.length then
        match rounds l stack idx branches body s' with
        | .ok more s'' => .ok (parts :: more) s''
        | .error e s'' => .error e s''
      else .error (.fatal (.noProgress stack.rule idx)) s'
  else
    match _h : l.recoverInRepetition stack ⟨stack.rule, .many, idx⟩ branches s with
    | none => .ok [] s
    | some (s', false) => .ok [] s'
    | some (s', true) => rounds l stack idx branches body s'
termination_by s => s.cursor.rest.length
decreasing_by
  · assumption
  · exact rest_length_recoverInRepetition _h

/-- Repeats the body. -/
def many (l : Language) (stack : Stack) (idx : Nat) (body : Action (List Tree)) : Action Tree :=
  fun s =>
    match l.branches stack .many idx with
    | .error e => .error e s
    | .ok branches =>
      match l.rounds stack idx branches body s with
      | .ok parts s => .ok (.rounds parts) s
      | .error e s => .error e s

/-- The branch of a choice to take: the first that a token of the class can start, or else the first
that can match nothing. -/
def chosenBranch? (l : Language) (branches : List Lookahead) (kind : TokenId) : Option Nat :=
  match branches.findIdx? (·.set.admits l.vocabulary kind) with
  | some i => some i
  | none => branches.findIdx? (·.nullable)

/-- The list without later repetitions. -/
def distinct : List TokenId → List TokenId
  | [] => []
  | x :: rest => x :: (distinct rest).filter (· != x)

/-- The error of a choice that the next token cannot start. -/
def noViableAlternative (l : Language) (stack : Stack) (label : Option String)
    (branches : List Lookahead) (s : ParseState) : SyntaxError :=
  let expected := distinct (branches.flatMap (·.set.ids))
  s.syntaxError stack
    (.noViableAlternative label (expected.map l.vocabulary.name) s.describeNext)

/-- Takes one of the alternatives, which are given by their places. -/
def choose (l : Language) (stack : Stack) (idx : Nat) (label : Option String)
    (alternative? : Nat → Option (Action (List Tree))) : Action Tree := fun s =>
  match l.branches stack .choice idx with
  | .error e => .error e s
  | .ok branches =>
    let taken := do
      let i ← l.chosenBranch? branches (s.nextKind l.vocabulary)
      return (i, ← alternative? i)
    match taken with
    | some (i, body) =>
      match body s with
      | .ok parts s => .ok (.chosen i parts) s
      | .error e s => .error e s
    | none => raise stack (l.noViableAlternative stack label branches s) s

/-- Does the body and lets its error pass. -/
def attempt (body : Action (List Tree)) : Action Tree := fun s =>
  match body s with
  | .ok parts s => .ok (.attempted parts) s
  | .error e s => .ok (.abandoned e) s

/-- Calls for a rule. -/
def subrule (l : Language) (call : RuleDef → Stack → CallSite → Action Tree) (stack : Stack)
    (name : String) (idx : Nat) : Action Tree :=
  match l.rule? name with
  | some r => call r stack ⟨stack.rule, .rule name, idx⟩
  | none => throw (.fatal (.unknownRule name))

mutual

/-- Does a step, where `call` runs other rules. -/
def runStep (l : Language) (call : RuleDef → Stack → CallSite → Action Tree) (stack : Stack) :
    Step → Action (List Tree)
  | .consume token idx => do return [.token (← l.consume stack token idx)]
  | .subrule name idx => do return [← l.subrule call stack name idx]
  | .option idx body => do return [← l.option stack idx (l.runSeq call stack body)]
  | .many idx body => do return [← l.many stack idx (l.runSeq call stack body)]
  | .choose idx label alternatives => do
    return [← l.choose stack idx label (l.runNth? call stack alternatives)]
  | .peek k => do return [.peeked ((← get).cursor.peek? k)]
  | .errorCount => do return [.errorCount (← get).errors.length]
  | .live body => l.runSeq call stack body
  | .recorded _ => return []
  | .attempt body => do return [← attempt (l.runSeq call stack body)]
  | .fail error => throw error

/-- Does steps one after the other. -/
def runSeq (l : Language) (call : RuleDef → Stack → CallSite → Action Tree) (stack : Stack) :
    List Step → Action (List Tree)
  | [] => return []
  | step :: rest => do
    let parts ← l.runStep call stack step
    return parts ++ (← l.runSeq call stack rest)

/-- The alternative at a place. -/
def runNth? (l : Language) (call : RuleDef → Stack → CallSite → Action Tree) (stack : Stack) :
    List (List Step) → Nat → Option (Action (List Tree))
  | [], _ => none
  | body :: _, 0 => some (l.runSeq call stack body)
  | _ :: rest, n + 1 => l.runNth? call stack rest n

end

/-- Runs a rule, below which at most `room` more invocations can be nested, itself included. The
invocations in `below` are under way. A syntax error of any rule but the start rule may be got past
here by giving up the rule. -/
def invoke (l : Language) :
    (room : Nat) → RuleDef → (below : List Frame) → Option CallSite → Action Tree
  | 0, r, _, _ => fun s =>
    .error (.fatal (.recursionLimit r.name l.config.maxDepth)) (s.note (.refused r.name s.position))
  | room + 1, r, below, site => fun s =>
    let stack : Stack := ⟨⟨r.name, site, s.position⟩, below⟩
    let call (r : RuleDef) (stack : Stack) (site : CallSite) : Action Tree :=
      l.invoke room r stack.frames (some site)
    match l.runSeq call stack r.body (s.note (.entered stack)) with
    | .ok parts s => .ok (.node r.name parts) s
    | .error (.syntaxError e) s =>
      if below.isEmpty then .error (.syntaxError e) s else l.resync stack e s
    | .error (.fatal e) s => .error (.fatal e) s

/-- The outcome of a parse with its events. -/
structure Run where
  /-- The outcome. -/
  output : ParseOutput Tree
  /-- What happened, in order. -/
  events : List Event

/-- The outcome of a parse that has ended with the given result. -/
def finish (start : String) : EStateM.Result ParseError ParseState Tree → ParseOutput Tree
  | .ok value s =>
    match s.cursor.next? with
    | some extra =>
      let error : SyntaxError :=
        ⟨.notAllInputParsed s!"'{extra.text}'", start, extra.start, extra.stop, .unrecovered⟩
      ⟨some value, s.errors ++ [error], none⟩
    | none => ⟨some value, s.errors, none⟩
  | .error (.syntaxError e) s =>
    ⟨none, s.errors,
      some (.unrecoverable { e with recovery := .resynced s.cursor.rest.length })⟩
  | .error (.fatal e) s => ⟨none, s.errors, some e⟩

/-- Runs the start rule on the tokens. -/
def run (l : Language) (start : String) (tokens : List Token) : Run :=
  match l.rule? start with
  | none => ⟨⟨none, [], some (.unknownRule start)⟩, []⟩
  | some r =>
    let result := l.invoke l.config.maxDepth r [] none (.start tokens)
    let last := match result with | .ok _ s | .error _ s => s
    ⟨finish start result, last.events⟩

/-- The outcome of a parse. -/
def parse (l : Language) (start : String) (tokens : List Token) : ParseOutput Tree :=
  (l.run start tokens).output

/-- The records that a parse leaves. -/
def parseLog (l : Language) (start : String) (tokens : List Token) : List LogRecord :=
  (l.run start tokens).events.filterMap (·.logRecord? l.vocabulary)

end Language

end TopDown
