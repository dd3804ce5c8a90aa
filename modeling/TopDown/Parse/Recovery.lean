import TopDown.Parse.State

/-!
# Recovery from syntax errors

Where a step calls for a token that is not there, the parser first tries to get past the error
inside the rule: by dropping one token if the expected one comes after it, or by making up the
expected token if what comes next can follow it. If neither helps, the step fails, and the innermost
invocation that can be followed by some token ahead is given up there: the tokens before that one
are skipped. After a repetition the parser also looks ahead for the next round.

What can follow an invocation is the follow set of its call site, and the end of the input for the
start rule. The resync set of a stack is what can follow any of its invocations.
-/

namespace TopDown

namespace Language

/-- What can follow the invocation. -/
def frameFollow (l : Language) (frame : Frame) : TokenSet :=
  match frame.site with
  | some site => (l.table.follow? site).elim ∅ (·.set)
  | none => .single l.vocabulary.eof

/-- What can follow any invocation of the stack. -/
def resyncSet (l : Language) (stack : Stack) : TokenSet :=
  stack.frames.foldl (fun set frame => set.union (l.frameFollow frame)) ∅

/-- The first place at or after the cursor whose token is in the resync set, or the end. -/
def resyncPoint (l : Language) (stack : Stack) (c : Cursor Token) : Cursor Token :=
  c.seek fun t => (l.resyncSet stack).admits l.vocabulary t.kind

/-- The class of the token after the cursor or of the end of the input. -/
def kindAt (l : Language) (c : Cursor Token) : TokenId := c.next?.elim l.vocabulary.eof (·.kind)

/-- The error of a call for a class whose token is not there. -/
def mismatch (l : Language) (stack : Stack) (expected : TokenId) (s : ParseState) : SyntaxError :=
  s.syntaxError stack (.mismatchedToken (l.vocabulary.name expected) s.describeNext)

/-- Whether what is called for comes after the next token; the end of the input counts as a token
here. -/
def comesSecond (l : Language) (expected : TokenId) (s : ParseState) : Bool :=
  l.vocabulary.isA ((s.cursor.peek? 2).elim l.vocabulary.eof (·.kind)) expected

/-- Whether a token of the expected class may be made up at the call site: the class has to be one
that may be made up, and the next token has to be one that can follow it. -/
def canInsert (l : Language) (stack : Stack) (expected : TokenId) (idx : Nat) (s : ParseState) :
    Bool :=
  !l.vocabulary.isAbstract expected && l.mayInsert expected &&
    (l.table.follow? ⟨stack.rule, .token expected, idx⟩).any fun follow =>
      let next := s.nextKind l.vocabulary
      follow.set.admits l.vocabulary next ||
        follow.nullable && (l.resyncSet stack).admits l.vocabulary next

/-- Fails with the error. -/
def raise {α : Type} (stack : Stack) (error : SyntaxError) : Action α := fun s =>
  .error (.syntaxError error) (s.note (.raised error stack s.position))

/-- What is called for if it comes after the next token, and the place after it. -/
def second? (l : Language) (expected : TokenId) : Cursor Token → Option (Token × Cursor Token)
  | ⟨past, extra :: t :: rest⟩ =>
    if l.vocabulary.isA t.kind expected then some (t, ⟨t :: extra :: past, rest⟩) else none
  | _ => none

/-- Gets past a token that is not there inside the rule, or fails. -/
def recoverInRule (l : Language) (stack : Stack) (expected : TokenId) (idx : Nat) :
    Action Token := fun s =>
  let error := l.mismatch stack expected s
  if l.config.recovery then
    match l.second? expected s.cursor with
    | some (t, cursor) =>
      .ok t ⟨cursor, .deleted { error with recovery := .deleted } s.position :: s.history⟩
    | none =>
      if l.canInsert stack expected idx s then
        .ok (.standIn expected s.nextSpan.1)
          (s.note (.inserted { error with recovery := .inserted } expected idx s.position))
      else raise stack error s
  else raise stack error s

/-- Gives up the innermost invocation after the error, if the parse can go on after it at the resync
point; the error is passed on otherwise. -/
def resync (l : Language) (stack : Stack) (error : SyntaxError) : Action Tree := fun s =>
  if !l.config.recovery then .error (.syntaxError error) s
  else
    let target := l.resyncPoint stack s.cursor
    let kind := l.kindAt target
    if (l.frameFollow stack.top).admits l.vocabulary kind then
      let error := { error with recovery := .resynced (target.position - s.position) }
      .ok .hole ⟨target, .resumed error stack kind target.position :: s.history⟩
    else .error (.syntaxError error) s

/-- Whether some branch can start with a token of the class. -/
def admitsAny (l : Language) (branches : List Lookahead) (kind : TokenId) : Bool :=
  branches.any fun branch => branch.set.admits l.vocabulary kind

/-- What ends a repetition, and the index of the call for it if it is one: a token that is called
for right after the repetition, or the end of the input after a repetition that ends the start
rule. -/
def repetitionEnd? (l : Language) (stack : Stack) (key : DecisionKey) :
    Option (TokenId × Option Nat) :=
  match l.table.afterRepetition? key with
  | some (.terminal token idx) => some (token, some idx)
  | some .endOfRule => if stack.below.isEmpty then some (l.vocabulary.eof, none) else none
  | some .other | none => none

/-- The first place whose token satisfies `stop`, if no token before it satisfies `giveUp`. The
tokens that have been passed are given apart from those ahead. -/
def scan (stop giveUp : TokenId → Bool) (eof : TokenId) :
    List Token → List Token → Option (Cursor Token)
  | past, [] => if stop eof then some ⟨past, []⟩ else none
  | past, t :: rest =>
    if stop t.kind then some ⟨past, t :: rest⟩
    else if giveUp t.kind then none
    else scan stop giveUp eof (t :: past) rest

/-- The place after at least one token where a repetition can go on or end with the expected class,
provided it comes before the resync point. -/
def repetitionPoint? (l : Language) (stack : Stack) (branches : List Lookahead)
    (expected : TokenId) (s : ParseState) : Option (Cursor Token) :=
  let limit := l.kindAt (l.resyncPoint stack s.cursor)
  let giveUp (kind : TokenId) : Bool := kind == limit || kind == l.vocabulary.eof
  let stop (kind : TokenId) : Bool := l.vocabulary.isA kind expected || l.admitsAny branches kind
  match s.cursor with
  | ⟨_, []⟩ => none
  | ⟨past, t :: rest⟩ =>
    if giveUp t.kind then none else scan stop giveUp l.vocabulary.eof (t :: past) rest

/-- Whether what comes after a repetition can be dealt with where it is called for: it is there, or
comes after one token, or can be made up. -/
def canEndRepetition (l : Language) (stack : Stack) (expected : TokenId) (idx : Option Nat)
    (s : ParseState) : Bool :=
  l.vocabulary.isA (s.nextKind l.vocabulary) expected ||
    idx.any fun idx => l.comesSecond expected s || l.canInsert stack expected idx s

/-- After a repetition has stopped at a token that can neither begin a round nor come after the
repetition: skips to the place where the repetition can go on or end. Gives the state there, and
whether the repetition goes on. -/
def recoverInRepetition (l : Language) (stack : Stack) (key : DecisionKey)
    (branches : List Lookahead) (s : ParseState) : Option (ParseState × Bool) :=
  match l.repetitionEnd? stack key with
  | none => none
  | some (expected, idx) =>
    if !l.config.recovery || l.canEndRepetition stack expected idx s then none
    else
      match l.repetitionPoint? stack branches expected s with
      | none => none
      | some target =>
        let error := { l.mismatch stack expected s with
          recovery := .resynced (target.position - s.position) }
        some (⟨target, .skipped error key target.position :: s.history⟩,
          l.admitsAny branches (l.kindAt target))

theorem rest_length_scan {stop giveUp : TokenId → Bool} {eof : TokenId} {past rest : List Token}
    {c : Cursor Token} (h : scan stop giveUp eof past rest = some c) :
    c.rest.length ≤ rest.length := by
  induction rest generalizing past with
  | nil =>
    simp only [scan] at h
    split at h
    · cases h; simp
    · cases h
  | cons t rest ih =>
    simp only [scan] at h
    split at h
    · cases h; simp
    · split at h
      · cases h
      · have := ih h
        simp only [List.length_cons]
        omega

theorem rest_length_repetitionPoint {l : Language} {stack : Stack} {branches : List Lookahead}
    {expected : TokenId} {s : ParseState} {c : Cursor Token}
    (h : l.repetitionPoint? stack branches expected s = some c) :
    c.rest.length < s.cursor.rest.length := by
  simp only [repetitionPoint?] at h
  split at h
  · cases h
  · rename_i past t rest hcursor
    split at h
    · cases h
    · have := rest_length_scan h
      simp only [hcursor, List.length_cons]
      omega

/-- Skipping after a repetition passes at least one token. -/
theorem rest_length_recoverInRepetition {l : Language} {stack : Stack} {key : DecisionKey}
    {branches : List Lookahead} {s s' : ParseState} {resumes : Bool}
    (h : l.recoverInRepetition stack key branches s = some (s', resumes)) :
    s'.cursor.rest.length < s.cursor.rest.length := by
  simp only [recoverInRepetition] at h
  split at h
  · cases h
  · split at h
    · cases h
    · split at h
      · cases h
      · rename_i target hpoint
        cases h
        exact rest_length_repetitionPoint hpoint

end Language

end TopDown
