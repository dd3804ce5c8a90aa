import TopDown.Log
import TopDown.Text.Quoted
import TopDown.Vocabulary

/-!
# Lexing

The lexer splits a text into tokens. At each place the classes of the vocabulary are tried in their
order, and the first one whose pattern matches there, on more than the empty text, makes the next
token. Where no class matches, characters are gathered up to the next place where one does, and the
run is reported as an error.

The text is first cut into segments, which make it up again, and then offsets are laid over those
that are not dropped. Every offset counts bytes of the text in UTF-8.
-/

namespace TopDown

/-- A piece of text of some class, or a stand-in for one that is missing. -/
structure Token where
  /-- The class of the token. -/
  kind : TokenId
  /-- The text of the token. -/
  text : String
  /-- The offset of the first byte. -/
  start : Nat
  /-- The offset after the last byte. -/
  stop : Nat
  /-- Whether error recovery made the token up. -/
  inserted : Bool := false
deriving DecidableEq

/-- An empty token of the given class that stands in for a missing one. -/
def Token.standIn (kind : TokenId) (offset : Nat) : Token := ⟨kind, "", offset, offset, true⟩

/-- A run of text where no class matches. -/
structure LexError where
  /-- The text of the run. -/
  text : String
  /-- The offset of the first byte. -/
  start : Nat
  /-- The offset after the last byte. -/
  stop : Nat
deriving DecidableEq

namespace LexError

/-- The error in words. -/
def message (e : LexError) : String := s!"unrecognized input `{e.text}` at {e.start}..{e.stop}"

/-- The record that the lexer leaves of the error. -/
def logRecord (e : LexError) : LogRecord :=
  ⟨.debug, .lexing, s!"no token matches {quote e.text} at {e.start}"⟩

end LexError

/-- A stretch of text with what the lexer makes of it. -/
inductive LexItem where
  /-- A token. -/
  | token (t : Token)
  /-- A run where no class matches. -/
  | error (e : LexError)
deriving DecidableEq

/-- A piece of a text with what the lexer finds there. -/
inductive Segment where
  /-- The match of a class. -/
  | matched (kind : TokenId) (skip : Bool) (text : List Char)
  /-- A run where no class matches. -/
  | unmatched (text : List Char)
deriving DecidableEq

/-- The text of the segment. -/
def Segment.text : Segment → List Char
  | .matched _ _ text | .unmatched text => text

/-- The match of a class at the beginning of a text. -/
structure Lexeme where
  /-- The class. -/
  kind : TokenId
  /-- Whether tokens of the class are dropped. -/
  skip : Bool
  /-- The number of characters matched. -/
  length : Nat
  /-- An empty match makes no token. -/
  length_pos : 0 < length

namespace Vocabulary

/-- The match of the class at the beginning of the text. -/
def lexeme? (text : List Char) (c : TokenClass) (id : TokenId) : Option Lexeme :=
  match c.pattern.bind (·.matchHere? (.ofList text)) with
  | some stop => if h : 0 < stop.position then some ⟨id, c.skip, stop.position, h⟩ else none
  | none => none

/-- The match of the first class that has one at the beginning of the text. -/
def firstLexeme? (v : Vocabulary) (text : List Char) : Option Lexeme :=
  v.classes.zipIdx.findSome? fun (c, id) => lexeme? text c id

/-- The number of characters before the first place where some class matches. -/
def unmatchedLength (v : Vocabulary) : List Char → Nat
  | [] => 0
  | c :: rest => if (v.firstLexeme? (c :: rest)).isSome then 0 else v.unmatchedLength rest + 1

/-- The segments of a text from left to right. -/
def segments (v : Vocabulary) (text : List Char) : List Segment :=
  match text with
  | [] => []
  | c :: rest =>
    match v.firstLexeme? (c :: rest) with
    | some m =>
      .matched m.kind m.skip ((c :: rest).take m.length) ::
        v.segments ((c :: rest).drop m.length)
    | none =>
      .unmatched (c :: rest.take (v.unmatchedLength rest)) ::
        v.segments (rest.drop (v.unmatchedLength rest))
termination_by text.length
decreasing_by
  · have := m.length_pos
    simp only [List.length_drop, List.length_cons]
    omega
  · simp only [List.length_drop, List.length_cons]
    omega

/-- The segments make up the text. -/
theorem flatMap_text_segments (v : Vocabulary) (text : List Char) :
    (v.segments text).flatMap (·.text) = text := by
  fun_induction segments v text with
  | case1 => rfl
  | case2 c rest m h ih =>
    rw [List.flatMap_cons, ih]
    exact List.take_append_drop m.length (c :: rest)
  | case3 c rest h ih =>
    rw [List.flatMap_cons, ih]
    exact congrArg (c :: ·) (List.take_append_drop ..)

end Vocabulary

/-- The number of bytes of the characters in UTF-8. -/
def byteLength : List Char → Nat
  | [] => 0
  | c :: rest => c.utf8Size + byteLength rest

/-- The items of segments that begin at the given offset. -/
def LexItem.ofSegments (offset : Nat) : List Segment → List LexItem
  | [] => []
  | .matched kind skip text :: rest =>
    let stop := offset + byteLength text
    if skip then ofSegments stop rest
    else .token ⟨kind, String.ofList text, offset, stop, false⟩ :: ofSegments stop rest
  | .unmatched text :: rest =>
    let stop := offset + byteLength text
    .error ⟨String.ofList text, offset, stop⟩ :: ofSegments stop rest

namespace Vocabulary

/-- The items of a text from left to right. -/
def lex (v : Vocabulary) (text : String) : List LexItem :=
  LexItem.ofSegments 0 (v.segments text.toList)

/-- The tokens and the errors of a text. -/
def tokenize (v : Vocabulary) (text : String) : List Token × List LexError :=
  let items := v.lex text
  (items.filterMap fun | .token t => some t | .error _ => none,
    items.filterMap fun | .error e => some e | .token _ => none)

end Vocabulary

end TopDown
