import TopDown.Regex.Reader

/-!
# Bracketed sets

The written form of sets of characters: characters, ranges, escapes, named sets and nested brackets,
combined by the set operations `&&`, `--` and `~~`, which group to the left and bind weaker than
standing side by side.

The brackets that are open are kept in a list, the innermost first, so the text is read in one pass.
-/

namespace TopDown

namespace Regex

/-- The set of ASCII characters with the given name. -/
def namedSet? (name : String) : Option CharSet :=
  match name with
  | "alnum" => some ⟨[(0x30, 0x39), (0x41, 0x5A), (0x61, 0x7A)]⟩
  | "alpha" => some ⟨[(0x41, 0x5A), (0x61, 0x7A)]⟩
  | "ascii" => some ⟨[(0x00, 0x7F)]⟩
  | "blank" => some ⟨[(0x09, 0x09), (0x20, 0x20)]⟩
  | "cntrl" => some ⟨[(0x00, 0x1F), (0x7F, 0x7F)]⟩
  | "digit" => some ⟨[(0x30, 0x39)]⟩
  | "graph" => some ⟨[(0x21, 0x7E)]⟩
  | "lower" => some ⟨[(0x61, 0x7A)]⟩
  | "print" => some ⟨[(0x20, 0x7E)]⟩
  | "punct" => some ⟨[(0x21, 0x2F), (0x3A, 0x40), (0x5B, 0x60), (0x7B, 0x7E)]⟩
  | "space" => some ⟨[(0x09, 0x0D), (0x20, 0x20)]⟩
  | "upper" => some ⟨[(0x41, 0x5A)]⟩
  | "word" => some ⟨[(0x30, 0x39), (0x41, 0x5A), (0x5F, 0x5F), (0x61, 0x7A)]⟩
  | "xdigit" => some ⟨[(0x30, 0x39), (0x41, 0x46), (0x61, 0x66)]⟩
  | _ => none

/-- A named set, whose opening bracket and colon have been read. Every form of its characters is
added before the complement is taken. -/
def readNamedSet (f : Flags) (text : List Char) : Option (CharSet × List Char) :=
  let (negated, text) :=
    match text with
    | '^' :: rest => (true, rest)
    | _ => (false, text)
  match text.dropWhile (· != ':') with
  | ':' :: ']' :: rest =>
    (namedSet? (String.ofList (text.takeWhile (· != ':')))).map fun set =>
      (if negated then (f.folded set).compl else f.folded set, rest)
  | _ => none

/-- An operation between two sets. -/
inductive SetOp where
  /-- What is in both. -/
  | inter
  /-- What is in the first only. -/
  | diff
  /-- What is in exactly one. -/
  | symmDiff

/-- The result of the operation. -/
def SetOp.apply : SetOp → CharSet → CharSet → CharSet
  | .inter, s, t => s.inter t
  | .diff, s, t => s.diff t
  | .symmDiff, s, t => s.symmDiff t

/-- The operation at the beginning of the text. -/
def readSetOp : List Char → Option (SetOp × List Char)
  | '&' :: '&' :: rest => some (.inter, rest)
  | '-' :: '-' :: rest => some (.diff, rest)
  | '~' :: '~' :: rest => some (.symmDiff, rest)
  | _ => none

/-- A bracket that is open. -/
structure OpenBracket where
  /-- Whether the set is to be complemented. -/
  negated : Bool
  /-- The left side of an operation whose right side is being read. -/
  pending : Option (CharSet × SetOp) := none
  /-- The characters read since the bracket or the last operation. -/
  items : CharSet

namespace OpenBracket

/-- The bracket with more characters. -/
def add (b : OpenBracket) (set : CharSet) : OpenBracket := { b with items := b.items.union set }

/-- The result of what has been read since the bracket. -/
def operand (f : Flags) (b : OpenBracket) : CharSet :=
  let items := f.folded b.items
  match b.pending with
  | some (left, op) => op.apply left items
  | none => items

/-- The set of the bracket when it closes. -/
def close (f : Flags) (b : OpenBracket) : CharSet :=
  if b.negated then (b.operand f).compl else b.operand f

/-- The bracket after an operation sign. -/
def operate (f : Flags) (b : OpenBracket) (op : SetOp) : OpenBracket :=
  { b with pending := some (b.operand f, op), items := .empty }

end OpenBracket

/-- The hyphens at the beginning of a bracket, which stand for themselves. Something has to come
after them. -/
def readHyphens (f : Flags) (seen : Bool) : List Char → Option (Bool × List Char)
  | [] => none
  | c :: rest =>
    if c == '-' then readHyphens f true rest
    else if seen && f.verbose && isBlank c then readHyphens f seen rest
    else some (seen, c :: rest)

/-- The beginning of a bracket, whose opening character has been read: a sign of complement,
hyphens, and a closing bracket that stands for itself. -/
def openBracket (f : Flags) (text : List Char) : Option (OpenBracket × List Char) := do
  let (negated, text) :=
    match skipBlank f text with
    | '^' :: rest => (true, skipBlank f rest)
    | rest => (false, rest)
  let (hyphens, text) ← readHyphens f false text
  if hyphens then return (⟨negated, none, .single '-'⟩, text)
  match text with
  | ']' :: rest =>
    match skipBlank f rest with
    | [] => none
    | rest => return (⟨negated, none, .single ']'⟩, rest)
  | _ => return (⟨negated, none, .empty⟩, text)

/-- One character or escape inside a bracket. -/
def readItem (f : Flags) : List Char → Option (Primitive × List Char)
  | [] => none
  | '\\' :: rest => readEscape f rest
  | c :: rest => some (.literal c, rest)

/-- One character, one escape, or a range inside a bracket. A hyphen before the end of the bracket
or before another hyphen is none of a range. -/
def readRange (f : Flags) (text : List Char) : Option (CharSet × List Char) := do
  let (first, rest) ← readItem f text
  let rest := skipBlank f rest
  let isRange :=
    match rest with
    | '-' :: after =>
      match skipBlank f after with
      | ']' :: _ | '-' :: _ => false
      | _ => true
    | _ => false
  if isRange then
    match first, ← readItem f (skipBlank f rest.tail) with
    | .literal lo, (.literal hi, rest) => if lo ≤ hi then return (.range lo hi, rest) else none
    | _, _ => none
  else
    match first, rest with
    | _, [] => none
    | .literal c, rest => return (.single c, rest)
    | .set s, rest => return (s, rest)
    | .assertion _, _ => none

/-- Reads on inside the innermost bracket; the others are still to be closed after it. Each turn
reads at least one of at most `room` characters. -/
def readBracketFrom (f : Flags) :
    (room : Nat) → OpenBracket → List OpenBracket → List Char → Option (CharSet × List Char)
  | 0, _, _, _ => none
  | room + 1, inner, outer, text =>
    match skipBlank f text with
    | [] => none
    | ']' :: rest =>
      match outer with
      | [] => some (inner.close f, rest)
      | b :: outer => readBracketFrom f room (b.add (inner.close f)) outer rest
    | '[' :: rest =>
      let named :=
        match rest with
        | ':' :: rest => readNamedSet f rest
        | _ => none
      match named with
      | some (set, rest) => readBracketFrom f room (inner.add set) outer rest
      | none =>
        match openBracket f rest with
        | some (b, rest) => readBracketFrom f room b (inner :: outer) rest
        | none => none
    | text =>
      match readSetOp text with
      | some (op, rest) => readBracketFrom f room (inner.operate f op) outer rest
      | none =>
        match readRange f text with
        | some (set, rest) => readBracketFrom f room (inner.add set) outer rest
        | none => none

/-- A bracketed set, whose opening bracket has been read. -/
def readBracket (f : Flags) (text : List Char) : Option (CharSet × List Char) := do
  let (b, rest) ← openBracket f text
  readBracketFrom f (rest.length + 1) b [] rest

end Regex

end TopDown
