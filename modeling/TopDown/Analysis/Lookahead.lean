import TopDown.TokenSet

/-!
# Lookahead

What can come next at some place of a rule: the classes of the token that can come first, and
whether nothing at all has to come.
-/

namespace TopDown

/-- What can come first in a piece of input. -/
structure Lookahead where
  /-- The classes of the first token. -/
  set : TokenSet
  /-- Whether the piece may be empty. -/
  nullable : Bool
deriving DecidableEq

namespace Lookahead

/-- The piece is empty. -/
def empty : Lookahead := ⟨∅, true⟩

/-- There is no such piece. -/
def none : Lookahead := ⟨∅, false⟩

instance : Inhabited Lookahead := ⟨none⟩

/-- The piece is a token of the class. -/
def token (t : TokenId) : Lookahead := ⟨.single t, false⟩

/-- What comes first in a piece followed by another. -/
def andThen (first second : Lookahead) : Lookahead :=
  if first.nullable then ⟨first.set.union second.set, second.nullable⟩ else first

/-- What comes first in a piece that is of one or the other kind. -/
def union (a b : Lookahead) : Lookahead := ⟨a.set.union b.set, a.nullable || b.nullable⟩

end Lookahead

end TopDown
