import TopDown.Regex.Match
import TopDown.Regex.Parser

/-!
# Vocabularies

A vocabulary is the ordered list of token classes that a lexer and a language share. A class is
known by its place in the list. It may have a parent, which comes before it, so the classes form a
hierarchy: a token of a class is accepted wherever one of the ancestors of the class is expected. A
class without a pattern is a category, whose tokens are those of its descendants. The number of
classes stands for the end of the input.

`Vocabulary.build` makes a vocabulary from declarations or names what is wrong with them.
-/

namespace TopDown

/-- The place of a token class in its vocabulary. -/
abbrev TokenId := Nat

/-- The declaration of a token class. -/
structure Declaration where
  /-- The name of the class. -/
  name : String
  /-- What tokens of the class look like; a category has no pattern. -/
  pattern : Option String
  /-- The class whose tokens these are too. -/
  parent : Option TokenId := none
  /-- Whether the lexer drops tokens of this class. -/
  skip : Bool := false

namespace Declaration

/-- A class with a pattern. -/
def token (name pattern : String) : Declaration := { name, pattern := some pattern }

/-- A class whose tokens are those of its descendants. -/
def category (name : String) : Declaration := { name, pattern := none }

/-- The declaration with a parent. -/
def under (d : Declaration) (parent : TokenId) : Declaration := { d with parent := some parent }

/-- The declaration of a class whose tokens are dropped. -/
def skipped (d : Declaration) : Declaration := { d with skip := true }

end Declaration

/-- A class of tokens. -/
structure TokenClass where
  /-- The name of the class. -/
  name : String
  /-- What tokens of the class look like; a category has no pattern. -/
  pattern : Option Regex
  /-- The class whose tokens these are too. -/
  parent : Option TokenId
  /-- Whether the lexer drops tokens of this class. -/
  skip : Bool

/-- Whether the class has tokens only through its descendants. -/
def TokenClass.isAbstract (c : TokenClass) : Bool := c.pattern.isNone

/-- The ordered token classes of a language. -/
structure Vocabulary where
  /-- The classes; each is known by its place. -/
  classes : List TokenClass

namespace Vocabulary

/-- The number of classes. -/
def size (v : Vocabulary) : Nat := v.classes.length

/-- The class that stands for the end of the input. -/
def eof (v : Vocabulary) : TokenId := v.size

/-- The class at the given place. -/
def class? (v : Vocabulary) (id : TokenId) : Option TokenClass := v.classes[id]?

/-- The name of the class as messages show it. -/
def name (v : Vocabulary) (id : TokenId) : String :=
  if id = v.eof then "EOF" else (v.class? id).elim "<unknown>" (·.name)

/-- The place of the class with the given name. -/
def id? (v : Vocabulary) (name : String) : Option TokenId := v.classes.findIdx? (·.name == name)

/-- Whether the class is a category. -/
def isAbstract (v : Vocabulary) (id : TokenId) : Bool := (v.class? id).any (·.isAbstract)

/-- The class `id`, its parent, and so on upwards, within classes that are listed last first. -/
def chain : List TokenClass → TokenId → List TokenId
  | [], _ => []
  | c :: earlier, id =>
    if id = earlier.length then id :: c.parent.elim [] (chain earlier) else chain earlier id

/-- The class itself and its ancestors, upwards. The end of the input is its own only ancestor, and
a place outside the vocabulary has none. -/
def ancestors (v : Vocabulary) (id : TokenId) : List TokenId :=
  if id = v.eof then [id] else chain v.classes.reverse id

/-- The table of ancestors with the entry of one more class: the class, and the entry of its parent,
which is in the table already. -/
def addAncestors (table : List (List TokenId)) (c : TokenClass) : List (List TokenId) :=
  table ++ [table.length :: c.parent.elim [] fun parent => table[parent]?.getD []]

/-- The ancestors of every class and of the end of the input, as they are stored with the
vocabulary. -/
def ancestorTable (v : Vocabulary) : List (List TokenId) :=
  v.classes.foldl addAncestors [] ++ [[v.eof]]

/-- Whether a token of class `kind` is accepted where `expected` is asked for. -/
def isA (v : Vocabulary) (kind expected : TokenId) : Bool := (v.ancestors kind).contains expected

end Vocabulary

/-- What keeps declarations from making up a vocabulary. -/
inductive VocabularyError where
  /-- Two declarations have the same name. -/
  | duplicateName (name : String)
  /-- The parent is not declared before the class. -/
  | unknownParent (name : String)
  /-- The pattern is not well formed. -/
  | invalidPattern (name : String)
  /-- The pattern can match the empty text. -/
  | emptyMatch (name : String)
  /-- The category is the parent of no class. -/
  | emptyCategory (name : String)
deriving DecidableEq

/-- The error in words. -/
def VocabularyError.message : VocabularyError → String
  | .duplicateName name => s!"token `{name}` is declared more than once"
  | .unknownParent name => s!"parent of token `{name}` must be declared before it"
  | .invalidPattern name => s!"invalid pattern for token `{name}`"
  | .emptyMatch name => s!"pattern of token `{name}` matches the empty string"
  | .emptyCategory name => s!"token category `{name}` has no pattern and no descendants"

namespace Vocabulary

/-- Names have to differ, and a parent has to come before its children. The classes in `before` come
before the others, last first. -/
def checkDeclarations (before : List Declaration) : List Declaration → Except VocabularyError Unit
  | [] => .ok ()
  | d :: rest =>
    if before.any (·.name == d.name) then .error (.duplicateName d.name)
    else if d.parent.any (before.length ≤ ·) then .error (.unknownParent d.name)
    else checkDeclarations (d :: before) rest

/-- Every category has to be a parent. The declarations given are those from place `id` on. -/
def checkCategories (all : List Declaration) :
    (id : TokenId) → List Declaration → Except VocabularyError Unit
  | _, [] => .ok ()
  | id, d :: rest =>
    if d.pattern.isNone && !all.any (·.parent == some id) then .error (.emptyCategory d.name)
    else checkCategories all (id + 1) rest

/-- The expression of a pattern, tied to the place where the match is to begin. A pattern whose
matches may be empty is refused; a text that is well formed only between the parentheses put around
it is not examined in this respect. -/
def compile (name pattern : String) : Except VocabularyError Regex :=
  match Regex.parse? ("^(?:" ++ pattern ++ ")") with
  | none => .error (.invalidPattern name)
  | some regex =>
    if (Regex.parse? pattern).bind (·.minLength?) = some 0 then .error (.emptyMatch name)
    else .ok regex

/-- The class of a declaration. -/
def declare (d : Declaration) : Except VocabularyError TokenClass :=
  match d.pattern with
  | none => .ok ⟨d.name, none, d.parent, d.skip⟩
  | some pattern =>
    match compile d.name pattern with
    | .ok regex => .ok ⟨d.name, some regex, d.parent, d.skip⟩
    | .error e => .error e

/-- The vocabulary of the declarations, in their order. -/
def build (declarations : List Declaration) : Except VocabularyError Vocabulary := do
  checkDeclarations [] declarations
  checkCategories declarations 0 declarations
  return ⟨← declarations.mapM declare⟩

end Vocabulary

end TopDown
