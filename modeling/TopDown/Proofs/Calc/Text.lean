import TopDown.Calc
import TopDown.Proofs.Json.Text

/-!
# Arithmetic texts

Syntax trees of arithmetic, their values, and the texts that they can be written as. Parentheses may
stand around any part, and they have to stand around an operand that binds less tightly than its
place asks for: as tightly as the operation on its left, and more tightly on its right. White space
may stand anywhere between tokens.
-/

namespace TopDown

/-- A whole number is a number without fraction and exponent. -/
theorem Json.WholeText.numberText {w : List Char} (h : Json.WholeText w) : Json.NumberText w := by
  have hnumber := Json.NumberText.intro (.inl rfl) h .absent .absent
  rwa [List.nil_append, List.nil_append, List.append_nil] at hnumber

namespace Calc

/-! ## Syntax trees -/

/-- The operations. -/
inductive Operation where
  | add
  | sub
  | mul
  | div
deriving DecidableEq

namespace Operation

/-- The sign of the operation. -/
def sign : Operation → Char
  | add => '+'
  | sub => '-'
  | mul => '*'
  | div => '/'

/-- What the operation makes of two numbers. -/
def apply : Operation → Float → Float → Float
  | add, x, y => x + y
  | sub, x, y => x - y
  | mul, x, y => x * y
  | div, x, y => x / y

/-- How tightly the operation binds. -/
def level : Operation → Nat
  | add | sub => 0
  | mul | div => 1

end Operation

/-- An arithmetic syntax tree. A literal is zero or digits that do not begin with zero. -/
inductive Expr where
  /-- A literal. -/
  | number {w : List Char} (h : Json.WholeText w)
  /-- Two operands. -/
  | binary (op : Operation) (left right : Expr)

/-- The value of the tree from its leaves up. -/
def Expr.value : Expr → Float
  | number h => h.numberText.value
  | binary op left right => op.apply left.value right.value

/-! ## Texts -/

/-- White space, which may be none. -/
def Spaces (w : List Char) : Prop := ∀ c ∈ w, isBlank c = true

instance (w : List Char) : Decidable (Spaces w) := List.decidableBAll _ w

/-- The text of the tree where something is expected that binds at least as tightly as `level`, and
how deep its parentheses are nested. -/
inductive Written : (level : Nat) → Expr → List Char → (nesting : Nat) → Prop where
  | number {level : Nat} {w : List Char} (h : Json.WholeText w) : Written level (.number h) w 0
  | parentheses {level n : Nat} {e : Expr} {a w b : List Char} (ha : Spaces a)
      (h : Written 0 e w n) (hb : Spaces b) :
      Written level e ('(' :: (a ++ (w ++ (b ++ [')'])))) (n + 1)
  | binary {level m n : Nat} {op : Operation} {left right : Expr} {w a b w' : List Char}
      (hlevel : level ≤ op.level) (hl : Written op.level left w m) (ha : Spaces a) (hb : Spaces b)
      (hr : Written (op.level + 1) right w' n) :
      Written level (.binary op left right) (w ++ (a ++ op.sign :: (b ++ w'))) (max m n)

/-- A whole text. -/
def Document (text : String) (e : Expr) (nesting : Nat) : Prop :=
  ∃ a w b, Spaces a ∧ Written 0 e w nesting ∧ Spaces b ∧ text.toList = a ++ (w ++ b)

end Calc

end TopDown
