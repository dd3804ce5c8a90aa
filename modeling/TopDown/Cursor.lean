/-!
# Cursors

A cursor is a place in a list: what has been passed, nearest first, and what lies ahead, nearest
first. The regular expression matcher moves one over characters and the parsing engine moves one
over tokens. Neither can leave the list, since a cursor holds no index that could point outside.

The list that a cursor walks is `Cursor.toList`, and the elements ahead are those from
`Cursor.position` on.
-/

namespace TopDown

/-- A place in a list. -/
structure Cursor (α : Type) where
  /-- What has been passed, nearest first. -/
  past : List α
  /-- What lies ahead, nearest first. -/
  rest : List α
deriving DecidableEq

namespace Cursor

variable {α : Type}

/-- The place before the first element of `items`. -/
def ofList (items : List α) : Cursor α := ⟨[], items⟩

/-- The whole list that the cursor walks. -/
def toList (c : Cursor α) : List α := c.past.reverse ++ c.rest

/-- How many elements have been passed. -/
def position (c : Cursor α) : Nat := c.past.length

/-- The element before the cursor. -/
def previous? (c : Cursor α) : Option α := c.past.head?

/-- The element after the cursor. -/
def next? (c : Cursor α) : Option α := c.rest.head?

/-- The `k`-th element ahead, counted from one. The zeroth is the one just passed. -/
def peek? (c : Cursor α) : Nat → Option α
  | 0 => c.previous?
  | k + 1 => c.rest[k]?

/-- Passes the elements that do not satisfy `stop`, up to the first that does or to the end. -/
def seek (stop : α → Bool) (c : Cursor α) : Cursor α :=
  go c.past c.rest
where
  /-- The two sides of the cursor as it moves. -/
  go : List α → List α → Cursor α
    | past, [] => ⟨past, []⟩
    | past, x :: rest => if stop x then ⟨past, x :: rest⟩ else go (x :: past) rest

@[simp] theorem toList_ofList (items : List α) : (ofList items).toList = items := by
  simp [ofList, toList]

theorem length_toList (c : Cursor α) : c.toList.length = c.position + c.rest.length := by
  rw [toList, List.length_append, List.length_reverse, position]

/-- The elements ahead are those from the position of the cursor on. -/
theorem getElem?_position_add (c : Cursor α) (k : Nat) :
    c.toList[c.position + k]? = c.rest[k]? := by
  have hle : c.past.reverse.length ≤ c.past.length + k := by
    rw [List.length_reverse]
    omega
  rw [toList, position, List.getElem?_append_right hle, List.length_reverse, Nat.add_sub_cancel_left]

theorem getElem?_position (c : Cursor α) : c.toList[c.position]? = c.next? :=
  (c.getElem?_position_add 0).trans List.head?_eq_getElem?.symm

theorem toList_seek_go (stop : α → Bool) (past rest : List α) :
    (seek.go stop past rest).toList = past.reverse ++ rest := by
  fun_induction seek.go stop past rest with
  | case1 past => simp [toList]
  | case2 past x rest h => simp [toList]
  | case3 past x rest h ih => simp [ih]

@[simp] theorem toList_seek (stop : α → Bool) (c : Cursor α) :
    (c.seek stop).toList = c.toList :=
  toList_seek_go stop c.past c.rest

end Cursor

end TopDown
