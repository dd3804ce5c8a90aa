import TopDown.Decimal.Text
import TopDown.Json.Literal

/-!
# JSON values

The values that a JSON text stands for. The members of an object are in the order of the first
occurrence of their keys, and each has the value of the last occurrence.
-/

namespace TopDown.Json

/-- A JSON value. -/
inductive Value where
  /-- The null value. -/
  | null
  /-- A truth value. -/
  | bool (b : Bool)
  /-- A number. -/
  | number (x : Float)
  /-- A text. -/
  | string (s : String)
  /-- A list. -/
  | array (items : List Value)
  /-- A list of named members. -/
  | object (members : List (String × Value))

/-- The members with one more; a key that is there keeps its place and gets the new value. -/
def putMember (key : String) (value : Value) :
    List (String × Value) → List (String × Value)
  | [] => [(key, value)]
  | (k, v) :: rest => if k = key then (k, value) :: rest else (k, v) :: putMember key value rest

namespace Value

/-- The members of an object, and none of any other value. -/
def members : Value → List (String × Value)
  | .object members => members
  | _ => []

/-- The object of all members of the given values. -/
def merge (items : List Value) : Value :=
  .object ((items.flatMap members).foldl (fun members (key, value) => putMember key value members) [])

mutual

/-- The text of a value, without white space. -/
def render : Value → String
  | .null => "null"
  | .bool true => "true"
  | .bool false => "false"
  | .number x => Decimal.render x
  | .string s => escape s
  | .array items => "[" ++ renderItems items ++ "]"
  | .object members => "\x7b" ++ renderMembers members ++ "\x7d"

/-- The texts of the items of an array, with commas between them. -/
def renderItems : List Value → String
  | [] => ""
  | [v] => v.render
  | v :: rest => v.render ++ "," ++ renderItems rest

/-- The texts of the members of an object, with commas between them. -/
def renderMembers : List (String × Value) → String
  | [] => ""
  | [(key, v)] => escape key ++ ":" ++ v.render
  | (key, v) :: rest => escape key ++ ":" ++ v.render ++ "," ++ renderMembers rest

end

end Value

end TopDown.Json
