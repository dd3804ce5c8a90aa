/-!
# String literals

The texts of strings between double quotes. Reading is lenient: an escape that is not well formed
stands for the replacement character, a backslash before any other character for that character. An
escape of the first half of a surrogate pair takes the escape after it along, whether that is the
second half or not.
-/

namespace TopDown.Json

/-- What stands for an escape that cannot be read. -/
def replacement : Char := '\uFFFD'

/-- The value of a hexadecimal digit in either case. -/
def hexValue? (c : Char) : Option Nat :=
  if '0' ≤ c ∧ c ≤ '9' then some (c.toNat - 0x30)
  else if 'a' ≤ c ∧ c ≤ 'f' then some (c.toNat - 0x61 + 10)
  else if 'A' ≤ c ∧ c ≤ 'F' then some (c.toNat - 0x41 + 10)
  else none

/-- The value of hexadecimal digits, after those with the value `acc`. -/
def hexDigitsValue? (acc : Nat) : List Char → Option Nat
  | [] => some acc
  | c :: rest => (hexValue? c).bind fun d => hexDigitsValue? (16 * acc + d) rest

/-- The value of four characters: hexadecimal digits, with a plus sign allowed for the first. -/
def unit? : List Char → Option Nat
  | '+' :: rest => hexDigitsValue? 0 rest
  | digits => hexDigitsValue? 0 digits

/-- Four characters and what they stand for. If there are fewer, all are taken. -/
def readUnit (text : List Char) : Option Nat × List Char :=
  if text.length < 4 then (none, []) else (unit? (text.take 4), text.drop 4)

/-- The character with the given scalar value; the replacement character if there is none. -/
def scalar (n : Nat) : Char := if h : n.isValidChar then Char.ofNatAux n h else replacement

/-- The character of an escape by scalar value, whose `\u` has been read. -/
def readScalar (text : List Char) : Char × List Char :=
  match readUnit text with
  | (none, rest) => (replacement, rest)
  | (some high, rest) =>
    if 0xD800 ≤ high ∧ high ≤ 0xDBFF then
      match rest with
      | '\\' :: 'u' :: rest =>
        match readUnit rest with
        | (some low, rest) =>
          if 0xDC00 ≤ low ∧ low ≤ 0xDFFF then
            (scalar (0x10000 + (high - 0xD800) * 0x400 + (low - 0xDC00)), rest)
          else (replacement, rest)
        | (none, rest) => (replacement, rest)
      | rest => (replacement, rest)
    else (scalar high, rest)

/-- The character of a backslash with the given letter. -/
def escaped (c : Char) : Char :=
  match c with
  | 'b' => '\x08'
  | 'f' => '\x0C'
  | 'n' => '\n'
  | 'r' => '\r'
  | 't' => '\t'
  | 'v' => '\x0B'
  | c => c

theorem length_readUnit_le (text : List Char) : (readUnit text).2.length ≤ text.length := by
  unfold readUnit
  split
  · simp
  · simp

theorem length_readScalar_le (text : List Char) : (readScalar text).2.length ≤ text.length := by
  unfold readScalar
  have hle := length_readUnit_le text
  split
  · rename_i rest h
    simpa [h] using hle
  · rename_i high rest h
    simp only [h] at hle
    split
    · split
      · rename_i rest'
        have := length_readUnit_le rest'
        simp only [List.length_cons] at hle
        split
        · rename_i low rest'' h'
          simp only [h'] at this
          split <;> simp only <;> omega
        · rename_i rest'' h'
          simp only [h'] at this
          simp only
          omega
      · exact hle
    · exact hle

/-- The characters between the quotes with escapes decoded. -/
def decode (text : List Char) : List Char :=
  match text with
  | [] => []
  | ['\\'] => ['\\']
  | '\\' :: 'u' :: rest =>
    have := length_readScalar_le rest
    (readScalar rest).1 :: decode (readScalar rest).2
  | '\\' :: c :: rest => escaped c :: decode rest
  | c :: rest => c :: decode rest
termination_by text.length
decreasing_by all_goals simp only [List.length_cons]; omega

/-- What stands between the double quotes of a literal; all of it if they are not there. -/
def inner (literal : List Char) : List Char :=
  match literal with
  | '"' :: rest => if rest.getLast? = some '"' then rest.dropLast else literal
  | _ => literal

/-- The text that a literal stands for. -/
def unescape (literal : String) : String := String.ofList (decode (inner literal.toList))

/-- Two places of a hexadecimal number. -/
def twoHexDigits (n : Nat) : List Char :=
  let digits := Nat.toDigits 16 n
  List.replicate (2 - digits.length) '0' ++ digits

/-- One character inside a literal. Controls without a short escape are written by their value. -/
def escapeChar (c : Char) : List Char :=
  match c with
  | '"' => ['\\', '"']
  | '\\' => ['\\', '\\']
  | '\n' => ['\\', 'n']
  | '\r' => ['\\', 'r']
  | '\t' => ['\\', 't']
  | c => if c.toNat < 0x20 then ['\\', 'u', '0', '0'] ++ twoHexDigits c.toNat else [c]

/-- The literal of a text. -/
def escape (text : String) : String :=
  "\"" ++ String.ofList (text.toList.flatMap escapeChar) ++ "\""

end TopDown.Json
