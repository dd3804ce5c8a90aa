import TopDown.Decimal.Shortest

/-!
# Decimal text

How numbers are written and read. A number is written with its shortest decimal and always in full,
without an exponent: `0.1`, `20`, `-0`, `inf`, `NaN`. It is read from an optional sign, ASCII digits
with an optional point among, before or after them, and an optional exponent; the words for infinity
and for what is not a number are read in any case.
-/

namespace TopDown

namespace Decimal

/-- The decimal in full, with a point only if there is a fraction. -/
def Digits.positional (d : Digits) : String :=
  let text := (Nat.toDigits 10 d.digits)
  if d.exponent ≤ 0 then
    String.ofList ('0' :: '.' :: List.replicate (-d.exponent).toNat '0' ++ text)
  else
    let whole := d.exponent.toNat
    if d.count ≤ whole then String.ofList (text ++ List.replicate (whole - d.count) '0')
    else String.ofList (text.take whole ++ '.' :: text.drop whole)

/-- The number in full. -/
def render (x : Float) : String :=
  let bits := x.toBits.toNat
  let sign := if bits / Nat.pow 2 63 = 1 then "-" else ""
  let exponentBits := bits / Nat.pow 2 52 % Nat.pow 2 11
  let fraction := bits % Nat.pow 2 52
  if exponentBits = 2047 then
    if fraction = 0 then sign ++ "inf" else "NaN"
  else if exponentBits = 0 && fraction = 0 then sign ++ "0"
  else sign ++ (shortest exponentBits fraction).positional

/-- The value of digits in base ten, after those with the value `acc`. -/
def digitsValue (acc : Nat) : List Char → Nat
  | [] => acc
  | c :: rest => digitsValue (10 * acc + (c.toNat - 0x30)) rest

/-- Infinity. -/
def infinity : Float := 1.0 / 0.0

/-- The number nearest to `mantissa · 10 ^ exponent`. -/
def nearest (mantissa : Nat) (exponent : Int) : Float :=
  let above := digitCount mantissa + exponent
  if mantissa = 0 || above < -330 then 0.0
  else if 310 < above then infinity
  else if exponent < 0 then Float.ofScientific mantissa true (-exponent).toNat
  else Float.ofScientific mantissa false exponent.toNat

/-- The exponent after its letter: an optional sign and at least one digit. -/
def readExponent? (text : List Char) : Option Int :=
  let (negative, digits) :=
    match text with
    | '-' :: rest => (true, rest)
    | '+' :: rest => (false, rest)
    | rest => (false, rest)
  if digits.isEmpty || !digits.all Char.isDigit then none
  else
    let n : Int := digitsValue 0 digits
    some (if negative then -n else n)

/-- A number without a sign. -/
def readUnsigned? (text : List Char) : Option Float :=
  let word := String.ofList (text.map Char.toLower)
  if word = "inf" || word = "infinity" then some infinity
  else if word = "nan" then some (0.0 / 0.0)
  else
    let whole := text.takeWhile Char.isDigit
    let afterWhole := text.dropWhile Char.isDigit
    let (fraction, rest) :=
      match afterWhole with
      | '.' :: tail => (tail.takeWhile Char.isDigit, tail.dropWhile Char.isDigit)
      | _ => ([], afterWhole)
    let exponent? :=
      match rest with
      | [] => some 0
      | c :: tail => if c = 'e' || c = 'E' then readExponent? tail else none
    if whole.isEmpty && fraction.isEmpty then none
    else exponent?.map fun e => nearest (digitsValue 0 (whole ++ fraction)) (e - fraction.length)

/-- The number that the text is the written form of. -/
def parse? (text : String) : Option Float :=
  match text.toList with
  | '-' :: rest => (readUnsigned? rest).map (-·)
  | '+' :: rest => readUnsigned? rest
  | chars => readUnsigned? chars

end Decimal

end TopDown
