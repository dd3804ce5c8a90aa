/-!
# Shortest decimals

A finite number in binary floating point stands for all the reals that round to it. Among the
decimals of that interval, the one with the fewest digits is its shortest decimal; of several with
equally many digits it is the one nearest to the number, and the larger one of two equally near.

All arithmetic is exact. A number is `m · 2 ^ q` with a natural `m`, and on the grid of decimals with
a given last place only the two neighbours of the number have to be tried: if any point of the grid
lies in the interval, one of them does.
-/

namespace TopDown

namespace Decimal

/-- A positive decimal: `0.d₁d₂…` times a power of ten. -/
structure Digits where
  /-- The digits `d₁`, `d₂` and so on, as one number. -/
  digits : Nat
  /-- The number of digits. -/
  count : Nat
  /-- The power of ten. -/
  exponent : Int
deriving DecidableEq

/-- A positive rational number between its neighbours in floating point: the bounds of the interval
that rounds to it, all over the same denominator. -/
structure Interval where
  /-- The lower bound. -/
  low : Nat
  /-- The number. -/
  value : Nat
  /-- The upper bound. -/
  high : Nat
  /-- The denominator. -/
  denominator : Nat
  /-- Whether the bounds round to the number too. -/
  closed : Bool

/-- The interval that rounds to `m · 2 ^ q`, where the number below is half as far away as the one
above if `narrow`. -/
def interval (m : Nat) (q : Int) (narrow : Bool) : Interval :=
  let up := (q - 2).toNat
  let down := (2 - q).toNat
  let scale (n : Nat) : Nat := n * Nat.pow 2 up
  { low := scale (if narrow then 4 * m - 1 else 4 * m - 2)
    value := scale (4 * m)
    high := scale (4 * m + 2)
    denominator := Nat.pow 2 down
    closed := m % 2 == 0 }

/-- Whether `n` over the given denominator lies in the interval, whose bounds and denominator have
to be multiplied by `scale`. -/
def Interval.contains (i : Interval) (n scale : Nat) : Bool :=
  if i.closed then i.low * scale ≤ n && n ≤ i.high * scale
  else i.low * scale < n && n < i.high * scale

/-- The number of digits of `n` in base ten. -/
def digitCount (n : Nat) : Nat := (Nat.toDigits 10 n).length

/-- How often `n` has to be multiplied by ten to reach `d`, at most `room` times. -/
def stepsUp (n d : Nat) : (room : Nat) → Nat
  | 0 => 0
  | room + 1 => if d ≤ n then 0 else stepsUp (10 * n) d room + 1

/-- The power of ten just above the number: the least one that exceeds it. -/
def magnitude (i : Interval) : Int :=
  if i.denominator ≤ i.value then digitCount (i.value / i.denominator)
  else 1 - stepsUp i.value i.denominator 400

/-- The best decimal of the interval with `count` digits, where `above` is the power of ten just
above the number. -/
def bestWith (i : Interval) (above : Int) (count : Nat) : Option Digits :=
  -- the last place is `10 ^ place`
  let place := above - count
  let up := Nat.pow 10 place.toNat
  let down := Nat.pow 10 (-place).toNat
  -- in units of the last place the number is `value * down / (denominator * up)`
  let unit := i.denominator * up
  let below := i.value * down / unit
  let rest := i.value * down % unit
  let lowHit := i.contains (below * unit) down
  let highHit := i.contains ((below + 1) * unit) down
  let pick (n : Nat) : Digits :=
    if n = Nat.pow 10 count then ⟨1, 1, above + 1⟩ else ⟨n, count, above⟩
  match lowHit, highHit with
  | true, true => some (pick (if unit ≤ 2 * rest then below + 1 else below))
  | true, false => some (pick below)
  | false, true => some (pick (below + 1))
  | false, false => none

/-- The shortest decimal of the interval. Seventeen digits are always enough. -/
def shortestOf (i : Interval) : Digits :=
  let above := magnitude i
  ((List.range 17).findSome? fun n => bestWith i above (n + 1)).getD ⟨0, 1, 0⟩

/-- The shortest decimal of the finite positive number with the given biased exponent and fraction
bits. -/
def shortest (exponentBits fraction : Nat) : Digits :=
  if exponentBits = 0 then shortestOf (interval fraction (-1074) false)
  else
    shortestOf (interval (Nat.pow 2 52 + fraction) (exponentBits - 1075 : Int)
      (fraction = 0 && 1 < exponentBits))

end Decimal

end TopDown
