import InferenceFleet.Binary.Basic

/-!
# Shortest decimals

The decimal with the fewest digits that rounds back to a given binary number, and of those with
that many digits the nearest. The reals that round to the number form an interval, its ends
included when the mantissa is even; on the grid of decimals with `n` digits the two neighbours of
the number are tried, for `n` from one upwards.
-/

namespace InferenceFleet

/-- `d.ddd · 10 ^ exponent`, without zeros at the end. -/
structure Scientific where
  digits : List Digit
  exponent : Int
  deriving DecidableEq, Repr

/-- `num / den · 10 ^ k` as one quotient. -/
def decimallyScaled (num den : Nat) (k : Int) : Nat × Nat :=
  if k < 0 then (num, den * 10 ^ k.natAbs) else (num * 10 ^ k.natAbs, den)

/-- The greatest `k` with `10 ^ k ≤ num / den`, for quotients not below `10 ^ (-400)`. -/
def decimalOrder (num den : Nat) : Int :=
  ((Digit.list (num * 10 ^ 400 / den)).length : Int) - 401

/-- The reals between `low / den` and `high / den`, the ends included or not. -/
structure Interval where
  low : Nat
  high : Nat
  den : Nat
  closed : Bool

namespace Interval

/-- Whether `n · 10 ^ k` lies in the interval. -/
def holds (i : Interval) (n : Nat) (k : Int) : Bool :=
  let (num, den) := decimallyScaled n 1 k
  if i.closed then i.low * den ≤ num * i.den && num * i.den ≤ i.high * den
  else i.low * den < num * i.den && num * i.den < i.high * den

/-- The reals that round to `mantissa · 2 ^ exponent` in `f`. Below a power of two the neighbour is
only half as far away. -/
def around (f : Format) (mantissa : Nat) (exponent : Int) : Interval :=
  let lower :=
    if mantissa = 2 ^ (f.precision - 1) ∧ f.least < exponent then 4 * mantissa - 1
    else 4 * mantissa - 2
  let (low, den) := scaled lower 1 (exponent - 2)
  let (high, _) := scaled (4 * mantissa + 2) 1 (exponent - 2)
  { low, high, den, closed := mantissa % 2 = 0 }

end Interval

namespace Scientific

/-- `n · 10 ^ k` in scientific form. -/
def ofScaled (n : Nat) (k : Int) : Scientific :=
  let digits := Digit.list n
  { digits := (digits.reverse.dropWhile (· == 0)).reverse
    exponent := k + (digits.length - 1 : Nat) }

/-- The neighbours of `num / den` on the grid of the multiples of `10 ^ k`, the nearer first. -/
def neighbours (num den : Nat) (k : Int) : List Nat :=
  let (n, d) := decimallyScaled num den (-k)
  let below := n / d
  let twice := 2 * (n % d)
  if twice < d ∨ (twice = d ∧ below % 2 = 0) then [below, below + 1] else [below + 1, below]

/-- Tries grids of `10 ^ k`, then finer ones, `tries` in all. -/
def search (i : Interval) (num den : Nat) (k : Int) : Nat → Option Scientific
  | 0 => none
  | tries + 1 =>
    match (neighbours num den k).find? (i.holds · k) with
    | some n => some (ofScaled n k)
    | none => search i num den (k - 1) tries

/-- The shortest decimal of a positive number `mantissa · 2 ^ exponent` of `f`. -/
def shortest (f : Format) (mantissa : Nat) (exponent : Int) : Scientific :=
  if mantissa = 0 then { digits := [0], exponent := 0 }
  else
    let (num, den) := Binary.magnitude mantissa exponent
    let order := decimalOrder num den
    (search (.around f mantissa exponent) num den order f.precision).getD
      (ofScaled mantissa 0)

end Scientific

end InferenceFleet
