import InferenceFleet.Binary.Shortest

/-!
# Number tokens

A `Numeral` is a number as JSON spells it. An integer that fits into 64 bits is an integer, every
other numeral a binary64 number: its leading digits are taken as a 64-bit significand, which is
then scaled by powers of ten, each step rounded. A binary number is written with the fewest
digits, positionally in a window of exponents that a `Layout` gives.
-/

namespace InferenceFleet.Json

inductive ExponentSign where
  | none | plus | minus
  deriving DecidableEq, Repr

/-- A number token: sign, digits before the point, digits after it, exponent. -/
structure Numeral where
  negative : Bool := false
  whole : List Digit
  fraction : Option (List Digit) := none
  exponent : Option (ExponentSign × List Digit) := none
  deriving DecidableEq, Repr

/-- What a numeral stands for. -/
inductive Quantity where
  | integer (n : Int)
  | real (x : Double)
  deriving DecidableEq, Repr

namespace Numeral

/-- The integer `n` as a token. -/
def ofInt (n : Int) : Numeral := { negative := n < 0, whole := Digit.list n.natAbs }

def ofNat (n : Nat) : Numeral := { whole := Digit.list n }

def print (n : Numeral) : String :=
  let text (ds : List Digit) := String.ofList (ds.map Digit.toChar)
  (if n.negative then "-" else "") ++ text n.whole ++
    (match n.fraction with
      | none => ""
      | some ds => "." ++ text ds) ++
    match n.exponent with
    | none => ""
    | some (sign, ds) =>
      (match sign with
        | .none => "e"
        | .plus => "e+"
        | .minus => "e-") ++ text ds

/-- One more than the greatest significand. -/
def wordLimit : Nat := 2 ^ 64

/-- The digits of `ds` put behind the significand as long as it stays a word, and the number of
digits left over. -/
def take (significand : Nat) : List Digit → Nat × Nat
  | [] => (significand, 0)
  | d :: ds =>
    if significand * 10 + d.val < wordLimit then take (significand * 10 + d.val) ds
    else (significand, ds.length + 1)

/-- `take` for the digits behind the point: also the number of digits taken. -/
def takeFraction (significand taken : Nat) : List Digit → Nat × Nat
  | [] => (significand, taken)
  | d :: ds =>
    if significand * 10 + d.val < wordLimit then
      takeFraction (significand * 10 + d.val) (taken + 1) ds
    else (significand, taken)

/-- The exponents that are counted stay below this one. -/
def exponentLimit : Nat := 2 ^ 31

/-- The number `ds` writes if it is below `exponentLimit`. -/
def boundedExponent (n : Nat) : List Digit → Option Nat
  | [] => some n
  | d :: ds => if n * 10 + d.val < exponentLimit then boundedExponent (n * 10 + d.val) ds else none

/-- The power of ten nearest to `10 ^ k`. -/
def powerOfTen (k : Nat) : Double := .round .double false (10 ^ k) 1

/-- The greatest exponent with a finite power of ten. -/
def greatestPower : Nat := 308

/-- `x · 10 ^ k`, a step of at most `greatestPower` at a time; `none` when that is too large. -/
def scale (x : Double) (k : Int) : Option Double :=
  if k.natAbs ≤ greatestPower then
    if 0 ≤ k then
      let y := x.mul (powerOfTen k.natAbs)
      if y.isInfinite then none else some y
    else some (x.div (powerOfTen k.natAbs))
  else if x.isZero then some x
  else if _h : 0 ≤ k then none
  else scale (x.div (powerOfTen greatestPower)) (k + greatestPower)
termination_by k.natAbs
decreasing_by simp only [greatestPower] at *; omega

/-- The binary64 number a numeral stands for; `none` when it is out of range. -/
def real? (n : Numeral) : Option Double :=
  let (significand, dropped) := take 0 n.whole
  let (significand, taken) := takeFraction significand 0 (n.fraction.getD [])
  let signed (x : Double) := if n.negative then x.negate else x
  let point : Int := (dropped : Int) - taken
  match n.exponent with
  | none => (scale (.ofInt .double significand) point).map signed
  | some (sign, ds) =>
    match boundedExponent 0 ds with
    | some e =>
      let power := if sign = .minus then point - e else point + e
      (scale (.ofInt .double significand) power).map signed
    | none =>
      if significand ≠ 0 ∧ sign ≠ .minus then none else some (signed (.zero false))

/-- The integer a numeral without point and exponent stands for, if it fits into 64 bits. A minus
sign before zero makes it a real number. -/
def integer? (n : Numeral) : Option Int :=
  match n.fraction, n.exponent, take 0 n.whole with
  | none, none, (m, 0) =>
    if n.negative then if m = 0 ∨ 2 ^ 63 < m then none else some (-(m : Int))
    else some (m : Int)
  | _, _, _ => none

def quantity? (n : Numeral) : Option Quantity :=
  match n.integer? with
  | some i => some (.integer i)
  | none => n.real?.map .real

end Numeral

/-- The decimal exponents that are written positionally. -/
structure Layout where
  lowest : Int
  highest : Int

namespace Layout

/-- Numbers of `f32` fields are positional from `0.000001` to below ten to the thirteenth. -/
def single : Layout := { lowest := -6, highest := 12 }

/-- Numbers of `f64` fields are positional from `0.00001` to below ten to the sixteenth. -/
def double : Layout := { lowest := -5, highest := 15 }

/-- Positional numbers have digits on both sides of the point; the others one digit before it, and
an exponent with its sign. -/
def spell (l : Layout) (negative : Bool) (s : Scientific) : Numeral :=
  if l.lowest ≤ s.exponent ∧ s.exponent ≤ l.highest then
    if s.exponent < 0 then
      { negative, whole := [0]
        fraction := some (List.replicate (s.exponent.natAbs - 1) 0 ++ s.digits) }
    else
      let width := s.exponent.natAbs + 1
      let whole := s.digits.take width
      let rest := s.digits.drop width
      { negative, whole := whole ++ List.replicate (width - whole.length) 0
        fraction := some (if rest.isEmpty then [0] else rest) }
  else
    { negative, whole := s.digits.take 1
      fraction := if (s.digits.drop 1).isEmpty then none else some (s.digits.drop 1)
      exponent := some (if s.exponent < 0 then .minus else .plus, Digit.list s.exponent.natAbs) }

end Layout

/-- The token of a finite number. -/
def Numeral.ofBinary? {f : Format} (l : Layout) : Binary f → Option Numeral
  | .finite negative mantissa exponent =>
    some (l.spell negative (.shortest f mantissa exponent))
  | .infinite _ => none

end InferenceFleet.Json
