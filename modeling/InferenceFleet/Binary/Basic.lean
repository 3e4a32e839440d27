import InferenceFleet.Decimal

/-!
# Binary floating-point numbers

A `Binary f` is a sign and `mantissa · 2 ^ exponent`, with the precision and the exponents of the
format `f`, or an infinity. All arithmetic is exact on natural numbers; `Binary.round` brings a
quotient to the nearest member of the format, a tie to the even mantissa.
-/

namespace InferenceFleet

/-- Mantissas below `2 ^ precision`, exponents from `least` to `greatest`. -/
structure Format where
  precision : Nat
  least : Int
  greatest : Int
  deriving DecidableEq, Repr

namespace Format

def single : Format := { precision := 24, least := -149, greatest := 104 }

def double : Format := { precision := 53, least := -1074, greatest := 971 }

end Format

/-- A number of the format, with a mantissa as large as its exponent allows. -/
inductive Binary (f : Format) where
  | finite (negative : Bool) (mantissa : Nat) (exponent : Int)
  | infinite (negative : Bool)
  deriving DecidableEq, Repr

/-- `num / den · 2 ^ k` as one quotient. -/
def scaled (num den : Nat) (k : Int) : Nat × Nat :=
  if k < 0 then (num, den * 2 ^ k.natAbs) else (num * 2 ^ k.natAbs, den)

/-- The integer nearest to `num / den`, a tie going to the even neighbour. -/
def roundHalfEven (num den : Nat) : Nat :=
  let quotient := num / den
  let rest := num % den
  if 2 * rest < den then quotient
  else if den < 2 * rest then quotient + 1
  else if quotient % 2 = 0 then quotient else quotient + 1

/-- The greatest `k` with `2 ^ k ≤ num / den`, for positive `num` and `den`. -/
def binaryOrder (num den : Nat) : Int :=
  let k : Int := (num.log2 : Int) - (den.log2 : Int)
  let (scaledNum, scaledDen) := scaled num den (-k)
  if scaledNum < scaledDen then k - 1 else k

namespace Binary

variable {f : Format}

def zero (negative : Bool) : Binary f := .finite negative 0 f.least

/-- The member of the format nearest to `num / den`; beyond the greatest an infinity. -/
def round (f : Format) (negative : Bool) (num den : Nat) : Binary f :=
  if num = 0 then zero negative
  else
    let exponent := max (binaryOrder num den - (f.precision - 1 : Nat)) f.least
    let (scaledNum, scaledDen) := scaled num den (-exponent)
    let mantissa := roundHalfEven scaledNum scaledDen
    if mantissa < 2 ^ f.precision then
      if f.greatest < exponent then .infinite negative else .finite negative mantissa exponent
    else if f.greatest < exponent + 1 then .infinite negative
    else .finite negative (mantissa / 2) (exponent + 1)

/-- The number nearest to an integer. -/
def ofInt (f : Format) (n : Int) : Binary f := round f (n < 0) n.natAbs 1

def isNegative : Binary f → Bool
  | .finite negative _ _ => negative
  | .infinite negative => negative

def isZero : Binary f → Bool
  | .finite _ mantissa _ => mantissa == 0
  | .infinite _ => false

def isInfinite : Binary f → Bool
  | .finite .. => false
  | .infinite _ => true

def negate : Binary f → Binary f
  | .finite negative mantissa exponent => .finite (!negative) mantissa exponent
  | .infinite negative => .infinite (!negative)

/-- The absolute value of a finite number as a quotient. -/
def magnitude (mantissa : Nat) (exponent : Int) : Nat × Nat := scaled mantissa 1 exponent

/-- The nearest number of another format. -/
def convert (g : Format) : Binary f → Binary g
  | .finite negative mantissa exponent =>
    let (num, den) := magnitude mantissa exponent
    round g negative num den
  | .infinite negative => .infinite negative

/-- The product, rounded; only finite operands occur. -/
def mul : Binary f → Binary f → Binary f
  | .finite s m e, .finite t n d =>
    let (num, den) := magnitude (m * n) (e + d)
    round f (s != t) num den
  | a, b => .infinite (a.isNegative != b.isNegative)

/-- The quotient by a number other than zero, rounded. -/
def div : Binary f → Binary f → Binary f
  | .finite s m e, .finite t n d =>
    let (num, den) := scaled m n (e - d)
    round f (s != t) num den
  | .infinite s, b => .infinite (s != b.isNegative)
  | a, .infinite t => zero (a.isNegative != t)

end Binary

/-- The numbers of `f32` fields. -/
abbrev Single := Binary .single

/-- The numbers of `f64` fields. -/
abbrev Double := Binary .double

end InferenceFleet
