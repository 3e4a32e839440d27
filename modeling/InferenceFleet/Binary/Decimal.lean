import InferenceFleet.Binary.Basic

/-!
# Binary numbers from decimals

The binary number nearest to a decimal, and the texts that stand for numbers.
-/

namespace InferenceFleet

namespace Binary

/-- Beyond this power of ten no decimal is near a number of a format other than zero and the
infinities. -/
def decimalReach : Int := 400

/-- The number nearest to `significand · 10 ^ exponent`. -/
def ofDecimal (f : Format) (negative : Bool) (significand : Nat) (exponent : Int) : Binary f :=
  let order := exponent + (Digit.list significand).length
  if significand = 0 then zero negative
  else if decimalReach < order then .infinite negative
  else if order < -decimalReach then zero negative
  else if 0 ≤ exponent then round f negative (significand * 10 ^ exponent.natAbs) 1
  else round f negative significand (10 ^ exponent.natAbs)

end Binary

namespace Decimal

/-- The digits at the beginning and what follows them. -/
def digits (cs : List Char) : List Digit × List Char :=
  match cs with
  | [] => ([], [])
  | c :: rest =>
    match Digit.ofChar? c with
    | some d =>
      let (ds, after) := digits rest
      (d :: ds, after)
    | none => ([], cs)

/-- A sign at the beginning, if there is one: whether it is a minus sign, and what follows. -/
def sign (cs : List Char) : Bool × List Char :=
  match cs with
  | '-' :: rest => (true, rest)
  | '+' :: rest => (false, rest)
  | _ => (false, cs)

/-- The integer that a text of digits with a sign or without one stands for. -/
def integer? (cs : List Char) : Option Int :=
  let (negative, rest) := sign cs
  match digits rest with
  | ([], _) => none
  | (ds, []) => some (if negative then -(Digit.value ds : Int) else Digit.value ds)
  | _ => none

/-- The exponent of a power of ten that ends a text; zero without one. -/
def exponent? : List Char → Option Int
  | [] => some 0
  | c :: rest => if c = 'e' ∨ c = 'E' then integer? rest else none

/-- A number without its sign: digits, a point somewhere among them or not, and an exponent or none.
-/
def magnitude? (f : Format) (negative : Bool) (cs : List Char) : Option (Binary f) :=
  let (whole, rest) := digits cs
  let (fraction, rest) := match rest with
    | '.' :: rest => digits rest
    | rest => ([], rest)
  if whole.isEmpty ∧ fraction.isEmpty then none
  else
    (exponent? rest).map fun e =>
      .ofDecimal f negative (Digit.value (whole ++ fraction)) (e - fraction.length)

end Decimal

end InferenceFleet
