import InferenceFleet.Binary.Decimal
import InferenceFleet.Settings.Value
import InferenceFleet.Toml.Quoted

/-!
# Numbers, truth values and moments

The scalars that are not quoted. Dates and times count as texts, in their canonical form.
-/

namespace InferenceFleet.Toml

open Settings (Value)

/-- Digits with single underscores between them, as many as there are, and what follows. An
underscore needs a digit on either side. -/
def grouped? {α : Type} (digit? : Char → Option α) : List Char → Option (List α × List Char)
  | [] => none
  | c :: cs => do
    let d ← digit? c
    match cs with
    | '_' :: rest => (grouped? digit? rest).map fun (ds, after) => (d :: ds, after)
    | next :: rest =>
      if (digit? next).isSome then
        (grouped? digit? (next :: rest)).map fun (ds, after) => (d :: ds, after)
      else some ([d], next :: rest)
    | [] => some ([d], [])

/-- An integer of 64 bits. -/
def word? (n : Int) : Option Value :=
  if -2 ^ 63 ≤ n ∧ n < 2 ^ 63 then some (.integer n) else none

/-- The digits of a decimal integer: no zero before other digits. -/
def whole? (cs : List Char) : Option (List Digit × List Char) :=
  match cs with
  | '0' :: rest => some ([0], rest)
  | cs => grouped? Digit.ofChar? cs

/-- A digit below the base. -/
def digitBelow? (base : Nat) (c : Char) : Option Nat := (hexDigit? c).filter (· < base)

def radix? (base : Nat) (cs : List Char) : Option (Value × List Char) := do
  let (ds, rest) ← grouped? (digitBelow? base) cs
  let value ← word? (ds.foldl (fun n d => n * base + d) 0 : Nat)
  return (value, rest)

/-- An integer in decimal, hexadecimal, octal or binary digits. -/
def integer? (cs : List Char) : Option (Value × List Char) :=
  match cs with
  | '0' :: 'x' :: rest => radix? 16 rest
  | '0' :: 'o' :: rest => radix? 8 rest
  | '0' :: 'b' :: rest => radix? 2 rest
  | cs => do
    let (negative, rest) := Decimal.sign cs
    let (ds, rest) ← whole? rest
    let n : Int := Digit.value ds
    let value ← word? (if negative then -n else n)
    return (value, rest)

/-- The exponent of a real number and what follows it. -/
def exponent? (cs : List Char) : Option (Int × List Char) :=
  match cs with
  | c :: rest =>
    if c = 'e' ∨ c = 'E' then do
      let (negative, rest) := Decimal.sign rest
      let (ds, after) ← grouped? Digit.ofChar? rest
      return (if negative then -(Digit.value ds : Int) else Digit.value ds, after)
    else none
  | [] => none

/-- A number that is too large counts as an error, unless it is negative. -/
def finite? (x : Double) : Option Value :=
  match x with
  | .infinite false => none
  | x => some (.real x)

/-- A real number in digits: with a point, an exponent or both. -/
def decimal? (cs : List Char) : Option (Value × List Char) := do
  let (negative, rest) := Decimal.sign cs
  let (whole, rest) ← whole? rest
  match rest with
  | '.' :: rest =>
    let (fraction, rest) ← grouped? Digit.ofChar? rest
    let (e, rest) := match exponent? rest with
      | some found => found
      | none => (0, rest)
    let value ← finite? (.ofDecimal .double negative (Digit.value (whole ++ fraction))
      (e - fraction.length))
    return (value, rest)
  | rest =>
    let (e, rest) ← exponent? rest
    let value ← finite? (.ofDecimal .double negative (Digit.value whole) e)
    return (value, rest)

/-- An infinity or what is not a number. -/
def special? (cs : List Char) : Option (Value × List Char) :=
  let (negative, rest) := Decimal.sign cs
  match rest with
  | 'i' :: 'n' :: 'f' :: rest => some (.real (.infinite negative), rest)
  | 'n' :: 'a' :: 'n' :: rest => some (.notANumber, rest)
  | _ => none

/-- So many digits at the beginning, and what follows. -/
def digits? : Nat → List Char → Option (List Digit × List Char)
  | 0, cs => some ([], cs)
  | count + 1, c :: cs => do
    let d ← Digit.ofChar? c
    let (ds, rest) ← digits? count cs
    return (d :: ds, rest)
  | _ + 1, [] => none

/-- A number of two digits within bounds. -/
def pair? (lowest highest : Nat) (cs : List Char) : Option (Nat × List Char) := do
  let (ds, rest) ← digits? 2 cs
  let n := Digit.value ds
  if lowest ≤ n ∧ n ≤ highest then some (n, rest) else none

def expect? (c : Char) : List Char → Option (List Char)
  | d :: rest => if d = c then some rest else none
  | [] => none

def isLeapYear (year : Nat) : Bool := year % 4 == 0 && (year % 100 != 0 || year % 400 == 0)

def daysIn (year month : Nat) : Nat :=
  if month = 2 then if isLeapYear year then 29 else 28
  else if month = 4 ∨ month = 6 ∨ month = 9 ∨ month = 11 then 30
  else 31

def date? (cs : List Char) : Option (String × List Char) := do
  let (ds, rest) ← digits? 4 cs
  let year := Digit.value ds
  let (month, rest) ← pair? 1 12 (← expect? '-' rest)
  let (day, rest) ← pair? 1 (daysIn year month) (← expect? '-' rest)
  return (paddedDecimal 4 year ++ "-" ++ paddedDecimal 2 month ++ "-" ++ paddedDecimal 2 day, rest)

/-- The digits of a fraction of a second that are kept. -/
def fractionText (ds : List Digit) : String :=
  let kept := ((ds.take 9).reverse.dropWhile (· == 0)).reverse
  if kept.isEmpty then "" else "." ++ String.ofList (kept.map Digit.toChar)

def time? (cs : List Char) : Option (String × List Char) := do
  let (hour, rest) ← pair? 0 23 cs
  let (minute, rest) ← pair? 0 59 (← expect? ':' rest)
  let (second, rest) ← pair? 0 60 (← expect? ':' rest)
  let (fraction, rest) := match rest with
    | '.' :: after =>
      let (ds, after) := Decimal.digits after
      if ds.isEmpty then ("", rest) else (fractionText ds, after)
    | rest => ("", rest)
  return (paddedDecimal 2 hour ++ ":" ++ paddedDecimal 2 minute ++ ":" ++ paddedDecimal 2 second ++
    fraction, rest)

def offset? (cs : List Char) : Option (String × List Char) :=
  match cs with
  | 'Z' :: rest | 'z' :: rest => some ("Z", rest)
  | c :: rest =>
    if c = '+' ∨ c = '-' then do
      let (hour, rest) ← pair? 0 23 rest
      let (minute, rest) ← pair? 0 59 (← expect? ':' rest)
      let sign := if c = '-' ∧ hour * 60 + minute ≠ 0 then "-" else "+"
      return (sign ++ paddedDecimal 2 hour ++ ":" ++ paddedDecimal 2 minute, rest)
    else none
  | [] => none

/-- A time after a date and a mark between them. -/
def dayTime? (cs : List Char) : Option (String × List Char) :=
  match cs with
  | c :: rest =>
    if c = 'T' ∨ c = 't' ∨ c = ' ' then do
      let (time, rest) ← time? rest
      let (offset, rest) := (offset? rest).getD ("", rest)
      return ("T" ++ time ++ offset, rest)
    else none
  | [] => none

/-- A date, a time, or both. -/
def moment? (cs : List Char) : Option (Value × List Char) :=
  match date? cs with
  | some (date, rest) =>
    let (time, rest) := (dayTime? rest).getD ("", rest)
    some (.text (date ++ time), rest)
  | none => (time? cs).map fun (time, rest) => (.text time, rest)

def flag? (cs : List Char) : Option (Value × List Char) :=
  match cs with
  | 't' :: 'r' :: 'u' :: 'e' :: rest => some (.flag true, rest)
  | 'f' :: 'a' :: 'l' :: 's' :: 'e' :: rest => some (.flag false, rest)
  | _ => none

/-- A scalar that is not quoted. A number goes as far as it can. -/
def scalar? (cs : List Char) : Option (Value × List Char) :=
  flag? cs <|> special? cs <|> moment? cs <|> decimal? cs <|> integer? cs

end InferenceFleet.Toml
