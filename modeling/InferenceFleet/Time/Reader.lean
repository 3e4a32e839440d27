import InferenceFleet.Time.Fault
import InferenceFleet.Time.Instant
import InferenceFleet.Text.Blank

/-!
# Reading a written time

A date, one of `T`, `t` and a space, a time of day and an offset from UTC, with blanks allowed
around the fields. The first fault in the order of the text is reported; the range of a field is
checked as soon as it is read, whether the date exists only when all is read.
-/

namespace InferenceFleet

namespace TimeReader

/-- What is left of the text after a step, with the step's result. -/
abbrev Step (α : Type) := List Char → Except TimeFault (α × List Char)

def skipBlanks (cs : List Char) : List Char := cs.dropWhile isBlank

/-- The character `c`. -/
def literal (c : Char) (cs : List Char) : Except TimeFault (List Char) :=
  match cs with
  | [] => .error .prematureEnd
  | x :: rest => if x = c then .ok rest else .error .invalidCharacters

/-- The digits at the start, at most `limit` of them if there is a limit. -/
def digits (limit : Option Nat) (cs : List Char) : List Digit × List Char :=
  let run := cs.takeWhile Char.isDigit
  let run := match limit with
    | none => run
    | some n => run.take n
  (run.filterMap Digit.ofChar?, cs.drop run.length)

/-- An unsigned number of at least one digit. -/
def number (limit : Option Nat) : Step Nat := fun cs =>
  match cs with
  | [] => .error .prematureEnd
  | _ =>
    match digits limit cs with
    | ([], _) => .error .invalidCharacters
    | (ds, rest) => .ok (Digit.value ds, rest)

/-- A number of one or two digits between `low` and `high`. -/
def field (low high : Nat) : Step Nat := fun cs => do
  let (n, rest) ← number (some 2) cs
  if low ≤ n ∧ n ≤ high then .ok (n, rest) else .error .outOfRange

/-- Years beyond this bound in either direction are out of range before the date is looked at. -/
def yearLimit : Nat := 2 ^ 31

/-- Up to four digits, or a sign and any number of digits. -/
def year : Step Int := fun cs =>
  match cs with
  | '-' :: cs => do
    let (n, rest) ← number none cs
    if n ≤ yearLimit then .ok (-(n : Int), rest) else .error .outOfRange
  | '+' :: cs => do
    let (n, rest) ← number none cs
    if n < yearLimit then .ok ((n : Int), rest) else .error .outOfRange
  | cs => do
    let (n, rest) ← number (some 4) cs
    .ok ((n : Int), rest)

/-- Nanoseconds after an optional point; digits beyond the ninth do not count. -/
def fraction : Step Nat := fun cs =>
  match cs with
  | '.' :: cs =>
    match cs with
    | [] => .error .prematureEnd
    | _ =>
      match digits none cs with
      | ([], _) => .error .invalidCharacters
      | (ds, rest) =>
        let kept := ds.take 9
        .ok (Digit.value kept * 10 ^ (9 - kept.length), rest)
  | cs => .ok (0, cs)

/-- The number of bytes of the text, as far as two. -/
def shortLength : List Char → Nat
  | [] => 0
  | [c] => if c.toNat < 0x80 then 1 else 2
  | _ => 2

/-- Two digits, the first character of which decides when the second is missing. -/
def twoDigits (cs : List Char) : Except TimeFault ((Digit × Digit) × List Char) :=
  match cs with
  | a :: b :: rest =>
    match Digit.ofChar? a, Digit.ofChar? b with
    | some m, some n => .ok ((m, n), rest)
    | _, _ => .error .invalidCharacters
  | [_] => if shortLength cs < 2 then .error .prematureEnd else .error .invalidCharacters
  | [] => .error .prematureEnd

/-- Hours and minutes after the sign of an offset, in seconds. The colon between them may be left
out. -/
def offsetMagnitude : Step Nat := fun cs => do
  let ((h1, h2), cs) ← twoDigits cs
  let ((m1, m2), rest) ← twoDigits (cs.dropWhile fun c => c = ':' || isBlank c)
  if m1.val < 6 then
    .ok ((h1.val * 10 + h2.val) * 3600 + (m1.val * 10 + m2.val) * 60, rest)
  else .error .outOfRange

def isUtc (a b c : Char) : Bool :=
  a.toLower == 'u' && b.toLower == 't' && c.toLower == 'c'

/-- The offset from UTC in seconds: a sign with hours and minutes, `Z` or `UTC` in any case. -/
def offset : Step Int := fun cs =>
  match cs with
  | [] => .error .prematureEnd
  | c :: rest =>
    if c = '+' then do
      let (n, rest) ← offsetMagnitude rest
      .ok ((n : Int), rest)
    else if c = '-' ∨ c = '\u2212' then do
      let (n, rest) ← offsetMagnitude rest
      .ok (-(n : Int), rest)
    else if c = 'Z' ∨ c = 'z' then .ok (0, rest)
    else
      match c, rest with
      | a, b :: c :: rest => if isUtc a b c then .ok (0, rest) else .error .invalidCharacters
      | _, _ => .error .invalidCharacters

/-- The fields of a written time. -/
structure Fields where
  date : Date
  hour : Nat
  minute : Nat
  second : Nat
  nanos : Nat
  offset : Int

def separator (cs : List Char) : Except TimeFault (List Char) :=
  match cs with
  | [] => .error .prematureEnd
  | c :: rest => if c = 't' ∨ c = 'T' ∨ c = ' ' then .ok rest else .error .invalidCharacters

def fields (cs : List Char) : Except TimeFault Fields := do
  let (year, cs) ← year (skipBlanks cs)
  let cs ← literal '-' (skipBlanks cs)
  let (month, cs) ← field 1 12 (skipBlanks cs)
  let cs ← literal '-' (skipBlanks cs)
  let (day, cs) ← field 1 31 (skipBlanks cs)
  let cs ← separator cs
  let (hour, cs) ← field 0 23 (skipBlanks cs)
  let cs ← literal ':' (skipBlanks cs)
  let (minute, cs) ← field 0 59 (skipBlanks cs)
  let cs ← literal ':' (skipBlanks cs)
  let (second, cs) ← field 0 60 (skipBlanks cs)
  let (nanos, cs) ← fraction cs
  let (offset, cs) ← offset (skipBlanks cs)
  if (skipBlanks cs).isEmpty then
    .ok { date := { year, month, day }, hour, minute, second, nanos, offset }
  else .error .trailingInput

/-- The instant that the fields name. A second 60 is the leap second after 59. -/
def Fields.instant (f : Fields) : Except TimeFault Instant :=
  if !f.date.isValid then .error .outOfRange
  else if 86400 ≤ f.offset.natAbs then .error .outOfRange
  else
    let second := if f.second = 60 then 59 else f.second
    let nanos := if f.second = 60 then f.nanos + 1000000000 else f.nanos
    let clock : Int := (f.hour * 3600 + f.minute * 60 + second : Nat)
    match Instant.ofParts? (f.date.dayNumber * 86400 + clock - f.offset) nanos with
    | some t => .ok t
    | none => .error .impossible

end TimeReader

/-- The instant that a text names. -/
def Instant.read (text : String) : Except TimeFault Instant :=
  TimeReader.fields text.toList >>= TimeReader.Fields.instant

end InferenceFleet
