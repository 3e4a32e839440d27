import InferenceFleet.Decimal
import InferenceFleet.Text.Percent

/-!
# Domain names

The host of an address is percent-decoded and brought into the form that name servers use: lower
case, compatibility forms replaced, labels beyond ASCII written in Punycode. `Domain.normalise?`
gives the form with such labels left as they are, or nothing for a text that names no domain. Of
the mapping of characters beyond ASCII it knows the dots, the full-width forms and the characters
that vanish or cannot occur.
-/

namespace InferenceFleet.Domain

/-- ASCII characters that stand in no domain: blanks, controls and delimiters. -/
def isForbidden (c : Char) : Bool :=
  let n := c.toNat
  n ≤ 0x20 || n == 0x7F ||
    ['%', '#', '/', ':', '<', '>', '?', '@', '[', '\\', ']', '^', '|'].contains c

/-- Characters that vanish: soft hyphen, joiners of words, variation selectors. -/
def isIgnored (c : Char) : Bool :=
  let n := c.toNat
  n == 0xAD || n == 0x34F || (0x180B ≤ n && n ≤ 0x180F) || n == 0x200B || n == 0x2060 ||
    n == 0x2064 || n == 0xFEFF || (0xFE00 ≤ n && n ≤ 0xFE0F) || (0xE0100 ≤ n && n ≤ 0xE01EF)

/-- Characters beyond ASCII that stand in no domain. -/
def isDisallowed (c : Char) : Bool :=
  let n := c.toNat
  (0x80 ≤ n && n ≤ 0xA0) || n == 0x1680 || n == 0x180E || (0x2000 ≤ n && n ≤ 0x200A) ||
    (0x200C ≤ n && n ≤ 0x200F) || (0x2028 ≤ n && n ≤ 0x202F) || (0x205F ≤ n && n ≤ 0x206F) ||
    n == 0x3000 || (0xE000 ≤ n && n ≤ 0xF8FF) || (0xFDD0 ≤ n && n ≤ 0xFDEF) ||
    (0xFFF0 ≤ n && n ≤ 0xFFFF) || 0xE0000 ≤ n

/-- The full stops of other scripts separate labels as well. -/
def isDot (c : Char) : Bool :=
  c == '.' || c == '\u3002' || c == '\uFF0E' || c == '\uFF61'

/-- The form in which a character enters a domain. -/
def mapChar (c : Char) : List Char :=
  if isIgnored c then []
  else if isDot c then ['.']
  else if 0xFF01 ≤ c.toNat ∧ c.toNat ≤ 0xFF5E then [(Char.ofNat (c.toNat - 0xFEE0)).toLower]
  else [c.toLower]

/-- What a label in Punycode begins with. -/
def encodedMark : List Char := ['x', 'n', '-', '-']

def digitValue? (c : Char) : Option Nat :=
  if 'a' ≤ c ∧ c ≤ 'z' then some (c.toNat - 97)
  else if '0' ≤ c ∧ c ≤ '9' then some (c.toNat - 22)
  else none

/-- How often `delta` is divided before it is small, and what is left of it. -/
def shrink (delta rounds : Nat) : Nat × Nat :=
  if 455 < delta then shrink (delta / 35) (rounds + 36) else (delta, rounds)
termination_by delta
decreasing_by omega

def adaptBias (delta count : Nat) (first : Bool) : Nat :=
  let delta := if first then delta / 700 else delta / 2
  let (delta, rounds) := shrink (delta + delta / count) 0
  rounds + 36 * delta / (delta + 38)

/-- A code point inserted into a label of `count` others by a Punycode number. -/
structure Insertion where
  codePoint : Nat := 128
  position : Nat := 0
  bias : Nat := 72
  /-- The number read so far, the weight of its next digit and the place of that digit. -/
  value : Nat := 0
  weight : Nat := 1
  place : Nat := 36
  label : List Char

/-- Reads the numbers of an encoded label. -/
def insertAll (s : Insertion) : List Char → Option (List Char)
  | [] => if s.place = 36 ∧ s.weight = 1 then some s.label else none
  | c :: cs => do
    let digit ← digitValue? c
    let value := s.value + digit * s.weight
    let threshold :=
      if s.place ≤ s.bias then 1 else if s.bias + 26 ≤ s.place then 26 else s.place - s.bias
    if 2 ^ 32 ≤ value then none
    else if digit < threshold then
      let count := s.label.length + 1
      let reached := s.position + value
      let codePoint := s.codePoint + reached / count
      let position := reached % count
      if codePoint.isValidChar then
        insertAll
          { codePoint, position := position + 1
            bias := adaptBias value count (s.codePoint = 128 ∧ s.label.all fun c => c.toNat < 128)
            label := s.label.take position ++ Char.ofNat codePoint :: s.label.drop position } cs
      else none
    else
      insertAll { s with value, weight := s.weight * (36 - threshold), place := s.place + 36 } cs

/-- The label that an encoded one stands for. -/
def decodeLabel? (encoded : List Char) : Option (List Char) :=
  let reversed := encoded.reverse
  let tail := (reversed.takeWhile (· ≠ '-')).reverse
  let basic := ((reversed.dropWhile (· ≠ '-')).drop 1).reverse
  insertAll { label := basic } tail

/-- The labels of a domain. -/
def labels (cs : List Char) : List (List Char) := cs.splitOn '.'

/-- Whether a label can stand in a domain. -/
def isValidLabel (label : List Char) : Bool :=
  if encodedMark.isPrefixOf label then
    match decodeLabel? (label.drop encodedMark.length) with
    | some decoded =>
      decoded.any (fun c => 128 ≤ c.toNat) &&
        decoded.all fun c => !isDisallowed c && !isIgnored c && mapChar c == [c]
    | none => false
  else label.all fun c => !isForbidden c && !isDisallowed c

/-- The domain that a host names, if it names one. -/
def normalise? (host : List Char) : Option (List Char) :=
  let decoded := Utf8.decodeLossy (Percent.decodeText host)
  let mapped := decoded.toList.flatMap mapChar
  if (labels mapped).all isValidLabel then some mapped else none

end InferenceFleet.Domain
