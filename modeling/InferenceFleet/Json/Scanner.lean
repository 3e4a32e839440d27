import InferenceFleet.Json.Doc
import InferenceFleet.Text.Utf8

/-!
# Scanning a JSON text

A machine with a stack of open containers takes the bytes of a text one at a time; `scan` runs it
and closes what is still open at the end. Nothing is refused here: faults become part of the
document.
-/

namespace InferenceFleet.Json

/-- A string before its closing quote. -/
structure OpenText where
  /-- The bytes of the text, latest first. -/
  bytes : List UInt8 := []
  /-- The first fault that only a reader of the text reports. -/
  fault : Option Fault := none
  /-- The first half of a surrogate pair, if the escape just read is one. -/
  high : Option Nat := none

namespace OpenText

def blame (t : OpenText) (f : Fault) : OpenText :=
  { t with fault := t.fault <|> some f, high := none }

/-- After the first half of a pair nothing but the escape of the second may follow. -/
def dropHigh (t : OpenText) : OpenText :=
  match t.high with
  | none => t
  | some _ => t.blame .hexEscapeEnds

def push (t : OpenText) (b : UInt8) : OpenText := { t with bytes := b :: t.bytes }

def pushChar (t : OpenText) (n : Nat) : OpenText :=
  { t with bytes := (String.utf8EncodeChar (Char.ofNat n)).reverse ++ t.bytes, high := none }

/-- The unit that an escape with four hex digits names. -/
def pushUnit (t : OpenText) (n : Nat) : OpenText :=
  match t.high with
  | some h =>
    if 0xDC00 ≤ n ∧ n ≤ 0xDFFF then t.pushChar (0x10000 + (h - 0xD800) * 0x400 + (n - 0xDC00))
    else t.blame .loneSurrogate
  | none =>
    if 0xDC00 ≤ n ∧ n ≤ 0xDFFF then t.blame .loneSurrogate
    else if 0xD800 ≤ n ∧ n ≤ 0xDBFF then { t with high := some n }
    else t.pushChar n

def close (t : OpenText) : Except Fault String :=
  match t.fault with
  | some f => .error f
  | none =>
    match Utf8.decode? t.bytes.reverse with
    | some s => .ok s
    | none => .error .invalidCodePoint

end OpenText

/-- How far an escape has been read. -/
inductive Escape where
  | none
  | backslash
  /-- The hex digits, latest first. -/
  | hex (digits : List Char)

/-- What may come next in a number. -/
inductive NumberPart where
  | sign | zero | whole | point | fraction | mark | exponentSign | exponent
  deriving DecidableEq

/-- A number under way, its digits latest first. -/
structure OpenNumber where
  part : NumberPart
  negative : Bool := false
  whole : List Digit := []
  fraction : List Digit := []
  exponentSign : ExponentSign := .none
  exponent : List Digit := []

namespace OpenNumber

def numeral (n : OpenNumber) : Numeral :=
  { negative := n.negative
    whole := n.whole.reverse
    fraction := if n.fraction.isEmpty then none else some n.fraction.reverse
    exponent :=
      if n.exponent.isEmpty then none else some (n.exponentSign, n.exponent.reverse) }

/-- Whether the number may end here. -/
def isWhole (n : OpenNumber) : Bool :=
  match n.part with
  | .zero | .whole | .fraction | .exponent => true
  | _ => false

/-- The number with one more character, if that belongs to it; `some none` when that character
cannot stand here at all. -/
def feed (n : OpenNumber) (c : Char) : Option (Option OpenNumber) :=
  match Digit.ofChar? c with
  | some d =>
    match n.part with
    | .sign => some (some { n with part := if d = 0 then .zero else .whole, whole := [d] })
    | .zero => some none
    | .whole => some (some { n with whole := d :: n.whole })
    | .point | .fraction => some (some { n with part := .fraction, fraction := d :: n.fraction })
    | .mark | .exponentSign | .exponent =>
      some (some { n with part := .exponent, exponent := d :: n.exponent })
  | none =>
    match n.part with
    | .sign | .point | .exponentSign => some none
    | .mark =>
      if c = '+' then some (some { n with part := .exponentSign, exponentSign := .plus })
      else if c = '-' then some (some { n with part := .exponentSign, exponentSign := .minus })
      else some none
    | .zero | .whole =>
      if c = '.' then some (some { n with part := .point })
      else if c = 'e' ∨ c = 'E' then some (some { n with part := .mark })
      else none
    | .fraction =>
      if c = 'e' ∨ c = 'E' then some (some { n with part := .mark }) else none
    | .exponent => none

end OpenNumber

abbrev Members := List (Except Fault String × Doc)

/-- A container that waits for the value being read; items and members latest first. -/
inductive Frame where
  | list (items : List Doc)
  | member (members : Members) (key : Except Fault String)
  | keyless

/-- What the machine is reading. -/
inductive Mode where
  | value
  /-- An item of a list, or its end if there is none yet. -/
  | item (items : List Doc)
  | afterItem (items : List Doc)
  /-- A key of an object, or its end if there is none yet. -/
  | key (members : Members)
  | keyText (members : Members) (text : OpenText) (escape : Escape)
  | colon (members : Members) (key : Except Fault String)
  | afterMember (members : Members)
  | text (text : OpenText) (escape : Escape)
  | number (n : OpenNumber)
  | literal (rest : List Char) (value : Doc)
  | finished (root : Doc) (surplus : Bool)

/-- The containers around the place that is being read, innermost first. -/
structure Machine where
  stack : List Frame
  mode : Mode

namespace Machine

/-- The document around the broken value `d`, which `f` keeps from being passed over. -/
def unwind (f : Fault) : List Frame → Doc → Doc
  | [], d => d
  | .list items :: stack, d => unwind f stack (.list (d :: items).reverse (.inside f))
  | .member members key :: stack, d =>
    unwind f stack (.object ((key, d) :: members).reverse (.inside f))
  | .keyless :: stack, d => unwind .keyNotString stack (.keyless d)

/-- The text goes wrong: nothing after it counts. -/
def breakOff (stack : List Frame) (d : Doc) (f : Fault) : Machine :=
  { stack := [], mode := .finished (unwind f stack d) false }

/-- A value that cannot be read further. -/
def fail (stack : List Frame) (opening : Opening) (reading passing : Fault) : Machine :=
  breakOff stack (.broken opening reading passing) passing

/-- A key that cannot be read further. -/
def failKey (stack : List Frame) (members : Members) (reading passing : Fault) : Machine :=
  fail (.member members (.error reading) :: stack) .nothing reading passing

/-- The value `d` is complete. -/
def complete (stack : List Frame) (d : Doc) : Machine :=
  match stack with
  | [] => { stack := [], mode := .finished d false }
  | .list items :: stack => { stack, mode := .afterItem (d :: items) }
  | .member members key :: stack => { stack, mode := .afterMember ((key, d) :: members) }
  | .keyless :: stack => breakOff stack (.keyless d) .keyNotString

def isSpace (c : Char) : Bool := c == ' ' || c == '\n' || c == '\t' || c == '\r'

/-- The character `c` begins a value. -/
def start (stack : List Frame) (c : Char) : Machine :=
  match c with
  | '"' => { stack, mode := .text {} .none }
  | '[' => { stack, mode := .item [] }
  | '\x7b' => { stack, mode := .key [] }
  | 'n' => { stack, mode := .literal ['u', 'l', 'l'] .null }
  | 't' => { stack, mode := .literal ['r', 'u', 'e'] (.flag true) }
  | 'f' => { stack, mode := .literal ['a', 'l', 's', 'e'] (.flag false) }
  | '-' => { stack, mode := .number { part := .sign, negative := true } }
  | c =>
    match Digit.ofChar? c with
    | some d =>
      { stack, mode := .number { part := if d = 0 then .zero else .whole, whole := [d] } }
    | none => fail stack .nothing .valueExpected .valueExpected

/-- The character `c` stands behind a complete value. -/
def afterValue (m : Machine) (c : Char) : Machine :=
  match m.mode with
  | .afterItem items =>
    if isSpace c then m
    else if c = ',' then { m with mode := .item items }
    else if c = ']' then complete m.stack (.list items.reverse .closed)
    else breakOff m.stack (.list items.reverse .stray) .commaOrBracketExpected
  | .afterMember members =>
    if isSpace c then m
    else if c = ',' then { m with mode := .key members }
    else if c = '\x7d' then complete m.stack (.object members.reverse .closed)
    else breakOff m.stack (.object members.reverse .stray) .commaOrBraceExpected
  | .finished root _ => if isSpace c then m else { m with mode := .finished root true }
  | _ => m

/-- What the next byte does to an open string: it goes on, it is closed, or both kinds of reader
stop at a fault. -/
inductive TextStep where
  | more (text : OpenText) (escape : Escape)
  | closed (text : OpenText)
  | faulty (text : OpenText) (f : Fault)

/-- The text that a one-letter escape stands for. -/
def simpleEscape? (c : Char) : Option UInt8 :=
  match c with
  | '"' => some 0x22
  | '\\' => some 0x5C
  | '/' => some 0x2F
  | 'b' => some 0x08
  | 'f' => some 0x0C
  | 'n' => some 0x0A
  | 'r' => some 0x0D
  | 't' => some 0x09
  | _ => none

def hexValue? (c : Char) : Option Nat :=
  if '0' ≤ c ∧ c ≤ '9' then some (c.toNat - 48)
  else if 'a' ≤ c ∧ c ≤ 'f' then some (c.toNat - 87)
  else if 'A' ≤ c ∧ c ≤ 'F' then some (c.toNat - 55)
  else none

/-- The number that four hex digits write, the latest first. -/
def hexUnit? (digits : List Char) : Option Nat :=
  digits.foldr (fun c n => do return (← n) * 16 + (← hexValue? c)) (some 0)

def stepText (t : OpenText) (escape : Escape) (b : UInt8) : TextStep :=
  let c := Char.ofNat b.toNat
  match escape with
  | .none =>
    if c = '\\' then .more t .backslash
    else
      let t := t.dropHigh
      if c = '"' then .closed t
      else if b < 0x20 then .faulty t .controlCharacter
      else .more (t.push b) .none
  | .backslash =>
    if c = 'u' then .more t (.hex [])
    else
      let t := t.dropHigh
      match simpleEscape? c with
      | some b => .more (t.push b) .none
      | none => .faulty t .invalidEscape
  | .hex digits =>
    let digits := c :: digits
    if digits.length < 4 then .more t (.hex digits)
    else
      match hexUnit? digits with
      | some n => .more (t.pushUnit n) .none
      | none => .faulty t .invalidEscape

def step (m : Machine) (b : UInt8) : Machine :=
  let c := Char.ofNat b.toNat
  match m.mode with
  | .value => if isSpace c then m else start m.stack c
  | .item items =>
    if isSpace c then m
    else if c = ']' then
      if items.isEmpty then complete m.stack (.list [] .closed)
      else fail (.list items :: m.stack) .nothing .trailingComma .valueExpected
    else start (.list items :: m.stack) c
  | .key members =>
    if isSpace c then m
    else if c = '"' then { m with mode := .keyText members {} .none }
    else if c = '\x7d' then
      if members.isEmpty then complete m.stack (.object [] .closed)
      else failKey m.stack members .trailingComma .keyNotString
    else if members.isEmpty then start (.keyless :: m.stack) c
    else failKey m.stack members .keyNotString .keyNotString
  | .keyText members text escape =>
    match stepText text escape b with
    | .more text escape => { m with mode := .keyText members text escape }
    | .closed text => { m with mode := .colon members text.close }
    | .faulty text f => failKey m.stack members (text.fault.getD f) f
  | .colon members key =>
    if isSpace c then m
    else if c = ':' then { stack := .member members key :: m.stack, mode := .value }
    else fail (.member members key :: m.stack) .nothing .colonExpected .colonExpected
  | .text text escape =>
    match stepText text escape b with
    | .more text escape => { m with mode := .text text escape }
    | .closed text => complete m.stack (.text text.close)
    | .faulty text f => fail m.stack .quote (text.fault.getD f) f
  | .number n =>
    match n.feed c with
    | some (some n) => { m with mode := .number n }
    | some none => fail m.stack .digit .invalidNumber .invalidNumber
    | none => (complete m.stack (.number n.numeral)).afterValue c
  | .literal rest value =>
    match rest with
    | [] => (complete m.stack value).afterValue c
    | [x] =>
      if c = x then complete m.stack value
      else fail m.stack .literal .identExpected .identExpected
    | x :: rest =>
      if c = x then { m with mode := .literal rest value }
      else fail m.stack .literal .identExpected .identExpected
  | _ => m.afterValue c

/-- The document when the text is over. -/
def finish (m : Machine) : Text :=
  let ended :=
    match m.mode with
    | .value => fail m.stack .nothing .eofInValue .eofInValue
    | .item items =>
      if items.isEmpty then breakOff m.stack (.list [] .eof) .eofInList
      else fail (.list items :: m.stack) .nothing .eofInValue .eofInValue
    | .afterItem items => breakOff m.stack (.list items.reverse .eof) .eofInList
    | .key members =>
      if members.isEmpty then breakOff m.stack (.object [] .eof) .eofInObject
      else failKey m.stack members .eofInValue .eofInObject
    | .keyText members text _ =>
      failKey m.stack members (text.fault.getD .eofInString) .eofInString
    | .colon members key =>
      fail (.member members key :: m.stack) .nothing .eofInObject .eofInObject
    | .afterMember members => breakOff m.stack (.object members.reverse .eof) .eofInObject
    | .text text _ => fail m.stack .quote (text.fault.getD .eofInString) .eofInString
    | .number n =>
      if n.isWhole then complete m.stack (.number n.numeral)
      else fail m.stack .digit .eofInValue .invalidNumber
    | .literal _ _ => fail m.stack .literal .eofInValue .eofInValue
    | .finished .. => m
  match ended.mode with
  | .finished root surplus => { root, surplus }
  | .afterItem items =>
    { root := unwind .eofInList ended.stack (.list items.reverse .eof), surplus := false }
  | .afterMember members =>
    { root := unwind .eofInObject ended.stack (.object members.reverse .eof), surplus := false }
  | _ => { root := .broken .nothing .eofInValue .eofInValue, surplus := false }

end Machine

/-- The document that the bytes of a text spell. -/
def scan (bytes : List UInt8) : Text :=
  (bytes.foldl Machine.step { stack := [], mode := .value }).finish

/-- The document that a text spells. -/
def scanText (text : String) : Text := scan (Utf8.encode text)

end InferenceFleet.Json
