import InferenceFleet.Json.Numeral
import InferenceFleet.Text.Printable
import InferenceFleet.Time.Fault

/-!
# What can be wrong with a JSON text

`Fault` has one case for each cause, in the syntax of the text or in the value it holds, and
`Fault.message` is its wording.
-/

namespace InferenceFleet.Json

/-- The kind of value that stands where another was wanted. -/
inductive Found where
  | null
  | flag (b : Bool)
  | integer (n : Int)
  | real (x : Double)
  | text (s : String)
  | sequence
  | map
  deriving DecidableEq, Repr

inductive Fault where
  | eofInValue
  | eofInString
  | eofInList
  | eofInObject
  | valueExpected
  | identExpected
  | colonExpected
  | commaOrBracketExpected
  | commaOrBraceExpected
  | keyNotString
  | trailingComma
  | trailingCharacters
  | invalidNumber
  | numberOutOfRange
  | invalidEscape
  | invalidCodePoint
  | loneSurrogate
  | hexEscapeEnds
  | controlCharacter
  | tooDeep
  /-- A value of another kind than the one wanted. -/
  | wrongType (found : Found) (wanted : String)
  /-- An integer outside the range of its field. -/
  | wrongValue (found : Found) (wanted : String)
  /-- A list that ends before all elements of a record are read. -/
  | tooShort (length : Nat) (record : String) (size : Nat)
  /-- A list with elements left over. -/
  | tooLong (length : Nat)
  | missingField (name : String)
  | duplicateField (name : String)
  | unknownVariant (name : String) (known : List String)
  /-- A value of none of the forms that a field accepts. -/
  | noVariant (union : String)
  | badTime (fault : TimeFault)
  deriving DecidableEq, Repr

/-- A number as messages show it. -/
def showDouble (x : Double) : String :=
  match Numeral.ofBinary? .double x with
  | some n => n.print
  | none => if x.isNegative then "-inf" else "inf"

/-- A character inside quotation marks, with an escape if it would not show. -/
def charForMessage (c : Char) : String :=
  match c with
  | '\x00' => "\\0"
  | '\t' => "\\t"
  | '\n' => "\\n"
  | '\r' => "\\r"
  | '"' => "\\\""
  | '\\' => "\\\\"
  | c =>
    if isPrintable c then c.toString
    else "\\u\x7b" ++ String.ofList (Nat.toDigits 16 c.toNat) ++ "\x7d"

/-- A text in quotation marks, with escapes for what would not show. -/
def quotedForMessage (s : String) : String :=
  "\"" ++ String.join (s.toList.map charForMessage) ++ "\""

def Found.message : Found → String
  | .null => "null"
  | .flag b => "boolean `" ++ (if b then "true" else "false") ++ "`"
  | .integer n => "integer `" ++ signedDecimal n ++ "`"
  | .real x => "floating point `" ++ showDouble x ++ "`"
  | .text s => "string " ++ quotedForMessage s
  | .sequence => "sequence"
  | .map => "map"

/-- Names in backticks: two are joined by "or", more are listed after "one of". -/
def listNames : List String → String
  | [] => "there are no variants"
  | [a] => "`" ++ a ++ "`"
  | [a, b] => "`" ++ a ++ "` or `" ++ b ++ "`"
  | names => "one of " ++ ", ".intercalate (names.map fun n => "`" ++ n ++ "`")

def Fault.message : Fault → String
  | .eofInValue => "EOF while parsing a value"
  | .eofInString => "EOF while parsing a string"
  | .eofInList => "EOF while parsing a list"
  | .eofInObject => "EOF while parsing an object"
  | .valueExpected => "expected value"
  | .identExpected => "expected ident"
  | .colonExpected => "expected `:`"
  | .commaOrBracketExpected => "expected `,` or `]`"
  | .commaOrBraceExpected => "expected `,` or `\x7d`"
  | .keyNotString => "key must be a string"
  | .trailingComma => "trailing comma"
  | .trailingCharacters => "trailing characters"
  | .invalidNumber => "invalid number"
  | .numberOutOfRange => "number out of range"
  | .invalidEscape => "invalid escape"
  | .invalidCodePoint => "invalid unicode code point"
  | .loneSurrogate => "lone leading surrogate in hex escape"
  | .hexEscapeEnds => "unexpected end of hex escape"
  | .controlCharacter => "control character (\\u0000-\\u001F) found while parsing a string"
  | .tooDeep => "recursion limit exceeded"
  | .wrongType found wanted => "invalid type: " ++ found.message ++ ", expected " ++ wanted
  | .wrongValue found wanted => "invalid value: " ++ found.message ++ ", expected " ++ wanted
  | .tooShort length record size =>
    "invalid length " ++ decimal length ++ ", expected struct " ++ record ++ " with " ++
      decimal size ++ (if size = 1 then " element" else " elements")
  | .tooLong length =>
    "invalid length " ++ decimal length ++ ", expected fewer elements in array"
  | .missingField name => "missing field `" ++ name ++ "`"
  | .duplicateField name => "duplicate field `" ++ name ++ "`"
  | .unknownVariant name known =>
    "unknown variant `" ++ name ++ "`, expected " ++ listNames known
  | .noVariant union => "data did not match any variant of untagged enum " ++ union
  | .badTime fault => fault.message

end InferenceFleet.Json
