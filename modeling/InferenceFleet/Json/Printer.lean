import InferenceFleet.Json.Doc

/-!
# Writing JSON

Documents are written without blanks. In a string a quote, a backslash and the characters below
U+0020 are escaped, the common ones by a letter, the others by four hex digits.
-/

namespace InferenceFleet.Json

def hexDigit (n : Nat) : Char := if n < 10 then Char.ofNat (48 + n) else Char.ofNat (87 + n)

def escapeChar (c : Char) : List Char :=
  if c = '"' then ['\\', '"']
  else if c = '\\' then ['\\', '\\']
  else if c = '\n' then ['\\', 'n']
  else if c = '\r' then ['\\', 'r']
  else if c = '\t' then ['\\', 't']
  else if c = '\x08' then ['\\', 'b']
  else if c = '\x0c' then ['\\', 'f']
  else if c.toNat < 0x20 then
    ['\\', 'u', '0', '0', hexDigit (c.toNat / 16), hexDigit (c.toNat % 16)]
  else [c]

/-- A text in quotes. -/
def quote (text : String) : String :=
  "\"" ++ String.ofList (text.toList.flatMap escapeChar) ++ "\""

namespace Doc

def printText : Except Fault String → String
  | .ok s => quote s
  | .error _ => "null"

mutual

/-- `before` and then the text of a whole document; a broken place is written as `null`. -/
def printOnto (before : String) : Doc → String
  | .null => before ++ "null"
  | .flag b => before ++ if b then "true" else "false"
  | .number n => before ++ n.print
  | .text s => before ++ printText s
  | .list items _ => printItems (before ++ "[") items ++ "]"
  | .object members _ => printMembers (before ++ "\x7b") members ++ "\x7d"
  | .keyless _ => before ++ "null"
  | .broken .. => before ++ "null"
termination_by structural d => d

def printItems (before : String) : List Doc → String
  | [] => before
  | d :: ds =>
    let done := printOnto before d
    printItems (if ds.isEmpty then done else done ++ ",") ds
termination_by structural ds => ds

def printMembers (before : String) : List (Except Fault String × Doc) → String
  | [] => before
  | m :: ms =>
    let done := printMember before m
    printMembers (if ms.isEmpty then done else done ++ ",") ms
termination_by structural ms => ms

def printMember (before : String) : Except Fault String × Doc → String
  | (key, d) => printOnto (before ++ printText key ++ ":") d
termination_by structural m => m

end

def print (d : Doc) : String := printOnto "" d

end Doc

end InferenceFleet.Json
