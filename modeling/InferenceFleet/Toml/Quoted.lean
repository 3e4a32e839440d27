import InferenceFleet.Decimal

/-!
# Quoted texts

The four ways to quote a text: with escapes or without, on one line or over several. Readers take
the characters after the opening quotes and give the text with what follows the closing ones;
`none` refuses.
-/

namespace InferenceFleet.Toml

/-- The characters that may stand in comments and quotes: no controls but the tab. -/
def isVisible (c : Char) : Bool := c == '\t' || (' ' ≤ c && c != '\x7f')

def isSpace (c : Char) : Bool := c == ' ' || c == '\t'

def skipSpaces (cs : List Char) : List Char := cs.dropWhile isSpace

/-- The end of a line at the beginning, and what follows it. -/
def lineEnd? : List Char → Option (List Char)
  | '\n' :: rest => some rest
  | '\r' :: '\n' :: rest => some rest
  | _ => none

def hexDigit? (c : Char) : Option Nat :=
  if '0' ≤ c ∧ c ≤ '9' then some (c.toNat - 48)
  else if 'a' ≤ c ∧ c ≤ 'f' then some (c.toNat - 87)
  else if 'A' ≤ c ∧ c ≤ 'F' then some (c.toNat - 55)
  else none

/-- The character with the code point that `count` hexadecimal digits write. -/
def codePoint? : (count : Nat) → (value : Nat) → List Char → Option (Char × List Char)
  | 0, value, cs =>
    if h : value.isValidChar then some (Char.ofNatAux value h, cs) else none
  | count + 1, value, c :: cs =>
    match hexDigit? c with
    | some d => codePoint? count (value * 16 + d) cs
    | none => none
  | _ + 1, _, [] => none

/-- What a backslash and the characters after it stand for. -/
def escape? : List Char → Option (Char × List Char)
  | 'b' :: cs => some ('\x08', cs)
  | 't' :: cs => some ('\t', cs)
  | 'n' :: cs => some ('\n', cs)
  | 'f' :: cs => some ('\x0c', cs)
  | 'r' :: cs => some ('\r', cs)
  | '"' :: cs => some ('"', cs)
  | '\\' :: cs => some ('\\', cs)
  | 'u' :: cs => codePoint? 4 0 cs
  | 'U' :: cs => codePoint? 8 0 cs
  | _ => none

/-- A text between double quotes. `limit` bounds the number of characters. -/
def basic? : (limit : Nat) → List Char → Option (List Char × List Char)
  | 0, _ => none
  | _ + 1, [] => none
  | _ + 1, '"' :: cs => some ([], cs)
  | limit + 1, '\\' :: cs => do
    let (c, rest) ← escape? cs
    let (text, after) ← basic? limit rest
    return (c :: text, after)
  | limit + 1, c :: cs => do
    if !isVisible c then none
    let (text, after) ← basic? limit cs
    return (c :: text, after)

/-- A text between single quotes, which has no escapes. -/
def literal? : List Char → Option (List Char × List Char)
  | [] => none
  | c :: cs =>
    if c = '\'' then some ([], cs)
    else if isVisible c then (literal? cs).map fun (text, after) => (c :: text, after)
    else none

/-- Whether three quotes stand at the beginning, which end a text over several lines. -/
def closes (quote : Char) (cs : List Char) : Bool := [quote, quote, quote].isPrefixOf cs

/-- The end of a text over several lines: of three to five quotes the last three close it and those
before belong to it. -/
def closing? (quote : Char) (cs : List Char) : Option (List Char × List Char) :=
  let quotes := cs.takeWhile (· == quote)
  if quotes.length ≤ 5 then some (quotes.drop 3, cs.drop quotes.length) else none

/-- What follows a backslash at the end of a line, the blanks and line ends after it being passed
over. -/
def continuation? (cs : List Char) : Option (List Char) :=
  (lineEnd? (skipSpaces cs)).map fun rest =>
    rest.dropWhile fun c => isSpace c || c == '\n' || c == '\r'

/-- A text between three double quotes. -/
def longBasic? : (limit : Nat) → List Char → Option (List Char × List Char)
  | 0, _ => none
  | limit + 1, cs =>
    if closes '"' cs then closing? '"' cs
    else do
      let (c, rest) ←
        match cs with
        | '\\' :: rest =>
          match continuation? rest with
          | some after => some (none, after)
          | none => (escape? rest).map fun (c, after) => (some c, after)
        | cs =>
          match lineEnd? cs, cs with
          | some after, _ => some (some '\n', after)
          | none, c :: after => if isVisible c then some (some c, after) else none
          | none, [] => none
      let (text, after) ← longBasic? limit rest
      return (c.toList ++ text, after)

/-- A text between three single quotes. -/
def longLiteral? : (limit : Nat) → List Char → Option (List Char × List Char)
  | 0, _ => none
  | limit + 1, cs =>
    if closes '\'' cs then closing? '\'' cs
    else do
      let (c, rest) ←
        match lineEnd? cs, cs with
        | some after, _ => some ('\n', after)
        | none, c :: after => if isVisible c then some (c, after) else none
        | none, [] => none
      let (text, after) ← longLiteral? limit rest
      return (c :: text, after)

/-- The first line end after the opening quotes of a long text does not belong to it. -/
def skipLineEnd (cs : List Char) : List Char := (lineEnd? cs).getD cs

/-- A text in double or single quotes on one line. -/
def shortText? : List Char → Option (List Char × List Char)
  | '"' :: cs => basic? (cs.length + 1) cs
  | '\'' :: cs => literal? cs
  | _ => none

/-- A text in quotes of any kind. -/
def text? (cs : List Char) : Option (List Char × List Char) :=
  match cs with
  | '"' :: '"' :: '"' :: rest => longBasic? (rest.length + 1) (skipLineEnd rest)
  | '\'' :: '\'' :: '\'' :: rest => longLiteral? (rest.length + 1) (skipLineEnd rest)
  | cs => shortText? cs

end InferenceFleet.Toml
