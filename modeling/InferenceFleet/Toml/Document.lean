import InferenceFleet.Toml.Scalar
import InferenceFleet.Toml.Tables

/-!
# TOML documents

A document is a sequence of lines: headers open tables, the other lines define what is in the table
that was opened last. `read?` gives the members of the whole, or `none` for a text that is no
document.
-/

namespace InferenceFleet.Toml

open Settings (Value)

def isBareChar (c : Char) : Bool := c.isAlphanum || c == '-' || c == '_'

/-- A name in quotes or bare. -/
def name? (cs : List Char) : Option (String × List Char) :=
  match cs with
  | '"' :: _ | '\'' :: _ => (shortText? cs).map fun (text, rest) => (String.ofList text, rest)
  | cs =>
    let bare := cs.takeWhile isBareChar
    if bare.isEmpty then none else some (String.ofList bare, cs.dropWhile isBareChar)

/-- A key of at most `limit` names with points between them, and what follows it and the spaces
after it. -/
def key? : (limit : Nat) → List Char → Option (List String × List Char)
  | 0, _ => none
  | limit + 1, cs => do
    let (name, rest) ← name? (skipSpaces cs)
    match skipSpaces rest with
    | '.' :: rest =>
      let (names, after) ← key? limit rest
      return (name :: names, after)
    | rest => return ([name], rest)

/-- A key has no more names than this. -/
def keyLimit : Nat := 79

/-- Lists and inline tables nest no deeper than this. -/
def depthLimit : Nat := 79

/-- What follows a comment, if there is one. -/
def skipComment? (cs : List Char) : Option (List Char) :=
  match cs with
  | '#' :: rest =>
    let after := rest.dropWhile isVisible
    if after.isEmpty ∨ (lineEnd? after).isSome then some after else none
  | cs => some cs

/-- What follows the blanks, comments and line ends inside a list. -/
def skipLines? : (limit : Nat) → List Char → Option (List Char)
  | 0, _ => none
  | limit + 1, cs =>
    match skipSpaces cs with
    | '#' :: rest => (skipComment? ('#' :: rest)).bind (skipLines? limit)
    | rest =>
      match lineEnd? rest with
      | some after => skipLines? limit after
      | none => some rest

/-- What follows the blanks, comments and line ends. -/
def skipBlankLines? (cs : List Char) : Option (List Char) := skipLines? (cs.length + 1) cs

mutual

/-- A value at the beginning, and what follows. `limit` bounds the steps, `depth` the nesting. -/
def value? (limit depth : Nat) (cs : List Char) : Option (Value × List Char) :=
  match limit with
  | 0 => none
  | limit + 1 =>
    match cs with
    | '"' :: _ | '\'' :: _ => (text? cs).map fun (text, rest) => (.text (String.ofList text), rest)
    | '[' :: rest => do
      if depth = 0 then none
      let (items, rest) ← items? limit (depth - 1) rest
      return (.list items, rest)
    | '{' :: rest => do
      if depth = 0 then none
      let rest := skipSpaces rest
      match rest with
      | '}' :: after => return (.table [], after)
      | rest =>
        let (members, after) ← pairs? limit (depth - 1) [] rest
        return (.table (memberValues members), after)
    | cs => scalar? cs

/-- The items of a list up to its closing bracket. -/
def items? (limit depth : Nat) (cs : List Char) : Option (List Value × List Char) :=
  match limit with
  | 0 => none
  | limit + 1 => do
    match ← skipBlankLines? cs with
    | ']' :: rest => return ([], rest)
    | cs =>
      let (v, rest) ← value? limit depth cs
      match ← skipBlankLines? rest with
      | ',' :: rest =>
        let (vs, after) ← items? limit depth rest
        return (v :: vs, after)
      | ']' :: rest => return ([v], rest)
      | _ => none

/-- The members of an inline table up to its closing brace, put to those found so far. -/
def pairs? (limit depth : Nat) (found : Members) (cs : List Char) : Option (Members × List Char) :=
  match limit with
  | 0 => none
  | limit + 1 => do
    let (key, rest) ← key? keyLimit cs
    let rest ← expect? '=' rest
    let (v, rest) ← value? limit depth (skipSpaces rest)
    let found ← found.define v key
    match skipSpaces rest with
    | ',' :: rest => pairs? limit depth found rest
    | '}' :: rest => return (found, rest)
    | _ => none

end

/-- A document as far as it is read: all members, and the way to the table that was opened last. -/
structure Draft where
  members : Members := []
  current : List String := []

/-- What the lines of a document do. -/
inductive Statement where
  | define (key : List String) (v : Value)
  | openTable (key : List String)
  | openElement (key : List String)

/-- The last name and those before it. -/
def splitLast? (key : List String) : Option (List String × String) :=
  key.getLast?.map fun last => (key.dropLast, last)

def Draft.apply (d : Draft) : Statement → Option Draft
  | .define key v => (d.members.descend (Members.define v key) d.current).map fun members =>
    { d with members }
  | .openTable key => do
    let (before, last) ← splitLast? key
    let members ← d.members.descend (Members.openTable last) before
    return { members, current := key }
  | .openElement key => do
    let (before, last) ← splitLast? key
    let members ← d.members.descend (Members.openElement last) before
    return { members, current := key }

/-- A statement at the beginning, and what follows. -/
def statement? (cs : List Char) : Option (Statement × List Char) :=
  match cs with
  | '[' :: '[' :: rest => do
    let (key, rest) ← key? keyLimit rest
    return (.openElement key, ← expect? ']' (← expect? ']' rest))
  | '[' :: rest => do
    let (key, rest) ← key? keyLimit rest
    return (.openTable key, ← expect? ']' rest)
  | cs => do
    let (key, rest) ← key? keyLimit cs
    let rest := skipSpaces (← expect? '=' rest)
    let (v, rest) ← value? (2 * rest.length + 2) depthLimit rest
    return (.define key v, rest)

/-- What follows the rest of a line, which holds nothing but a comment. -/
def endLine? (cs : List Char) : Option (List Char) := do
  let rest ← skipComment? (skipSpaces cs)
  if rest.isEmpty then some [] else lineEnd? rest

/-- Goes through at most so many lines. -/
def lines? (d : Draft) : (limit : Nat) → List Char → Option Draft
  | 0, cs => if cs.isEmpty then some d else none
  | limit + 1, cs =>
    match skipSpaces cs with
    | [] => some d
    | '#' :: rest => (endLine? ('#' :: rest)).bind (lines? d limit)
    | rest =>
      match lineEnd? rest with
      | some after => lines? d limit after
      | none => do
        let (s, after) ← statement? rest
        lines? (← d.apply s) limit (← endLine? after)

/-- The members of a document. A mark of the byte order in front does not count. -/
def read? (text : String) : Option (List (String × Value)) :=
  let cs := match text.toList with
    | '\uFEFF' :: cs => cs
    | cs => cs
  (lines? {} (cs.length + 1) cs).map fun d => memberValues d.members

end InferenceFleet.Toml
