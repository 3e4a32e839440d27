import InferenceFleet.Decimal
import InferenceFleet.Settings.Value

/-!
# Paths to settings

A key at the top of a source may lead further down: names with points between them, and places of
lists in brackets. A key that is no path is a plain name.
-/

namespace InferenceFleet.Settings

inductive Step where
  | member (name : String)
  /-- The place of an item, counted from the end if it is negative. -/
  | item (place : Int)
  deriving DecidableEq

namespace Step

/-- The characters of a name in a path. -/
def isNameChar (c : Char) : Bool := c.isAlphanum || c == ' ' || c == '_' || c == '-'

/-- A place in brackets, after the opening one: digits, perhaps after a minus sign. -/
def place? (cs : List Char) : Option Int :=
  let value (ds : List Char) : Option Nat :=
    if ds.isEmpty then none else (ds.mapM Digit.ofChar?).map Digit.value
  match cs with
  | '-' :: ds => (value ds).map fun n => -(n : Int)
  | ds => (value ds).map fun n => (n : Int)

/-- A name at the beginning and what follows it. -/
def name? (cs : List Char) : Option (Step × List Char) :=
  let name := cs.takeWhile isNameChar
  if name.isEmpty then none else some (.member (String.ofList name), cs.dropWhile isNameChar)

/-- One further step and what follows it. -/
def next? (cs : List Char) : Option (Step × List Char) :=
  match cs with
  | '.' :: rest => name? rest
  | '[' :: rest =>
    match rest.dropWhile (· != ']') with
    | ']' :: after => (place? (rest.takeWhile (· != ']'))).map fun i => (.item i, after)
    | _ => none
  | _ => none

/-- The steps that follow one another to the end, at most so many. -/
def all? : Nat → List Char → Option (List Step)
  | _, [] => some []
  | 0, _ :: _ => none
  | limit + 1, cs =>
    match next? cs with
    | some (step, rest) => (all? limit rest).map (step :: ·)
    | none => none

end Step

/-- The steps that a key stands for. -/
def path (key : String) : List Step :=
  let cs := key.toList
  let steps := match Step.name? cs with
    | some (step, rest) => (Step.all? cs.length rest).map (step :: ·)
    | none => none
  steps.getD [.member key]

namespace Value

/-- The place of an item in a list of the length `n`. -/
def placeIn (n : Nat) (place : Int) : Nat := if 0 ≤ place then place.natAbs else n - place.natAbs

/-- Changes the item at a place; a list that is too short is filled up. -/
def alterItem (place : Nat) (f : Value → Value) (vs : List Value) : List Value :=
  let filled := vs ++ List.replicate (place + 1 - vs.length) .null
  filled.modify place f

/-- Puts a value at the end of some steps. On the way, what is no table or list becomes one. -/
def put (v : Value) : List Step → Option Value → Value
  | [], current => merge v current
  | .member name :: steps, current => (current.getD .null).withMember name (put v steps)
  | .item place :: steps, current =>
    let vs := (current.getD .null).items
    .list (alterItem (placeIn vs.length place)
      (fun old => if steps.isEmpty then v else put v steps (some old)) vs)

/-- Puts each member of a source at its path. -/
def putAll (source : List (String × Value)) (root : Value) : Value :=
  source.foldl (fun root m => put m.2 (path m.1) (some root)) root

end Value

end InferenceFleet.Settings
