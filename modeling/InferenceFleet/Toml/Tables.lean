import InferenceFleet.Settings.Value

/-!
# Tables under construction

A document defines its tables piece by piece. How a table came to be decides what may still be added
to it: a table is opened by one header only, and a dotted key adds to tables that dotted keys made.
`none` stands for a definition that is not allowed.
-/

namespace InferenceFleet.Toml

open Settings (Value)

/-- How a table came to be. -/
inductive Origin where
  /-- It has a header of its own. -/
  | opened
  /-- Headers of tables inside it led through it. -/
  | passed
  /-- Dotted keys led through it. -/
  | dotted
  deriving DecidableEq

inductive Node where
  | value (v : Value)
  | table (origin : Origin) (members : List (String × Node))
  /-- An array of tables, which headers in double brackets extend. -/
  | tables (elements : List (List (String × Node)))
  deriving Inhabited

abbrev Members := List (String × Node)

namespace Members

/-- The members with `n` under `key`. -/
def set (key : String) (n : Node) : Members → Members
  | [] => [(key, n)]
  | m :: ms => if m.1 = key then (key, n) :: ms else m :: set key n ms

/-- The elements with the last one changed. -/
def changeLast (f : Members → Option Members) : List Members → Option (List Members)
  | [] => none
  | [ms] => (f ms).map ([·])
  | ms :: rest => (changeLast f rest).map (ms :: ·)

/-- Adds a value under a key, which may be dotted. -/
def define (v : Value) : List String → Members → Option Members
  | [], _ => none
  | [key], ms =>
    match ms.lookup key with
    | none => some (ms.set key (.value v))
    | some _ => none
  | key :: next :: rest, ms =>
    match ms.lookup key with
    | none => (define v (next :: rest) []).map fun inner => ms.set key (.table .dotted inner)
    | some (.table origin inner) =>
      if origin = .opened ∨ (rest = [] ∧ origin ≠ .dotted) then none
      else (define v (next :: rest) inner).map fun inner => ms.set key (.table origin inner)
    | some (.tables elements) =>
      if rest = [] then none
      else (changeLast (define v (next :: rest)) elements).map fun es => ms.set key (.tables es)
    | some (.value _) => none

/-- Changes the table to which the names of a header lead; those that are missing are passed
through. -/
def descend (f : Members → Option Members) : List String → Members → Option Members
  | [], ms => f ms
  | key :: rest, ms =>
    match ms.lookup key with
    | none => (descend f rest []).map fun inner => ms.set key (.table .passed inner)
    | some (.table origin inner) =>
      (descend f rest inner).map fun inner => ms.set key (.table origin inner)
    | some (.tables elements) =>
      (changeLast (descend f rest) elements).map fun es => ms.set key (.tables es)
    | some (.value _) => none

/-- Opens the table `key`. -/
def openTable (key : String) (ms : Members) : Option Members :=
  match ms.lookup key with
  | none => some (ms.set key (.table .opened []))
  | some (.table .passed inner) => some (ms.set key (.table .opened inner))
  | some _ => none

/-- Adds a table to the array `key`. -/
def openElement (key : String) (ms : Members) : Option Members :=
  match ms.lookup key with
  | none => some (ms.set key (.tables [[]]))
  | some (.tables elements) => some (ms.set key (.tables (elements ++ [[]])))
  | some _ => none

end Members

mutual

/-- The value of what was built. -/
def Node.toValue : Node → Value
  | .value v => v
  | .table _ ms => .table (memberValues ms)
  | .tables es => .list (elementValues es)
termination_by structural n => n

def memberValues : List (String × Node) → List (String × Value)
  | [] => []
  | m :: ms => memberValue m :: memberValues ms
termination_by structural ms => ms

def memberValue : String × Node → String × Value
  | (key, n) => (key, n.toValue)
termination_by structural m => m

def elementValues : List (List (String × Node)) → List Value
  | [] => []
  | ms :: es => .table (memberValues ms) :: elementValues es
termination_by structural es => es

end

end InferenceFleet.Toml
