import InferenceFleet.Binary.Decimal
import InferenceFleet.Settings.Path

/-!
# Environment variables

A variable named with the mark `FLEET` and two underscores sets something: two further underscores
stand for each point of the path. Its value is read as a truth value, an integer or a real number if
it can be, and else is a text.
-/

namespace InferenceFleet.Settings

/-- What the names of variables begin with, in lower case. -/
def variableMark : String := "fleet__"

/-- The characters with a point for every two underscores, from left to right. -/
def pointed : List Char → List Char
  | '_' :: '_' :: cs => '.' :: pointed cs
  | c :: cs => c :: pointed cs
  | [] => []

/-- The key that a variable sets. -/
def variableKey? (name : String) : Option String :=
  let cs := (foldKey name).toList
  if variableMark.toList.isPrefixOf cs then
    some (String.ofList (pointed (cs.drop variableMark.toList.length)))
  else none

/-- The integer that a text stands for, if it is one of 64 bits. -/
def word? (text : String) : Option Int :=
  (Decimal.integer? text.toList).filter fun n => -2 ^ 63 ≤ n ∧ n < 2 ^ 63

/-- The real number that a text stands for, in digits or by a name. -/
def real? (text : String) : Option Value :=
  let (negative, rest) := Decimal.sign text.toList
  let name := String.ofList (rest.map Char.toLower)
  if name == "nan" then some .notANumber
  else if name == "inf" || name == "infinity" then some (.real (.infinite negative))
  else (Decimal.magnitude? .double negative rest).map .real

/-- What the value of a variable stands for. -/
def Value.ofVariable (text : String) : Value :=
  let name := String.ofList (text.toList.map Char.toLower)
  if name == "true" then .flag true
  else if name == "false" then .flag false
  else
    match word? text with
    | some n => .integer n
    | none => (real? text).getD (.text text)

/-- The settings in an environment. -/
def ofEnvironment (environment : List (String × String)) : List (String × Value) :=
  environment.filterMap fun (name, text) =>
    (variableKey? name).map fun key => (key, .ofVariable text)

end InferenceFleet.Settings
