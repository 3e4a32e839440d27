import InferenceFleet.Binary.Basic

/-!
# Values of settings

A setting as a file or a variable gives it, before anything is known of its meaning, and the tree
that the settings of all sources form. Keys are the same in upper and lower case. What comes later
goes over what was there: a table member by member, anything else as a whole.
-/

namespace InferenceFleet.Settings

inductive Value where
  | null
  | flag (b : Bool)
  | integer (n : Int)
  | real (x : Double)
  | notANumber
  | text (s : String)
  | list (items : List Value)
  | table (members : List (String × Value))
  deriving Inhabited

/-- The lower-case form of a character of a key. The only letter beyond ASCII whose lower-case form
is in ASCII is the Kelvin sign. -/
def lowerChar (c : Char) : Char := if c = '\u212A' then 'k' else c.toLower

/-- The form in which keys are compared. -/
def foldKey (key : String) : String := String.ofList (key.toList.map lowerChar)

namespace Value

/-- The members of a table; anything else has none. -/
def members : Value → List (String × Value)
  | .table ms => ms
  | _ => []

/-- The items of a list; anything else has none. -/
def items : Value → List Value
  | .list vs => vs
  | _ => []

/-- Replaces or adds the member `key`, given what was there. -/
def alter (key : String) (f : Option Value → Value) : List (String × Value) → List (String × Value)
  | [] => [(key, f none)]
  | m :: ms => if m.1 = key then (key, f (some m.2)) :: ms else m :: alter key f ms

/-- The value with a member changed; what is no table becomes one. -/
def withMember (v : Value) (key : String) (f : Option Value → Value) : Value :=
  .table (alter (foldKey key) f v.members)

mutual

/-- What `incoming` leaves of the value that was there. -/
def merge (incoming : Value) (current : Option Value) : Value :=
  match incoming with
  | .table ms => mergeMembers ms (current.getD (.table []))
  | v => v
termination_by structural incoming

def mergeMembers (incoming : List (String × Value)) (current : Value) : Value :=
  match incoming with
  | [] => current
  | m :: ms => mergeMembers ms (mergeMember m current)
termination_by structural incoming

def mergeMember (incoming : String × Value) (current : Value) : Value :=
  match incoming with
  | (key, v) => current.withMember key fun old => merge v old
termination_by structural incoming

end

end Value

end InferenceFleet.Settings
