import InferenceFleet.Json.Doc
import InferenceFleet.Keyed

/-!
# Documents as values

A JSON value, once read, has no order among the members of an object and one member per key: the
last. `Doc.settled` brings a document into this form, with the members in the order of their keys.
-/

namespace InferenceFleet.Json.Doc

/-- The members in key order, the last of each key. -/
def settleMembers (members : List (String × Doc)) : Keyed Doc :=
  members.foldl (fun m e => m.insert e.1 e.2) .empty

mutual

def settled : Doc → Doc
  | .list items ending => .list (settledItems items) ending
  | .object members ending =>
    .object ((settleMembers (settledMembers members)).entries.map fun e => (.ok e.1, e.2)) ending
  | d => d
termination_by structural d => d

def settledItems : List Doc → List Doc
  | [] => []
  | d :: ds => settled d :: settledItems ds
termination_by structural ds => ds

def settledMembers : List (Except Fault String × Doc) → List (String × Doc)
  | [] => []
  | m :: ms => settledMember m ++ settledMembers ms
termination_by structural ms => ms

def settledMember : Except Fault String × Doc → List (String × Doc)
  | (.ok key, d) => [(key, settled d)]
  | (.error _, _) => []
termination_by structural m => m

end

end InferenceFleet.Json.Doc
