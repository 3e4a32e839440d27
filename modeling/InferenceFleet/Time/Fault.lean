/-!
# What can be wrong with a written time
-/

namespace InferenceFleet

inductive TimeFault where
  | invalidCharacters
  | outOfRange
  | prematureEnd
  | impossible
  | trailingInput
  deriving DecidableEq, Repr

def TimeFault.message : TimeFault → String
  | .invalidCharacters => "input contains invalid characters"
  | .outOfRange => "input is out of range"
  | .prematureEnd => "premature end of input"
  | .impossible => "no possible date and time matching input"
  | .trailingInput => "trailing input"

end InferenceFleet
